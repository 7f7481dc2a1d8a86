import MeOS.KernelSpace
import MeOS.Lib.Ownership

/-! # The frames of processes

Processes run: the kernel makes spaces, switches between them, allocates and frees
their pages, and the running process writes words to pages of its own. Every frame
behind such a page then has one entry that names it, and is no table. So a write
is seen through the tables that lead to the entry, and nowhere else.
-/

namespace MeOS

open Runs Ownership WordFields

/-- What happens while processes run: a call of the kernel, or a word that the running process
writes. -/
inductive ProcessEvent where
  | call (call : PagingCall)
  | write (v x : BitVec 32)
deriving Repr, DecidableEq

/-- A call about pages of processes: what is allocated is memory and no device, and what is freed
is present. `vmmngr_map_page` is left to the kernel. -/
def PagingCall.Plain (n : Nat) (c : SpaceRun) : PagingCall → Prop
  | .processSpace => True
  | .switchDirectory dir => dir ∈ c.spaces
  | .mapPage _ _ _ _ => False
  | .allocPage base flags => ¬ KernelPage n base ∧ base < 0xF0000000#32 ∧ flags < 0x1000#32 ∧
      flags &&& i86PtePresent = i86PtePresent
  | .freePage addr => ¬ KernelPage n addr ∧ vmmngrIsPagePresent c.vm addr = true

/-- One event; an aligned word is written where the processor finds its address. -/
inductive ProcessStep (n : Nat) (c : SpaceRun) : ProcessEvent → SpaceRun → Prop where
  | call {call : PagingCall} {c' : SpaceRun} (hplain : call.Plain n c)
      (hexec : call.exec c = .ret c') : ProcessStep n c (.call call) c'
  | write {v x a : BitVec 32} (hv : ¬ KernelPage n v) (halign : v.toNat % 4 = 0)
      (ha : translate c.vm c.cr3 v = some a) :
      ProcessStep n c (.write v x) { c with vm := c.vm.store a.toNat x }

/-- The aligned word that the space `d` has at `v`. -/
def readWord (s : VmState) (d v : BitVec 32) : Option (BitVec 32) :=
  if v.toNat % 4 = 0 then (translate s d v).map fun a => s.memory a.toNat else none

/-- The entry at `slot` gives the frame `f` to a page that is none of the kernel's. -/
def SlotHolds (n : Nat) (c : SpaceRun) (slot : Nat) (f : BitVec 32) : Prop :=
  ∃ d ∈ c.spaces, ∃ v a, ¬ KernelPage n v ∧ translate c.vm d v = some a ∧
    pageSlot (dirEntry c.vm d v) v = slot ∧ a &&& i86PteFrame = f

/-- The frames of the processes have one entry each, and are no tables. -/
structure FramesApart (n : Nat) (c : SpaceRun) : Prop where
  ok : c.Ok
  owned : Owned (SlotHolds n c) (frameUsed c.vm)
  data : ∀ slot f, SlotHolds n c slot f → FreeableFrame c.spaces c.vm f

section Frames

variable {n : Nat} {c c' c₀ : SpaceRun} {s s' : VmState} {call : PagingCall}
variable {d d' v w m a a' f x base virt : BitVec 32} {D : List (BitVec 32)}

/-! ## Reading the tables -/

theorem translate_eq_some (h : translate s d v = some a) :
    pdEntryIsPresent (dirEntry s d v) = true ∧ ptEntryIsPresent (pageEntry s d v) = true ∧
      a = ptEntryGetFrame (pageEntry s d v) + (v &&& 0xfff#32) := by
  unfold translate at h
  by_cases hboth : pdEntryIsPresent (dirEntry s d v) = true ∧
      ptEntryIsPresent (pageEntry s d v) = true
  · rw [if_pos hboth] at h
    exact ⟨hboth.1, hboth.2, (Option.some.inj h).symm⟩
  · rw [if_neg hboth] at h
    cases h

/-- The frame of an address behind the tables. -/
theorem frame_offset (hf : f &&& i86PteFrame = f) :
    (f + (v &&& 0xfff#32)) &&& i86PteFrame = f := by
  rw [frame_add_offset hf, get_or offset_frame, hf]

theorem toNat_split (a : BitVec 32) : a.toNat = (a &&& i86PteFrame).toNat + a.toNat % 4096 ∧
    (a &&& i86PteFrame).toNat % 4096 = 0 := by
  have hsplit := congrArg BitVec.toNat (frame_split a)
  have hmod := frame_toNat_mod (frame_frame (x := a))
  have hoff := offset_toNat (v := a)
  have hlt := (a &&& i86PteFrame).isLt
  rw [BitVec.toNat_add] at hsplit
  omega

/-- Being in use is a matter of the frame. -/
theorem frameUsed_frame : frameUsed s (f &&& i86PteFrame) ↔ frameUsed s f := by
  obtain ⟨hsplit, hmod⟩ := toNat_split f
  have hblock : (f &&& i86PteFrame).toNat / pmmngrBlockSize = f.toNat / pmmngrBlockSize := by
    simp only [pmmngrBlockSize]
    omega
  unfold frameUsed
  rw [hblock]

/-- An entry in another frame than the address. -/
theorem slot_ne {j : Nat} (hf : f &&& i86PteFrame = f) (hj : j < 1024)
    (hne : f ≠ a &&& i86PteFrame) : f.toNat + 4 * j ≠ a.toNat := by
  intro heq
  obtain ⟨hsplit, hmod⟩ := toNat_split a
  have hfm := frame_toNat_mod hf
  exact hne (BitVec.eq_of_toNat_eq (by omega))

theorem translate_offset (h : translate s d v = some a) : a.toNat % 4096 = v.toNat % 4096 := by
  obtain ⟨-, -, rfl⟩ := translate_eq_some h
  have hmod := frame_toNat_mod (ptEntryGetFrame_frame (x := pageEntry s d v))
  rw [BitVec.toNat_add, offset_toNat]
  omega

/-- Addresses of one page are in one frame. -/
theorem translate_samePage (h : translate s d v = some a) (hpage : w >>> 12 = v >>> 12) :
    translate s d w = some ((a &&& i86PteFrame) + (w &&& 0xfff#32)) := by
  obtain ⟨hp, hpres, rfl⟩ := translate_eq_some h
  obtain ⟨hdir, hentry⟩ := pageEntry_of_page (s := s) (d := d) hpage
  rw [frame_offset ptEntryGetFrame_frame,
    translate_of_present (by rwa [hdir]) (by rwa [hentry]), hentry]

theorem SameTable.swap (h : SameTable s d d' w) (hidx : pageDirIndex v = pageDirIndex w) :
    SameTable s d' d v := by
  obtain ⟨hp, hp', hframe⟩ := h
  unfold SameTable
  rw [dirEntry_of_index hidx, dirEntry_of_index (d := d) hidx]
  exact ⟨hp', hp, hframe.symm⟩

/-- One slot belongs to one page and one table. -/
theorem SpacesOk.touches_of_slot (h : SpacesOk D s) (hd : d ∈ D) (hd' : d' ∈ D)
    (hp : pdEntryIsPresent (dirEntry s d v) = true)
    (hp' : pdEntryIsPresent (dirEntry s d' w) = true)
    (hslot : pageSlot (dirEntry s d v) v = pageSlot (dirEntry s d' w) w) :
    Touches s d' w d v := by
  obtain ⟨hframe, htable⟩ :
      pdEntryGetFrame (dirEntry s d v) = pdEntryGetFrame (dirEntry s d' w) ∧
        pageTableIndex v = pageTableIndex w :=
    slot_inj frame_frame frame_frame pageTableIndex_lt pageTableIndex_lt hslot
  obtain ⟨hidx, -⟩ := h.apart d hd d' hd' v w hp hp' hframe
  have hsame := dirEntry_of_index (s := s) (d := d) hidx
  rw [hsame] at hp hframe
  exact ⟨samePage_iff.mpr ⟨hidx, htable⟩, Or.inr ⟨hp', hp, hframe.symm⟩⟩

/-- The page that a call names has one slot in the spaces that the call reaches. -/
theorem Touches.slot (h : Touches s m virt d v) :
    pageSlot (dirEntry s d v) v = pageSlot (dirEntry s m virt) virt := by
  obtain ⟨hpage, hshare⟩ := h
  obtain ⟨hidx, htable⟩ := samePage_iff.mp hpage
  unfold pageSlot
  rw [dirEntry_of_index hidx, htable]
  rcases hshare with rfl | ⟨-, -, hframe⟩
  · rfl
  · rw [hframe]

/-- Where there is a page, the spaces that a call reaches see it alike. -/
theorem Touches.translate_eq (h : Touches s m virt d v) :
    translate s d v = translate s m v := by
  obtain ⟨hpage, rfl | hsame⟩ := h
  · rfl
  · exact (hsame.translate_eq (samePage_iff.mp hpage).1).symm

theorem Touches.kept {T : BitVec 32 → BitVec 32 → Prop} (h : Touches s m virt d v)
    (hkept : SpaceKept D T s s') (hm : m ∈ D) (hd : d ∈ D) : Touches s' m virt d v :=
  ⟨h.1, h.2.imp id fun hsame => hkept.sameTable hm hd hsame⟩

/-- The processor's page is present for the kernel too, and in the frame that it would free. -/
theorem SpaceRun.Ok.present_iff (hok : c.Ok) :
    vmmngrIsPagePresent c.vm v = true ↔ ∃ a, translate c.vm c.vm.currentDirectory v = some a := by
  have hapart := hok.spaces.tablesApart hok.current
  rw [isPagePresent_eq hapart.dir]
  constructor
  · rintro ⟨hp, -, hpage⟩
    exact ⟨_, translate_of_present hp hpage⟩
  · rintro ⟨a, ha⟩
    obtain ⟨hp, hpage, -⟩ := translate_eq_some ha
    exact ⟨hp, hapart.nonzero _ pageDirIndex_lt hp, hpage⟩

theorem SpaceRun.Ok.pageFrame_eq (hok : c.Ok)
    (ha : translate c.vm c.vm.currentDirectory v = some a) :
    pageFrame c.vm v = a &&& i86PteFrame := by
  obtain ⟨hp, -, rfl⟩ := translate_eq_some ha
  rw [MeOS.pageFrame_eq (hok.spaces.tablesApart hok.current) hp,
    frame_offset ptEntryGetFrame_frame]
  rfl

/-! ## What is handed on -/

/-- The page of `v` in `d` was there before, in a space that may be another one. -/
def Inherited (c c' : SpaceRun) (d v : BitVec 32) : Prop :=
  ∃ d₀ ∈ c.spaces, dirEntry c'.vm d v = dirEntry c.vm d₀ v ∧
    translate c'.vm d v = translate c.vm d₀ v

/-- Directories and tables are old ones, or in frames that were free. -/
structure TablesFresh (c c' : SpaceRun) : Prop where
  dir : ∀ d ∈ c'.spaces, d ∈ c.spaces ∨ ¬ frameUsed c.vm d
  table : ∀ d ∈ c'.spaces, ∀ v, pdEntryIsPresent (dirEntry c'.vm d v) = true →
    (∃ d₀ ∈ c.spaces, dirEntry c'.vm d v = dirEntry c.vm d₀ v) ∨
      ¬ frameUsed c.vm (pdEntryGetFrame (dirEntry c'.vm d v))

theorem Inherited.holds (h : Inherited c c' d v) (hv : ¬ KernelPage n v)
    (ha : translate c'.vm d v = some a) :
    SlotHolds n c (pageSlot (dirEntry c'.vm d v) v) (a &&& i86PteFrame) := by
  obtain ⟨d₀, hd₀, hentry, htrans⟩ := h
  exact ⟨d₀, hd₀, v, a, hv, htrans.symm.trans ha, by rw [hentry], rfl⟩

/-- A frame in use that was no table is none now. -/
theorem TablesFresh.freeable (h : TablesFresh c c') (hf : FreeableFrame c.spaces c.vm f)
    (hused : frameUsed c.vm f) : FreeableFrame c'.spaces c'.vm f := by
  refine ⟨fun hin => ?_, fun d hd v hp heq => ?_⟩
  · rcases h.dir f hin with hold | hfresh
    · exact hf.1 hold
    · exact hfresh hused
  · rcases h.table d hd v hp with ⟨d₀, hd₀, hsame⟩ | hfresh
    · rw [hsame] at hp heq
      exact hf.2 d₀ hd₀ v hp heq
    · rw [heq] at hfresh
      exact hfresh hused

/-- A step after which every page is an old one. -/
theorem FramesApart.inherit (h : FramesApart n c) (hok : c'.Ok) (hfresh : TablesFresh c c')
    (hpages : ∀ slot f, SlotHolds n c' slot f → SlotHolds n c slot f ∧ frameUsed c'.vm f) :
    FramesApart n c' where
  ok := hok
  owned := h.owned.restrict hpages
  data slot f hf := by
    have hold := (hpages slot f hf).1
    exact hfresh.freeable (h.data slot f hold) (h.owned.used slot f hold)

/-! ## What a call hands on -/

/-- A page that the call does not reach. -/
theorem StepKeeps.inherited (hs : StepKeeps c call c') (hok : c.Ok) (hd : d ∈ c'.spaces)
    (hno : d ∈ c.spaces → ¬ call.Reaches c d v) (ha : translate c'.vm d v = some a) :
    Inherited c c' d v := by
  rcases hs.copied d hd with hold | ⟨-, hcopy⟩
  · have htrans := hs.kept.page d hold v (hno hold)
    have hp := (translate_eq_some (htrans.symm.trans ha)).1
    exact ⟨d, hold, hs.kept.entry d hold v hp, htrans⟩
  · exact ⟨c.kernelDirectory, hok.kernel, hcopy v⟩

theorem StepKeeps.tablesFresh (hs : StepKeeps c call c') (hok : c.Ok) : TablesFresh c c' where
  dir d hd := (hs.copied d hd).imp id fun hcopy => hcopy.1
  table d hd v hp := by
    rcases hs.copied d hd with hold | ⟨-, hcopy⟩
    · exact (hs.tables d hold v hp).imp (fun hsame => ⟨d, hold, hsame⟩) id
    · exact Or.inl ⟨c.kernelDirectory, hok.kernel, (hcopy v).1⟩

/-- What a call does not reach is held as before, and in use unless it is given back. -/
theorem FramesApart.untouched (h : FramesApart n c) (hs : StepKeeps c call c') (hd : d ∈ c'.spaces)
    (hno : d ∈ c.spaces → ¬ call.Reaches c d v) (hv : ¬ KernelPage n v)
    (ha : translate c'.vm d v = some a) :
    SlotHolds n c (pageSlot (dirEntry c'.vm d v) v) (a &&& i86PteFrame) ∧
      (¬ call.Frees c (a &&& i86PteFrame) → frameUsed c'.vm (a &&& i86PteFrame)) := by
  have hheld := (hs.inherited h.ok hd hno ha).holds hv ha
  exact ⟨hheld, fun hfree => hs.used _ frame_frame hfree (h.owned.used _ _ hheld)⟩

/-- A call that names no page. -/
theorem FramesApart.quiet (h : FramesApart n c) (hs : StepKeeps c call c')
    (hpage : call.page c = none) (hfrees : ∀ g, ¬ call.Frees c g) : FramesApart n c' := by
  refine h.inherit hs.ok (hs.tablesFresh h.ok) ?_
  rintro slot f ⟨d, hd, v, a, hv, ha, rfl, rfl⟩
  have hno : d ∈ c.spaces → ¬ call.Reaches c d v := by
    rintro - ⟨m, virt, hnamed, -⟩
    rw [hpage] at hnamed
    cases hnamed
  obtain ⟨hheld, hused⟩ := h.untouched hs hd hno hv ha
  exact ⟨hheld, hused (hfrees _)⟩

/-- The frame of a present page is no table, so the call is one of those considered before. -/
theorem FramesApart.made (h : FramesApart n c) (hplain : call.Plain n c) : call.Made c := by
  cases call with
  | processSpace => trivial
  | switchDirectory dir => exact hplain
  | mapPage dir phys virt flags => exact hplain.elim
  | allocPage base flags => exact ⟨hplain.2.2.1, hplain.2.2.2⟩
  | freePage addr =>
    obtain ⟨hv, hp⟩ := hplain
    obtain ⟨a, ha⟩ := h.ok.present_iff.mp hp
    refine ⟨(translate_eq_some ha).1, ?_⟩
    rw [h.ok.pageFrame_eq ha]
    exact h.data _ _ ⟨_, h.ok.current, addr, a, hv, ha, rfl, rfl⟩

/-! ## Freeing -/

/-- The page is absent, and no other entry had its frame. -/
theorem FramesApart.freed {addr : BitVec 32} (h : FramesApart n c)
    (hplain : (PagingCall.freePage addr).Plain n c)
    (hexec : (PagingCall.freePage addr).exec c = .ret c') : FramesApart n c' := by
  have hmade := h.made hplain
  have hs : StepKeeps c (.freePage addr) c' := SpaceStep.keeps h.ok ⟨hmade, hexec⟩
  obtain ⟨a, ha⟩ := h.ok.present_iff.mp hplain.2
  obtain ⟨vm, hfree, hfreed⟩ := freePageAddr_reaches h.ok.spaces h.ok.current hmade.1 hmade.2
  obtain ⟨vm', hcall, hret⟩ := Outcome.bind_eq_ret.mp hexec
  cases hfree.symm.trans hcall
  cases hret
  refine h.inherit hs.ok (hs.tablesFresh h.ok) ?_
  rintro slot f ⟨d, hd, v, a', hv, ha', rfl, rfl⟩
  have hno : ¬ Touches c.vm c.vm.currentDirectory addr d v := by
    intro htouch
    rw [hfreed.gone d hd v htouch] at ha'
    cases ha'
  have hreach : ¬ (PagingCall.freePage addr).Reaches c d v := by
    rintro ⟨m, virt, hnamed, htouch⟩
    cases hnamed
    exact hno htouch
  obtain ⟨hheld, hused⟩ := h.untouched hs hd (fun _ => hreach) hv ha'
  refine ⟨hheld, hused ?_⟩
  -- with the frame of the freed page it would be that page
  rintro ⟨_, hsame, heq⟩
  cases hsame
  have htrans := hs.kept.page d hd v hreach
  have hp := (translate_eq_some (htrans.symm.trans ha')).1
  have hentry := hs.kept.entry d hd v hp
  have hslot := h.owned.unshared _ _ _ hheld ⟨_, h.ok.current, addr, a, hplain.1, ha, rfl,
    (h.ok.pageFrame_eq ha).symm.trans heq.symm⟩
  rw [hentry] at hslot
  exact hno (h.ok.spaces.touches_of_slot hd h.ok.current hp (translate_eq_some ha).1 hslot)

/-! ## Allocating -/

/-- After `vmmngr_alloc_page_f` the page is as before, or in a frame that was free and is no
table. -/
theorem allocPageF_page (h : SpacesOk D s) (hm : s.currentDirectory ∈ D) {flags : BitVec 32}
    (hbase : base < 0xF0000000#32) (hflags : flags < 0x1000#32)
    (hpresent : flags &&& i86PtePresent = i86PtePresent) {r : VmState × ErrorT}
    (hret : vmmngrAllocPageF s base flags = .ret r) :
    (∀ v : BitVec 32, v >>> 12 = base >>> 12 →
      translate r.1 s.currentDirectory v = translate s s.currentDirectory v) ∨
    ∃ f, f &&& i86PteFrame = f ∧ ¬ frameUsed s f ∧ frameUsed r.1 f ∧ FreeableFrame D r.1 f ∧
      ∀ v : BitVec 32, v >>> 12 = base >>> 12 →
        translate r.1 s.currentDirectory v = some (f + (v &&& 0xfff#32)) := by
  obtain ⟨r', hret', hr⟩ := allocPageF_result base flags (h.dir _ hm).1 h.small
  cases hret.symm.trans hret'
  cases hr with
  | present hp hr =>
    left
    intro v hv
    have hmapped := h.mapResult hm hflags hpresent hr
    have hapart := h.tablesApart hm
    obtain ⟨hpd, -, hpage⟩ := (isPagePresent_eq hapart.dir).mp hp
    have hphys := pageFrame_eq hapart hpd
    have hsame := translate_samePage (translate_of_present hpd hpage) hv
    rw [hsame, frame_offset ptEntryGetFrame_frame]
    obtain ⟨t, e⟩ := r
    cases e with
    | occur => rw [hmapped.failed rfl, hsame, frame_offset ptEntryGetFrame_frame]
    | ok =>
      rw [hmapped.mapped rfl v hv]
      exact congrArg (fun f => some (f + (v &&& 0xfff#32))) hphys
  | noBlock hp hlow hnone => exact Or.inl fun _ _ => rfl
  | taken hp hlow hblock hr =>
    have hfirst := mmapFirstFree_spec fun hzero => hblock (Or.inr hzero)
    have hlt : mmapFirstFree s.phys < 1048576 := hfirst.1.trans_le h.small
    have htaken := h.take (mmapFirstFree s.phys)
    have hmapped := htaken.mapResult hm hflags hpresent hr
    obtain ⟨t, e⟩ := r
    cases e with
    | occur =>
      left
      intro v _
      rw [hmapped.failed rfl]
      rfl
    | ok =>
      right
      have hself : frameUsed { s with phys := s.phys.take (mmapFirstFree s.phys) }
          (BitVec.ofNat 32 (mmapFirstFree s.phys * pmmngrBlockSize)) := by
        unfold frameUsed
        rw [ofNat_block hlt, mmapTest_take]
        simp
      have hfresh := not_frameUsed_block (s := s) hlt hfirst.2
      refine ⟨_, block_frame hlt, hfresh, hmapped.used _ hself,
        ⟨fun hin => hfresh (h.dir _ hin).2.2, fun d hd v hp' heq => ?_⟩, fun v hv => ?_⟩
      · rcases hmapped.tables d hd v hp' with hold | hno
        · rw [hold] at hp' heq
          exact hfresh (heq ▸ (h.table d hd v hp').2.1)
        · rw [heq] at hno
          exact hno hself
      · rw [hmapped.mapped rfl v hv, block_frame hlt]
  | device hp hlow hr => exact absurd hbase hlow

/-- The page of the call gets its entry, wherever it is seen, and no other entry changes. -/
theorem FramesApart.alloced {flags : BitVec 32} (h : FramesApart n c)
    (hplain : (PagingCall.allocPage base flags).Plain n c)
    (hexec : (PagingCall.allocPage base flags).exec c = .ret c') : FramesApart n c' := by
  have hmade := h.made hplain
  have hs : StepKeeps c (.allocPage base flags) c' := SpaceStep.keeps h.ok ⟨hmade, hexec⟩
  have hfresh := hs.tablesFresh h.ok
  obtain ⟨hbase, hlow, hflags, hpresent⟩ := hplain
  obtain ⟨r, halloc, hret⟩ := Outcome.bind_eq_ret.mp hexec
  have hpage := allocPageF_page h.ok.spaces h.ok.current hlow hflags hpresent halloc
  obtain ⟨t, e⟩ := r
  cases hret
  have hfrees : ∀ g, ¬ (PagingCall.allocPage base flags).Frees c g := by
    rintro g ⟨_, hno, -⟩
    cases hno
  -- the page of the call, or one that was there
  have hsplit : ∀ d ∈ c.spaces, ∀ v a, ¬ KernelPage n v → translate t d v = some a →
      Touches c.vm c.vm.currentDirectory base d v ∨
        SlotHolds n c (pageSlot (dirEntry t d v) v) (a &&& i86PteFrame) ∧
          frameUsed t (a &&& i86PteFrame) := by
    intro d hd v a hv ha
    by_cases htouch : Touches c.vm c.vm.currentDirectory base d v
    · exact Or.inl htouch
    · right
      have hno : d ∈ c.spaces → ¬ (PagingCall.allocPage base flags).Reaches c d v := by
        rintro - ⟨m, virt, hnamed, hreach⟩
        cases hnamed
        exact htouch hreach
      obtain ⟨hheld, hused⟩ := h.untouched hs hd hno hv ha
      exact ⟨hheld, hused (hfrees _)⟩
  rcases hpage with hsame | ⟨f, hf, hfree, hused, hdata, hnew⟩
  · refine h.inherit hs.ok hfresh ?_
    rintro slot f ⟨d, hd, v, a, hv, ha, rfl, rfl⟩
    rcases hsplit d hd v a hv ha with htouch | hold
    · -- its entry is the one that the current space had
      have htouch' := htouch.kept hs.kept h.ok.current hd
      have htrans := htouch'.translate_eq.symm.trans ha
      rw [hsame v htouch.1] at htrans
      have hp := (translate_eq_some htrans).1
      have hentry := hs.kept.entry _ h.ok.current v hp
      have hheld : SlotHolds n c (pageSlot (dirEntry t d v) v) (a &&& i86PteFrame) := by
        refine ⟨_, h.ok.current, v, a, hv, htrans, ?_, rfl⟩
        have hself : Touches t c.vm.currentDirectory base c.vm.currentDirectory v :=
          ⟨htouch.1, Or.inl rfl⟩
        exact (congrArg (pageSlot · v) hentry.symm).trans (hself.slot.trans htouch'.slot.symm)
      exact ⟨hheld, hs.used _ frame_frame (hfrees _) (h.owned.used _ _ hheld)⟩
    · exact hold
  · -- the entry of the page is the owner of the new frame
    have hgrant : ∀ slot g, SlotHolds n { c with vm := t } slot g →
        (slot = pageSlot (dirEntry t c.vm.currentDirectory base) base ∧ g = f) ∨
          SlotHolds n c slot g := by
      rintro slot g ⟨d, hd, v, a, hv, ha, rfl, rfl⟩
      rcases hsplit d hd v a hv ha with htouch | ⟨hold, -⟩
      · left
        have htouch' := htouch.kept hs.kept h.ok.current hd
        have htrans := htouch'.translate_eq.symm.trans ha
        rw [hnew v htouch.1] at htrans
        cases htrans
        exact ⟨htouch'.slot, frame_offset hf⟩
      · exact Or.inr hold
    refine ⟨hs.ok, h.owned.grant hfree hgrant hused fun g hg => ?_, fun slot g hg => ?_⟩
    · exact frameUsed_frame.mp (hs.used _ frame_frame (hfrees _) (frameUsed_frame.mpr hg))
    · rcases hgrant slot g hg with ⟨-, rfl⟩ | hold
      · exact hdata
      · exact hfresh.freeable (h.data slot g hold) (h.owned.used slot g hold)

/-! ## Writing -/

/-- A word that is written to a page of a process changes no table. -/
theorem FramesApart.write_tables {slot : Nat} (h : FramesApart n c)
    (hheld : SlotHolds n c slot (a &&& i86PteFrame)) (x : BitVec 32) (hd : d ∈ c.spaces)
    (v : BitVec 32) : dirEntry (c.vm.store a.toNat x) d v = dirEntry c.vm d v ∧
      translate (c.vm.store a.toNat x) d v = translate c.vm d v := by
  obtain ⟨hdir, htable⟩ := h.data _ _ hheld
  have hentry : dirEntry (c.vm.store a.toNat x) d v = dirEntry c.vm d v :=
    Function.update_of_ne (slot_ne (h.ok.spaces.dir d hd).2.1 pageDirIndex_lt
      fun heq => hdir (heq ▸ hd)) _ _
  refine ⟨hentry, translate_congr hentry fun hp => ?_⟩
  unfold pageEntry
  rw [hentry]
  exact Function.update_of_ne (slot_ne frame_frame pageTableIndex_lt (htable d hd v hp)) _ _

/-- A write leaves the tables, and so the frames. -/
theorem FramesApart.written (h : FramesApart n c) (hv : ¬ KernelPage n v)
    (ha : translate c.vm c.cr3 v = some a) (x : BitVec 32) :
    FramesApart n { c with vm := c.vm.store a.toNat x } := by
  rw [h.ok.cr3] at ha
  have hheld : SlotHolds n c _ (a &&& i86PteFrame) :=
    ⟨_, h.ok.current, v, a, hv, ha, rfl, rfl⟩
  have htables := fun d (hd : d ∈ c.spaces) v => h.write_tables hheld x hd v
  have hspaces : SpacesOk c.spaces (c.vm.store a.toNat x) :=
    h.ok.spaces.congr rfl (fun d hd v => (htables d hd v).1) (fun _ _ => id) (fun _ _ _ _ => id)
  have hfresh : TablesFresh c { c with vm := c.vm.store a.toNat x } :=
    ⟨fun _ hd => Or.inl hd, fun d hd v _ => Or.inl ⟨d, hd, (htables d hd v).1⟩⟩
  refine h.inherit ⟨hspaces, h.ok.kernel, h.ok.current, h.ok.cr3⟩ hfresh ?_
  rintro slot f ⟨d, hd, w, a', hw, ha', rfl, rfl⟩
  have hinherited : Inherited c { c with vm := c.vm.store a.toNat x } d w :=
    ⟨d, hd, htables d hd w⟩
  have hold := hinherited.holds hw ha'
  exact ⟨hold, h.owned.used _ _ hold⟩

/-! ## Runs -/

theorem FramesApart.step {event : ProcessEvent} (h : FramesApart n c)
    (hs : ProcessStep n c event c') : FramesApart n c' := by
  cases hs with
  | @call call c' hplain hexec =>
    have hkeeps : StepKeeps c call c' := SpaceStep.keeps h.ok ⟨h.made hplain, hexec⟩
    cases call with
    | processSpace => exact h.quiet hkeeps rfl (by rintro g ⟨_, hno, -⟩; cases hno)
    | switchDirectory dir => exact h.quiet hkeeps rfl (by rintro g ⟨_, hno, -⟩; cases hno)
    | mapPage dir phys virt flags => exact hplain.elim
    | allocPage base flags => exact h.alloced hplain hexec
    | freePage addr => exact h.freed hplain hexec
  | write hv halign ha => exact h.written hv ha _

/-- At boot no page but the kernel's is present. -/
theorem PagingBooted.framesApart (h : PagingBooted n c) (hn : n ≤ 0x40000) : FramesApart n c := by
  obtain ⟨hok, hspaces, htrans⟩ := h.spec hn
  have hnone : ∀ slot f, ¬ SlotHolds n c slot f := by
    rintro slot f ⟨d, hd, v, a, hv, ha, -⟩
    rw [hspaces] at hd
    rw [List.mem_singleton.mp hd, htrans] at ha
    unfold KernelPage at hv
    unfold kernelAddress at ha
    rw [if_neg fun hlow => hv (Or.inl hlow), if_neg fun himage => hv (Or.inr himage)] at ha
    cases ha
  exact ⟨hok, ⟨fun p q f hp _ => absurd hp (hnone p f), fun p f hp => absurd hp (hnone p f)⟩,
    fun p f hp => absurd hp (hnone p f)⟩

variable {events : List ProcessEvent}

theorem framesApart_run (hboot : PagingBooted n c₀) (hn : n ≤ 0x40000)
    (hrun : Trace (ProcessStep n) c₀ events c) : FramesApart n c :=
  hrun.keeps (I := FramesApart n) (fun _ _ _ _ h hs => h.step hs) (hboot.framesApart hn)

/-- With two frames left, a page that is absent is allocated. -/
theorem allocPage_maps {k : Nat} (flags : BitVec 32) (hok : c.Ok) (hstock : Stock c.vm.phys k)
    (hk : 2 ≤ k) (hnone : translate c.vm c.vm.currentDirectory base = none)
    (hlow : base < 0xF0000000#32) (hflags : flags < 0x1000#32)
    (hpresent : flags &&& i86PtePresent = i86PtePresent) :
    ∃ t a, vmmngrAllocPageF c.vm base flags = .ret (t, .ok) ∧
      translate t c.vm.currentDirectory base = some a := by
  obtain ⟨r, hret, hr⟩ := allocPageF_result base flags (hok.spaces.dir _ hok.current).1
    hok.spaces.small
  cases hr with
  | present hp hr =>
    obtain ⟨a, ha⟩ := hok.present_iff.mp hp
    rw [hnone] at ha
    cases ha
  | noBlock hp _ hno =>
    exact absurd ((allocBlock_zero_iff hstock.small).mpr hno) (hstock.alloc (by omega))
  | taken hp _ hblock hr =>
    have hfirst := mmapFirstFree_spec fun hzero => hblock (Or.inr hzero)
    have hleft := hstock.take hfirst.1 hfirst.2 (by omega)
    have hmapped := (hok.spaces.take (mmapFirstFree c.vm.phys)).mapResult hok.current hflags
      hpresent hr
    cases hr with
    | noTable hp hnull => exact absurd hnull (hok.spaces.table _ hok.current _ hp).1
    | noBlock habsent hno => exact absurd hno (hleft.alloc (by omega))
    | mapped hp hframe => exact ⟨_, _, hret, hmapped.mapped rfl base rfl⟩
    | made habsent hpos hb hfree halloc => exact ⟨_, _, hret, hmapped.mapped rfl base rfl⟩
  | device hp hhigh hr => exact absurd hlow hhigh

/-- The first page that is allocated after boot. -/
theorem firstPage : ∃ c₀ c a, PagingBooted 1 c₀ ∧
    Trace (ProcessStep 1) c₀ [.call (.allocPage 0x400000#32 7#32)] c ∧
    translate c.vm c.cr3 0x400000#32 = some a ∧ c.cr3 ∈ c.spaces := by
  obtain ⟨c₀, hboot, hstock⟩ := beforePaging_boots
  obtain ⟨hok, hspaces, htrans⟩ := hboot.spec (by decide)
  have hnone : translate c₀.vm c₀.vm.currentDirectory 0x400000#32 = none := by
    rw [← hok.cr3, hboot.cr3_translate (by decide)]
    decide
  obtain ⟨t, a, halloc, ha⟩ := allocPage_maps 7#32 hok hstock (by decide) hnone
    (by decide) (by decide) (by decide)
  have hexec : (PagingCall.allocPage 0x400000#32 7#32).exec c₀ = .ret { c₀ with vm := t } :=
    Outcome.bind_eq_ret.mpr ⟨_, halloc, rfl⟩
  refine ⟨c₀, { c₀ with vm := t }, a, hboot,
    .cons (.call ⟨by decide, by decide, by decide, by decide⟩ hexec) .nil, ?_, ?_⟩
  · show translate t c₀.cr3 _ = _
    rwa [hok.cr3]
  · rw [hok.cr3]
    exact hok.current

/-- However processes run, a frame behind one of their pages is in use and is no table, and two
pages have one frame only when they are one page of one table. -/
theorem frames_exclusive (hboot : PagingBooted n c₀) (hn : n ≤ 0x40000)
    (hrun : Trace (ProcessStep n) c₀ events c) (hd : d ∈ c.spaces) (hd' : d' ∈ c.spaces)
    (hv : ¬ KernelPage n v) (hw : ¬ KernelPage n w) (ha : translate c.vm d v = some a)
    (ha' : translate c.vm d' w = some a') :
    frameUsed c.vm (a &&& i86PteFrame) ∧ FreeableFrame c.spaces c.vm (a &&& i86PteFrame) ∧
      (a &&& i86PteFrame = a' &&& i86PteFrame ↔ v >>> 12 = w >>> 12 ∧ SameTable c.vm d d' v) := by
  have h := framesApart_run hboot hn hrun
  have hheld : SlotHolds n c _ (a &&& i86PteFrame) := ⟨d, hd, v, a, hv, ha, rfl, rfl⟩
  have hheld' : SlotHolds n c _ (a' &&& i86PteFrame) := ⟨d', hd', w, a', hw, ha', rfl, rfl⟩
  have hp := (translate_eq_some ha).1
  have hp' := (translate_eq_some ha').1
  refine ⟨h.owned.used _ _ hheld, h.data _ _ hheld, fun heq => ?_, fun ⟨hpage, hshare⟩ => ?_⟩
  · rw [← heq] at hheld'
    obtain ⟨hpage, hshare⟩ := h.ok.spaces.touches_of_slot hd hd' hp hp'
      (h.owned.unshared _ _ _ hheld hheld')
    refine ⟨hpage, ?_⟩
    have hidx := (samePage_iff.mp hpage).1
    rcases hshare with rfl | hshare
    · exact ⟨hp, hp, rfl⟩
    · exact hshare.swap hidx
  · have hsame := (hshare.translate_eq rfl).symm.trans ha
    rw [translate_samePage ha' hpage] at hsame
    cases hsame
    exact frame_offset frame_frame

/-- The page that has been allocated is in a frame of its own. -/
theorem frames_exclusive_first : ∃ (c : SpaceRun) (a : BitVec 32),
    translate c.vm c.cr3 0x400000#32 = some a ∧ frameUsed c.vm (a &&& i86PteFrame) ∧
      FreeableFrame c.spaces c.vm (a &&& i86PteFrame) := by
  obtain ⟨c₀, c, a, hboot, hrun, ha, hcur⟩ := firstPage
  obtain ⟨hused, hdata, -⟩ := frames_exclusive hboot (by decide) hrun hcur hcur (by decide)
    (by decide) ha ha
  exact ⟨c, a, ha, hused, hdata⟩

/-- However processes have run, a word that one of them writes is seen at its address in the spaces
that have its table, and no other word of any process changes. -/
theorem write_isolated (hboot : PagingBooted n c₀) (hn : n ≤ 0x40000)
    (hrun : Trace (ProcessStep n) c₀ events c) (hwrite : ProcessStep n c (.write v x) c')
    (hd : d ∈ c.spaces) (hw : ¬ KernelPage n w) :
    (∀ u, translate c'.vm d u = translate c.vm d u) ∧
      (SameTable c.vm c.cr3 d v → readWord c'.vm d v = some x) ∧
      (¬ (w = v ∧ SameTable c.vm c.cr3 d v) → readWord c'.vm d w = readWord c.vm d w) := by
  have h := framesApart_run hboot hn hrun
  cases hwrite with
  | @write v x a hv halign ha =>
  have hcur : c.cr3 ∈ c.spaces := h.ok.cr3 ▸ h.ok.current
  have hheld : SlotHolds n c _ (a &&& i86PteFrame) := ⟨c.cr3, hcur, v, a, hv, ha, rfl, rfl⟩
  have htrans := fun u => (h.write_tables hheld x hd u).2
  refine ⟨htrans, fun hshare => ?_, fun hother => ?_⟩
  · unfold readWord
    rw [if_pos halign, htrans, ← hshare.translate_eq rfl, ha]
    exact congrArg some (Function.update_self ..)
  · unfold readWord
    dsimp only
    rw [htrans]
    by_cases hword : w.toNat % 4 = 0
    · rw [if_pos hword, if_pos hword]
      cases ha' : translate c.vm d w with
      | none => rfl
      | some a' =>
        refine congrArg some (Function.update_of_ne (fun heq => ?_) _ _)
        -- the same place, so the same page of the same table
        cases BitVec.eq_of_toNat_eq heq
        obtain ⟨hpage, hshare⟩ :=
          (frames_exclusive hboot hn hrun hcur hd hv hw ha ha').2.2.mp rfl
        have hplace := samePage_toNat.mp hpage
        have hoff := translate_offset ha
        have hoff' := translate_offset ha'
        exact hother ⟨BitVec.eq_of_toNat_eq (by omega), hshare⟩
    · rw [if_neg hword, if_neg hword]

/-- A word that is written to the page is read there, and the next word is as before. -/
theorem write_isolated_first : ∃ c c' : SpaceRun,
    ProcessStep 1 c (.write 0x400000#32 42#32) c' ∧
      readWord c'.vm c.cr3 0x400000#32 = some 42#32 ∧
      readWord c'.vm c.cr3 0x400004#32 = readWord c.vm c.cr3 0x400004#32 := by
  obtain ⟨c₀, c, a, hboot, hrun, ha, hcur⟩ := firstPage
  have hwrite : ProcessStep 1 c (.write 0x400000#32 42#32)
      { c with vm := c.vm.store a.toNat 42#32 } := .write (by decide) (by decide) ha
  obtain ⟨-, hseen, hrest⟩ := write_isolated hboot (by decide) hrun hwrite hcur
    (w := 0x400004#32) (by decide)
  have hp := (translate_eq_some ha).1
  exact ⟨c, _, hwrite, hseen ⟨hp, hp, rfl⟩, hrest fun hsame => absurd hsame.1 (by decide)⟩

end Frames

end MeOS
