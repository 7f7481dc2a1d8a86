import MeOS.PageEntries

/-! # Address spaces

A process gets a directory of its own, which begins as a copy of the kernel's.
From then on the tables that were there are shared, and every table made later
belongs to one directory. `SpacesOk` says so; what a call on one page changes in
the other spaces follows from it.
-/

namespace MeOS

open WordFields

/-! ## `mmngr_virtual.cpp` -/

/-- `memcpy(dst, src, length)`. -/
def VmState.copy (s : VmState) (dst src length : Nat) : VmState :=
  { s with memory := fun p =>
      if dst ≤ p ∧ p < dst + length then s.memory (src + (p - dst)) else s.memory p }

/-- `vmmngr_create_address_space`; 0 when there is no block. -/
def vmmngrCreateAddressSpace (s : VmState) : VmState × BitVec 32 :=
  let (phys, dir) := pmmngrAllocBlock s.phys
  let s := { s with phys := phys }
  if dir = 0 then (s, 0#32)
  else (s.clear dir 4096, BitVec.ofNat 32 dir)

/-- `vmmngr_map_kernel_space`. -/
def vmmngrMapKernelSpace (s : VmState) (kernelDirectory pdir : BitVec 32) : VmState × ErrorT :=
  if pdir = 0#32 then (s, .occur)
  else (s.copy pdir.toNat kernelDirectory.toNat 4096, .ok)

/-! ## Translation -/

/-- Where the tables of a directory lead an address, as the processor walks them. -/
def translate (s : VmState) (dir v : BitVec 32) : Option (BitVec 32) :=
  if pdEntryIsPresent (dirEntry s dir v) ∧ ptEntryIsPresent (pageEntry s dir v) then
    some (ptEntryGetFrame (pageEntry s dir v) + (v &&& 0xfff#32))
  else none

/-- Two directories have one table for the address. -/
def SameTable (s : VmState) (d d' v : BitVec 32) : Prop :=
  pdEntryIsPresent (dirEntry s d v) = true ∧ pdEntryIsPresent (dirEntry s d' v) = true ∧
    pdEntryGetFrame (dirEntry s d v) = pdEntryGetFrame (dirEntry s d' v)

/-- The directories and their tables are frames in use, no table is a directory, and a table has
one place in all directories that have it. -/
structure SpacesOk (D : List (BitVec 32)) (s : VmState) : Prop where
  small : s.phys.mmngrMaxBlocks ≤ 1048576
  dir : ∀ d ∈ D, d ≠ 0#32 ∧ d &&& i86PteFrame = d ∧ frameUsed s d
  table : ∀ d ∈ D, ∀ v, pdEntryIsPresent (dirEntry s d v) = true →
    pdEntryGetFrame (dirEntry s d v) ≠ 0#32 ∧ frameUsed s (pdEntryGetFrame (dirEntry s d v)) ∧
      pdEntryGetFrame (dirEntry s d v) ∉ D
  apart : ∀ d ∈ D, ∀ d' ∈ D, ∀ v w, pdEntryIsPresent (dirEntry s d v) = true →
    pdEntryIsPresent (dirEntry s d' w) = true →
    pdEntryGetFrame (dirEntry s d v) = pdEntryGetFrame (dirEntry s d' w) →
      pageDirIndex v = pageDirIndex w ∧ dirEntry s d v = dirEntry s d' w

/-- What a step keeps: the tables that are there, and the pages outside `T`. -/
structure SpaceKept (D : List (BitVec 32)) (T : BitVec 32 → BitVec 32 → Prop) (s s' : VmState) :
    Prop where
  entry : ∀ d ∈ D, ∀ v, pdEntryIsPresent (dirEntry s d v) = true →
    dirEntry s' d v = dirEntry s d v
  page : ∀ d ∈ D, ∀ v, ¬ T d v → translate s' d v = translate s d v

/-- A call on the page of `virt` in the space `m` reaches the page of `v` in the space `d`. -/
def Touches (s : VmState) (m virt d v : BitVec 32) : Prop :=
  v >>> 12 = virt >>> 12 ∧ (d = m ∨ SameTable s m d virt)

section Frames

variable {D : List (BitVec 32)} {T T' : BitVec 32 → BitVec 32 → Prop} {s s' s'' : VmState}
variable {d d' m v w virt phys flags x f : BitVec 32} {b : Nat}

theorem dirEntry_of_index (h : pageDirIndex v = pageDirIndex w) :
    dirEntry s d v = dirEntry s d w := by
  unfold dirEntry
  rw [h]

/-- Both lookups see an address through its page. -/
theorem pageEntry_of_page (h : v >>> 12 = w >>> 12) : dirEntry s d v = dirEntry s d w ∧
    pageEntry s d v = pageEntry s d w := by
  obtain ⟨hdir, htable⟩ := samePage_iff.mp h
  have hentry := dirEntry_of_index (s := s) (d := d) hdir
  refine ⟨hentry, ?_⟩
  unfold pageEntry pageSlot
  rw [hentry, htable]

theorem translate_congr (hdir : dirEntry s' d' v = dirEntry s d v)
    (hpage : pdEntryIsPresent (dirEntry s d v) = true → pageEntry s' d' v = pageEntry s d v) :
    translate s' d' v = translate s d v := by
  unfold translate
  rw [hdir]
  by_cases hp : pdEntryIsPresent (dirEntry s d v) = true
  · rw [hpage hp]
  · rw [if_neg fun h => hp h.1, if_neg fun h => hp h.1]

theorem SpaceKept.refl (D : List (BitVec 32)) (T : BitVec 32 → BitVec 32 → Prop) (s : VmState) :
    SpaceKept D T s s := ⟨fun _ _ _ _ => rfl, fun _ _ _ _ => rfl⟩

theorem SpaceKept.mono (h : SpaceKept D T s s') (hT : ∀ d ∈ D, ∀ v, T d v → T' d v) :
    SpaceKept D T' s s' :=
  ⟨h.entry, fun d hd v hv => h.page d hd v fun hin => hv (hT d hd v hin)⟩

theorem SpaceKept.trans (h₁ : SpaceKept D T s s') (h₂ : SpaceKept D T s' s'') :
    SpaceKept D T s s'' where
  entry d hd v hp := by
    have hsame := h₁.entry d hd v hp
    rw [h₂.entry d hd v (by rwa [hsame]), hsame]
  page d hd v hv := (h₂.page d hd v hv).trans (h₁.page d hd v hv)

theorem SpaceKept.sameTable (h : SpaceKept D T s s') (hd : d ∈ D) (hd' : d' ∈ D)
    (hs : SameTable s d d' v) : SameTable s' d d' v := by
  obtain ⟨hp, hp', hframe⟩ := hs
  unfold SameTable
  rw [h.entry d hd v hp, h.entry d' hd' v hp']
  exact ⟨hp, hp', hframe⟩

/-- Directories that share the table of an address agree on it. -/
theorem SameTable.translate_eq (h : SameTable s d d' w) (hidx : pageDirIndex v = pageDirIndex w) :
    translate s d v = translate s d' v := by
  obtain ⟨hp, hp', hframe⟩ := h
  have hentry := dirEntry_of_index (s := s) (d := d) hidx
  have hentry' := dirEntry_of_index (s := s) (d := d') hidx
  have hpage : pageEntry s d v = pageEntry s d' v := by
    unfold pageEntry pageSlot
    rw [hentry, hentry', hframe]
  unfold translate
  rw [hpage, hentry, hentry', hp, hp']

/-- A frame in use is not the block that the allocator finds. -/
theorem block_ne_used (hsmall : s.phys.mmngrMaxBlocks ≤ 1048576) (hb : b < s.phys.mmngrMaxBlocks)
    (hfree : mmapTest s.phys b = false) (hf : frameUsed s f) :
    f ≠ BitVec.ofNat 32 (b * pmmngrBlockSize) := by
  rintro rfl
  unfold frameUsed at hf
  rw [ofNat_block (hb.trans_le hsmall), hfree] at hf
  cases hf

/-- The invariant only reads the directories, and which frames are in use. -/
theorem SpacesOk.congr (h : SpacesOk D s) (hmax : s'.phys.mmngrMaxBlocks = s.phys.mmngrMaxBlocks)
    (hentry : ∀ d ∈ D, ∀ v, dirEntry s' d v = dirEntry s d v)
    (hdir : ∀ d ∈ D, frameUsed s d → frameUsed s' d)
    (htable : ∀ d ∈ D, ∀ v, pdEntryIsPresent (dirEntry s d v) = true →
      frameUsed s (pdEntryGetFrame (dirEntry s d v)) →
        frameUsed s' (pdEntryGetFrame (dirEntry s d v))) : SpacesOk D s' where
  small := by
    rw [hmax]
    exact h.small
  dir d hd := by
    obtain ⟨hne, hframe, hused⟩ := h.dir d hd
    exact ⟨hne, hframe, hdir d hd hused⟩
  table d hd v hp := by
    rw [hentry d hd] at hp ⊢
    obtain ⟨hne, hused, hout⟩ := h.table d hd v hp
    exact ⟨hne, htable d hd v hp hused, hout⟩
  apart d hd d' hd' v w hp hp' hframe := by
    rw [hentry d hd] at hp hframe ⊢
    rw [hentry d' hd'] at hp' hframe ⊢
    exact h.apart d hd d' hd' v w hp hp' hframe

/-- Taking a block changes no table. -/
theorem SpacesOk.take (h : SpacesOk D s) (b : Nat) :
    SpacesOk D { s with phys := s.phys.take b } := by
  have hused : ∀ f, frameUsed s f → frameUsed { s with phys := s.phys.take b } f :=
    fun _ hf => frameUsed_take hf
  exact h.congr take_max (fun _ _ _ => rfl) (fun d _ => hused d) (fun d _ v _ => hused _)

/-! ## A write to the entry of a page -/

theorem dirEntry_storePage (h : SpacesOk D s) (hm : m ∈ D)
    (hp : pdEntryIsPresent (dirEntry s m virt) = true) (hd : d ∈ D) :
    dirEntry (s.store (pageSlot (dirEntry s m virt) virt) x) d v = dirEntry s d v := by
  apply dirEntry_store (h.dir d hd).2.1
  rintro rfl
  exact (h.table m hm virt hp).2.2 hd

/-- The entry is seen by the directories that have its table, and at its own page only. -/
theorem pageEntry_storePage (h : SpacesOk D s) (hm : m ∈ D)
    (hp : pdEntryIsPresent (dirEntry s m virt) = true) (hd : d ∈ D)
    (hpd : pdEntryIsPresent (dirEntry s d v) = true) :
    (Touches s m virt d v → pageEntry (s.store (pageSlot (dirEntry s m virt) virt) x) d v = x) ∧
      (¬ Touches s m virt d v →
        pageEntry (s.store (pageSlot (dirEntry s m virt) virt) x) d v = pageEntry s d v) := by
  have hentry := dirEntry_storePage (x := x) (v := v) h hm hp hd
  have hread : pageEntry (s.store (pageSlot (dirEntry s m virt) virt) x) d v =
      if pageSlot (dirEntry s d v) v = pageSlot (dirEntry s m virt) virt then x
      else pageEntry s d v := by
    unfold pageEntry
    rw [hentry]
    exact Function.update_apply _ _ _ _
  rw [hread]
  constructor
  · rintro ⟨hpage, hshare⟩
    obtain ⟨hidx, htable⟩ := samePage_iff.mp hpage
    have hsame : pdEntryGetFrame (dirEntry s d v) = pdEntryGetFrame (dirEntry s m virt) := by
      rw [dirEntry_of_index hidx]
      rcases hshare with rfl | ⟨-, -, hframe⟩
      · rfl
      · exact hframe.symm
    rw [if_pos]
    unfold pageSlot
    rw [hsame, htable]
  · intro hno
    rw [if_neg]
    intro hslot
    -- one place in one table: the page and the table are the same
    obtain ⟨hframe, htable⟩ :=
      slot_inj frame_frame frame_frame pageTableIndex_lt pageTableIndex_lt hslot
    obtain ⟨hidx, -⟩ := h.apart d hd m hm v virt hpd hp hframe
    have hsame := dirEntry_of_index (s := s) (d := d) hidx
    exact hno ⟨samePage_iff.mpr ⟨hidx, htable⟩, Or.inr ⟨hp, hsame ▸ hpd, hsame ▸ hframe.symm⟩⟩

theorem SpacesOk.storePage (h : SpacesOk D s) (hm : m ∈ D)
    (hp : pdEntryIsPresent (dirEntry s m virt) = true) (x : BitVec 32) :
    SpacesOk D (s.store (pageSlot (dirEntry s m virt) virt) x) ∧
      SpaceKept D (Touches s m virt) s (s.store (pageSlot (dirEntry s m virt) virt) x) := by
  refine ⟨h.congr rfl (fun d hd v => dirEntry_storePage h hm hp hd) (fun _ _ => id)
    (fun _ _ _ _ => id), fun d hd v _ => dirEntry_storePage h hm hp hd, fun d hd v hno => ?_⟩
  exact translate_congr (dirEntry_storePage h hm hp hd) fun hpd =>
    (pageEntry_storePage h hm hp hd hpd).2 hno

/-! ## A new table -/

/-- The memory after block `b` has become the table of `virt` in `m`: the table is empty, one
entry of the directory is new, and the rest is as before. -/
theorem memory_tableMade (virt flags : BitVec 32) (hm : m &&& i86PteFrame = m) (hb : b < 1048576)
    (hne : BitVec.ofNat 32 (b * pmmngrBlockSize) ≠ m) {g : BitVec 32}
    (hg : g &&& i86PteFrame = g) {j : Nat} (hj : j < 1024) :
    (tableMade s m virt flags b).memory (g.toNat + 4 * j) =
      if g = m ∧ j = pageDirIndex virt then
        pdEntrySetFrame (dirEntry s m virt) (BitVec.ofNat 32 (b * pmmngrBlockSize)) ||| flags
      else if g = BitVec.ofNat 32 (b * pmmngrBlockSize) then 0#32
      else s.memory (g.toNat + 4 * j) := by
  have hf := block_frame hb
  by_cases hslot : g = m ∧ j = pageDirIndex virt
  · obtain ⟨rfl, rfl⟩ := hslot
    rw [if_pos ⟨rfl, rfl⟩]
    unfold tableMade VmState.store
    dsimp only
    rw [Function.update_self]
    congr 2
    exact (clear_slot hf hm hj).trans (if_neg hne.symm)
  · rw [if_neg hslot]
    unfold tableMade VmState.store
    dsimp only
    rw [Function.update_of_ne]
    · exact clear_slot hf hg hj
    · intro heq
      exact hslot (slot_inj hg hm hj pageDirIndex_lt heq)

/-- The entry of the directory for a new table. -/
theorem newEntry_spec (hf : f &&& i86PteFrame = f) (hflags : flags &&& i86PteFrame = 0#32)
    (hpresent : flags &&& i86PtePresent = i86PtePresent) :
    pdEntryGetFrame (pdEntrySetFrame x f ||| flags) = f ∧
      pdEntryIsPresent (pdEntrySetFrame x f ||| flags) = true := by
  constructor
  · unfold pdEntryGetFrame
    rw [get_or hflags]
    exact get_set hf
  · unfold pdEntryIsPresent
    rw [or_and_of_le hpresent]
    decide

/-- The directories after a table has been made. -/
theorem dirEntry_tableMade_of_mem (virt flags : BitVec 32) (h : SpacesOk D s) (hm : m ∈ D)
    (hb : b < s.phys.mmngrMaxBlocks) (hfree : mmapTest s.phys b = false) (hd : d ∈ D) :
    dirEntry (tableMade s m virt flags b) d v =
      if d = m ∧ pageDirIndex v = pageDirIndex virt then
        pdEntrySetFrame (dirEntry s m virt) (BitVec.ofNat 32 (b * pmmngrBlockSize)) ||| flags
      else dirEntry s d v := by
  have hother : ∀ d ∈ D, d ≠ BitVec.ofNat 32 (b * pmmngrBlockSize) :=
    fun d hd => block_ne_used h.small hb hfree (h.dir d hd).2.2
  have hread := memory_tableMade (s := s) virt flags (h.dir m hm).2.1
    (hb.trans_le h.small) (hother m hm).symm (h.dir d hd).2.1 (pageDirIndex_lt (x := v))
  rw [if_neg (hother d hd)] at hread
  exact hread

/-- The pages of the tables that were there. -/
theorem pageEntry_tableMade (h : SpacesOk D s) (hm : m ∈ D) (hb : b < s.phys.mmngrMaxBlocks)
    (hfree : mmapTest s.phys b = false) (hd : d ∈ D)
    (habsent : pdEntryIsPresent (dirEntry s m virt) = false)
    (hp : pdEntryIsPresent (dirEntry s d v) = true) :
    dirEntry (tableMade s m virt flags b) d v = dirEntry s d v ∧
      pageEntry (tableMade s m virt flags b) d v = pageEntry s d v := by
  obtain ⟨-, hused, hout⟩ := h.table d hd v hp
  have hentry : dirEntry (tableMade s m virt flags b) d v = dirEntry s d v := by
    rw [dirEntry_tableMade_of_mem _ _ h hm hb hfree hd, if_neg]
    rintro ⟨rfl, hidx⟩
    rw [dirEntry_of_index hidx, habsent] at hp
    cases hp
  refine ⟨hentry, ?_⟩
  have hne : pdEntryGetFrame (dirEntry s d v) ≠ m := fun heq => hout (heq ▸ hm)
  have hread := memory_tableMade (s := s) virt flags (h.dir m hm).2.1
    (hb.trans_le h.small) (block_ne_used h.small hb hfree (h.dir m hm).2.2).symm
    (frame_frame (x := dirEntry s d v)) (pageTableIndex_lt (x := v))
  unfold pageEntry
  rw [hentry]
  exact hread.trans ((if_neg fun heq => hne heq.1).trans
    (if_neg (block_ne_used h.small hb hfree hused)))

/-- A new table is empty, and no other directory sees it. -/
theorem SpacesOk.tableMade (h : SpacesOk D s) (flags : BitVec 32) (hm : m ∈ D)
    (hb : b < s.phys.mmngrMaxBlocks)
    (hpos : 0 < b) (hfree : mmapTest s.phys b = false) (hflags : flags &&& i86PteFrame = 0#32)
    (hpresent : flags &&& i86PtePresent = i86PtePresent)
    (habsent : pdEntryIsPresent (dirEntry s m virt) = false) :
    SpacesOk D (tableMade s m virt flags b) ∧
      SpaceKept D (fun _ _ => False) s (MeOS.tableMade s m virt flags b) ∧
      pdEntryIsPresent (dirEntry (MeOS.tableMade s m virt flags b) m virt) = true ∧
      ∀ d ∈ D, SameTable (MeOS.tableMade s m virt flags b) m d virt → d = m := by
  have hlt : b < 1048576 := hb.trans_le h.small
  have hblock := block_frame hlt
  have hentry := fun d (hd : d ∈ D) v =>
    dirEntry_tableMade_of_mem (v := v) virt flags h hm hb hfree hd
  have hnot := fun g (hg : frameUsed s g) => block_ne_used h.small hb hfree hg
  have hmade := newEntry_spec (x := dirEntry s m virt) hblock hflags hpresent
  have hused : ∀ g, frameUsed s g → frameUsed (MeOS.tableMade s m virt flags b) g :=
    fun _ hg => frameUsed_take hg
  have hself : frameUsed (MeOS.tableMade s m virt flags b)
      (BitVec.ofNat 32 (b * pmmngrBlockSize)) := by
    show mmapTest (s.phys.take b) _ = true
    rw [ofNat_block hlt, mmapTest_take]
    simp
  refine ⟨⟨h.small, fun d hd => ?_, fun d hd v hp => ?_, fun d hd d' hd' v w hp hp' hframe => ?_⟩,
    ⟨fun d hd v hp => (pageEntry_tableMade h hm hb hfree hd habsent hp).1, fun d hd v _ => ?_⟩,
    ?_, fun d hd ⟨hp, hp', hframe⟩ => ?_⟩
  · obtain ⟨hne, hframe, hu⟩ := h.dir d hd
    exact ⟨hne, hframe, hused d hu⟩
  · rw [hentry d hd] at hp ⊢
    by_cases hslot : d = m ∧ pageDirIndex v = pageDirIndex virt
    · rw [if_pos hslot, hmade.1]
      exact ⟨block_ne_zero hpos hlt, hself, fun hin => hnot _ (h.dir _ hin).2.2 rfl⟩
    · rw [if_neg hslot] at hp ⊢
      obtain ⟨hne, hu, hout⟩ := h.table d hd v hp
      exact ⟨hne, hused _ hu, hout⟩
  · rw [hentry d hd] at hp hframe ⊢
    rw [hentry d' hd'] at hp' hframe ⊢
    -- the new table has the one entry, and no old table is in its frame
    by_cases hslot : d = m ∧ pageDirIndex v = pageDirIndex virt
    · by_cases hslot' : d' = m ∧ pageDirIndex w = pageDirIndex virt
      · rw [if_pos hslot, if_pos hslot']
        exact ⟨hslot.2.trans hslot'.2.symm, rfl⟩
      · rw [if_neg hslot'] at hp'
        rw [if_pos hslot, if_neg hslot', hmade.1] at hframe
        exact absurd hframe.symm (hnot _ (h.table d' hd' w hp').2.1)
    · rw [if_neg hslot] at hp
      by_cases hslot' : d' = m ∧ pageDirIndex w = pageDirIndex virt
      · rw [if_neg hslot, if_pos hslot', hmade.1] at hframe
        exact absurd hframe (hnot _ (h.table d hd v hp).2.1)
      · rw [if_neg hslot'] at hp'
        rw [if_neg hslot, if_neg hslot'] at hframe ⊢
        exact h.apart d hd d' hd' v w hp hp' hframe
  · by_cases hslot : d = m ∧ pageDirIndex v = pageDirIndex virt
    · obtain ⟨rfl, hidx⟩ := hslot
      have hempty : pageEntry (MeOS.tableMade s d virt flags b) d v = 0#32 := by
        have hne := hnot d (h.dir d hd).2.2
        unfold pageEntry pageSlot
        rw [hentry d hd, if_pos ⟨rfl, hidx⟩, hmade.1]
        have hread := memory_tableMade (s := s) virt flags (h.dir d hd).2.1
          hlt hne.symm hblock (pageTableIndex_lt (x := v))
        rw [if_neg (fun heq => hne heq.1.symm), if_pos rfl] at hread
        exact hread
      have hold : pdEntryIsPresent (dirEntry s d v) = false := by
        rwa [dirEntry_of_index hidx]
      unfold translate
      rw [hempty, hold, if_neg fun hboth => absurd hboth.2 (by decide), if_neg (by simp)]
    · have hsame : dirEntry (MeOS.tableMade s m virt flags b) d v = dirEntry s d v := by
        rw [hentry d hd, if_neg hslot]
      exact translate_congr hsame fun hp => (pageEntry_tableMade h hm hb hfree hd habsent hp).2
  · rw [hentry m hm, if_pos ⟨rfl, rfl⟩]
    exact hmade.2
  · by_contra hne
    rw [hentry m hm, if_pos ⟨rfl, rfl⟩, hmade.1, hentry d hd,
      if_neg fun heq => hne heq.1] at hframe
    rw [hentry d hd, if_neg fun heq => hne heq.1] at hp'
    exact hnot _ (h.table d hd virt hp').2.1 hframe.symm

/-! ## The calls on one page -/

theorem translate_of_present (hp : pdEntryIsPresent (dirEntry s d v) = true)
    (hpage : ptEntryIsPresent (pageEntry s d v) = true) :
    translate s d v = some (ptEntryGetFrame (pageEntry s d v) + (v &&& 0xfff#32)) :=
  if_pos ⟨hp, hpage⟩

/-- An address is its frame and its offset. -/
theorem frame_split (v : BitVec 32) : (v &&& i86PteFrame) + (v &&& 0xfff#32) = v := by
  rw [frame_add_offset frame_frame, ← BitVec.and_or_distrib_left,
    show i86PteFrame ||| 0xfff#32 = BitVec.allOnes 32 by decide, BitVec.and_allOnes]

/-- The frame bits of an entry are those of the address, whatever the address has below them. -/
theorem setFrame_any (phys : BitVec 32) (hpresent : flags &&& i86PtePresent = i86PtePresent) :
    ptEntryIsPresent (ptEntrySetFrame (x ||| flags) phys) = true ∧
      ptEntryGetFrame (ptEntrySetFrame (x ||| flags) phys) = phys &&& i86PteFrame := by
  obtain ⟨hframe, hpres⟩ := setFrame_offset (v := phys) (x := x ||| flags)
    (f := phys &&& i86PteFrame) frame_frame
  rw [frame_split] at hframe hpres
  exact ⟨hpres (ptEntryIsPresent_iff.mpr (or_and_of_le hpresent)), hframe⟩

/-- What `vmmngr_map_page` leaves: it reaches the page in the spaces that share its table, and
there it is mapped. A new table is a frame that was free. -/
structure MappedOk (D : List (BitVec 32)) (m phys virt : BitVec 32) (s : VmState)
    (r : VmState × ErrorT) : Prop where
  ok : SpacesOk D r.1
  kept : SpaceKept D (Touches s m virt) s r.1
  current : r.1.currentDirectory = s.currentDirectory
  max : r.1.phys.mmngrMaxBlocks = s.phys.mmngrMaxBlocks
  used : ∀ g, frameUsed s g → frameUsed r.1 g
  tables : ∀ d ∈ D, ∀ v, pdEntryIsPresent (dirEntry r.1 d v) = true →
    dirEntry r.1 d v = dirEntry s d v ∨ ¬ frameUsed s (pdEntryGetFrame (dirEntry r.1 d v))
  failed : r.2 = .occur → r.1 = s
  mapped : r.2 = .ok → ∀ v : BitVec 32, v >>> 12 = virt >>> 12 →
    translate r.1 m v = some ((phys &&& i86PteFrame) + (v &&& 0xfff#32))

/-- The entry of a page whose table is there. -/
theorem SpacesOk.pageMapped (h : SpacesOk D s) (phys : BitVec 32) (hm : m ∈ D)
    (hp : pdEntryIsPresent (dirEntry s m virt) = true)
    (hpresent : flags &&& i86PtePresent = i86PtePresent) :
    MappedOk D m phys virt s (pageMapped s m phys virt flags, .ok) := by
  obtain ⟨hok, hkept⟩ := h.storePage hm hp (ptEntrySetFrame (pageEntry s m virt ||| flags) phys)
  refine ⟨hok, hkept, rfl, rfl, fun _ => id, fun d hd v _ => Or.inl (dirEntry_storePage h hm hp hd),
    fun hfail => ErrorT.noConfusion hfail, fun _ v hv => ?_⟩
  have htouch : Touches s m virt m v := ⟨hv, Or.inl rfl⟩
  have hentry := dirEntry_of_index (s := s) (d := m) (samePage_iff.mp hv).1
  have hpv : pdEntryIsPresent (dirEntry s m v) = true := by rwa [hentry]
  have hdir : dirEntry (MeOS.pageMapped s m phys virt flags) m v = dirEntry s m v :=
    dirEntry_storePage h hm hp hm
  have hpage : pageEntry (MeOS.pageMapped s m phys virt flags) m v =
      ptEntrySetFrame (pageEntry s m virt ||| flags) phys :=
    (pageEntry_storePage h hm hp hm hpv).1 htouch
  obtain ⟨hpres, hframe⟩ := setFrame_any (x := pageEntry s m virt) phys hpresent
  rw [translate_of_present (by rwa [hdir]) (by rwa [hpage]), hpage, hframe]

/-- Each way in which a mapping ends. -/
theorem SpacesOk.mapResult (h : SpacesOk D s) (hm : m ∈ D) (hflags : flags < 0x1000#32)
    (hpresent : flags &&& i86PtePresent = i86PtePresent) {r : VmState × ErrorT}
    (hr : MapResult s m phys virt flags r) : MappedOk D m phys virt s r := by
  cases hr with
  | noTable hp hnull => exact absurd hnull (h.table m hm virt hp).1
  | noBlock habsent halloc =>
    exact ⟨h, .refl D _ s, rfl, rfl, fun _ => id, fun _ _ _ _ => Or.inl rfl, fun _ => rfl,
      fun hok => ErrorT.noConfusion hok⟩
  | mapped hp hframe => exact h.pageMapped phys hm hp hpresent
  | @made b habsent hpos hb hfree halloc =>
    obtain ⟨hok, hkept, hp, honly⟩ :=
      h.tableMade flags hm hb hpos hfree (flags_frame hflags) hpresent habsent
    have hmapped := hok.pageMapped phys hm hp hpresent
    -- no other space has the new table
    have hreach : ∀ d ∈ D, ∀ v, Touches (MeOS.tableMade s m virt flags b) m virt d v →
        Touches s m virt d v := by
      rintro d hd v ⟨hpage, rfl | hsame⟩
      · exact ⟨hpage, Or.inl rfl⟩
      · exact ⟨hpage, Or.inl (honly d hd hsame)⟩
    refine ⟨hmapped.ok, (hkept.mono fun _ _ _ hno => hno.elim).trans (hmapped.kept.mono hreach),
      rfl, rfl, fun g hg => hmapped.used g (frameUsed_take hg), fun d hd v hpv => ?_,
      fun hfail => ErrorT.noConfusion hfail, hmapped.mapped⟩
    -- the entry is an old one, or that of the block
    have hlt : b < 1048576 := hb.trans_le h.small
    have hentry : dirEntry
        (MeOS.pageMapped (MeOS.tableMade s m virt flags b) m phys virt flags) d v =
        dirEntry (MeOS.tableMade s m virt flags b) d v := dirEntry_storePage hok hm hp hd
    rw [hentry, dirEntry_tableMade_of_mem virt flags h hm hb hfree hd]
    by_cases hslot : d = m ∧ pageDirIndex v = pageDirIndex virt
    · right
      rw [if_pos hslot, (newEntry_spec (block_frame hlt) (flags_frame hflags) hpresent).1]
      exact not_frameUsed_block hlt hfree
    · left
      rw [if_neg hslot]

/-- `vmmngr_map_page` returns, and reaches one page. -/
theorem mapPage_reaches (h : SpacesOk D s) (hm : m ∈ D) (phys virt flags : BitVec 32)
    (hflags : flags < 0x1000#32) (hpresent : flags &&& i86PtePresent = i86PtePresent) :
    ∃ r, vmmngrMapPage s m phys virt flags = .ret r ∧ MappedOk D m phys virt s r := by
  obtain ⟨r, hret, hr⟩ := mapPage_result phys virt flags (h.dir m hm).1 h.small
  exact ⟨r, hret, h.mapResult hm hflags hpresent hr⟩

/-- What a call on the page of `virt` in the space `m` leaves, when it gives back the frames of
`freed`. -/
structure Reached (D : List (BitVec 32)) (m virt : BitVec 32) (freed : BitVec 32 → Prop)
    (s s' : VmState) : Prop where
  ok : SpacesOk D s'
  kept : SpaceKept D (Touches s m virt) s s'
  current : s'.currentDirectory = s.currentDirectory
  used : ∀ g, g &&& i86PteFrame = g → ¬ freed g → frameUsed s g → frameUsed s' g
  tables : ∀ d ∈ D, ∀ v, pdEntryIsPresent (dirEntry s' d v) = true →
    dirEntry s' d v = dirEntry s d v ∨ ¬ frameUsed s (pdEntryGetFrame (dirEntry s' d v))

theorem MappedOk.reached {r : VmState × ErrorT} (h : MappedOk D m phys virt s r) :
    Reached D m virt (fun _ => False) s r.1 :=
  ⟨h.ok, h.kept, h.current, fun g _ _ => h.used g, h.tables⟩

/-- `vmmngr_alloc_page_f` returns, and reaches one page. -/
theorem allocPageF_reaches (h : SpacesOk D s) (hm : s.currentDirectory ∈ D) (base : BitVec 32)
    (hflags : flags < 0x1000#32) (hpresent : flags &&& i86PtePresent = i86PtePresent) :
    ∃ r, vmmngrAllocPageF s base flags = .ret r ∧
      Reached D s.currentDirectory base (fun _ => False) s r.1 := by
  obtain ⟨r, hret, hr⟩ := allocPageF_result base flags (h.dir _ hm).1 h.small
  refine ⟨r, hret, ?_⟩
  cases hr with
  | present hp hr => exact (h.mapResult hm hflags hpresent hr).reached
  | noBlock hp hbase hnone =>
    exact ⟨h, .refl D _ s, rfl, fun _ _ _ => id, fun _ _ _ _ => Or.inl rfl⟩
  | taken hp hbase hblock hr =>
    have hmapped := (h.take (mmapFirstFree s.phys)).mapResult hm hflags hpresent hr
    exact ⟨hmapped.ok, ⟨hmapped.kept.entry, hmapped.kept.page⟩, hmapped.current,
      fun g _ _ hused => hmapped.used g (frameUsed_take hused), fun d hd v hp =>
        (hmapped.tables d hd v hp).imp id fun hno hused => hno (frameUsed_take hused)⟩
  | device hp hbase hr => exact (h.mapResult hm hflags hpresent hr).reached

/-! ## Freeing a page -/

/-- The frame is neither a directory nor a table. -/
def FreeableFrame (D : List (BitVec 32)) (s : VmState) (f : BitVec 32) : Prop :=
  f ∉ D ∧ ∀ d ∈ D, ∀ v, pdEntryIsPresent (dirEntry s d v) = true →
    pdEntryGetFrame (dirEntry s d v) ≠ f

theorem exists_pageDirIndex {i : Nat} (hi : i < 1024) : ∃ v : BitVec 32, pageDirIndex v = i := by
  refine ⟨BitVec.ofNat 32 (i * 4194304), ?_⟩
  rw [pageDirIndex_eq, BitVec.toNat_ofNat, Nat.mod_eq_of_lt (by omega)]
  omega

/-- The tables of the current space are apart. -/
theorem SpacesOk.tablesApart (h : SpacesOk D s) (hm : s.currentDirectory ∈ D) :
    TablesApart s where
  dir := (h.dir _ hm).1
  aligned := (h.dir _ hm).2.1
  nonzero i hi hp := by
    obtain ⟨v, rfl⟩ := exists_pageDirIndex hi
    exact (h.table _ hm v hp).1
  notDir i hi hp heq := by
    obtain ⟨v, rfl⟩ := exists_pageDirIndex hi
    have hout := (h.table _ hm v hp).2.2
    exact hout (show tableFrame s (pageDirIndex v) ∈ D by rwa [heq])
  apart i hi j hj hp hp' hframe := by
    obtain ⟨v, rfl⟩ := exists_pageDirIndex hi
    obtain ⟨w, rfl⟩ := exists_pageDirIndex hj
    exact (h.apart _ hm _ hm v w hp hp' hframe).1

/-- Only the freed frame goes out of use. -/
theorem frameUsed_freedPhys {g : BitVec 32} (hf : f &&& i86PteFrame = f)
    (hg : g &&& i86PteFrame = g) (hne : g ≠ f) (hused : frameUsed s g) :
    frameUsed { s with phys := freedPhys s f } g := by
  by_cases hz : f = 0#32
  · unfold frameUsed freedPhys
    rw [if_neg (by simpa using hz)]
    exact hused
  · exact (used_freed hf hg hz rfl).mpr ⟨hne, hused⟩

/-- Freeing the page of `virt` in the space `m` gives back its frame, and the page is absent
wherever it was seen. -/
structure FreedOk (D : List (BitVec 32)) (m virt : BitVec 32) (s s' : VmState) : Prop extends
    Reached D m virt (fun g => g = pageFrame s virt) s s' where
  gone : ∀ d ∈ D, ∀ v, Touches s m virt d v → translate s' d v = none

/-- `vmmngr_free_page_addr` returns, and reaches one page. -/
theorem freePageAddr_reaches (h : SpacesOk D s) (hm : s.currentDirectory ∈ D)
    (hp : pdEntryIsPresent (dirEntry s s.currentDirectory v) = true)
    (hfree : FreeableFrame D s (pageFrame s v)) :
    ∃ s', vmmngrFreePageAddr s v = .ret s' ∧ FreedOk D s.currentDirectory v s s' := by
  have heq : ∃ x, vmmngrFreePageAddr s v = .ret (freedPage s v x) ∧
      ptEntryIsPresent x = false := free_eq (h.tablesApart hm) hp
  obtain ⟨x, hret, hx⟩ := heq
  refine ⟨_, hret, ?_⟩
  -- the frame goes back first, and no directory or table is in it
  have hphys : SpacesOk D { s with phys := freedPhys s (pageFrame s v) } := by
    have hmax : ({ s with phys := freedPhys s (pageFrame s v) } : VmState).phys.mmngrMaxBlocks =
        s.phys.mmngrMaxBlocks := freedPhys_max
    refine h.congr hmax (fun _ _ _ => rfl) ?_ ?_
    · intro d hd hused
      exact frameUsed_freedPhys pageFrame_frame (h.dir d hd).2.1
        (fun heq => hfree.1 (heq ▸ hd)) hused
    · intro d hd w hpw hused
      exact frameUsed_freedPhys pageFrame_frame frame_frame (hfree.2 d hd w hpw) hused
  obtain ⟨hok, hkept⟩ := hphys.storePage hm hp x
  have hentries : ∀ d ∈ D, ∀ w, dirEntry (freedPage s v x) d w = dirEntry s d w :=
    fun d hd w => dirEntry_storePage hphys hm hp hd
  refine ⟨⟨hok, ⟨hkept.entry, hkept.page⟩, rfl,
    fun g hg hne hused => frameUsed_freedPhys pageFrame_frame hg hne hused,
    fun d hd w _ => Or.inl (hentries d hd w)⟩, fun d hd w htouch => ?_⟩
  apply if_neg
  rintro ⟨hpw, hpage⟩
  rw [hentries d hd] at hpw
  have hread : pageEntry (freedPage s v x) d w = x :=
    (pageEntry_storePage hphys hm hp hd hpw).1 htouch
  rw [hread, hx] at hpage
  cases hpage

/-! ## A new space -/

/-- A frame that has been copied to holds the words of the other. -/
theorem copy_slot {k g : BitVec 32} (hf : f &&& i86PteFrame = f) (hg : g &&& i86PteFrame = g)
    {j : Nat} (hj : j < 1024) : (s.copy f.toNat k.toNat 4096).memory (g.toNat + 4 * j) =
      if g = f then s.memory (k.toNat + 4 * j) else s.memory (g.toNat + 4 * j) := by
  have hfm := frame_toNat_mod hf
  have hgm := frame_toNat_mod hg
  unfold VmState.copy
  dsimp only
  by_cases hgf : g = f
  · subst hgf
    rw [if_pos rfl, if_pos (by omega), Nat.add_sub_cancel_left]
  · have hne : g.toNat ≠ f.toNat := fun heq => hgf (BitVec.eq_of_toNat_eq heq)
    rw [if_neg hgf, if_neg (by omega)]

/-- The state with block `b` as a copy of the directory `k`. -/
def spaceMade (s : VmState) (k : BitVec 32) (b : Nat) : VmState :=
  let f := BitVec.ofNat 32 (b * pmmngrBlockSize)
  (({ s with phys := s.phys.take b }).clear f.toNat 4096).copy f.toNat k.toNat 4096

theorem memory_spaceMade {k g : BitVec 32} (hb : b < 1048576) (hk : k &&& i86PteFrame = k)
    (hne : k ≠ BitVec.ofNat 32 (b * pmmngrBlockSize)) (hg : g &&& i86PteFrame = g) {j : Nat}
    (hj : j < 1024) : (spaceMade s k b).memory (g.toNat + 4 * j) =
      if g = BitVec.ofNat 32 (b * pmmngrBlockSize) then s.memory (k.toNat + 4 * j)
      else s.memory (g.toNat + 4 * j) := by
  have hf := block_frame hb
  have hcopy := copy_slot (s := ({ s with phys := s.phys.take b } : VmState).clear
    (BitVec.ofNat 32 (b * pmmngrBlockSize)).toNat 4096) (k := k) hf hg hj
  refine hcopy.trans ?_
  by_cases hgf : g = BitVec.ofNat 32 (b * pmmngrBlockSize)
  · rw [if_pos hgf, if_pos hgf]
    exact (clear_slot hf hk hj).trans (if_neg hne)
  · rw [if_neg hgf, if_neg hgf]
    exact (clear_slot hf hg hj).trans (if_neg hgf)

/-- `process_create` makes a space, or there is no block. -/
theorem createSpace_result {k : BitVec 32} (hsmall : s.phys.mmngrMaxBlocks ≤ 1048576) :
    (vmmngrCreateAddressSpace s = (s, 0#32)) ∨
      ∃ b, 0 < b ∧ b < s.phys.mmngrMaxBlocks ∧ mmapTest s.phys b = false ∧
        (vmmngrCreateAddressSpace s).2 = BitVec.ofNat 32 (b * pmmngrBlockSize) ∧
        (vmmngrMapKernelSpace (vmmngrCreateAddressSpace s).1 k (vmmngrCreateAddressSpace s).2).1 =
          spaceMade s k b := by
  obtain ⟨ps, addr, halloc⟩ : ∃ ps addr, pmmngrAllocBlock s.phys = (ps, addr) := ⟨_, _, rfl⟩
  rcases allocBlock_spec hsmall halloc with ⟨hzero, hps⟩ | ⟨b, haddr, hpos, hb, hfree, hps⟩
  · left
    unfold vmmngrCreateAddressSpace
    rw [halloc]
    dsimp only
    rw [if_pos hzero, hps]
  · right
    have hlt : b < 1048576 := hb.trans_le hsmall
    have hne : addr ≠ 0 := by
      simp only [pmmngrBlockSize] at haddr
      omega
    have hmade : vmmngrCreateAddressSpace s =
        (({ s with phys := s.phys.take b }).clear addr 4096, BitVec.ofNat 32 addr) := by
      unfold vmmngrCreateAddressSpace
      rw [halloc]
      dsimp only
      rw [if_neg hne, hps]
    rw [hmade]
    refine ⟨b, hpos, hb, hfree, by rw [haddr], ?_⟩
    unfold vmmngrMapKernelSpace spaceMade
    dsimp only
    rw [haddr, if_neg (block_ne_zero hpos hlt), block_toNat hlt]

/-- The new space is a copy of the kernel's in a frame that was free, and the others are as
before. -/
theorem SpacesOk.spaceMade {k : BitVec 32} (h : SpacesOk D s) (hk : k ∈ D)
    (hb : b < s.phys.mmngrMaxBlocks) (hpos : 0 < b) (hfree : mmapTest s.phys b = false)
    (hf : BitVec.ofNat 32 (b * pmmngrBlockSize) = f) :
    SpacesOk (f :: D) (spaceMade s k b) ∧
      (∀ d ∈ D, ∀ v, dirEntry (MeOS.spaceMade s k b) d v = dirEntry s d v ∧
        translate (MeOS.spaceMade s k b) d v = translate s d v) ∧
      ∀ v, dirEntry (MeOS.spaceMade s k b) f v = dirEntry s k v ∧
        translate (MeOS.spaceMade s k b) f v = translate s k v := by
  have hlt : b < 1048576 := hb.trans_le h.small
  have hblock := block_frame hlt
  have hnot := fun g (hg : frameUsed s g) => block_ne_used h.small hb hfree hg
  have hread := fun g (hg : g &&& i86PteFrame = g) j (hj : j < 1024) => memory_spaceMade (s := s)
    hlt (h.dir k hk).2.1 (hnot k (h.dir k hk).2.2) hg hj
  have hzero := block_ne_zero hpos hlt
  have hself := ofNat_block hlt
  rw [hf] at hblock hnot hread hzero hself
  -- the directory whose entries a directory has now
  let origin : BitVec 32 → BitVec 32 := fun d => if d = f then k else d
  have horigin : ∀ d ∈ f :: D, origin d ∈ D := by
    intro d hd
    by_cases hdf : d = f
    · simpa [origin, hdf] using hk
    · simpa [origin, hdf] using (List.mem_cons.mp hd).resolve_left hdf
  have hframes : ∀ d ∈ f :: D, d &&& i86PteFrame = d := by
    intro d hd
    rcases List.mem_cons.mp hd with rfl | hold
    · exact hblock
    · exact (h.dir d hold).2.1
  have hentry : ∀ d ∈ f :: D, ∀ v,
      dirEntry (MeOS.spaceMade s k b) d v = dirEntry s (origin d) v := by
    intro d hd v
    refine (hread d (hframes d hd) _ pageDirIndex_lt).trans ?_
    by_cases hdf : d = f
    · simp [origin, hdf, dirEntry]
    · simp [origin, hdf, dirEntry]
  have hpage : ∀ d ∈ f :: D, ∀ v, pdEntryIsPresent (dirEntry s (origin d) v) = true →
      pageEntry (MeOS.spaceMade s k b) d v = pageEntry s (origin d) v := by
    intro d hd v hp
    have hused := (h.table _ (horigin d hd) v hp).2.1
    unfold pageEntry
    rw [hentry d hd]
    exact (hread _ frame_frame _ pageTableIndex_lt).trans (if_neg (hnot _ hused))
  have hsame : ∀ d ∈ f :: D, ∀ v,
      translate (MeOS.spaceMade s k b) d v = translate s (origin d) v :=
    fun d hd v => translate_congr (hentry d hd v) (hpage d hd v)
  have hold : ∀ d ∈ D, origin d = d := by
    intro d hd
    have hne : d ≠ f := hnot d (h.dir d hd).2.2
    simp [origin, hne]
  have hused : ∀ g, frameUsed s g → frameUsed (MeOS.spaceMade s k b) g :=
    fun _ hg => frameUsed_take hg
  refine ⟨⟨h.small, fun d hd => ?_, fun d hd v hp => ?_, fun d hd d' hd' v w hp hp' hframe => ?_⟩,
    fun d hd v => ?_, fun v => ?_⟩
  · rcases List.mem_cons.mp hd with rfl | hin
    · refine ⟨hzero, hblock, ?_⟩
      show mmapTest (s.phys.take b) _ = true
      rw [hself, mmapTest_take]
      simp
    · obtain ⟨hne, hframe, hu⟩ := h.dir d hin
      exact ⟨hne, hframe, hused d hu⟩
  · rw [hentry d hd] at hp ⊢
    obtain ⟨hne, hu, hout⟩ := h.table _ (horigin d hd) v hp
    refine ⟨hne, hused _ hu, fun hin => ?_⟩
    rcases List.mem_cons.mp hin with heq | hin
    · exact hnot _ hu heq
    · exact hout hin
  · rw [hentry d hd] at hp hframe ⊢
    rw [hentry d' hd'] at hp' hframe ⊢
    exact h.apart _ (horigin d hd) _ (horigin d' hd') v w hp hp' hframe
  · rw [hentry d (List.mem_cons_of_mem f hd), hsame d (List.mem_cons_of_mem f hd), hold d hd]
    exact ⟨rfl, rfl⟩
  · rw [hentry f List.mem_cons_self, hsame f List.mem_cons_self]
    simp [origin]

end Frames

end MeOS
