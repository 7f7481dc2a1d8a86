import MeOS.Lib.Ownership
import MeOS.Lib.Runs
import MeOS.PageTables

/-! # Frames of the present pages

`vmmngr_alloc_page_f` and `vmmngr_free_page_addr` over one address space. The
present pages own their frames. Freeing a page leaves the frame bits in its
entry, and freeing it again gives back the frame they name, which another page
may own by then.
-/

namespace MeOS

open WordFields Ownership Runs

/-- The frame in the entry of the page of `v`. -/
def pageFrame (s : VmState) (v : BitVec 32) : BitVec 32 := vmmngrGetPhysAddr s v &&& i86PteFrame

/-- The frame is in use. -/
def frameUsed (s : VmState) (f : BitVec 32) : Prop := mmapTest s.phys (f.toNat / pmmngrBlockSize)

/-- No two present pages share a frame, and their frames are in use. -/
def FramesOwned (s : VmState) : Prop :=
  (∀ v w : BitVec 32, vmmngrIsPagePresent s v = true → vmmngrIsPagePresent s w = true →
    v >>> 12 ≠ w >>> 12 → pageFrame s v ≠ pageFrame s w) ∧
  ∀ v, vmmngrIsPagePresent s v = true → frameUsed s (pageFrame s v)

/-- Page `p` is present with frame `f`. -/
def Maps (s : VmState) (p f : BitVec 32) : Prop :=
  ∃ v : BitVec 32, v >>> 12 = p ∧ vmmngrIsPagePresent s v = true ∧ pageFrame s v = f

section Frames

variable {s s' : VmState} {v base flags x : BitVec 32}

theorem framesOwned_iff : FramesOwned s ↔ Owned (Maps s) (frameUsed s) := by
  constructor
  · intro ⟨hun, hused⟩
    constructor
    · intro p q f ⟨v, hv, hpv, hfv⟩ ⟨w, hw, hpw, hfw⟩
      by_contra hne
      exact hun v w hpv hpw (by rwa [hv, hw]) (hfv.trans hfw.symm)
    · intro p f ⟨v, _, hpv, hfv⟩
      rw [← hfv]
      exact hused v hpv
  · intro h
    constructor
    · intro v w hpv hpw hne heq
      exact hne (h.unshared _ _ _ ⟨v, rfl, hpv, heq⟩ ⟨w, rfl, hpw, rfl⟩)
    · intro v hpv
      exact h.used _ _ ⟨v, rfl, hpv, rfl⟩

theorem offset_frame : (v &&& 0xfff#32) &&& i86PteFrame = 0#32 := by
  rw [BitVec.and_assoc, show 0xfff#32 &&& i86PteFrame = 0#32 by decide, BitVec.and_zero]

/-- A frame address with an offset is the frame address or the offset. -/
theorem frame_add_offset {f : BitVec 32} (hf : f &&& i86PteFrame = f) :
    f + (v &&& 0xfff#32) = f ||| (v &&& 0xfff#32) := by
  apply BitVec.add_eq_or_of_and_eq_zero
  rw [← hf, BitVec.and_assoc, BitVec.and_comm i86PteFrame, offset_frame, BitVec.and_zero]

theorem ptEntryGetFrame_frame : ptEntryGetFrame x &&& i86PteFrame = ptEntryGetFrame x :=
  frame_frame

/-- The frame of an address is the one in the entry. -/
theorem pageFrame_of_phys (h : vmmngrGetPhysAddr s v = ptEntryGetFrame x + (v &&& 0xfff#32)) :
    pageFrame s v = ptEntryGetFrame x := by
  unfold pageFrame
  rw [h, frame_add_offset ptEntryGetFrame_frame, get_or offset_frame, ptEntryGetFrame_frame]

theorem pageFrame_frame : pageFrame s v &&& i86PteFrame = pageFrame s v := frame_frame

/-- The frame of a page whose table exists is in its entry, be it present or not. -/
theorem pageFrame_eq (h : TablesApart s)
    (hp : pdEntryIsPresent (pdEntry s (pageDirIndex v)) = true) : pageFrame s v =
      ptEntryGetFrame (ptEntry s (pageDirIndex v) (pageTableIndex v)) :=
  pageFrame_of_phys (getPhysAddr_eq h.dir (h.nonzero _ pageDirIndex_lt hp))

theorem ptEntryIsPresent_iff {e : BitVec 32} :
    ptEntryIsPresent e = true ↔ e &&& i86PtePresent = i86PtePresent := by
  have h : pdEntryIsPresent e = true ↔ pdEntryTestAttrib e i86PtePresent = true := by
    rw [pdEntryTestAttrib_present]
  exact h.trans beq_iff_eq

/-- What a write to the entry of `base` makes of the present pages. -/
theorem maps_storeEntry (h : TablesApart s)
    (hp : pdEntryIsPresent (pdEntry s (pageDirIndex base)) = true) {p f : BitVec 32} :
    Maps (storeEntry s (pageDirIndex base) (pageTableIndex base) x) p f ↔
      (p = base >>> 12 ∧ ptEntryIsPresent x = true ∧ ptEntryGetFrame x = f) ∨
        (p ≠ base >>> 12 ∧ Maps s p f) := by
  constructor
  · intro ⟨v, hv, hpv, hfv⟩
    by_cases hsame : v >>> 12 = base >>> 12
    · rcases storeEntry_self (x := x) h hp hsame with ⟨hpres, hphys⟩
      rw [hpres] at hpv
      rw [pageFrame_of_phys hphys] at hfv
      exact Or.inl ⟨hv ▸ hsame, hpv, hfv⟩
    · rw [isPagePresent_storeEntry h hp hsame] at hpv
      have hdir := ((isPagePresent_eq h.dir).mp hpv).1
      unfold pageFrame at hfv
      rw [getPhysAddr_storeEntry h hp hsame (Or.inl hdir)] at hfv
      exact Or.inr ⟨hv ▸ hsame, v, hv, hpv, hfv⟩
  · intro hcases
    rcases hcases with ⟨hpage, hpres, hframe⟩ | ⟨hne, v, hv, hpv, hfv⟩
    · rcases storeEntry_self (v := base) (x := x) h hp rfl with ⟨hpres', hphys⟩
      exact ⟨base, hpage.symm, hpres'.trans hpres, (pageFrame_of_phys hphys).trans hframe⟩
    · have hsame : v >>> 12 ≠ base >>> 12 := hv ▸ hne
      have hdir := ((isPagePresent_eq h.dir).mp hpv).1
      refine ⟨v, hv, ?_, ?_⟩
      · rwa [isPagePresent_storeEntry h hp hsame]
      · unfold pageFrame
        rwa [getPhysAddr_storeEntry h hp hsame (Or.inl hdir)]

theorem Maps.frame {p f : BitVec 32} (h : Maps s p f) : f &&& i86PteFrame = f := by
  rcases h with ⟨v, _, _, hf⟩
  rw [← hf]
  exact pageFrame_frame

/-- The page of `base` maps its frame when it is present. -/
theorem maps_base (hp : vmmngrIsPagePresent s base = true) :
    Maps s (base >>> 12) (pageFrame s base) := ⟨base, rfl, hp, rfl⟩

/-- A present page maps one frame. -/
theorem Maps.eq_pageFrame (h : TablesApart s)
    (hp : pdEntryIsPresent (pdEntry s (pageDirIndex base)) = true) {f : BitVec 32}
    (hm : Maps s (base >>> 12) f) : f = pageFrame s base ∧ vmmngrIsPagePresent s base = true := by
  rcases hm with ⟨v, hv, hpv, hfv⟩
  rcases samePage_iff.mp hv with ⟨hi, hj⟩
  have hpv' := (isPagePresent_eq h.dir).mp hpv
  constructor
  · rw [← hfv, pageFrame_eq h hp, pageFrame_eq h hpv'.1, hi, hj]
  · rw [hi, hj] at hpv'
    exact (isPagePresent_eq h.dir).mpr hpv'

/-! ## Allocating a page -/

/-- Setting the frame to an address with an offset. -/
theorem setFrame_offset {f : BitVec 32} (hf : f &&& i86PteFrame = f) :
    ptEntryGetFrame (ptEntrySetFrame x (f + (v &&& 0xfff#32))) = f ∧
      (ptEntryIsPresent x = true →
        ptEntryIsPresent (ptEntrySetFrame x (f + (v &&& 0xfff#32))) = true) := by
  unfold ptEntryGetFrame ptEntrySetFrame
  rw [frame_add_offset hf, ← BitVec.or_assoc]
  constructor
  · rw [get_or offset_frame]
    exact get_set hf
  · intro hx
    rw [ptEntryIsPresent_iff] at hx ⊢
    rw [BitVec.or_comm]
    apply or_and_of_le
    rw [and_set hf (by decide), hx]

/-- A page that is present gets further flags and keeps its frame. -/
theorem alloc_present (flags : BitVec 32) (h : TablesApart s)
    (hp : vmmngrIsPagePresent s base = true) :
    ∃ x, vmmngrAllocPageF s base flags =
        .ret (storeEntry s (pageDirIndex base) (pageTableIndex base) x, .ok) ∧
      ptEntryIsPresent x = true ∧ ptEntryGetFrame x = pageFrame s base := by
  have hpd := (isPagePresent_eq h.dir).mp hp
  have hphys := getPhysAddr_eq h.dir hpd.2.1
  have hset := setFrame_offset (v := base)
    (x := ptEntry s (pageDirIndex base) (pageTableIndex base) ||| flags)
    (ptEntryGetFrame_frame (x := ptEntry s (pageDirIndex base) (pageTableIndex base)))
  rw [← hphys] at hset
  refine ⟨_, ?_, hset.2 ?_, ?_⟩
  · unfold vmmngrAllocPageF
    rw [if_pos hp, mapPage_present h hpd.1]
  · rw [ptEntryIsPresent_iff, BitVec.or_comm]
    apply or_and_of_le
    exact ptEntryIsPresent_iff.mp hpd.2.2
  · rw [hset.1, pageFrame_eq h hpd.1]

/-- An absent page below 0xF0000000 gets the block of the allocator. -/
theorem alloc_absent (flags : BitVec 32) (h : TablesApart s)
    (hsmall : s.phys.mmngrMaxBlocks ≤ 1048576)
    (hp : vmmngrIsPagePresent s base = false) (hbase : base < 0xF0000000#32)
    (hpd : pdEntryIsPresent (pdEntry s (pageDirIndex base)) = true) :
    vmmngrAllocPageF s base flags = .ret (s, .occur) ∨
      ∃ b x, 0 < b ∧ b < 1048576 ∧ mmapTest s.phys b = false ∧
        vmmngrAllocPageF s base flags = .ret (storeEntry { s with phys := s.phys.take b }
          (pageDirIndex base) (pageTableIndex base) x, .ok) ∧
        ptEntryGetFrame x = BitVec.ofNat 32 (b * pmmngrBlockSize) := by
  obtain ⟨ps, addr, hal⟩ : ∃ ps addr, pmmngrAllocBlock s.phys = (ps, addr) := ⟨_, _, rfl⟩
  have heq : vmmngrAllocPageF s base flags =
      if addr = 0 then .ret ({ s with phys := ps }, .occur)
      else vmmngrMapPage { s with phys := ps } s.currentDirectory (BitVec.ofNat 32 addr)
        base flags := by
    unfold vmmngrAllocPageF
    rw [if_neg (by rw [hp]; decide), if_pos hbase, hal]
  rcases allocBlock_spec hsmall hal with ⟨hzero, hps⟩ | ⟨b, haddr, hpos, hlt, hfree, hps⟩
  · left
    rw [heq, if_pos hzero, hps]
  · right
    rcases allocBlock_aligned hal with ⟨hlt32, hmod⟩
    have hne : addr ≠ 0 := by
      simp only [pmmngrBlockSize] at haddr
      omega
    rw [if_neg hne] at heq
    refine ⟨b, ptEntrySetFrame (ptEntry s (pageDirIndex base) (pageTableIndex base) ||| flags)
      (BitVec.ofNat 32 addr), hpos, by omega, hfree, ?_, ?_⟩
    · rw [heq, hps]
      have hapart : TablesApart { s with phys := s.phys.take b } := h.congr rfl fun _ _ => rfl
      exact mapPage_present hapart hpd
    · rw [← haddr]
      exact get_set (ofNat_frame hlt32 hmod)

theorem ofNat_block {b : Nat} (hb : b < 1048576) :
    (BitVec.ofNat 32 (b * pmmngrBlockSize)).toNat / pmmngrBlockSize = b := by
  simp only [pmmngrBlockSize]
  rw [BitVec.toNat_ofNat, Nat.mod_eq_of_lt (by omega)]
  omega

/-- Frames in different blocks. -/
theorem block_inj {f g : BitVec 32} (hf : f &&& i86PteFrame = f) (hg : g &&& i86PteFrame = g)
    (h : f.toNat / pmmngrBlockSize = g.toNat / pmmngrBlockSize) : f = g := by
  have hfm := frame_toNat_mod hf
  have hgm := frame_toNat_mod hg
  simp only [pmmngrBlockSize] at h
  exact BitVec.eq_of_toNat_eq (by omega)

/-! ## Freeing a page -/

/-- The allocator after the frame of a page has been given back. -/
def freedPhys (s : VmState) (f : BitVec 32) : PhysState :=
  if f ≠ 0#32 then pmmngrFreeBlock s.phys f.toNat else s.phys

/-- The state after the page of `base` gave back its frame and its entry became `x`. -/
def freedPage (s : VmState) (base x : BitVec 32) : VmState :=
  storeEntry { s with phys := freedPhys s (pageFrame s base) }
    (pageDirIndex base) (pageTableIndex base) x

/-- The entry of a freed page is absent. -/
theorem delAttribs_absent : ptEntryIsPresent
    (ptEntryDelAttrib (ptEntryDelAttrib x i86PtePresent) i86PteWritable) = false := by
  rw [Bool.eq_false_iff, ne_eq, ptEntryIsPresent_iff]
  unfold ptEntryDelAttrib
  rw [get_del (by decide), del_and_self]
  decide

/-- `vmmngr_free_page_addr` gives back the frame in the entry, and makes the page absent. -/
theorem free_eq (h : TablesApart s)
    (hp : pdEntryIsPresent (pdEntry s (pageDirIndex base)) = true) :
    ∃ x, vmmngrFreePageAddr s base = .ret (freedPage s base x) ∧
      ptEntryIsPresent x = false := by
  have ht := h.nonzero _ pageDirIndex_lt hp
  refine ⟨ptEntryDelAttrib (ptEntryDelAttrib
    (ptEntry s (pageDirIndex base) (pageTableIndex base)) i86PtePresent) i86PteWritable, ?_,
    delAttribs_absent⟩
  unfold vmmngrFreePageAddr
  rw [lookupDirectory h.dir]
  dsimp only
  change Outcome.ret (vmmngrFreePage s
    (vmmngrPtableLookupEntry (tableFrame s (pageDirIndex base)) base)).1 = _
  rw [lookupTable ht]
  unfold vmmngrFreePage
  dsimp only
  unfold freedPage
  rw [store_store, store_self, pageFrame_eq h hp]
  unfold storeEntry ptEntry freedPhys
  by_cases hz : ptEntryGetFrame (s.memory ((tableFrame s (pageDirIndex base)).toNat +
      4 * pageTableIndex base)) ≠ 0#32
  · rw [if_pos hz, if_pos hz]
    rfl
  · rw [if_neg hz, if_neg hz]

/-! ## Steps -/

/-- Calls on single pages. -/
inductive PageCall where
  | alloc (base flags : BitVec 32)
  | free (addr : BitVec 32)
deriving Repr, DecidableEq

/-- The address of a call. -/
def PageCall.addr : PageCall → BitVec 32
  | .alloc base _ => base
  | .free addr => addr

/-- Execute a call. -/
def PageCall.exec (s : VmState) : PageCall → Outcome VmState
  | .alloc base flags => do
    let (s, _) ← vmmngrAllocPageF s base flags
    return s
  | .free addr => vmmngrFreePageAddr s addr

/-- The address is below the devices, and its table exists. -/
def PageCall.Made (s : VmState) (c : PageCall) : Prop :=
  c.addr < 0xF0000000#32 ∧ pdEntryIsPresent (pdEntry s (pageDirIndex c.addr)) = true

/-- A page that is freed is present, or its entry names no frame of a present page. -/
def PageCall.FreesOwn (s : VmState) : PageCall → Prop
  | .alloc _ _ => True
  | .free addr => vmmngrIsPagePresent s addr = true ∨ pageFrame s addr = 0#32 ∨
    ∀ v, vmmngrIsPagePresent s v = true → pageFrame s v ≠ pageFrame s addr

/-- What the runs keep besides the ownership of the frames. -/
structure SpaceOk (s : VmState) : Prop extends TablesApart s where
  small : s.phys.mmngrMaxBlocks ≤ 1048576

/-- An allocation keeps the frames owned. -/
theorem FramesOwned.alloc (flags : BitVec 32) (h : SpaceOk s) (howned : FramesOwned s)
    (hbase : base < 0xF0000000#32)
    (hpd : pdEntryIsPresent (pdEntry s (pageDirIndex base)) = true) :
    ∃ s' r, vmmngrAllocPageF s base flags = .ret (s', r) ∧ SpaceOk s' ∧ FramesOwned s' := by
  rw [framesOwned_iff] at howned
  cases hp : vmmngrIsPagePresent s base with
  | true =>
    rcases alloc_present flags h.toTablesApart hp with ⟨x, heq, hpres, hframe⟩
    refine ⟨_, _, heq, ⟨h.stored pageDirIndex_lt pageTableIndex_lt hpd, h.small⟩,
      framesOwned_iff.mpr ?_⟩
    -- the page keeps its frame, only the flags change
    apply howned.mono
    · intro q g hq
      rcases (maps_storeEntry h.toTablesApart hpd).mp hq with ⟨rfl, _, hg⟩ | ⟨_, hq'⟩
      · rw [← hg, hframe]
        exact maps_base hp
      · exact hq'
    · intro q g hq
      exact howned.used q g hq
  | false =>
    rcases alloc_absent flags h.toTablesApart h.small hp hbase hpd with
      heq | ⟨b, x, hpos, hlt, hfree, heq, hframe⟩
    · exact ⟨_, _, heq, h, framesOwned_iff.mpr howned⟩
    · -- the frame was free, so no page had it
      have hapart : TablesApart { s with phys := s.phys.take b } :=
        h.toTablesApart.congr rfl fun _ _ => rfl
      refine ⟨_, _, heq, ⟨hapart.stored pageDirIndex_lt pageTableIndex_lt hpd, ?_⟩, ?_⟩
      · exact h.small
      · apply framesOwned_iff.mpr
        apply howned.grant (p := base >>> 12) (f := BitVec.ofNat 32 (b * pmmngrBlockSize))
        · unfold frameUsed
          rw [ofNat_block hlt, hfree]
          decide
        · intro q g hq
          rcases (maps_storeEntry hapart hpd).mp hq with ⟨rfl, _, hg⟩ | ⟨_, hq'⟩
          · exact Or.inl ⟨rfl, hg.symm.trans hframe⟩
          · exact Or.inr hq'
        · unfold frameUsed
          rw [ofNat_block hlt, storeEntry_phys, mmapTest_take]
          simp
        · intro g hg
          unfold frameUsed at hg ⊢
          rw [storeEntry_phys, mmapTest_take, hg, Bool.or_true]

/-- Giving back a frame that is not null takes exactly that one out of use. -/
theorem used_freed {f g : BitVec 32} (hf : f &&& i86PteFrame = f) (hg : g &&& i86PteFrame = g)
    (hz : f ≠ 0#32) (hphys : s'.phys = freedPhys s f) :
    frameUsed s' g ↔ g ≠ f ∧ frameUsed s g := by
  have hiff : g.toNat / pmmngrBlockSize = f.toNat / pmmngrBlockSize ↔ g = f :=
    ⟨block_inj hg hf, fun h => by rw [h]⟩
  unfold frameUsed
  rw [hphys]
  unfold freedPhys
  rw [if_pos hz, mmapTest_freeBlock, Bool.and_eq_true, Bool.not_eq_true', decide_eq_false_iff_not,
    hiff]

theorem freedPhys_max {f : BitVec 32} :
    (freedPhys s f).mmngrMaxBlocks = s.phys.mmngrMaxBlocks := by
  unfold freedPhys
  by_cases hz : f ≠ 0#32
  · rw [if_pos hz, freeBlock_max]
  · rw [if_neg hz]

/-- A free keeps the frames owned exactly when it frees a frame of its own. -/
theorem FramesOwned.free (h : SpaceOk s) (howned : FramesOwned s)
    (hpd : pdEntryIsPresent (pdEntry s (pageDirIndex base)) = true) :
    ∃ s', vmmngrFreePageAddr s base = .ret s' ∧ SpaceOk s' ∧
      (FramesOwned s' ↔ PageCall.FreesOwn s (.free base)) := by
  rcases free_eq h.toTablesApart hpd with ⟨x, heq, hpres⟩
  have hapart : TablesApart { s with phys := freedPhys s (pageFrame s base) } :=
    h.toTablesApart.congr rfl fun _ _ => rfl
  refine ⟨_, heq, ⟨hapart.stored pageDirIndex_lt pageTableIndex_lt hpd, ?_⟩, ?_⟩
  · exact freedPhys_max.trans_le h.small
  rw [framesOwned_iff] at howned ⊢
  -- the present pages afterwards are the other ones
  have hmaps : ∀ q g, Maps (freedPage s base x) q g ↔ q ≠ base >>> 12 ∧ Maps s q g := by
    intro q g
    unfold freedPage
    rw [maps_storeEntry hapart hpd, hpres]
    simp only [Bool.false_eq_true, false_and, and_false, false_or]
    exact Iff.rfl
  by_cases hz : pageFrame s base = 0#32
  · -- a null frame is not given back
    refine iff_of_true ?_ (Or.inr (Or.inl hz))
    apply howned.mono
    · intro q g hq
      exact ((hmaps q g).mp hq).2
    · intro q g hq
      have hg := howned.used q g hq
      unfold frameUsed at hg ⊢
      unfold freedPage freedPhys
      rwa [storeEntry_phys, if_neg (by simpa using hz)]
  have hused : ∀ g, g &&& i86PteFrame = g →
      (frameUsed (freedPage s base x) g ↔ g ≠ pageFrame s base ∧ frameUsed s g) :=
    fun g hg => used_freed pageFrame_frame hg hz rfl
  by_cases hp : vmmngrIsPagePresent s base = true
  · -- the page gives back its own frame
    refine iff_of_true ?_ (Or.inl hp)
    constructor
    · intro q r g hq hr
      exact howned.unshared q r g ((hmaps q g).mp hq).2 ((hmaps r g).mp hr).2
    · intro q g hq
      rcases (hmaps q g).mp hq with ⟨hne, hm⟩
      refine (hused g hm.frame).mpr ⟨?_, howned.used q g hm⟩
      intro hgf
      subst hgf
      exact hne (howned.unshared q _ _ hm (maps_base hp))
  · -- the page is absent: the frame bits were left by an earlier free
    unfold PageCall.FreesOwn
    constructor
    · intro h'
      refine Or.inr (Or.inr ?_)
      intro v hv hsame
      have hm : Maps s (v >>> 12) (pageFrame s base) := ⟨v, rfl, hv, hsame⟩
      have hne : v >>> 12 ≠ base >>> 12 := by
        intro hpage
        rw [hpage] at hm
        exact hp (hm.eq_pageFrame h.toTablesApart hpd).2
      have := h'.used _ _ ((hmaps _ _).mpr ⟨hne, hm⟩)
      exact ((hused _ pageFrame_frame).mp this).1 rfl
    · intro hcond
      rcases hcond with hpres' | hzero | hnone
      · exact absurd hpres' hp
      · exact absurd hzero hz
      · constructor
        · intro q r g hq hr
          exact howned.unshared q r g ((hmaps q g).mp hq).2 ((hmaps r g).mp hr).2
        · intro q g hq
          rcases (hmaps q g).mp hq with ⟨_, hm⟩
          refine (hused g hm.frame).mpr ⟨?_, howned.used q g hm⟩
          rcases hm with ⟨v, _, hv, hf⟩
          intro hgf
          exact hnone v hv (hf.trans hgf)

end Frames

/-! ## Runs -/

/-- The runs from `start` whose calls meet `C`. -/
def pageSystem (C : VmState → PageCall → Prop) (start : VmState) : System VmState where
  Init s := s = start
  Next s s' := ∃ c : PageCall, c.Made s ∧ C s c ∧ c.exec s = .ret s'

section Runs

variable {s s' start : VmState}

/-- A call that frees a frame of its own keeps the frames owned. -/
theorem PageCall.exec_owned {c : PageCall} (h : SpaceOk s) (howned : FramesOwned s)
    (hmade : c.Made s) (hown : c.FreesOwn s) (hret : c.exec s = .ret s') :
    SpaceOk s' ∧ FramesOwned s' := by
  cases c with
  | alloc base flags =>
    rcases FramesOwned.alloc flags h howned hmade.1 hmade.2 with ⟨t, r, heq, hok, hframes⟩
    rcases Outcome.bind_eq_ret.mp hret with ⟨⟨u, r'⟩, hcall, hs⟩
    cases heq.symm.trans hcall
    cases hs
    exact ⟨hok, hframes⟩
  | free addr =>
    rcases howned.free h hmade.2 with ⟨t, heq, hok, hiff⟩
    cases heq.symm.trans hret
    exact ⟨hok, hiff.mpr hown⟩

/-- No frame is shared in a run that frees a page again only while no other page has taken
its frame. -/
theorem frames_unshared (h : SpaceOk start) (howned : FramesOwned start)
    (hreach : (pageSystem (fun s c => c.FreesOwn s) start).Reachable s) : FramesOwned s := by
  have hinv : (pageSystem (fun s c => c.FreesOwn s) start).Inductive
      (fun s => SpaceOk s ∧ FramesOwned s) := by
    constructor
    · intro s hs
      exact hs ▸ ⟨h, howned⟩
    · intro s s' ⟨hok, hframes⟩ ⟨c, hmade, hown, hret⟩
      exact PageCall.exec_owned hok hframes hmade hown hret
  exact (hinv.holds hreach).2

/-- A directory at 0x1000 with one empty table at 0x2000; three frames of 64 are in use. -/
def tableSpace : VmState where
  phys := ⟨256, 3, 64, fun i => if i = 0 then 7#32 else 0#32⟩
  memory p := if p = 0x1000 then 0x2003#32 else 0#32
  currentDirectory := 0x1000#32

theorem tableSpace_entry (i : Nat) :
    pdEntry tableSpace i = if i = 0 then 0x2003#32 else 0#32 := by
  have hdir : (0x1000#32).toNat = 0x1000 := by decide
  unfold pdEntry tableSpace
  dsimp only
  rw [hdir]
  by_cases hi : i = 0
  · subst hi
    rfl
  · rw [if_neg hi, if_neg (by omega)]

theorem tableSpace_present {i : Nat} (h : pdEntryIsPresent (pdEntry tableSpace i) = true) :
    i = 0 := by
  by_contra hi
  rw [tableSpace_entry, if_neg hi] at h
  exact absurd h (by decide)

theorem tableSpace_ok : SpaceOk tableSpace where
  dir := by decide
  aligned := by decide
  nonzero := by
    intro i _ hp
    rw [tableSpace_present hp]
    decide
  notDir := by
    intro i _ hp
    rw [tableSpace_present hp]
    decide
  apart := by
    intro i _ j _ hpi hpj _
    rw [tableSpace_present hpi, tableSpace_present hpj]
  small := by decide

theorem tableSpace_owned : FramesOwned tableSpace := by
  have hnone : ∀ v, vmmngrIsPagePresent tableSpace v ≠ true := by
    intro v hv
    rcases (isPagePresent_eq tableSpace_ok.dir).mp hv with ⟨hp, _, hpage⟩
    rw [tableSpace_present hp] at hpage
    have hframe : (tableFrame tableSpace 0).toNat = 0x2000 := by decide
    unfold ptEntry at hpage
    rw [hframe] at hpage
    unfold tableSpace at hpage
    dsimp only at hpage
    rw [if_neg (by omega)] at hpage
    exact absurd hpage (by decide)
  exact ⟨fun v w hv => absurd hv (hnone v), fun v hv => absurd hv (hnone v)⟩

/-- Calls in order. -/
def runCalls (s : VmState) : List PageCall → Option VmState
  | [] => some s
  | c :: cs =>
    if c.addr < 0xF0000000#32 ∧ pdEntryIsPresent (pdEntry s (pageDirIndex c.addr)) = true then
      match c.exec s with
      | .ret s => runCalls s cs
      | _ => none
    else none

theorem reachable_runCalls {cs : List PageCall}
    (h : (pageSystem (fun _ _ => True) start).Reachable s) (hrun : runCalls s cs = some s') :
    (pageSystem (fun _ _ => True) start).Reachable s' := by
  induction cs generalizing s with
  | nil =>
    cases hrun
    exact h
  | cons c cs ih =>
    unfold runCalls at hrun
    by_cases hmade : c.addr < 0xF0000000#32 ∧
        pdEntryIsPresent (pdEntry s (pageDirIndex c.addr)) = true
    · rw [if_pos hmade] at hrun
      cases hexec : c.exec s with
      | ret t =>
        rw [hexec] at hrun
        exact ih (.next h ⟨c, hmade, trivial, hexec⟩) hrun
      | panic =>
        rw [hexec] at hrun
        cases hrun
      | undefined =>
        rw [hexec] at hrun
        cases hrun
      | running =>
        rw [hexec] at hrun
        cases hrun
    · rw [if_neg hmade] at hrun
      cases hrun

/-- Page 0 is freed twice, and page 1 took its frame in between; page 2 gets the frame too. -/
theorem frames_shared : ∃ start s, SpaceOk start ∧ FramesOwned start ∧
    (pageSystem (fun _ _ => True) start).Reachable s ∧ ¬FramesOwned s := by
  obtain ⟨s, hs⟩ : ∃ s, runCalls tableSpace [.alloc 0#32 3#32, .free 0#32,
      .alloc 0x1000#32 3#32, .free 0#32, .alloc 0x2000#32 3#32] = some s :=
    Option.isSome_iff_exists.mp (by decide)
  have hshared : (runCalls tableSpace [.alloc 0#32 3#32, .free 0#32,
      .alloc 0x1000#32 3#32, .free 0#32, .alloc 0x2000#32 3#32]).all (fun s =>
        vmmngrIsPagePresent s 0x1000#32 && vmmngrIsPagePresent s 0x2000#32 &&
          pageFrame s 0x1000#32 == pageFrame s 0x2000#32) = true := by decide
  rw [hs] at hshared
  simp only [Option.all_some, Bool.and_eq_true, beq_iff_eq] at hshared
  refine ⟨tableSpace, s, tableSpace_ok, tableSpace_owned,
    reachable_runCalls (.init rfl) hs, ?_⟩
  intro howned
  exact howned.1 _ _ hshared.1.1 hshared.1.2 (by decide) hshared.2

/-- The first page of the space. -/
theorem frames_unshared_first : ∃ s,
    (pageSystem (fun s c => c.FreesOwn s) tableSpace).Reachable s ∧
      vmmngrIsPagePresent s 0#32 = true ∧ FramesOwned s := by
  obtain ⟨s, hs, hp⟩ : ∃ s, PageCall.exec tableSpace (.alloc 0#32 3#32) = .ret s ∧
      vmmngrIsPagePresent s 0#32 = true := ⟨_, rfl, by decide⟩
  have hreach : (pageSystem (fun s c => c.FreesOwn s) tableSpace).Reachable s :=
    .next (.init rfl) ⟨.alloc 0#32 3#32, ⟨by decide, by decide⟩, trivial, hs⟩
  exact ⟨s, hreach, hp, frames_unshared tableSpace_ok tableSpace_owned hreach⟩

end Runs

end MeOS
