import MeOS.PageTables

/-! # What `vmmngr_map_page` does to a directory

The function ends in one of four ways, whatever the directory holds: the table
pointer is null, there is no block for a table, the entry of an old table is
written, or that of a new one. As long as a directory is none of its own tables,
the page is found again through it.
-/

namespace MeOS

open WordFields

/-- The entry of the directory for the address. -/
def dirEntry (s : VmState) (dir v : BitVec 32) : BitVec 32 :=
  s.memory (dir.toNat + 4 * pageDirIndex v)

/-- Where the entry of the page is in the table that the directory entry `e` names. -/
def pageSlot (e v : BitVec 32) : Nat := (pdEntryGetFrame e).toNat + 4 * pageTableIndex v

/-- The entry of the page, as the directory leads to it. -/
def pageEntry (s : VmState) (dir v : BitVec 32) : BitVec 32 :=
  s.memory (pageSlot (dirEntry s dir v) v)

/-- The state after the entry of the page has been written. -/
def pageMapped (s : VmState) (dir phys virt flags : BitVec 32) : VmState :=
  s.store (pageSlot (dirEntry s dir virt) virt)
    (ptEntrySetFrame (pageEntry s dir virt ||| flags) phys)

/-- The state after block `b` has become the table of the address. -/
def tableMade (s : VmState) (dir virt flags : BitVec 32) (b : Nat) : VmState :=
  let f := BitVec.ofNat 32 (b * pmmngrBlockSize)
  let s := ({ s with phys := s.phys.take b }).clear f.toNat 4096
  let entry := dir.toNat + 4 * pageDirIndex virt
  s.store entry (pdEntrySetFrame (s.memory entry) f ||| flags)

/-- How `vmmngr_map_page` ends. -/
inductive MapResult (s : VmState) (dir phys virt flags : BitVec 32) : VmState × ErrorT → Prop where
  | noTable (hp : pdEntryIsPresent (dirEntry s dir virt) = true)
      (hnull : pdEntryGetFrame (dirEntry s dir virt) = 0#32) :
      MapResult s dir phys virt flags (s, .occur)
  | noBlock (habsent : pdEntryIsPresent (dirEntry s dir virt) = false)
      (halloc : (pmmngrAllocBlock s.phys).2 = 0) : MapResult s dir phys virt flags (s, .occur)
  | mapped (hp : pdEntryIsPresent (dirEntry s dir virt) = true)
      (hframe : pdEntryGetFrame (dirEntry s dir virt) ≠ 0#32) :
      MapResult s dir phys virt flags (pageMapped s dir phys virt flags, .ok)
  | made {b : Nat} (habsent : pdEntryIsPresent (dirEntry s dir virt) = false)
      (hpos : 0 < b) (hb : b < s.phys.mmngrMaxBlocks) (hfree : mmapTest s.phys b = false)
      (halloc : (pmmngrAllocBlock s.phys).2 ≠ 0) :
      MapResult s dir phys virt flags
        (pageMapped (tableMade s dir virt flags b) dir phys virt flags, .ok)

section Result

variable {s : VmState} {dir phys virt flags : BitVec 32}

theorem MapResult.currentDirectory {r : VmState × ErrorT}
    (hr : MapResult s dir phys virt flags r) :
    r.1.currentDirectory = s.currentDirectory := by
  cases hr <;> rfl

/-- The entry of a table is written when the table pointer is not null. -/
theorem mapInTable_cases {e : Nat} (he : e = dir.toNat + 4 * pageDirIndex virt) :
    mapInTable s e phys virt flags =
      if pdEntryGetFrame (dirEntry s dir virt) = 0#32 then (s, .occur)
      else (pageMapped s dir phys virt flags, .ok) := by
  subst he
  rw [mapInTable_lookup]
  change (vmmngrPtableLookupEntry (pdEntryGetFrame (dirEntry s dir virt)) virt).elim _ _ = _
  by_cases hnull : pdEntryGetFrame (dirEntry s dir virt) = 0#32
  · rw [if_pos hnull, hnull]
    rfl
  · rw [if_neg hnull, lookupTable hnull, Option.elim_some, store_store, store_self]
    rfl

/-- A block of the memory as an address. -/
theorem block_toNat {b : Nat} (hb : b < 1048576) :
    (BitVec.ofNat 32 (b * pmmngrBlockSize)).toNat = b * pmmngrBlockSize := by
  simp only [pmmngrBlockSize]
  rw [BitVec.toNat_ofNat, Nat.mod_eq_of_lt (by omega)]

theorem block_frame {b : Nat} (hb : b < 1048576) :
    BitVec.ofNat 32 (b * pmmngrBlockSize) &&& i86PteFrame =
      BitVec.ofNat 32 (b * pmmngrBlockSize) := by
  apply frame_of_toNat_mod
  rw [block_toNat hb]
  exact Nat.mul_mod_left b 4096

theorem block_ne_zero {b : Nat} (hpos : 0 < b) (hb : b < 1048576) :
    BitVec.ofNat 32 (b * pmmngrBlockSize) ≠ 0#32 := by
  intro h
  have hnat := congrArg BitVec.toNat h
  rw [block_toNat hb] at hnat
  simp only [pmmngrBlockSize, BitVec.toNat_ofNat, Nat.zero_mod] at hnat
  omega

/-- A frame that was set is not null, whatever flags are added. -/
theorem getFrame_setFrame_ne {x f : BitVec 32} (hf : f &&& i86PteFrame = f) (hne : f ≠ 0#32) :
    pdEntryGetFrame (pdEntrySetFrame x f ||| flags) ≠ 0#32 := by
  intro h
  have hset : (pdEntrySetFrame x f ||| flags) &&& i86PteFrame &&& f = f := by
    rw [BitVec.and_assoc, BitVec.and_comm i86PteFrame f, hf]
    apply BitVec.eq_of_getLsbD_eq
    intro i hi
    unfold pdEntrySetFrame
    simp only [BitVec.getLsbD_and, BitVec.getLsbD_or]
    cases f.getLsbD i <;> simp
  unfold pdEntryGetFrame at h
  rw [h, BitVec.zero_and] at hset
  exact hne hset.symm

/-- The new entry of the directory. -/
theorem dirEntry_tableMade (s : VmState) (dir virt flags : BitVec 32) (b : Nat) :
    ∃ x, dirEntry (tableMade s dir virt flags b) dir virt =
      pdEntrySetFrame x (BitVec.ofNat 32 (b * pmmngrBlockSize)) ||| flags :=
  ⟨_, Function.update_self _ _ _⟩

/-- `vmmngr_create_table` for an absent entry. -/
theorem createTable_made (flags : BitVec 32) (hdir : dir ≠ 0#32)
    (hsmall : s.phys.mmngrMaxBlocks ≤ 1048576)
    (habsent : pdEntryIsPresent (dirEntry s dir virt) = false) :
    ((pmmngrAllocBlock s.phys).2 = 0 ∧ vmmngrCreateTable s dir virt flags = (s, .occur)) ∨
      ∃ b, 0 < b ∧ b < s.phys.mmngrMaxBlocks ∧ mmapTest s.phys b = false ∧
        (pmmngrAllocBlock s.phys).2 ≠ 0 ∧
        vmmngrCreateTable s dir virt flags = (tableMade s dir virt flags b, .ok) := by
  have hlookup : vmmngrPdirectoryLookupEntry dir virt = some (dir.toNat + 4 * pageDirIndex virt) :=
    if_pos hdir
  obtain ⟨ps, addr, halloc⟩ : ∃ ps addr, pmmngrAllocBlock s.phys = (ps, addr) := ⟨_, _, rfl⟩
  unfold vmmngrCreateTable
  rw [hlookup]
  dsimp only
  rw [if_pos (by exact habsent), halloc]
  dsimp only
  rcases allocBlock_spec hsmall halloc with ⟨hzero, hps⟩ | ⟨b, haddr, hpos, hb, hfree, hps⟩
  · rw [if_pos hzero, hps]
    exact Or.inl ⟨hzero, rfl⟩
  · have hne : addr ≠ 0 := by
      simp only [pmmngrBlockSize] at haddr
      omega
    rw [if_neg hne, store_store, store_self]
    refine Or.inr ⟨b, hpos, hb, hfree, hne, ?_⟩
    unfold tableMade
    dsimp only
    rw [block_toNat (hb.trans_le hsmall), haddr, hps]

/-- With a directory, `vmmngr_map_page` returns in one of the four ways. -/
theorem mapPage_result (phys virt flags : BitVec 32) (hdir : dir ≠ 0#32)
    (hsmall : s.phys.mmngrMaxBlocks ≤ 1048576) :
    ∃ r, vmmngrMapPage s dir phys virt flags = .ret r ∧ MapResult s dir phys virt flags r := by
  have hlookup : vmmngrPdirectoryLookupEntry dir virt = some (dir.toNat + 4 * pageDirIndex virt) :=
    if_pos hdir
  unfold vmmngrMapPage
  rw [hlookup]
  dsimp only
  rw [pdEntryTestAttrib_present]
  cases hp : pdEntryIsPresent (dirEntry s dir virt) with
  | true =>
    rw [if_neg (by rw [show pdEntryIsPresent (s.memory _) = true from hp]; decide),
      mapInTable_cases rfl]
    by_cases hnull : pdEntryGetFrame (dirEntry s dir virt) = 0#32
    · rw [if_pos hnull]
      exact ⟨_, rfl, .noTable hp hnull⟩
    · rw [if_neg hnull]
      exact ⟨_, rfl, .mapped hp hnull⟩
  | false =>
    rw [if_pos (by exact hp)]
    rcases createTable_made flags hdir hsmall hp with
      ⟨halloc, heq⟩ | ⟨b, hpos, hb, hfree, halloc, heq⟩
    · rw [heq]
      exact ⟨_, rfl, .noBlock hp halloc⟩
    · obtain ⟨x, hentry⟩ := dirEntry_tableMade s dir virt flags b
      have hlt : b < 1048576 := hb.trans_le hsmall
      have hframe : pdEntryGetFrame (dirEntry (tableMade s dir virt flags b) dir virt) ≠ 0#32 := by
        rw [hentry]
        exact getFrame_setFrame_ne (block_frame hlt) (block_ne_zero hpos hlt)
      rw [heq]
      dsimp only
      rw [mapInTable_cases rfl, if_neg hframe]
      exact ⟨_, rfl, .made hp hpos hb hfree halloc⟩

end Result

/-! ## Directories that are none of their tables -/

/-- The directory is a frame in use, and no present entry of it names it as a table. -/
structure DirOk (s : VmState) (dir : BitVec 32) : Prop where
  ne : dir ≠ 0#32
  aligned : dir &&& i86PteFrame = dir
  small : s.phys.mmngrMaxBlocks ≤ 1048576
  used : mmapTest s.phys (dir.toNat / pmmngrBlockSize) = true
  notSelf : ∀ v, pdEntryIsPresent (dirEntry s dir v) = true →
    pdEntryGetFrame (dirEntry s dir v) ≠ dir

/-- What the entry of the page holds before a mapping: the pages of a new table are empty. -/
def oldEntry (s : VmState) (dir v : BitVec 32) : BitVec 32 :=
  if pdEntryIsPresent (dirEntry s dir v) then pageEntry s dir v else 0#32

section Dir

variable {s : VmState} {dir phys virt flags v e x : BitVec 32} {b : Nat}

theorem dirEntry_storeAt {p : Nat} : dirEntry (s.store p x) dir v =
    if dir.toNat + 4 * pageDirIndex v = p then x else dirEntry s dir v :=
  Function.update_apply _ _ _ _

/-- A write to an entry of another frame does not reach the directory. -/
theorem dirEntry_store (hdir : dir &&& i86PteFrame = dir) (he : pdEntryGetFrame e ≠ dir) :
    dirEntry (s.store (pageSlot e virt) x) dir v = dirEntry s dir v := by
  rw [dirEntry_storeAt, if_neg]
  intro heq
  exact he (slot_inj hdir frame_frame pageDirIndex_lt pageTableIndex_lt heq).1.symm

/-- The directory after a page has been mapped, and the page. -/
theorem pageMapped_spec (phys flags : BitVec 32) (hdir : dir &&& i86PteFrame = dir)
    (hself : pdEntryGetFrame (dirEntry s dir virt) ≠ dir) :
    (∀ v, dirEntry (pageMapped s dir phys virt flags) dir v = dirEntry s dir v) ∧
      pageEntry (pageMapped s dir phys virt flags) dir virt =
        ptEntrySetFrame (pageEntry s dir virt ||| flags) phys := by
  have hentry : ∀ v, dirEntry (pageMapped s dir phys virt flags) dir v = dirEntry s dir v :=
    fun v => dirEntry_store hdir hself
  refine ⟨hentry, ?_⟩
  unfold pageEntry
  rw [hentry]
  exact store_self

theorem DirOk.mapped (h : DirOk s dir) (hself : pdEntryGetFrame (dirEntry s dir virt) ≠ dir) :
    DirOk (pageMapped s dir phys virt flags) dir where
  ne := h.ne
  aligned := h.aligned
  small := h.small
  used := h.used
  notSelf v hp := by
    rw [(pageMapped_spec _ _ h.aligned hself).1] at hp ⊢
    exact h.notSelf v hp

/-- A free block is not the block of the directory. -/
theorem DirOk.block_ne (h : DirOk s dir) (hb : b < s.phys.mmngrMaxBlocks)
    (hfree : mmapTest s.phys b = false) : BitVec.ofNat 32 (b * pmmngrBlockSize) ≠ dir := by
  intro heq
  have hused := h.used
  rw [← heq, block_toNat (hb.trans_le h.small), Nat.mul_div_cancel b (by decide), hfree] at hused
  cases hused

/-- The directory after a table has been made, and the page in it. -/
theorem tableMade_spec (s : VmState) (virt : BitVec 32) (hdir : dir &&& i86PteFrame = dir)
    (hb : b < 1048576)
    (hother : BitVec.ofNat 32 (b * pmmngrBlockSize) ≠ dir) (hflags : flags &&& i86PteFrame = 0#32) :
    (∀ v, dirEntry (tableMade s dir virt flags b) dir v =
      if pageDirIndex v = pageDirIndex virt then
        pdEntrySetFrame (dirEntry s dir virt) (BitVec.ofNat 32 (b * pmmngrBlockSize)) ||| flags
      else dirEntry s dir v) ∧
    pdEntryGetFrame (dirEntry (tableMade s dir virt flags b) dir virt) =
      BitVec.ofNat 32 (b * pmmngrBlockSize) ∧
    pageEntry (tableMade s dir virt flags b) dir virt = 0#32 := by
  have hf := block_frame hb
  generalize hg : BitVec.ofNat 32 (b * pmmngrBlockSize) = f at hother hf ⊢
  have hclear : ∀ i < 1024, (({ s with phys := s.phys.take b } : VmState).clear f.toNat 4096).memory
      (dir.toNat + 4 * i) = s.memory (dir.toNat + 4 * i) := by
    intro i hi
    rw [clear_slot hf hdir hi, if_neg hother.symm]
  have hentry : ∀ v, dirEntry (tableMade s dir virt flags b) dir v =
      if pageDirIndex v = pageDirIndex virt then
        pdEntrySetFrame (dirEntry s dir virt) f ||| flags
      else dirEntry s dir v := by
    intro v
    unfold dirEntry tableMade VmState.store
    dsimp only
    rw [hg, hclear _ pageDirIndex_lt]
    by_cases hv : pageDirIndex v = pageDirIndex virt
    · rw [if_pos hv, hv, Function.update_self]
    · rw [if_neg hv, Function.update_of_ne]
      · exact hclear _ pageDirIndex_lt
      · intro heq
        exact hv (slot_inj hdir hdir pageDirIndex_lt pageDirIndex_lt heq).2
  have hframe : pdEntryGetFrame (dirEntry (tableMade s dir virt flags b) dir virt) = f := by
    rw [hentry, if_pos rfl]
    unfold pdEntryGetFrame
    rw [get_or hflags]
    exact get_set hf
  refine ⟨hentry, hframe, ?_⟩
  unfold pageEntry pageSlot
  rw [hframe]
  unfold tableMade VmState.store
  dsimp only
  rw [hg, Function.update_of_ne]
  · rw [clear_slot hf hf pageTableIndex_lt, if_pos rfl]
  · intro heq
    exact hother (slot_inj hf hdir pageTableIndex_lt pageDirIndex_lt heq).1

theorem DirOk.made (h : DirOk s dir) (hb : b < s.phys.mmngrMaxBlocks)
    (hfree : mmapTest s.phys b = false) (hflags : flags &&& i86PteFrame = 0#32) :
    DirOk (tableMade s dir virt flags b) dir := by
  have hother := h.block_ne hb hfree
  obtain ⟨hentry, hframe, _⟩ :=
    tableMade_spec s virt h.aligned (hb.trans_le h.small) hother hflags
  refine ⟨h.ne, h.aligned, h.small, ?_, fun v hp => ?_⟩
  · show mmapTest (s.phys.take b) (dir.toNat / pmmngrBlockSize) = true
    rw [mmapTest_take, h.used, Bool.or_true]
  · by_cases hv : pageDirIndex v = pageDirIndex virt
    · have hsame : dirEntry (tableMade s dir virt flags b) dir v =
          dirEntry (tableMade s dir virt flags b) dir virt := by
        unfold dirEntry
        rw [hv]
      rwa [hsame, hframe]
    · rw [hentry, if_neg hv] at hp ⊢
      exact h.notSelf v hp

/-- A mapping keeps the directory. When it succeeds, the entry of the page is the old one with the
flags and the address, and that of the directory has changed only for a new table. -/
theorem MapResult.spec (h : DirOk s dir) (hflags : flags &&& i86PteFrame = 0#32)
    {r : VmState × ErrorT} (hr : MapResult s dir phys virt flags r) :
    DirOk r.1 dir ∧ (r.2 = .ok →
      pageEntry r.1 dir virt = ptEntrySetFrame (oldEntry s dir virt ||| flags) phys ∧
      (pdEntryIsPresent (dirEntry s dir virt) = true →
        dirEntry r.1 dir virt = dirEntry s dir virt) ∧
      (pdEntryIsPresent (dirEntry s dir virt) = false →
        Within flags (dirEntry r.1 dir virt))) := by
  unfold oldEntry
  cases hr with
  | noTable hp hnull => exact ⟨h, fun hok => ErrorT.noConfusion hok⟩
  | noBlock habsent halloc => exact ⟨h, fun hok => ErrorT.noConfusion hok⟩
  | mapped hp hframe =>
    obtain ⟨hentry, hpage⟩ := pageMapped_spec phys flags h.aligned
      (h.notSelf virt hp)
    refine ⟨h.mapped (h.notSelf virt hp), fun _ => ⟨?_, fun _ => hentry virt, fun hno => ?_⟩⟩
    · rw [if_pos hp]
      exact hpage
    · rw [hp] at hno
      cases hno
  | @made b habsent hpos hb hfree halloc =>
    have hother := h.block_ne hb hfree
    obtain ⟨hdir, hframe, hempty⟩ :=
      tableMade_spec s virt h.aligned (hb.trans_le h.small) hother hflags
    have hself : pdEntryGetFrame (dirEntry (tableMade s dir virt flags b) dir virt) ≠ dir := by
      rwa [hframe]
    obtain ⟨hentry, hpage⟩ := pageMapped_spec phys flags h.aligned hself
    refine ⟨(h.made hb hfree hflags).mapped hself, fun _ => ⟨?_, fun hp => ?_, fun _ => ?_⟩⟩
    · rw [if_neg (by rw [habsent]; decide)]
      exact hpage.trans (by rw [hempty])
    · rw [habsent] at hp
      cases hp
    · show Within flags (dirEntry (pageMapped _ dir phys virt flags) dir virt)
      rw [hentry, hdir, if_pos rfl, Within, BitVec.and_comm]
      exact or_and_of_le (BitVec.and_self)

end Dir

/-! ## Allocating a page -/

/-- `pmmngr_alloc_block` finds nothing. -/
def NoBlock (p : PhysState) : Prop := pmmngrGetFreeBlockCount p ≤ 0 ∨ mmapFirstFree p = 0

instance (p : PhysState) : Decidable (NoBlock p) :=
  inferInstanceAs (Decidable (pmmngrGetFreeBlockCount p ≤ 0 ∨ mmapFirstFree p = 0))

/-- How `vmmngr_alloc_page_f` ends: as a mapping of a present page to its own address, of an absent
one to a block that has been taken, or of a device to itself; or there is no block. -/
inductive AllocResult (s : VmState) (base flags : BitVec 32) : VmState × ErrorT → Prop where
  | present {r : VmState × ErrorT} (hp : vmmngrIsPagePresent s base = true)
      (hr : MapResult s s.currentDirectory (vmmngrGetPhysAddr s base) base flags r) :
      AllocResult s base flags r
  | noBlock (hp : vmmngrIsPagePresent s base = false) (hbase : base < 0xF0000000#32)
      (hnone : NoBlock s.phys) : AllocResult s base flags (s, .occur)
  | taken {r : VmState × ErrorT} (hp : vmmngrIsPagePresent s base = false)
      (hbase : base < 0xF0000000#32) (hblock : ¬ NoBlock s.phys)
      (hr : MapResult { s with phys := s.phys.take (mmapFirstFree s.phys) } s.currentDirectory
        (BitVec.ofNat 32 (mmapFirstFree s.phys * pmmngrBlockSize)) base flags r) :
      AllocResult s base flags r
  | device {r : VmState × ErrorT} (hp : vmmngrIsPagePresent s base = false)
      (hbase : ¬ base < 0xF0000000#32) (hr : MapResult s s.currentDirectory base base flags r) :
      AllocResult s base flags r

section Alloc

variable {s : VmState} {p : PhysState}

/-- `pmmngr_alloc_block` takes the block that the scan gives. -/
theorem allocBlock_eq (p : PhysState) : pmmngrAllocBlock p =
    if NoBlock p then (p, 0)
    else (p.take (mmapFirstFree p), mul32 (mmapFirstFree p) pmmngrBlockSize) := by
  unfold pmmngrAllocBlock
  by_cases hcount : pmmngrGetFreeBlockCount p ≤ 0
  · rw [if_pos hcount, if_pos (show NoBlock p from Or.inl hcount)]
  · rw [if_neg hcount]
    by_cases hframe : mmapFirstFree p = 0
    · rw [if_pos hframe, if_pos (show NoBlock p from Or.inr hframe)]
    · rw [if_neg hframe, if_neg (show ¬ NoBlock p from not_or.mpr ⟨hcount, hframe⟩)]
      rfl

theorem allocBlock_zero_iff (hsmall : p.mmngrMaxBlocks ≤ 1048576) :
    (pmmngrAllocBlock p).2 = 0 ↔ NoBlock p := by
  rw [allocBlock_eq]
  by_cases hnone : NoBlock p
  · rw [if_pos hnone]
    exact iff_of_true rfl hnone
  · have hframe : mmapFirstFree p ≠ 0 := fun hzero => hnone (Or.inr hzero)
    have hlt := (mmapFirstFree_spec hframe).1
    rw [if_neg hnone]
    refine iff_of_false ?_ hnone
    dsimp only
    rw [mul32_eq (by simp only [pmmngrBlockSize]; omega)]
    simp only [pmmngrBlockSize]
    omega

/-- The block that the scan gives. -/
theorem firstFree_lt (hsmall : p.mmngrMaxBlocks ≤ 1048576) (hblock : ¬ NoBlock p) :
    mmapFirstFree p < 1048576 := by
  have hframe : mmapFirstFree p ≠ 0 := fun hzero => hblock (Or.inr hzero)
  exact (mmapFirstFree_spec hframe).1.trans_le hsmall

/-- With a directory, `vmmngr_alloc_page_f` returns in one of the ways. -/
theorem allocPageF_result (base flags : BitVec 32) (hdir : s.currentDirectory ≠ 0#32)
    (hsmall : s.phys.mmngrMaxBlocks ≤ 1048576) :
    ∃ r, vmmngrAllocPageF s base flags = .ret r ∧ AllocResult s base flags r := by
  unfold vmmngrAllocPageF
  cases hp : vmmngrIsPagePresent s base with
  | true =>
    rw [if_pos rfl]
    obtain ⟨r, heq, hr⟩ := mapPage_result (vmmngrGetPhysAddr s base) base flags hdir hsmall
    exact ⟨r, heq, .present hp hr⟩
  | false =>
    rw [if_neg (by decide)]
    by_cases hbase : base < 0xF0000000#32
    · rw [if_pos hbase, allocBlock_eq]
      by_cases hnone : NoBlock s.phys
      · rw [if_pos hnone]
        exact ⟨_, rfl, .noBlock hp hbase hnone⟩
      · have hne : (pmmngrAllocBlock s.phys).2 ≠ 0 := mt (allocBlock_zero_iff hsmall).mp hnone
        have hlt := firstFree_lt hsmall hnone
        rw [allocBlock_eq, if_neg hnone] at hne
        rw [if_neg hnone]
        dsimp only at hne ⊢
        rw [if_neg hne]
        rw [mul32_eq (by simp only [pmmngrBlockSize]; omega)]
        obtain ⟨r, heq, hr⟩ := mapPage_result
          (s := { s with phys := s.phys.take (mmapFirstFree s.phys) })
          (BitVec.ofNat 32 (mmapFirstFree s.phys * pmmngrBlockSize)) base flags hdir hsmall
        exact ⟨r, heq, .taken hp hbase hnone hr⟩
    · rw [if_neg hbase]
      by_cases hzero : base = 0#32
      · rw [hzero] at hbase
        exact absurd (by decide) hbase
      rw [if_neg hzero]
      obtain ⟨r, heq, hr⟩ := mapPage_result base base flags hdir hsmall
      exact ⟨r, heq, .device hp hbase hr⟩

end Alloc

end MeOS
