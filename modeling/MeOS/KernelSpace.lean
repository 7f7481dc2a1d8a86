import MeOS.PhysFirstFree
import MeOS.SpaceRuns

/-! # The kernel's address space

`vmmngr_initialize` maps the first 4 MB to themselves and the image, which is at
1 MB, to 3 GB. Every space that is made later is a copy, so the kernel is where it
was in all of them, whatever the processes map elsewhere.
-/

namespace MeOS

open WordFields Runs

/-! ## `mmngr_virtual.cpp` -/

/-- `DEFAULT_FLAGS`. -/
abbrev defaultFlags : BitVec 32 := 3#32

/-- The loop of `vmmngr_initialize` over `n` pages. -/
def mapPages (dir : BitVec 32) : Nat → BitVec 32 → BitVec 32 → VmState →
    Outcome (VmState × ErrorT)
  | 0, _, _, s => .ret (s, .ok)
  | n + 1, phys, virt, s => do
    let (s, e) ← vmmngrMapPage s dir phys virt defaultFlags
    if e ≠ .ok then return (s, .occur)
    mapPages dir n (phys + 4096#32) (virt + 4096#32) s

/-- `vmmngr_initialize`; the registration of the fault handlers does not touch the tables. -/
def vmmngrInitialize (c : SpaceRun) (kernelPages : Nat) : Outcome (SpaceRun × ErrorT) := do
  let (phys, pdir) := pmmngrAllocBlock c.vm.phys
  let vm := { c.vm with phys := phys }
  if pdir = 0 then return ({ c with vm := vm }, .occur)
  let vm := vm.clear pdir 4096
  let dir := BitVec.ofNat 32 pdir
  let c := { c with vm := vm, kernelDirectory := dir, spaces := [dir] }
  -- identity map the first 4 MB
  let (vm, e) ← mapPages dir 1024 0#32 0#32 vm
  if e ≠ .ok then return ({ c with vm := vm }, .occur)
  let (vm, e) ← mapPages dir kernelPages 0x100000#32 0xC0000000#32 vm
  if e ≠ .ok then return ({ c with vm := vm }, .occur)
  let (c, e) := vmmngrSwitchDirectory { c with vm := vm } dir dir
  if e ≠ .ok then return (c, .occur)
  return (c, .ok)

/-- A page of the kernel: of the first 4 MB, or of the image. -/
def KernelPage (n : Nat) (v : BitVec 32) : Prop :=
  v.toNat < 0x400000 ∨ 0xC0000000 ≤ v.toNat ∧ v.toNat < 0xC0000000 + 4096 * n

instance (n : Nat) (v : BitVec 32) : Decidable (KernelPage n v) :=
  inferInstanceAs (Decidable (_ ∨ _))

/-- Where the kernel expects its addresses. -/
def kernelAddress (n : Nat) (v : BitVec 32) : Option (BitVec 32) :=
  if v.toNat < 0x400000 then some v
  else if 0xC0000000 ≤ v.toNat ∧ v.toNat < 0xC0000000 + 4096 * n then
    some (0x100000#32 + (v - 0xC0000000#32))
  else none

/-! ## The loop -/

section Loop

variable {D : List (BitVec 32)} {s : VmState} {dir phys virt v w : BitVec 32} {n : Nat}

theorem samePage_toNat : v >>> 12 = w >>> 12 ↔ v.toNat / 4096 = w.toNat / 4096 := by
  rw [← BitVec.toNat_inj, BitVec.toNat_ushiftRight, BitVec.toNat_ushiftRight,
    Nat.shiftRight_eq_div_pow, Nat.shiftRight_eq_div_pow]

theorem offset_toNat : (v &&& 0xfff#32).toNat = v.toNat % 4096 := by
  rw [BitVec.toNat_and]
  exact Nat.and_two_pow_sub_one_eq_mod _ 12

theorem aligned_iff : v &&& 0xfff#32 = 0#32 ↔ v.toNat % 4096 = 0 := by
  rw [← BitVec.toNat_inj, offset_toNat]
  rfl

/-- In the first page of a range the offset is the distance from its start. -/
theorem offset_of_first (hvirt : virt.toNat % 4096 = 0) (hpage : v >>> 12 = virt >>> 12) :
    v &&& 0xfff#32 = v - virt := by
  rw [samePage_toNat] at hpage
  apply BitVec.eq_of_toNat_eq
  rw [offset_toNat, BitVec.toNat_sub_of_le (by rw [BitVec.le_def]; omega)]
  omega

/-- Source and target of the range move together. -/
theorem add_sub_shift (p q v w : BitVec 32) : p + q + (v - (w + q)) = p + (v - w) := by grind

/-- The loop maps its range, and nothing else. -/
theorem mapPages_spec (phys virt : BitVec 32) (h : SpacesOk [dir] s) (hphys : phys.toNat % 4096 = 0)
    (hvirt : virt.toNat % 4096 = 0) (hroom : virt.toNat + 4096 * n ≤ 4294967296) :
    ∃ r, mapPages dir n phys virt s = .ret r ∧ SpacesOk [dir] r.1 ∧
      r.1.currentDirectory = s.currentDirectory ∧
      (r.2 = .ok → ∀ v, translate r.1 dir v =
        if virt.toNat ≤ v.toNat ∧ v.toNat < virt.toNat + 4096 * n then some (phys + (v - virt))
        else translate s dir v) := by
  induction n generalizing s phys virt with
  | zero =>
    refine ⟨_, rfl, h, rfl, fun _ v => ?_⟩
    rw [if_neg (by omega)]
  | succ n ih =>
    have hdir : dir ∈ [dir] := List.mem_singleton_self dir
    obtain ⟨⟨t, e⟩, hmap, hmapped⟩ := mapPage_reaches h hdir phys virt defaultFlags
      (by decide) (by decide)
    have hrun : mapPages dir (n + 1) phys virt s =
        if e ≠ .ok then .ret (t, .occur)
        else mapPages dir n (phys + 4096#32) (virt + 4096#32) t := by
      rw [mapPages, hmap]
      rfl
    cases e with
    | occur =>
      rw [if_pos (by decide)] at hrun
      exact ⟨_, hrun, hmapped.ok, hmapped.current, fun hok => ErrorT.noConfusion hok⟩
    | ok =>
      rw [if_neg (by decide)] at hrun
      have hphys' : (phys + 4096#32).toNat % 4096 = 0 := by
        rw [BitVec.toNat_add, show (4096#32).toNat = 4096 from rfl]
        omega
      have hnext : (virt + 4096#32).toNat = (virt.toNat + 4096) % 4294967296 := by
        rw [BitVec.toNat_add]
        rfl
      have hvirt' : (virt + 4096#32).toNat % 4096 = 0 := by omega
      have hroom' : (virt + 4096#32).toNat + 4096 * n ≤ 4294967296 := by omega
      obtain ⟨r, hrest, hok, hcur, htrans⟩ := ih _ _ hmapped.ok hphys' hvirt' hroom'
      refine ⟨r, hrun.trans hrest, hok, hcur.trans hmapped.current, fun hr v => ?_⟩
      rw [htrans hr v]
      have hv := v.isLt
      by_cases hfirst : v >>> 12 = virt >>> 12
      · -- the page that this round maps
        have hnat := samePage_toNat.mp hfirst
        rw [if_neg (by omega), if_pos (by omega),
          hmapped.mapped rfl v hfirst, frame_of_offset (aligned_iff.mpr hphys),
          offset_of_first hvirt hfirst]
      · have hnat := mt samePage_toNat.mpr hfirst
        have hkept : translate t dir v = translate s dir v :=
          hmapped.kept.page dir hdir v fun htouch => hfirst htouch.1
        rw [hkept]
        by_cases hin : virt.toNat ≤ v.toNat ∧ v.toNat < virt.toNat + 4096 * (n + 1)
        · rw [if_pos (by omega), if_pos hin]
          rw [add_sub_shift]
        · rw [if_neg (by omega), if_neg hin]

/-! ## Enough frames -/

/-- The allocator has `k` frames left, and finds them. -/
structure Stock (p : PhysState) (k : Nat) : Prop extends Counted p where
  words : p.mmngrMaxBlocks % 32 = 0
  zero : mmapTest p 0 = true
  room : p.mmngrUsedBlocks + k ≤ p.mmngrMaxBlocks

theorem Stock.alloc {p : PhysState} {k : Nat} (h : Stock p k) (hk : 0 < k) :
    (pmmngrAllocBlock p).2 ≠ 0 := by
  have hroom := h.room
  have hsmall := h.small
  have hcount : 0 < pmmngrGetFreeBlockCount p := by
    unfold pmmngrGetFreeBlockCount
    rw [sub32_eq (by omega) (by omega)]
    omega
  obtain ⟨b, ⟨⟨-, hfree⟩, -⟩, hb⟩ := (h.allocsLowest h.words).found hcount
  have hne : b ≠ 0 := by
    rintro rfl
    rw [h.zero] at hfree
    cases hfree
  rw [hb]
  simp only [pmmngrBlockSize]
  omega

theorem Stock.take {p : PhysState} {k b : Nat} (h : Stock p k) (hb : b < p.mmngrMaxBlocks)
    (hfree : mmapTest p b = false) (hk : 0 < k) : Stock (p.take b) (k - 1) := by
  have hroom := h.room
  have hsmall := h.small
  refine ⟨h.toCounted.take hb hfree, h.words, ?_, ?_⟩
  · rw [mmapTest_take, h.zero, Bool.or_true]
  · rw [take_used, take_max, add32_eq (by omega)]
    omega

theorem Stock.mono {p : PhysState} {k j : Nat} (h : Stock p k) (hj : j ≤ k) : Stock p j :=
  ⟨h.toCounted, h.words, h.zero, by have := h.room; omega⟩

/-- A mapping succeeds when the table is there, or there is a frame for it. -/
theorem mapPage_succeeds {k : Nat} (h : SpacesOk [dir] s) (hstock : Stock s.phys k)
    (phys : BitVec 32) (hhas : pdEntryIsPresent (dirEntry s dir virt) = true ∨ 0 < k) :
    ∃ t, vmmngrMapPage s dir phys virt defaultFlags = .ret (t, .ok) ∧ SpacesOk [dir] t ∧
      pdEntryIsPresent (dirEntry t dir virt) = true ∧
      Stock t.phys (if pdEntryIsPresent (dirEntry s dir virt) then k else k - 1) := by
  have hdir : dir ∈ [dir] := List.mem_singleton_self dir
  obtain ⟨r, hret, hr⟩ := mapPage_result phys virt defaultFlags (h.dir dir hdir).1 h.small
  have hmapped := h.mapResult hdir (by decide) (by decide) hr
  cases hr with
  | noTable hp hnull => exact absurd hnull (h.table dir hdir virt hp).1
  | noBlock habsent halloc =>
    rcases hhas with hp | hk
    · rw [habsent] at hp
      cases hp
    · exact absurd halloc (hstock.alloc hk)
  | mapped hp hframe =>
    refine ⟨_, hret, hmapped.ok, by rw [hmapped.kept.entry dir hdir virt hp, hp], ?_⟩
    rw [if_pos hp]
    exact hstock
  | @made b habsent hpos hb hfree halloc =>
    have hk : 0 < k := hhas.resolve_left (by rw [habsent]; decide)
    refine ⟨_, hret, hmapped.ok, ?_, ?_⟩
    · obtain ⟨hok, -, hp, -⟩ := h.tableMade defaultFlags hdir hb hpos hfree
        (by decide) (by decide) habsent
      exact (dirEntry_storePage hok hdir hp hdir).symm ▸ hp
    · rw [if_neg (by rw [habsent]; decide)]
      exact hstock.take hb hfree hk

/-- The tables that `n` pages from `virt` on need, where `present` says that the first is there. -/
def tablesNeeded (present : Bool) (virt : BitVec 32) (n : Nat) : Nat :=
  if n = 0 then 0
  else (if present then 0 else 1) + (virt.toNat % 4194304 / 4096 + n - 1) / 1024

/-- The loop succeeds when there are frames for its tables. -/
theorem mapPages_succeeds {k : Nat} (phys : BitVec 32) (h : SpacesOk [dir] s)
    (hstock : Stock s.phys k)
    (hneed : tablesNeeded (pdEntryIsPresent (dirEntry s dir virt)) virt n ≤ k) :
    ∃ t, mapPages dir n phys virt s = .ret (t, .ok) ∧ SpacesOk [dir] t ∧
      Stock t.phys (k - tablesNeeded (pdEntryIsPresent (dirEntry s dir virt)) virt n) := by
  induction n generalizing s phys virt k with
  | zero => exact ⟨s, rfl, h, hstock.mono (Nat.sub_le _ _)⟩
  | succ n ih =>
    have hlt := virt.isLt
    have hnext : (virt + 4096#32).toNat = (virt.toNat + 4096) % 4294967296 := by
      rw [BitVec.toNat_add]
      rfl
    generalize hp : pdEntryIsPresent (dirEntry s dir virt) = present at hneed ⊢
    have hhas : pdEntryIsPresent (dirEntry s dir virt) = true ∨ 0 < k := by
      cases present with
      | true => exact Or.inl hp
      | false =>
        unfold tablesNeeded at hneed
        rw [if_neg (Nat.succ_ne_zero n), if_neg (by decide)] at hneed
        exact Or.inr (by omega)
    obtain ⟨t, hmap, hok, hpt, hstock'⟩ := mapPage_succeeds h hstock phys hhas
    rw [hp] at hstock'
    -- the next page needs no more tables than were counted behind the first
    have hrest : tablesNeeded (pdEntryIsPresent (dirEntry t dir (virt + 4096#32)))
        (virt + 4096#32) n + (if present then 0 else 1) ≤ tablesNeeded present virt (n + 1) := by
      unfold tablesNeeded
      rw [if_neg (Nat.succ_ne_zero n)]
      by_cases hn : n = 0
      · rw [if_pos hn]
        omega
      rw [if_neg hn]
      by_cases hsame : virt.toNat % 4194304 + 4096 < 4194304
      · have hidx : pageDirIndex (virt + 4096#32) = pageDirIndex virt := by
          rw [pageDirIndex_eq, pageDirIndex_eq]
          omega
        rw [dirEntry_of_index hidx, hpt, if_pos rfl]
        omega
      · have hle : (if pdEntryIsPresent (dirEntry t dir (virt + 4096#32)) = true then 0 else 1) ≤
            1 := by split <;> omega
        omega
    have hneed' : tablesNeeded (pdEntryIsPresent (dirEntry t dir (virt + 4096#32)))
        (virt + 4096#32) n ≤ if present then k else k - 1 := by
      cases present <;> simp_all <;> omega
    obtain ⟨u, hrun, hok', hstock''⟩ := ih (phys + 4096#32) hok hstock' hneed'
    refine ⟨u, ?_, hok', hstock''.mono ?_⟩
    · unfold mapPages
      rw [hmap]
      exact hrun
    · cases present <;> simp_all <;> omega

/-- `k` frames are left when the loop needs `j`, whatever tables are there. -/
theorem mapPages_leaves {j k : Nat} (phys : BitVec 32) (h : SpacesOk [dir] s)
    (hstock : Stock s.phys (k + j)) (hneed : ∀ p, tablesNeeded p virt n ≤ j) :
    ∃ t, mapPages dir n phys virt s = .ret (t, .ok) ∧ SpacesOk [dir] t ∧ Stock t.phys k := by
  have hle := hneed (pdEntryIsPresent (dirEntry s dir virt))
  obtain ⟨t, hrun, hok, hleft⟩ := mapPages_succeeds phys h hstock
    (hle.trans (Nat.le_add_left j k))
  exact ⟨t, hrun, hok, hleft.mono (by omega)⟩

end Loop

/-! ## The state at boot -/

/-- `vmmngr_initialize` has made the state; before it the register pointed to a frame that the
allocator does not give away. -/
def PagingBooted (n : Nat) (c : SpaceRun) : Prop :=
  ∃ c₀ : SpaceRun, c₀.vm.phys.mmngrMaxBlocks ≤ 1048576 ∧ frameUsed c₀.vm c₀.cr3 ∧
    vmmngrInitialize c₀ n = .ret (c, .ok)

section Boot

variable {c c₀ : SpaceRun} {s : VmState} {dir v w : BitVec 32} {n b : Nat}

/-- A directory that has just been cleared. -/
theorem SpacesOk.empty (hsmall : s.phys.mmngrMaxBlocks ≤ 1048576) (hb : b < s.phys.mmngrMaxBlocks)
    (hpos : 0 < b) (hdir : BitVec.ofNat 32 (b * pmmngrBlockSize) = dir) :
    SpacesOk [dir] (({ s with phys := s.phys.take b }).clear dir.toNat 4096) ∧
      ∀ v, translate (({ s with phys := s.phys.take b }).clear dir.toNat 4096) dir v = none := by
  have hlt : b < 1048576 := hb.trans_le hsmall
  have hblock := block_frame hlt
  have hzero := block_ne_zero hpos hlt
  have hself := ofNat_block hlt
  rw [hdir] at hblock hzero hself
  have hentry : ∀ v, dirEntry (({ s with phys := s.phys.take b }).clear dir.toNat 4096) dir v =
      0#32 := fun v => (clear_slot hblock hblock pageDirIndex_lt).trans (if_pos rfl)
  have habsent : ∀ d ∈ [dir], ∀ v, pdEntryIsPresent
      (dirEntry (({ s with phys := s.phys.take b }).clear dir.toNat 4096) d v) ≠ true := by
    intro d hd v
    rw [List.mem_singleton.mp hd, hentry]
    decide
  refine ⟨⟨hsmall, fun d hd => ?_, fun d hd v hp => absurd hp (habsent d hd v),
    fun d hd _ _ v _ hp => absurd hp (habsent d hd v)⟩, fun v => ?_⟩
  · rw [List.mem_singleton.mp hd]
    refine ⟨hzero, hblock, ?_⟩
    show mmapTest (s.phys.take b) _ = true
    rw [hself, mmapTest_take]
    simp
  · exact if_neg fun hboth => habsent dir (List.mem_singleton_self dir) v hboth.1

/-- What `vmmngr_initialize` does when the allocator has a block for the directory. -/
theorem initialize_eq (halloc : pmmngrAllocBlock c₀.vm.phys = (c₀.vm.phys.take b,
      b * pmmngrBlockSize)) (hpos : 0 < b) (hlt : b < 1048576)
    (hdir : BitVec.ofNat 32 (b * pmmngrBlockSize) = dir) :
    vmmngrInitialize c₀ n = (do
      let (vm, e) ← mapPages dir 1024 0#32 0#32
        (({ c₀.vm with phys := c₀.vm.phys.take b }).clear dir.toNat 4096)
      if e ≠ .ok then
        return ({ c₀ with vm := vm, kernelDirectory := dir, spaces := [dir] }, .occur)
      let (vm, e) ← mapPages dir n 0x100000#32 0xC0000000#32 vm
      if e ≠ .ok then
        return ({ c₀ with vm := vm, kernelDirectory := dir, spaces := [dir] }, .occur)
      let (c, e) := vmmngrSwitchDirectory
        { c₀ with vm := vm, kernelDirectory := dir, spaces := [dir] } dir dir
      if e ≠ .ok then return (c, .occur)
      return (c, .ok)) := by
  have hne : b * pmmngrBlockSize ≠ 0 := by
    simp only [pmmngrBlockSize]
    omega
  have hnat : dir.toNat = b * pmmngrBlockSize := by rw [← hdir, block_toNat hlt]
  unfold vmmngrInitialize
  rw [halloc]
  dsimp only
  rw [if_neg hne, hdir, hnat]

/-- After `vmmngr_initialize` there is one space, and the kernel is where it should be in it. -/
theorem PagingBooted.spec (h : PagingBooted n c) (hn : n ≤ 0x40000) : c.Ok ∧
    c.spaces = [c.kernelDirectory] ∧
    ∀ v, translate c.vm c.kernelDirectory v = kernelAddress n v := by
  obtain ⟨c₀, hsmall, hcr3, hinit⟩ := h
  rcases allocBlock_spec hsmall (Prod.eta (pmmngrAllocBlock c₀.vm.phys)).symm with
    ⟨hzero, -⟩ | ⟨b, haddr, hpos, hb, hfree, hps⟩
  · -- no block for the directory
    unfold vmmngrInitialize at hinit
    dsimp only at hinit
    rw [if_pos hzero] at hinit
    cases hinit
  obtain ⟨dir, hdir⟩ : ∃ dir, BitVec.ofNat 32 (b * pmmngrBlockSize) = dir := ⟨_, rfl⟩
  obtain ⟨hempty, hnone⟩ := SpacesOk.empty hsmall hb hpos hdir
  rw [initialize_eq (Prod.ext hps haddr) hpos (hb.trans_le hsmall) hdir] at hinit
  -- the two loops, each of which has to succeed
  obtain ⟨⟨t, e⟩, hlow, hinit⟩ := Outcome.bind_eq_ret.mp hinit
  cases e with
  | occur => cases hinit
  | ok =>
  obtain ⟨⟨u, e⟩, himage, hinit⟩ := Outcome.bind_eq_ret.mp hinit
  cases e with
  | occur => cases hinit
  | ok =>
  obtain ⟨r, hrun, hok, hcur, htrans⟩ := mapPages_spec (n := 1024) 0#32 0#32
    hempty (by decide) (by decide) (by decide)
  cases hrun.symm.trans hlow
  have hroom : (0xC0000000#32).toNat + 4096 * n ≤ 4294967296 := by
    rw [show (0xC0000000#32).toNat = 3221225472 from rfl]
    omega
  obtain ⟨r, hrun, hok', hcur', htrans'⟩ := mapPages_spec 0x100000#32 _ hok
    (by decide) (by decide) hroom
  cases hrun.symm.trans himage
  have hne : c₀.cr3 ≠ dir := by
    rw [← hdir]
    exact block_ne_used hsmall hb hfree hcr3
  have hswitch : vmmngrSwitchDirectory
      { c₀ with vm := u, kernelDirectory := dir, spaces := [dir] } dir dir =
      ({ vm := { u with currentDirectory := dir }, cr3 := dir, kernelDirectory := dir,
         spaces := [dir] }, .ok) := by
    unfold vmmngrSwitchDirectory
    rw [if_neg hne, if_neg (hempty.dir dir (List.mem_singleton_self dir)).1]
  dsimp only at hinit
  rw [if_neg (by decide), hswitch] at hinit
  cases hinit
  have hspaces : SpacesOk [dir] { u with currentDirectory := dir } :=
    hok'.congr rfl (fun _ _ _ => rfl) (fun _ _ => id) (fun _ _ _ _ => id)
  refine ⟨⟨hspaces, List.mem_singleton_self dir, List.mem_singleton_self dir, rfl⟩, rfl,
    fun v => ?_⟩
  show translate u dir v = kernelAddress n v
  rw [htrans' rfl v, htrans rfl v, hnone v]
  unfold kernelAddress
  have hv := v.isLt
  have hlowest : (0#32).toNat = 0 := rfl
  have hstart : (0xC0000000#32).toNat = 3221225472 := rfl
  rw [hlowest, hstart, BitVec.sub_zero, BitVec.zero_add]
  by_cases hlow : v.toNat < 0x400000
  · rw [if_neg (by omega), if_pos (by omega), if_pos hlow]
  · rw [if_neg hlow]
    by_cases hin : 0xC0000000 ≤ v.toNat ∧ v.toNat < 0xC0000000 + 4096 * n
    · rw [if_pos hin, if_pos hin]
    · rw [if_neg hin, if_neg hin, if_neg (by omega)]

/-- `vmmngr_initialize` succeeds when there are frames for the directory, the table of the first
4 MB and the tables of the image. -/
theorem initialize_succeeds {k : Nat} (hstock : Stock c₀.vm.phys (k + 2 + (n + 1023) / 1024)) :
    ∃ c, vmmngrInitialize c₀ n = .ret (c, .ok) ∧ Stock c.vm.phys k := by
  rcases allocBlock_spec hstock.small (Prod.eta (pmmngrAllocBlock c₀.vm.phys)).symm with
    ⟨hzero, -⟩ | ⟨b, haddr, hpos, hb, hfree, hps⟩
  · exact absurd hzero (hstock.alloc (by omega))
  obtain ⟨dir, hdir⟩ : ∃ dir, BitVec.ofNat 32 (b * pmmngrBlockSize) = dir := ⟨_, rfl⟩
  obtain ⟨hempty, -⟩ := SpacesOk.empty hstock.small hb hpos hdir
  have hne := (hempty.dir dir (List.mem_singleton_self dir)).1
  rw [initialize_eq (Prod.ext hps haddr) hpos (hb.trans_le hstock.small) hdir]
  -- one table for the first 4 MB
  have hone : ∀ p, tablesNeeded p 0#32 1024 ≤ 1 := by decide
  have hstock₁ : Stock (c₀.vm.phys.take b) (k + (n + 1023) / 1024 + 1) :=
    (hstock.take hb hfree (by omega)).mono (by omega)
  obtain ⟨t, hlow, hok, hstock₂⟩ := mapPages_leaves 0#32 hempty hstock₁ hone
  have himage : ∀ p, tablesNeeded p 0xC0000000#32 n ≤ (n + 1023) / 1024 := by
    intro p
    have hstart : (0xC0000000#32).toNat = 3221225472 := rfl
    have hle : (if p = true then 0 else 1) ≤ 1 := by split <;> omega
    unfold tablesNeeded
    rw [hstart]
    by_cases hn : n = 0
    · rw [if_pos hn]
      omega
    · rw [if_neg hn]
      omega
  obtain ⟨u, hrest, hok', hstock₃⟩ := mapPages_leaves 0x100000#32 hok hstock₂ himage
  obtain ⟨c, hswitch, hphys⟩ : ∃ c, vmmngrSwitchDirectory
      { c₀ with vm := u, kernelDirectory := dir, spaces := [dir] } dir dir = (c, .ok) ∧
      c.vm.phys = u.phys := by
    unfold vmmngrSwitchDirectory
    by_cases hcr3 : c₀.cr3 = dir
    · rw [if_pos hcr3]
      exact ⟨_, rfl, rfl⟩
    · rw [if_neg hcr3, if_neg hne]
      exact ⟨_, rfl, rfl⟩
  refine ⟨c, ?_, hphys ▸ hstock₃⟩
  rw [hlow]
  show (mapPages dir n 0x100000#32 0xC0000000#32 t).bind _ = _
  rw [hrest]
  show (match vmmngrSwitchDirectory
    { c₀ with vm := u, kernelDirectory := dir, spaces := [dir] } dir dir with
    | (c, e) => if e ≠ ErrorT.ok then Outcome.ret (c, ErrorT.occur) else .ret (c, .ok)) = _
  rw [hswitch]
  rfl

/-- The processor uses the directory that `vmmngr_initialize` has made. -/
theorem PagingBooted.cr3_translate (h : PagingBooted n c) (hn : n ≤ 0x40000) (v : BitVec 32) :
    translate c.vm c.cr3 v = kernelAddress n v := by
  obtain ⟨hok, hspaces, htrans⟩ := h.spec hn
  have hcur := hok.current
  rw [hspaces, ← hok.cr3] at hcur
  rw [List.mem_singleton.mp hcur, htrans]

end Boot

/-! ## Runs from boot -/

/-- The address of the page that a call names. -/
def PagingCall.address : PagingCall → Option (BitVec 32)
  | .mapPage _ _ virt _ => some virt
  | .allocPage base _ => some base
  | .freePage addr => some addr
  | _ => none

section Runs

variable {c₀ c c' c'' : SpaceRun} {call : PagingCall} {calls later : List PagingCall}
variable {d d' v w m virt : BitVec 32} {n : Nat}

theorem PagingCall.address_of_page (h : call.page c = some (m, virt)) :
    call.address = some virt := by
  cases call with
  | processSpace => cases h
  | switchDirectory dir => cases h
  | mapPage dir phys virt flags =>
    cases h
    rfl
  | allocPage base flags =>
    cases h
    rfl
  | freePage addr =>
    cases h
    rfl

theorem KernelPage.samePage (h : KernelPage n v) (hpage : v >>> 12 = w >>> 12) :
    KernelPage n w := by
  rw [samePage_toNat] at hpage
  unfold KernelPage at h ⊢
  omega

/-- The kernel is where it should be in every space. -/
def KernelKept (n : Nat) (c : SpaceRun) : Prop :=
  c.Ok ∧ ∀ d ∈ c.spaces, ∀ v, KernelPage n v → translate c.vm d v = kernelAddress n v

/-- A call on a page that is none of the kernel's. -/
theorem KernelKept.step (h : KernelKept n c) (hs : SpaceStep c call c')
    (haway : ∀ virt, call.address = some virt → ¬ KernelPage n virt) : KernelKept n c' := by
  obtain ⟨hok, hkept⟩ := h
  have hstep := hs.keeps hok
  refine ⟨hstep.ok, fun d hd v hv => ?_⟩
  rcases hstep.copied d hd with hold | ⟨-, hcopy⟩
  · rw [hstep.kept.page d hold v, hkept d hold v hv]
    rintro ⟨m, virt, hpage, hsame, -⟩
    exact haway virt (PagingCall.address_of_page hpage) (hv.samePage hsame)
  · rw [(hcopy v).2, hkept _ hok.kernel v hv]

/-- 64 frames, of which the first is in use. -/
def beforePaging : SpaceRun where
  vm := ⟨⟨256, 1, 64, fun i => if i = 0 then 1#32 else 0#32⟩, fun _ => 0#32, 0#32⟩
  cr3 := 0#32
  kernelDirectory := 0#32
  spaces := []

theorem beforePaging_stock : Stock beforePaging.vm.phys 63 :=
  ⟨⟨by decide +kernel, by decide⟩, by decide, by decide, by decide⟩

/-- An image of one page. -/
theorem beforePaging_boots : ∃ c, PagingBooted 1 c ∧ Stock c.vm.phys 60 := by
  have hstock : Stock beforePaging.vm.phys (60 + 2 + (1 + 1023) / 1024) := beforePaging_stock
  obtain ⟨c, hinit, hleft⟩ := initialize_succeeds hstock
  exact ⟨c, ⟨beforePaging, by decide, by unfold frameUsed; decide, hinit⟩, hleft⟩

end Runs

end MeOS
