import MeOS.VmContract

/-! # `memory.cpp`: mapping files and memory

`vfs_mmap_p` refuses bad arguments before it takes the contract lock of the
process. When `vm_contract_add_area` refuses the area it returns too, and the
lock stays taken.
-/

namespace MeOS

open Runs

/-! ## Flags -/

/-- `MMAP_READ`. -/
abbrev mmapRead : Nat := 2

/-- `MMAP_WRITE`. -/
abbrev mmapWrite : Nat := 4

/-- `MMAP_PROTECTION`. -/
abbrev mmapProtection : Nat := 15

/-- `MMAP_NO_ACCESS`. -/
abbrev mmapNoAccess : Nat := 0

/-- `MMAP_USER`. -/
abbrev mmapUser : Nat := 8

/-- `MMAP_SHARED`. -/
abbrev mmapShared : Nat := 32

/-- `MMAP_PRIVATE`. -/
abbrev mmapPrivate : Nat := 64

/-- `MMAP_ANONYMOUS`. -/
abbrev mmapAnonymous : Nat := 128

/-- `MMAP_ALLOC_IMMEDIATE`. -/
abbrev mmapAllocImmediate : Nat := 16384

/-! ## The functions -/

/-- What `MEMORY_ERROR`, `VM_AREA_ERROR` and `VM_CONTRACT_ERROR` tell about a
failed mapping. -/
inductive MmapError where
  | badProtection
  | badFlags
  | badBounds
  | contract (e : VmContractError)
deriving Repr, DecidableEq

/-- `process_control_block`: the address space of a process. -/
structure Pcb where
  memoryContract : VmContract
  contractSpinlock : Nat
deriving Repr, DecidableEq

/-- `spinlock_acquire` by the thread that runs: a taken lock is waited for. -/
def spinlockAcquire (lock : Nat) : Outcome Nat := if lock = 1 then .running else .ret 1

/-- `spinlock_release`. -/
def spinlockRelease (_lock : Nat) : Nat := 0

/-- `vfs_mmap_p`: an error is `MAP_FAILED` with the last error set; `raw` is the
content of the fresh local record. -/
def vfsMmapP (raw : VmArea) (proc : Pcb) (pref gfd offset length prot flags : Nat) :
    Outcome (Pcb × Except MmapError Nat) :=
  if prot > 0xF then
    .ret (proc, .error .badProtection)
  else if chkBit flags mmapShared = false ∧ chkBit flags mmapPrivate = false then
    .ret (proc, .error .badFlags)
  else if chkBit flags mmapAllocImmediate = true ∧ chkBit flags mmapAnonymous = false then
    .ret (proc, .error .badFlags)
  else
    let area := vmAreaCreate raw pref (add32 pref length) (flags ||| prot) gfd offset
    if area.flags = mmapInvalid then
      .ret (proc, .error .badBounds)
    else do
      let lock ← spinlockAcquire proc.contractSpinlock
      let (c, res) ← vmContractAddArea proc.memoryContract area
      match res with
      | .error e => pure (⟨c, lock⟩, .error (.contract e))
      | .ok () => pure (⟨c, spinlockRelease lock⟩, .ok area.startAddr)

/-- The part of `page_fault_bottom` that holds the contract lock: a copy of the
area at the address. -/
def pageFaultArea (proc : Pcb) (addr : Nat) : Outcome (Pcb × VmArea) :=
  if proc.contractSpinlock = 1 then
    .panic
  else do
    let lock ← spinlockAcquire proc.contractSpinlock
    match ← vmContractFindArea proc.memoryContract addr with
    | .error _ => .panic
    | .ok index =>
      match proc.memoryContract.contract.data[index]? with
      | none => .undefined
      | some area => pure ({ proc with contractSpinlock := spinlockRelease lock }, area)

/-! ## Adding to the contract of a process -/

section Add

variable {low high : Nat} {c c' : VmContract} {a : VmArea}

/-- The contract of a space of one page: the guards are the same page. -/
def OnePage (low high : Nat) (c : VmContract) : Prop :=
  high = low + pageSize ∧ low % pageSize = 0 ∧ ∃ raw rSize,
    c = ⟨⟨[guardArea raw low, guardArea raw low], rSize⟩, low, high⟩

/-- In a space of one page there is nothing to add. -/
theorem OnePage.refuses (hc : OnePage low high c) (hhigh : high < 4294967296) (ha : Created a) :
    (∃ e, vmContractAddArea c a = .ret (c, .error e)) ∧ ¬ (Lies low high a ∧ Clear c a) := by
  obtain ⟨rfl, hlow, raw, rSize, rfl⟩ := hc
  rcases ha.cases with ⟨hpage, hok⟩ | ⟨hok, hempty⟩
  swap
  · refine ⟨⟨.badArguments, by simp [vmContractAddArea, hok]⟩, ?_⟩
    rintro ⟨⟨_, hlt, _⟩, _⟩
    exact hempty hlt
  have hend := hpage.getEndAddress
  have hwidth := hpage.width
  have halign := hpage.startAligned
  simp only [pageSize] at hlow hwidth halign
  by_cases hlies : Lies low (low + pageSize) a
  · -- the area is the page of the guards
    obtain ⟨hstart, hlt, hstop⟩ := hlies
    simp only [pageSize] at hstop
    have heq : a.startAddr = low := by omega
    have hrange : ¬ low + pageSize ≤ vmAreaGetEndAddress a := by
      rw [hend]
      simp only [pageSize]
      omega
    have hadd : add32 0 1 = 1 := by decide
    refine ⟨⟨.areaExists, ?_⟩, ?_⟩
    · simp [vmContractAddArea, hok, hrange, OrderedVector.count, search, searchLoop, sub32, hadd,
        guardArea, heq]
    · rintro ⟨_, hclear⟩
      have happ := hclear (guardArea raw low) List.mem_cons_self
      simp only [Extents.Apart, guardArea, pageSize] at happ
      omega
  · refine ⟨⟨.badArguments, ?_⟩, fun h => hlies h.1⟩
    have hrange : a.startAddr < low ∨ vmAreaGetEndAddress a ≥ low + pageSize := by
      rw [hend]
      unfold Lies at hlies
      omega
    simp [vmContractAddArea, hok, hrange]

/-- Every contract in use has its guards apart, or is that of one page. -/
theorem contract_cases (hhigh : high < 4294967296) (h : (contractSystem low high).Reachable c) :
    Space low high ∧ ContractInv low high c ∨ OnePage low high c := by
  by_cases hroom : low + 2 * pageSize ≤ high
  · exact Or.inl ((contractInv_inductive hroom hhigh).holds h)
  refine Or.inr ?_
  induction h with
  | init h =>
    obtain ⟨raw, h⟩ := h
    obtain ⟨hlo, hhi, hfits, rSize, _, _, rfl⟩ := vmContractInit_eq hhigh h
    simp only [pageSize] at hlo hhi hfits hroom
    have hsize : high = low + pageSize := by
      simp only [pageSize]
      omega
    exact ⟨hsize, hlo, raw, rSize, by rw [hsize, Nat.add_sub_cancel]⟩
  | next _ hstep ih =>
    cases hstep with
    | add a ha h =>
      obtain ⟨e, he⟩ := (ih.refuses hhigh ha).1
      cases he.symm.trans h
      exact ih
    | remove a ha h =>
      have hkeep := ih
      obtain ⟨_, _, raw, rSize, rfl⟩ := ih
      have hguard : vmAreaIsRemovable a = false := by
        simp only [VmContract.areas, List.mem_cons, List.not_mem_nil, or_false, or_self] at ha
        rw [ha]
        exact (guardArea_guard raw low).nonRemovable
      rw [vmContractRemoveArea, if_pos hguard] at h
      cases h
      exact hkeep

/-- On a contract in use `vm_contract_add_area` returns; it adds the area exactly
when it fits. -/
theorem vmContractAddArea_inUse (hhigh : high < 4294967296)
    (h : (contractSystem low high).Reachable c) (ha : Created a) :
    ∃ c' res, vmContractAddArea c a = .ret (c', res) ∧
      (res = .ok () ↔ Lies low high a ∧ Clear c a) ∧
      (res = .ok () → c'.areas.Perm (a :: c.areas) ∧ c'.lowestAddr = c.lowestAddr ∧
        c'.highestAddr = c.highestAddr) ∧ (res ≠ .ok () → c' = c) := by
  rcases contract_cases hhigh h with ⟨hs, hi⟩ | hone
  · obtain ⟨c', res, hrun, hadded⟩ := vmContractAddArea_spec hs hi ha
    refine ⟨c', res, hrun, hadded.ok_iff, fun hok => ⟨hadded.grows hok, ?_, ?_⟩, hadded.keeps⟩
    · exact hadded.inv.lowest.trans hi.lowest.symm
    · exact hadded.inv.highest.trans hi.highest.symm
  · obtain ⟨⟨e, he⟩, hnot⟩ := hone.refuses hhigh ha
    refine ⟨c, .error e, he, ?_, fun h => (by cases h), fun _ => rfl⟩
    simp [hnot]

end Add

/-! ## All or nothing -/

/-- The call returns with the lock free: the contract holds `area` in addition, or
the call fails and the contract is as before. -/
def AllOrNothing (proc : Pcb) (area : VmArea) (run : Outcome (Pcb × Except MmapError Nat)) :
    Prop :=
  ∃ proc' res, run = .ret (proc', res) ∧ proc'.contractSpinlock = 0 ∧
    ((res = .ok area.startAddr ∧
        proc'.memoryContract.areas.Perm (area :: proc.memoryContract.areas) ∧
        proc'.memoryContract.lowestAddr = proc.memoryContract.lowestAddr ∧
        proc'.memoryContract.highestAddr = proc.memoryContract.highestAddr) ∨
      ((∃ e, res = .error e) ∧ proc'.memoryContract = proc.memoryContract))

/-- The request is refused before the lock is taken. -/
def RefusedEarly (pref length prot flags : Nat) : Prop :=
  prot > 0xF ∨ (chkBit flags mmapShared = false ∧ chkBit flags mmapPrivate = false) ∨
    (chkBit flags mmapAllocImmediate = true ∧ chkBit flags mmapAnonymous = false) ∨
    vmAreaCheckBounds pref (add32 pref length) = false ∨
    (flags ||| prot) &&& mmapInvalid = mmapInvalid

section Mmap

variable {low high pref gfd offset length prot flags : Nat} {raw : VmArea} {proc : Pcb}

/-- A request refused early fails and leaves the process as it is. -/
theorem vfsMmapP_early (raw : VmArea) (proc : Pcb) (gfd offset : Nat)
    (h : RefusedEarly pref length prot flags) :
    ∃ e, vfsMmapP raw proc pref gfd offset length prot flags = .ret (proc, .error e) := by
  unfold vfsMmapP
  by_cases hprot : prot > 0xF
  · exact ⟨_, if_pos hprot⟩
  rw [if_neg hprot]
  by_cases hshare : chkBit flags mmapShared = false ∧ chkBit flags mmapPrivate = false
  · exact ⟨_, if_pos hshare⟩
  rw [if_neg hshare]
  by_cases halloc : chkBit flags mmapAllocImmediate = true ∧ chkBit flags mmapAnonymous = false
  · exact ⟨_, if_pos halloc⟩
  rw [if_neg halloc]
  have hargs : vmAreaCheckBounds pref (add32 pref length) = false ∨
      (flags ||| prot) &&& mmapInvalid = mmapInvalid := by
    rcases h with h | h | h | h
    · exact absurd h hprot
    · exact absurd h hshare
    · exact absurd h halloc
    · exact h
  have hcreate : vmAreaCreate raw pref (add32 pref length) (flags ||| prot) gfd offset =
      vmAreaInit raw := if_pos hargs
  rw [hcreate]
  exact ⟨_, if_pos rfl⟩

/-- Any other request goes for the lock with the area it asks for. -/
theorem vfsMmapP_late (raw : VmArea) (proc : Pcb) (gfd offset : Nat)
    (h : ¬ RefusedEarly pref length prot flags) :
    vmAreaCreate raw pref (add32 pref length) (flags ||| prot) gfd offset =
        ⟨pref, add32 pref length, flags ||| prot, gfd, offset⟩ ∧
      vfsMmapP raw proc pref gfd offset length prot flags = (do
        let lock ← spinlockAcquire proc.contractSpinlock
        let (c, res) ← vmContractAddArea proc.memoryContract
          ⟨pref, add32 pref length, flags ||| prot, gfd, offset⟩
        match res with
        | .error e => pure (⟨c, lock⟩, .error (.contract e))
        | .ok () => pure (⟨c, spinlockRelease lock⟩, .ok pref)) := by
  unfold RefusedEarly at h
  simp only [not_or] at h
  obtain ⟨hprot, hshare, halloc, hbounds, hinvalid⟩ := h
  have hcreate : vmAreaCreate raw pref (add32 pref length) (flags ||| prot) gfd offset =
      ⟨pref, add32 pref length, flags ||| prot, gfd, offset⟩ := by
    rw [vmAreaCreate, if_neg (not_or.mpr ⟨hbounds, hinvalid⟩)]
  have hflags : ¬ flags ||| prot = mmapInvalid := by
    intro heq
    exact hinvalid (by rw [heq]; rfl)
  refine ⟨hcreate, ?_⟩
  unfold vfsMmapP
  rw [if_neg hprot, if_neg hshare, if_neg halloc, hcreate]
  dsimp only
  rw [if_neg hflags]

/-- The end of an area that is asked for late does not wrap. -/
theorem add32_of_late (hpref : pref < 4294967296) (hlength : length < 4294967296)
    (h : ¬ RefusedEarly pref length prot flags) : add32 pref length = pref + length := by
  unfold RefusedEarly at h
  simp only [not_or] at h
  have hlt := (vmAreaCheckBounds_iff.mp (by simpa using h.2.2.2.1)).2.2
  unfold add32 at hlt ⊢
  omega

/-- `vfs_mmap_p` on a process with its lock free is all or nothing exactly when the
request is refused before the lock is taken, or the area fits: a request that
`vm_contract_add_area` refuses leaves the lock taken. -/
theorem vfsMmapP_allOrNothing (hhigh : high < 4294967296)
    (h : (contractSystem low high).Reachable proc.memoryContract)
    (hfree : proc.contractSpinlock = 0) (hpref : pref < 4294967296)
    (hlength : length < 4294967296) :
    AllOrNothing proc ⟨pref, pref + length, flags ||| prot, gfd, offset⟩
        (vfsMmapP raw proc pref gfd offset length prot flags) ↔
      RefusedEarly pref length prot flags ∨
        Lies low high ⟨pref, pref + length, flags ||| prot, gfd, offset⟩ ∧
          Clear proc.memoryContract ⟨pref, pref + length, flags ||| prot, gfd, offset⟩ := by
  by_cases hearly : RefusedEarly pref length prot flags
  · refine ⟨fun _ => Or.inl hearly, fun _ => ?_⟩
    obtain ⟨e, he⟩ := vfsMmapP_early raw proc gfd offset hearly
    exact ⟨proc, .error e, he, hfree, Or.inr ⟨⟨e, rfl⟩, rfl⟩⟩
  have hstop := add32_of_late hpref hlength hearly
  obtain ⟨hcreate, hrun⟩ := vfsMmapP_late raw proc gfd offset hearly
  rw [hstop] at hcreate hrun
  have hcreated : Created ⟨pref, pref + length, flags ||| prot, gfd, offset⟩ :=
    ⟨raw, pref, pref + length, _, gfd, offset, hstop ▸ add32_lt pref length, hcreate.symm⟩
  obtain ⟨c', res, hadd, hok, hgrows, hkeeps⟩ := vmContractAddArea_inUse hhigh h hcreated
  rw [hrun, hfree, or_iff_right hearly, ← hok]
  have htake : spinlockAcquire 0 = .ret 1 := rfl
  rw [htake, Outcome.ret_bind, hadd, Outcome.ret_bind]
  cases res with
  | ok u =>
    obtain ⟨hperm, hlow, hhigh'⟩ := hgrows rfl
    refine ⟨fun _ => rfl, fun _ => ?_⟩
    exact ⟨⟨c', 0⟩, .ok pref, rfl, rfl, Or.inl ⟨rfl, hperm, hlow, hhigh'⟩⟩
  | error e =>
    refine ⟨?_, fun h => (by cases h)⟩
    rintro ⟨proc', res', hret, hlock, _⟩
    -- the lock is still taken
    cases hret
    cases hlock

/-- With the lock taken, a request that is not refused early waits, and a page
fault is fatal. -/
theorem held_blocks (hheld : proc.contractSpinlock = 1)
    (h : ¬ RefusedEarly pref length prot flags) :
    vfsMmapP raw proc pref gfd offset length prot flags = .running ∧
      ∀ addr, pageFaultArea proc addr = .panic := by
  refine ⟨?_, fun addr => if_pos hheld⟩
  rw [(vfsMmapP_late raw proc gfd offset h).2, hheld]
  rfl

end Mmap

/-! ## A mapping over a guard -/

/-- A process with sixteen pages of address space. -/
def sixteenPagesProc : Pcb := ⟨sixteenPages, 0⟩

/-- A page behind the first guard can be mapped. -/
theorem vfsMmapP_allOrNothing_page :
    AllOrNothing sixteenPagesProc ⟨8192, 12288, 66, 3, 0⟩
      (vfsMmapP ⟨0, 0, 0, 0, 0⟩ sixteenPagesProc 8192 3 0 4096 2 64) := by
  refine (vfsMmapP_allOrNothing (by decide) (.init ⟨_, sixteenPages_init⟩) rfl (by decide)
    (by decide)).mpr (Or.inr ⟨⟨by decide, by decide, by decide⟩, ?_⟩)
  intro b hb
  simp only [VmContract.areas, sixteenPagesProc, sixteenPages, List.mem_cons, List.not_mem_nil,
    or_false] at hb
  rcases hb with rfl | rfl
  · exact Or.inl (by decide)
  · exact Or.inr (by decide)

/-- A mapping over the first guard fails and keeps the lock; the next mapping waits
for ever and any page fault stops the machine. -/
theorem vfsMmapP_keepsLock :
    (contractSystem 0 65536).Reachable sixteenPagesProc.memoryContract ∧
      sixteenPagesProc.contractSpinlock = 0 ∧
      ¬ AllOrNothing sixteenPagesProc ⟨0, 4096, 66, 3, 0⟩
        (vfsMmapP ⟨0, 0, 0, 0, 0⟩ sixteenPagesProc 0 3 0 4096 2 64) ∧
      ∃ proc, vfsMmapP ⟨0, 0, 0, 0, 0⟩ sixteenPagesProc 0 3 0 4096 2 64 =
          .ret (proc, .error (.contract .areaExists)) ∧
        vfsMmapP ⟨0, 0, 0, 0, 0⟩ proc 8192 3 0 4096 2 64 = .running ∧
        ∀ addr, pageFaultArea proc addr = .panic := by
  have hrun : vfsMmapP ⟨0, 0, 0, 0, 0⟩ sixteenPagesProc 0 3 0 4096 2 64 =
      .ret (⟨sixteenPages, 1⟩, .error (.contract .areaExists)) := by decide +kernel
  refine ⟨.init ⟨_, sixteenPages_init⟩, rfl, ?_, _, hrun, held_blocks rfl ?_⟩
  · rintro ⟨proc', res, hret, hlock, _⟩
    cases hrun.symm.trans hret
    cases hlock
  · unfold RefusedEarly
    decide +kernel

end MeOS
