import MeOS.FileAccess
import MeOS.Mmap
import MeOS.MmngrVirtual

/-! # `page_fault_bottom`

The handler looks up the area of the address under the contract lock and provides
the page: a fresh frame, a fresh frame with a page of the file read into it, or the
cell of the page cache itself. It reads with capabilities of its own. The memory is
addressed as the process sees it.
-/

namespace MeOS

/-- `MMAP_IDENTITY_MAP`. -/
abbrev mmapIdentityMap : Nat := 32768

/-- `I86_PDE_USER`. -/
abbrev i86PdeUser : BitVec 32 := 4#32

/-! ## Pages -/

/-- `page_fault_error_is_page_present`. -/
def pageFaultErrorIsPagePresent (error : Nat) : Bool := error &&& 1 != 0

/-- `page_fault_error_is_write`. -/
def pageFaultErrorIsWrite (error : Nat) : Bool := error &&& 2 != 0

/-- `page_fault_calculate_present_flags`. -/
def pageFaultCalculatePresentFlags (areaFlags : Nat) : BitVec 32 :=
  let flags := i86PtePresent
  let flags := if chkBit areaFlags mmapWrite then flags ||| i86PteWritable else flags
  if chkBit areaFlags mmapUser then flags ||| i86PdeUser else flags

/-- `page_fault_alloc_page`; no answer is looked at. -/
def pageFaultAllocPage (vm : VmState) (areaFlags address : Nat) : Outcome VmState := do
  let flags := pageFaultCalculatePresentFlags areaFlags
  let page := BitVec.ofNat 32 address
  let (vm, _) ←
    (if chkBit areaFlags mmapIdentityMap then vmmngrMapPage vm vm.currentDirectory page page flags
    else vmmngrAllocPageF vm page flags)
  .ret vm

/-- The pages of an area from `address` on; `address` wraps around when the area ends in the last
page of the address space. -/
def allocAreaPages (areaFlags endAddr : Nat) : Nat → Nat → VmState → Outcome VmState
  | 0, _, _ => .running
  | fuel + 1, address, vm =>
    if address < endAddr then do
      let vm ← pageFaultAllocPage vm areaFlags address
      allocAreaPages areaFlags endAddr fuel (add32 address pageSize) vm
    else
      .ret vm

/-- `addr & (~0xFFF)`. -/
def pageOf (addr : Nat) : Nat := addr - addr % pageSize

/-! ## The handler -/

/-- The files, the page tables and the process that page faults work on. -/
structure FaultState where
  files : FileState
  vm : VmState
  proc : Pcb

/-- A page of a private area of a file. -/
def faultPrivateFile (ops : FsOperations) (s : FaultState) (area : VmArea) (addr : Nat) :
    Outcome FaultState := do
  let flags := pageFaultCalculatePresentFlags area.flags
  let (vm, _) ← vmmngrAllocPageF s.vm (BitVec.ofNat 32 (pageOf addr)) flags
  let readStart :=
    add32 area.offset (mul32 (sub32 addr area.startAddr / pageSize) pageSize)
  match gftGet s.files area.fd with
  | none => .panic
  | some _ =>
    match ← readFileGlobal ops s.files area.fd readStart pageSize (pageOf addr)
        (vfsCapRead ||| vfsCapCache) with
    | (_, .error _) => .panic
    | (files, .ok n) => if n ≠ pageSize then .panic else .ret { s with files := files, vm := vm }

/-- A page of a shared area of a file. -/
def faultSharedFile (ops : FsOperations) (s : FaultState) (area : VmArea) (addr : Nat) :
    Outcome FaultState := do
  let readStart := add32 area.offset (sub32 (pageOf addr) area.startAddr)
  match ← readFileGlobal ops s.files area.fd readStart pageSize noBuffer
      (vfsCapRead ||| vfsCapCache) with
  | (_, .error _) => .panic
  | (files, .ok n) =>
    if n ≠ pageSize then .panic
    else do
      let usedCache := pageCacheGetBuffer files area.fd (readStart / pageSize)
      let flags := pageFaultCalculatePresentFlags area.flags
      let (vm, _) ← vmmngrMapPage s.vm s.vm.currentDirectory
        (vmmngrGetPhysAddr s.vm (BitVec.ofNat 32 usedCache)) (BitVec.ofNat 32 (pageOf addr)) flags
      .ret { s with files := files, vm := vm }

/-- The area is filled from a file. -/
def fileBacked (area : VmArea) : Bool :=
  if chkBit area.flags mmapPrivate then
    !chkBit area.flags mmapAllocImmediate && !chkBit area.flags mmapAnonymous
  else !chkBit area.flags mmapAnonymous

/-- `page_fault_bottom`; `code` is the error code of the processor. -/
def pageFaultBottom (ops : FsOperations) (s : FaultState) (addr code : Nat) :
    Outcome FaultState := do
  let (proc, area) ← pageFaultArea s.proc addr
  let s := { s with proc := proc }
  -- tried to access an inaccessible page
  if area.flags &&& mmapProtection = mmapNoAccess then .panic
  -- tried to write to a read-only page
  else if pageFaultErrorIsWrite code ∧ area.flags &&& mmapWrite ≠ mmapWrite then .panic
  else if pageFaultErrorIsPagePresent code then .panic
  else if chkBit area.flags mmapPrivate then
    if chkBit area.flags mmapAllocImmediate then do
      let vm ← allocAreaPages area.flags area.endAddr (4294967296 / pageSize + 1) area.startAddr s.vm
      .ret { s with vm := vm }
    else if chkBit area.flags mmapAnonymous then do
      let vm ← pageFaultAllocPage s.vm area.flags (pageOf addr)
      .ret { s with vm := vm }
    else
      faultPrivateFile ops s area addr
  else if chkBit area.flags mmapAnonymous then .panic
  else
    faultSharedFile ops s area addr

/-! ## What a fault leaves -/

/-- With a page directory a page is mapped or refused. -/
theorem vmmngrMapPage_returns (s : VmState) {dir : BitVec 32} (phys virt flags : BitVec 32)
    (h : dir ≠ 0#32) : ∃ r, vmmngrMapPage s dir phys virt flags = .ret r := by
  unfold vmmngrMapPage vmmngrPdirectoryLookupEntry
  rw [if_pos h]
  dsimp only
  split
  · split <;> exact ⟨_, rfl⟩
  · exact ⟨_, rfl⟩

theorem vmmngrAllocPageF_returns {s : VmState} (base flags : BitVec 32)
    (h : s.currentDirectory ≠ 0#32) : ∃ r, vmmngrAllocPageF s base flags = .ret r := by
  unfold vmmngrAllocPageF
  split
  · exact vmmngrMapPage_returns s _ _ _ h
  split
  · dsimp only
    split
    · exact ⟨_, rfl⟩
    · exact vmmngrMapPage_returns _ _ _ _ h
  split
  · exact ⟨_, rfl⟩
  · exact vmmngrMapPage_returns s _ _ _ h

section Fault

variable {ops : FsOperations} {s s' : FaultState} {area : VmArea} {addr code : Nat}

theorem faultPrivateFile_kept (h : faultPrivateFile ops s area addr = .ret s') :
    s'.files.fileNodes = s.files.fileNodes ∧
      ∃ e, s.files.gft[area.fd]? = some e ∧ e.fileNode ≠ 0 := by
  unfold faultPrivateFile at h
  rcases Outcome.bind_eq_ret.mp h with ⟨⟨vm, r⟩, _, hrest⟩
  dsimp only at hrest
  cases hentry : gftGet s.files area.fd with
  | none =>
    rw [hentry] at hrest
    cases hrest
  | some e =>
    rw [hentry] at hrest
    rcases Outcome.bind_eq_ret.mp hrest with ⟨⟨files, res⟩, hread, hret⟩
    rcases readFileGlobal_spec hread with ⟨hkept, hok⟩
    cases res with
    | error e => cases hret
    | ok n =>
      dsimp only at hret
      split at hret
      · cases hret
      · cases hret
        exact ⟨hkept, (hok n rfl).1⟩

theorem faultSharedFile_kept (h : faultSharedFile ops s area addr = .ret s') :
    s'.files.fileNodes = s.files.fileNodes ∧
      ∃ e, s.files.gft[area.fd]? = some e ∧ e.fileNode ≠ 0 := by
  unfold faultSharedFile at h
  rcases Outcome.bind_eq_ret.mp h with ⟨⟨files, res⟩, hread, hret⟩
  rcases readFileGlobal_spec hread with ⟨hkept, hok⟩
  cases res with
  | error e => cases hret
  | ok n =>
    dsimp only at hret
    split at hret
    · cases hret
    · rcases Outcome.bind_eq_ret.mp hret with ⟨⟨vm, r⟩, _, hlast⟩
      cases hlast
      exact ⟨hkept, (hok n rfl).1⟩

/-- A fault that is served finds its area and leaves the nodes of the entries; an area of a
file names an entry in use. -/
theorem pageFaultBottom_spec (h : pageFaultBottom ops s addr code = .ret s') :
    ∃ proc area, pageFaultArea s.proc addr = .ret (proc, area) ∧
      s'.files.fileNodes = s.files.fileNodes ∧
      (fileBacked area = true → ∃ e, s.files.gft[area.fd]? = some e ∧ e.fileNode ≠ 0) := by
  unfold pageFaultBottom at h
  rcases Outcome.bind_eq_ret.mp h with ⟨⟨proc, area⟩, harea, hrest⟩
  refine ⟨proc, area, harea, ?_⟩
  dsimp only at hrest
  -- the faults that end in an error first
  split at hrest
  · cases hrest
  split at hrest
  · cases hrest
  split at hrest
  · cases hrest
  unfold fileBacked
  by_cases hprivate : chkBit area.flags mmapPrivate = true
  · rw [if_pos hprivate] at hrest ⊢
    by_cases himmediate : chkBit area.flags mmapAllocImmediate = true
    · rw [if_pos himmediate] at hrest
      rcases Outcome.bind_eq_ret.mp hrest with ⟨vm, _, hret⟩
      cases hret
      exact ⟨rfl, fun hfile => by simp [himmediate] at hfile⟩
    rw [if_neg himmediate] at hrest
    by_cases hanonymous : chkBit area.flags mmapAnonymous = true
    · rw [if_pos hanonymous] at hrest
      rcases Outcome.bind_eq_ret.mp hrest with ⟨vm, _, hret⟩
      cases hret
      exact ⟨rfl, fun hfile => by simp [hanonymous] at hfile⟩
    · rw [if_neg hanonymous] at hrest
      rcases faultPrivateFile_kept hrest with ⟨hkept, hentry⟩
      exact ⟨hkept, fun _ => hentry⟩
  · rw [if_neg hprivate] at hrest ⊢
    by_cases hanonymous : chkBit area.flags mmapAnonymous = true
    · rw [if_pos hanonymous] at hrest
      cases hrest
    · rw [if_neg hanonymous] at hrest
      rcases faultSharedFile_kept hrest with ⟨hkept, hentry⟩
      exact ⟨hkept, fun _ => hentry⟩

end Fault

end MeOS
