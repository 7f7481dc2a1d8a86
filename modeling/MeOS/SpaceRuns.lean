import MeOS.AddressSpaces
import MeOS.Lib.Simulation

/-! # Runs over the address spaces

Processes are created, the processor is switched between their spaces, and pages
are mapped, allocated and freed. Two spaces that have one table for an address
agree on its pages from then on, and what is done to a page of another table is
not seen.
-/

namespace MeOS

open Runs

/-- The paging state: `cr3` is the register, `kernelDirectory` the variable of the source, and
`spaces` are the directories made so far. -/
structure SpaceRun where
  vm : VmState
  cr3 : BitVec 32
  kernelDirectory : BitVec 32
  spaces : List (BitVec 32)

/-- `vmmngr_switch_directory`. -/
def vmmngrSwitchDirectory (c : SpaceRun) (dir pdbr : BitVec 32) : SpaceRun × ErrorT :=
  if c.cr3 = pdbr then (c, .ok)
  else if dir = 0#32 then (c, .occur)
  else ({ c with vm := { c.vm with currentDirectory := dir }, cr3 := pdbr }, .ok)


/-- Calls on the address spaces; `processSpace` is what `process_create` does without a
directory. -/
inductive PagingCall where
  | processSpace
  | switchDirectory (dir : BitVec 32)
  | mapPage (dir phys virt flags : BitVec 32)
  | allocPage (base flags : BitVec 32)
  | freePage (addr : BitVec 32)
deriving Repr, DecidableEq

/-- Execute a call. -/
def PagingCall.exec (c : SpaceRun) : PagingCall → Outcome SpaceRun
  | .processSpace =>
    let (vm, dir) := vmmngrCreateAddressSpace c.vm
    let (vm, _) := vmmngrMapKernelSpace vm c.kernelDirectory dir
    return { c with vm := vm, spaces := if dir = 0#32 then c.spaces else dir :: c.spaces }
  | .switchDirectory dir => return (vmmngrSwitchDirectory c dir dir).1
  | .mapPage dir phys virt flags => do
    let (vm, _) ← vmmngrMapPage c.vm dir phys virt flags
    return { c with vm := vm }
  | .allocPage base flags => do
    let (vm, _) ← vmmngrAllocPageF c.vm base flags
    return { c with vm := vm }
  | .freePage addr => do
    let vm ← vmmngrFreePageAddr c.vm addr
    return { c with vm := vm }

/-- The space and the address that a call acts on. -/
def PagingCall.page (c : SpaceRun) : PagingCall → Option (BitVec 32 × BitVec 32)
  | .mapPage dir _ virt _ => some (dir, virt)
  | .allocPage base _ => some (c.vm.currentDirectory, base)
  | .freePage addr => some (c.vm.currentDirectory, addr)
  | _ => none

/-- Directories are ones that were made, flags have no frame bits and the present bit, and a
page that is freed has a table and gives back no table. -/
def PagingCall.Made (c : SpaceRun) : PagingCall → Prop
  | .processSpace => True
  | .switchDirectory dir => dir ∈ c.spaces
  | .mapPage dir _ _ flags =>
    dir ∈ c.spaces ∧ flags < 0x1000#32 ∧ flags &&& i86PtePresent = i86PtePresent
  | .allocPage _ flags => flags < 0x1000#32 ∧ flags &&& i86PtePresent = i86PtePresent
  | .freePage addr =>
    pdEntryIsPresent (dirEntry c.vm c.vm.currentDirectory addr) = true ∧
      FreeableFrame c.spaces c.vm (pageFrame c.vm addr)

/-- One call. -/
def SpaceStep (c : SpaceRun) (call : PagingCall) (c' : SpaceRun) : Prop :=
  call.Made c ∧ call.exec c = .ret c'

/-- The spaces are in order, the kernel's is among them, and the processor uses the current
one. -/
structure SpaceRun.Ok (c : SpaceRun) : Prop where
  spaces : SpacesOk c.spaces c.vm
  kernel : c.kernelDirectory ∈ c.spaces
  current : c.vm.currentDirectory ∈ c.spaces
  cr3 : c.cr3 = c.vm.currentDirectory

/-- The pages that a call reaches. -/
def PagingCall.Reaches (c : SpaceRun) (call : PagingCall) (d v : BitVec 32) : Prop :=
  ∃ m virt, call.page c = some (m, virt) ∧ Touches c.vm m virt d v

/-- The frame that a call gives back. -/
def PagingCall.Frees (c : SpaceRun) (call : PagingCall) (g : BitVec 32) : Prop :=
  ∃ addr, call = .freePage addr ∧ g = pageFrame c.vm addr

/-- What a call leaves. -/
structure StepKeeps (c : SpaceRun) (call : PagingCall) (c' : SpaceRun) : Prop where
  ok : c'.Ok
  kernel : c'.kernelDirectory = c.kernelDirectory
  spaces : ∀ d ∈ c.spaces, d ∈ c'.spaces
  kept : SpaceKept c.spaces (call.Reaches c) c.vm c'.vm
  used : ∀ g, g &&& i86PteFrame = g → ¬ call.Frees c g → frameUsed c.vm g → frameUsed c'.vm g
  tables : ∀ d ∈ c.spaces, ∀ v, pdEntryIsPresent (dirEntry c'.vm d v) = true →
    dirEntry c'.vm d v = dirEntry c.vm d v ∨
      ¬ frameUsed c.vm (pdEntryGetFrame (dirEntry c'.vm d v))
  copied : ∀ d ∈ c'.spaces, d ∈ c.spaces ∨ ¬ frameUsed c.vm d ∧
    ∀ v, dirEntry c'.vm d v = dirEntry c.vm c.kernelDirectory v ∧
      translate c'.vm d v = translate c.vm c.kernelDirectory v

section Runs

variable {c c' c'' : SpaceRun} {call : PagingCall} {calls : List PagingCall}
variable {d d' v w m virt : BitVec 32} {vm : VmState}

theorem switchDirectory_eq (hd : d ≠ 0#32) : (vmmngrSwitchDirectory c d d).1 =
    if c.cr3 = d then c
    else { c with vm := { c.vm with currentDirectory := d }, cr3 := d } := by
  unfold vmmngrSwitchDirectory
  by_cases hcr3 : c.cr3 = d
  · rw [if_pos hcr3, if_pos hcr3]
  · rw [if_neg hcr3, if_neg hcr3, if_neg hd]

/-- A call on one page. -/
theorem Reached.keeps {freed : BitVec 32 → Prop} (h : Reached c.spaces m virt freed c.vm vm)
    (hok : c.Ok) (hpage : call.page c = some (m, virt)) (hfreed : ∀ g, freed g → call.Frees c g) :
    StepKeeps c call { c with vm := vm } where
  ok := ⟨h.ok, hok.kernel, by rw [h.current]; exact hok.current,
    hok.cr3.trans h.current.symm⟩
  kernel := rfl
  spaces _ hd := hd
  kept := h.kept.mono fun _ _ _ hreach => ⟨m, virt, hpage, hreach⟩
  used g hg hno := h.used g hg fun hin => hno (hfreed g hin)
  tables := h.tables
  copied _ hd := Or.inl hd

theorem processSpace_exec (c : SpaceRun) : PagingCall.exec c .processSpace = .ret { c with
    vm := (vmmngrMapKernelSpace (vmmngrCreateAddressSpace c.vm).1 c.kernelDirectory
      (vmmngrCreateAddressSpace c.vm).2).1,
    spaces := if (vmmngrCreateAddressSpace c.vm).2 = 0#32 then c.spaces
      else (vmmngrCreateAddressSpace c.vm).2 :: c.spaces } := rfl

/-- Every call keeps the spaces in order, and reaches the pages it names only. -/
theorem SpaceStep.keeps (hok : c.Ok) (hs : SpaceStep c call c') : StepKeeps c call c' := by
  obtain ⟨hmade, hret⟩ := hs
  cases call with
  | processSpace =>
    rcases createSpace_result (k := c.kernelDirectory) hok.spaces.small with
      hnone | ⟨b, hpos, hb, hfree, hdir, hvm⟩
    · unfold PagingCall.exec at hret
      rw [hnone] at hret
      cases hret
      exact ⟨hok, rfl, fun _ hd => hd, .refl _ _ _, fun _ _ _ => id, fun _ _ _ _ => Or.inl rfl,
        fun _ hd => Or.inl hd⟩
    · have hlt : b < 1048576 := hb.trans_le hok.spaces.small
      obtain ⟨hspaces, hkept, hcopy⟩ := hok.spaces.spaceMade hok.kernel hb hpos hfree rfl
      rw [processSpace_exec, hvm, hdir, if_neg (block_ne_zero hpos hlt)] at hret
      cases hret
      refine ⟨⟨hspaces, List.mem_cons_of_mem _ hok.kernel, List.mem_cons_of_mem _ hok.current,
        hok.cr3⟩, rfl, fun _ hd => List.mem_cons_of_mem _ hd,
        ⟨fun d hd v _ => (hkept d hd v).1, fun d hd v _ => (hkept d hd v).2⟩,
        fun _ _ _ hused => frameUsed_take hused, fun d hd v _ => Or.inl (hkept d hd v).1,
        fun d hd => ?_⟩
      rcases List.mem_cons.mp hd with rfl | hold
      · exact Or.inr ⟨not_frameUsed_block hlt hfree, hcopy⟩
      · exact Or.inl hold
  | switchDirectory dir =>
    have hexec : Outcome.ret (vmmngrSwitchDirectory c dir dir).1 = .ret c' := hret
    rw [switchDirectory_eq (hok.spaces.dir dir hmade).1] at hexec
    by_cases hcr3 : c.cr3 = dir
    · rw [if_pos hcr3] at hexec
      cases hexec
      exact ⟨hok, rfl, fun _ hd => hd, .refl _ _ _, fun _ _ _ => id, fun _ _ _ _ => Or.inl rfl,
        fun _ hd => Or.inl hd⟩
    · rw [if_neg hcr3] at hexec
      cases hexec
      have hspaces : SpacesOk c.spaces { c.vm with currentDirectory := dir } :=
        hok.spaces.congr rfl (fun _ _ _ => rfl) (fun _ _ => id) (fun _ _ _ _ => id)
      exact ⟨⟨hspaces, hok.kernel, hmade, rfl⟩, rfl, fun _ hd => hd,
        ⟨fun _ _ _ _ => rfl, fun _ _ _ _ => rfl⟩, fun _ _ _ => id, fun _ _ _ _ => Or.inl rfl,
        fun _ hd => Or.inl hd⟩
  | mapPage dir phys virt flags =>
    obtain ⟨hdir, hflags, hpresent⟩ := hmade
    obtain ⟨r, hmap, hmapped⟩ := mapPage_reaches hok.spaces hdir phys virt _ hflags hpresent
    obtain ⟨⟨vm, e⟩, hcall, hs⟩ := Outcome.bind_eq_ret.mp hret
    cases hmap.symm.trans hcall
    cases hs
    exact Reached.keeps hmapped.reached hok rfl fun _ hno => hno.elim
  | allocPage base flags =>
    obtain ⟨r, halloc, hreach⟩ := allocPageF_reaches hok.spaces hok.current base hmade.1 hmade.2
    obtain ⟨⟨vm, e⟩, hcall, hs⟩ := Outcome.bind_eq_ret.mp hret
    cases halloc.symm.trans hcall
    cases hs
    exact Reached.keeps hreach hok rfl fun _ hno => hno.elim
  | freePage addr =>
    obtain ⟨vm, hfree, hreach⟩ := freePageAddr_reaches hok.spaces hok.current hmade.1 hmade.2
    obtain ⟨vm', hcall, hs⟩ := Outcome.bind_eq_ret.mp hret
    cases hfree.symm.trans hcall
    cases hs
    exact Reached.keeps hreach.toReached hok rfl fun g hg => ⟨addr, rfl, hg⟩

/-! ## Whole runs -/

end Runs

end MeOS
