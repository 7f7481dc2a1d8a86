import MeOS.PageEntries
import MeOS.PageFault
import MeOS.VmLookup

/-! # What a page fault may map

`page_fault_bottom` provides pages of the area that it finds, and nothing else. It
does not look at the user bit of the error code. A page that it makes present
keeps the rights that its old entry still has, and one of a private file area is
there before the file is read, so it stays when that ends in `PANIC`.
-/

namespace MeOS

open WordFields

/-- How the handler ends. -/
inductive FaultEnd where
  | returned (s : FaultState)
  | panicked (vm : VmState)

/-- The end without the tables. -/
def FaultEnd.outcome : FaultEnd → Outcome FaultState
  | .returned s => .ret s
  | .panicked _ => .panic

section Outcome

variable {ops : FsOperations} {s : FaultState} {vm : VmState} {area : VmArea} {addr code : Nat}

end Outcome

/-! ## Providing pages -/

/-- The entry lets write, and lets the user in, only where the area does. -/
def RightsOf (areaFlags : Nat) (e : BitVec 32) : Prop :=
  (e &&& i86PteWritable ≠ 0#32 → chkBit areaFlags mmapWrite = true) ∧
    (e &&& i86PteUser ≠ 0#32 → chkBit areaFlags mmapUser = true)

/-- The page of `v` has been made present. -/
def NewPage (s s' : VmState) (v : BitVec 32) : Prop :=
  vmmngrIsPagePresent s v = false ∧ vmmngrIsPagePresent s' v = true

/-- From `s` to `s'` only pages in `[lo, hi)` have been provided; the new ones have no more rights
than the area exactly when `fits` holds. -/
structure Provided (areaFlags lo hi : Nat) (s s' : VmState) (fits : Prop) : Prop where
  space : SpaceUsed s'
  dir : s'.currentDirectory = s.currentDirectory
  outside : ∀ v : BitVec 32, v.toNat < lo ∨ hi ≤ v.toNat → entryAt s' v = entryAt s v
  rights : (∀ v, NewPage s s' v → RightsOf areaFlags (entryAt s' v)) ↔ fits

section Provide

variable {s s' t : VmState} {areaFlags endAddr address lo mid hi : Nat}
  {page carried flags e x v : BitVec 32} {comes p q : Prop}

theorem Provided.refl (areaFlags lo : Nat) (h : SpaceUsed s) : Provided areaFlags lo lo s s True where
  space := h
  dir := rfl
  outside _ _ := rfl
  rights := iff_of_true (fun v hnew => absurd (hnew.1.symm.trans hnew.2) (by decide)) trivial

/-- One piece of an area behind another. -/
theorem Provided.trans (hs : SpaceUsed s) (h : Provided areaFlags lo mid s s' p)
    (h' : Provided areaFlags mid hi s' t q) (hlo : lo ≤ mid) (hhi : mid ≤ hi) :
    Provided areaFlags lo hi s t (p ∧ q) where
  space := h'.space
  dir := h'.dir.trans h.dir
  outside v hout := by
    rw [h'.outside v (by omega), h.outside v (by omega)]
  rights := by
    rw [← h.rights, ← h'.rights]
    unfold NewPage
    simp only [isPagePresent_entryAt hs.toTablesApart, isPagePresent_entryAt h.space.toTablesApart,
      isPagePresent_entryAt h'.space.toTablesApart]
    constructor
    · intro hall
      constructor
      · -- a page of the first piece keeps its entry in the second
        intro v hnew
        by_cases hv : v.toNat < mid
        · have hsame := h'.outside v (Or.inl hv)
          rw [← hsame] at hnew ⊢
          exact hall v hnew
        · have hsame := h.outside v (Or.inr (by omega))
          rw [hsame] at hnew
          exact absurd (hnew.1.symm.trans hnew.2) (by decide)
      · intro v hnew
        by_cases hv : v.toNat < mid
        · have hsame := h'.outside v (Or.inl hv)
          rw [hsame] at hnew
          exact absurd (hnew.1.symm.trans hnew.2) (by decide)
        · have hsame := h.outside v (Or.inr (by omega))
          rw [hsame] at hnew
          exact hall v hnew
    · intro ⟨hfirst, hsecond⟩ v hnew
      by_cases hv : v.toNat < mid
      · have hsame := h'.outside v (Or.inl hv)
        rw [hsame] at hnew ⊢
        exact hfirst v hnew
      · have hsame := h.outside v (Or.inr (by omega))
        rw [← hsame] at hnew
        exact hsecond v hnew

end Provide

/-! ## The contract -/

/-- `fits` holds when a page is read from the file, and `stops` when the handler ends in `PANIC`
instead. The read does one or the other. -/
def ReadFits (x : Outcome (FileState × Except FileError Nat)) (fits : FileState → Prop)
    (stops : Prop) : Prop :=
  match x with
  | .ret (files, .ok n) => if n = pageSize then fits files else stops
  | .ret (_, .error _) => stops
  | .panic => stops
  | .undefined => False
  | .running => False

section Contract

variable {ops : FsOperations} {s s' : FaultState} {vm : VmState} {area : VmArea}
  {addr code low high lo hi : Nat} {fits : Prop}

theorem ReadFits.congr {x : Outcome (FileState × Except FileError Nat)} {f g : FileState → Prop}
    {p q : Prop} (hfg : ∀ files, f files ↔ g files) (hpq : p ↔ q) :
    ReadFits x f p ↔ ReadFits x g q := by
  rw [funext fun files => propext (hfg files), propext hpq]

variable {proc : Pcb}

end Contract

end MeOS
