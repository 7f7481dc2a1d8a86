import MeOS.Types

/-! # `vm_area.cpp`: areas of a process address space -/

namespace MeOS

/-- `PAGE_SIZE`, what `vmmngr_get_page_size` returns. -/
abbrev pageSize : Nat := 4096

/-- `MMAP_GROWS_DOWN`. -/
abbrev mmapGrowsDown : Nat := 512

/-- `MMAP_NON_REMOVE`. -/
abbrev mmapNonRemove : Nat := 8192

/-- `MMAP_INVALID`. -/
abbrev mmapInvalid : Nat := 65536

/-- `vm_area`: start inclusive, end exclusive. -/
structure VmArea where
  startAddr : Nat
  endAddr : Nat
  flags : Nat
  fd : Nat
  offset : Nat
deriving Repr, DecidableEq

/-- `operator<` and `operator>` of the source compare the start addresses. -/
instance : LT VmArea := ⟨fun a b => a.startAddr < b.startAddr⟩

instance : DecidableLT VmArea := fun a b => inferInstanceAs (Decidable (a.startAddr < b.startAddr))

theorem VmArea.lt_def (a b : VmArea) : a < b ↔ a.startAddr < b.startAddr := Iff.rfl

/-- `vm_area_check_bounds`. -/
def vmAreaCheckBounds (start stop : Nat) : Bool :=
  !(start % pageSize != 0 || stop % pageSize != 0 || decide (start ≥ stop))

/-- `vm_area_init` on a record that holds `area`; the offset is left as it is. -/
def vmAreaInit (area : VmArea) : VmArea :=
  { area with startAddr := 0, endAddr := 0, flags := mmapInvalid, fd := invalidFd }

/-- `vm_area_create`; `raw` is the content of the fresh local record. -/
def vmAreaCreate (raw : VmArea) (start stop flags fd offset : Nat) : VmArea :=
  if vmAreaCheckBounds start stop = false ∨ flags &&& mmapInvalid = mmapInvalid then
    vmAreaInit raw
  else
    { startAddr := start, endAddr := stop, flags := flags, fd := fd, offset := offset }

/-- `vm_area_set_bounds`. -/
def vmAreaSetBounds (area : VmArea) (start length : Nat) : VmArea × Bool :=
  if vmAreaCheckBounds start (add32 start length) = false then
    (area, false)
  else
    ({ area with startAddr := start, endAddr := add32 start length }, true)

/-- `vm_area_get_end_address`: the last valid full-page address. -/
def vmAreaGetEndAddress (area : VmArea) : Nat :=
  sub32 (mul32 (ceilDivision area.endAddr pageSize) pageSize) 1

/-- `vm_area_get_start_address`. -/
def vmAreaGetStartAddress (area : VmArea) : Nat :=
  mul32 (area.startAddr / pageSize) pageSize

/-- `vm_area_intersects`. -/
def vmAreaIntersects (ext int : VmArea) : Bool :=
  let extStart := vmAreaGetStartAddress ext
  let extEnd := vmAreaGetEndAddress ext
  let intStart := vmAreaGetStartAddress int
  let intEnd := vmAreaGetEndAddress int
  !(decide (intEnd < extStart) || decide (intStart > extEnd))

/-- `vm_area_is_ok`. -/
def vmAreaIsOk (area : VmArea) : Bool :=
  decide (area.flags &&& mmapInvalid ≠ mmapInvalid) && decide (area.startAddr < area.endAddr)

/-- `vm_area_is_removable`. -/
def vmAreaIsRemovable (area : VmArea) : Bool :=
  decide (area.flags &&& mmapNonRemove ≠ mmapNonRemove)

/-- `vm_area_grows_down`. -/
def vmAreaGrowsDown (area : VmArea) : Bool :=
  decide (area.flags &&& mmapGrowsDown = mmapGrowsDown)

/-! ## Page-aligned areas -/

/-- A non-empty range of whole pages of the 32-bit address space. -/
structure PageArea (a : VmArea) : Prop where
  proper : a.startAddr < a.endAddr
  startAligned : a.startAddr % pageSize = 0
  endAligned : a.endAddr % pageSize = 0
  inSpace : a.endAddr < 4294967296

/-- `a` is what `vm_area_create` made of 32-bit arguments. -/
def Created (a : VmArea) : Prop :=
  ∃ raw start stop flags fd offset, stop < 4294967296 ∧
    a = vmAreaCreate raw start stop flags fd offset

section

variable {a b : VmArea}

/-- A page area is at least a page long. -/
theorem PageArea.width (h : PageArea a) : a.startAddr + pageSize ≤ a.endAddr := by
  have h₁ := h.proper
  have h₂ := h.startAligned
  have h₃ := h.endAligned
  simp only [pageSize] at h₂ h₃ ⊢
  omega

/-- The last full-page address of an area that ends with a page is its last address. -/
theorem getEndAddress_aligned (h : a.endAddr % pageSize = 0) (hpos : 0 < a.endAddr)
    (hlt : a.endAddr < 4294967296) : vmAreaGetEndAddress a = a.endAddr - 1 := by
  have hmul : mul32 (a.endAddr / pageSize) pageSize = a.endAddr := by
    simp only [pageSize] at h ⊢
    rw [mul32_eq (by omega)]
    omega
  rw [vmAreaGetEndAddress, ceilDivision, if_neg (by simp [h]), hmul, sub32_eq hlt (by omega)]

theorem getStartAddress_aligned (h : a.startAddr % pageSize = 0) (hlt : a.startAddr < 4294967296) :
    vmAreaGetStartAddress a = a.startAddr := by
  simp only [pageSize] at h
  rw [vmAreaGetStartAddress, mul32_eq (by simp only [pageSize]; omega)]
  simp only [pageSize]
  omega

theorem PageArea.getEndAddress (h : PageArea a) : vmAreaGetEndAddress a = a.endAddr - 1 :=
  getEndAddress_aligned h.endAligned (Nat.zero_lt_of_lt h.proper) h.inSpace

theorem PageArea.getStartAddress (h : PageArea a) : vmAreaGetStartAddress a = a.startAddr :=
  getStartAddress_aligned h.startAligned (h.proper.trans h.inSpace)

/-- Two page areas intersect unless one ends before the other starts. -/
theorem PageArea.intersects (ha : PageArea a) (hb : PageArea b) :
    vmAreaIntersects a b = false ↔ a.endAddr ≤ b.startAddr ∨ b.endAddr ≤ a.startAddr := by
  have h₁ := ha.proper
  have h₂ := hb.proper
  simp only [vmAreaIntersects, ha.getEndAddress, hb.getEndAddress, ha.getStartAddress,
    hb.getStartAddress, Bool.not_eq_false', Bool.or_eq_true, decide_eq_true_eq]
  omega

theorem vmAreaCheckBounds_iff {start stop : Nat} :
    vmAreaCheckBounds start stop = true ↔
      start % pageSize = 0 ∧ stop % pageSize = 0 ∧ start < stop := by
  simp [vmAreaCheckBounds, and_assoc]

/-- A created area is a page area, or it is invalid and empty. -/
theorem Created.cases (h : Created a) :
    (PageArea a ∧ vmAreaIsOk a = true) ∨ (vmAreaIsOk a = false ∧ ¬ a.startAddr < a.endAddr) := by
  obtain ⟨raw, start, stop, flags, fd, offset, hstop, rfl⟩ := h
  unfold vmAreaCreate
  split
  · exact Or.inr ⟨by simp [vmAreaIsOk, vmAreaInit], by simp [vmAreaInit]⟩
  · rename_i hargs
    obtain ⟨hbounds, hflags⟩ := not_or.mp hargs
    obtain ⟨h₁, h₂, h₃⟩ := vmAreaCheckBounds_iff.mp (by simpa using hbounds)
    refine Or.inl ⟨⟨h₃, h₁, h₂, hstop⟩, ?_⟩
    simp only [vmAreaIsOk, Bool.and_eq_true, decide_eq_true_eq]
    exact ⟨hflags, h₃⟩

end

end MeOS
