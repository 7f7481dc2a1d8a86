import MeOS.PeLoader

/-! # `validate_PE_image`: which images are accepted

The comments ask for an executable image for 32-bit machines. Of the tests, the one of these two
bits compares the constants with zero before it looks at the characteristics, and never refuses.
So an image is accepted without them, and its sections are mapped.
-/

namespace MeOS.PeValidate

open Bytes Traced

section

variable {m : Mem} {image : Nat}

/-- A word of the NT headers at `offset`. -/
def ntWord16 (m : Mem) (image offset : Nat) : Nat := load16 m (image + eLfanew m image + offset)

/-- A double word of the NT headers at `offset`. -/
def ntWord32 (m : Mem) (image offset : Nat) : Nat := load32 m (image + eLfanew m image + offset)

/-- The fields that are checked lie in the page. -/
def HeaderInPage (m : Mem) (image : Nat) : Prop :=
  image + pageCacheSize ≤ 4294967296 ∧ eLfanew m image + 56 ≤ pageCacheSize

/-- The two characteristics that the comments ask for. -/
def Executable32 (m : Mem) (image : Nat) : Prop :=
  ntWord16 m image 22 &&& imageFileExecutableImage ≠ 0 ∧
    ntWord16 m image 22 &&& imageFile32bitMachine ≠ 0

/-- The other conditions: both signatures, the machine, no relocations to be done, and an image
base in the user land. -/
structure OthersMet (m : Mem) (image : Nat) : Prop where
  magic : load16 m image = imageDosSignature
  lfanew : eLfanew m image ≠ 0
  signature : ntWord32 m image 0 = imageNtSignature
  machine : ntWord16 m image 4 = imageFileMachineI386
  stripped : ntWord16 m image 22 &&& 1 ≠ 0
  baseLow : 4194304 ≤ ntWord32 m image 52
  baseHigh : ntWord32 m image 52 < 2147483648

/-- What the comments of `validate_PE_image` require. -/
def Required (m : Mem) (image : Nat) : Prop := OthersMet m image ∧ Executable32 m image

instance (m : Mem) (image : Nat) : Decidable (Executable32 m image) :=
  inferInstanceAs (Decidable (_ ∧ _))

/-- A field of the headers, where the 32-bit sums of the code find it. -/
theorem nt_address (offset : Nat) (h : HeaderInPage m image) (hoff : offset < 56) :
    add32 (add32 (eLfanew m image) image) offset = image + eLfanew m image + offset := by
  obtain ⟨himage, hfit⟩ := h
  simp only [pageCacheSize] at himage hfit
  rw [add32_eq (a := eLfanew m image) (by omega), add32_eq (by omega)]
  omega

/-- An image is accepted when the conditions other than the two bits are met. -/
theorem validate_iff (h : HeaderInPage m image) :
    ((validatePEImage image).run m).value = true ↔ OthersMet m image := by
  have hat := fun offset => nt_address offset h
  have hzero : add32 (eLfanew m image) image = image + eLfanew m image + 0 := by
    have hfirst := nt_address 0 h (by decide)
    simp only [add32] at hfirst ⊢
    omega
  -- the test of the two bits masks with 0
  have hnever : ∀ c : Nat, ¬ (c &&& (if imageFileExecutableImage ||| imageFile32bitMachine = 0
      then 1 else 0) ≠ 0) := by
    intro c
    rw [if_neg (by decide), Nat.and_zero]
    exact not_not.mpr rfl
  simp only [validatePEImage, value_bind, value_guard]
  simp only [peGetNtHeaders, value_bind, mem_bind, run_read32, run_read16, run_pure, hnever,
    not_false_eq_true, true_and]
  change _ ∧ _ ∧ ¬ load32 m (add32 (eLfanew m image) image) ≠ _ ∧
    ¬ load16 m (add32 (add32 (eLfanew m image) image) 4) ≠ _ ∧
    ¬ load16 m (add32 (add32 (eLfanew m image) image) 22) &&& 1 = 0 ∧
    ¬ load32 m (add32 (add32 (eLfanew m image) image) 52) < _ ∧
    ¬ load32 m (add32 (add32 (eLfanew m image) image) 52) ≥ _ ∧ _ ↔ _
  rw [hat 4 (by decide), hat 22 (by decide), hat 52 (by decide), hzero]
  constructor
  · rintro ⟨hlfanew, hmagic, hsignature, hmachine, hstripped, hlow, hhigh, _⟩
    exact ⟨not_not.mp hmagic, hlfanew, not_not.mp hsignature, not_not.mp hmachine, hstripped,
      Nat.le_of_not_lt hlow, Nat.lt_of_not_le hhigh⟩
  · rintro ⟨hmagic, hlfanew, hsignature, hmachine, hstripped, hlow, hhigh⟩
    exact ⟨hlfanew, not_not.mpr hmagic, not_not.mpr hsignature, not_not.mpr hmachine, hstripped,
      Nat.not_lt.mpr hlow, Nat.not_le.mpr hhigh, trivial⟩

/-- Exactly the images that meet the requirements are accepted, and of no other one is a section
mapped, whatever was read and whatever `vfs_mmap_p` would answer. -/
def ValidatesExactly (m : Mem) (image : Nat) : Prop :=
  (((validatePEImage image).run m).value = true ↔ Required m image) ∧
    ∀ mapped bytesRead, image ≠ 0 → ¬ Required m image →
      ((peLoadImage mapped bytesRead image).run m).value = .ret (0, [])

/-- A refused image is not loaded. -/
theorem peLoadImage_refused {mapped : Nat → Bool} {bytesRead : Nat} (himage : image ≠ 0)
    (h : ((validatePEImage image).run m).value = false) :
    ((peLoadImage mapped bytesRead image).run m).value = .ret (0, []) := by
  unfold peLoadImage
  by_cases hread : bytesRead < 512
  · rw [if_pos hread]
    rfl
  · rw [if_neg hread, if_neg himage, value_bind, if_pos h]
    rfl

/-- An image is validated as required exactly when both bits are set or another condition fails. -/
theorem validatesExactly_iff (m : Mem) (image : Nat) (h : HeaderInPage m image) :
    ValidatesExactly m image ↔ (OthersMet m image → Executable32 m image) := by
  constructor
  · rintro ⟨haccepts, _⟩ hothers
    exact (haccepts.mp ((validate_iff h).mpr hothers)).2
  · intro hbits
    have haccepts : ((validatePEImage image).run m).value = true ↔ Required m image :=
      (validate_iff h).trans ⟨fun hothers => ⟨hothers, hbits hothers⟩, And.left⟩
    refine ⟨haccepts, fun mapped bytesRead himage hnot => peLoadImage_refused himage ?_⟩
    rw [← Bool.not_eq_true]
    exact fun hvalid => hnot (haccepts.mp hvalid)

theorem validatesExactly_iff_near :
    ValidatesExactly (peImage 64) 4096 ↔
      (OthersMet (peImage 64) 4096 → Executable32 (peImage 64) 4096) :=
  validatesExactly_iff (peImage 64) 4096
    ⟨by decide, by rw [show eLfanew (peImage 64) 4096 = 64 by decide +kernel]; decide⟩

/-- An image without the bit for 32-bit machines is accepted. -/
theorem accepts_without_32bit : ¬ ValidatesExactly (peImage 64) 4096 := by
  rintro ⟨haccepts, _⟩
  have hvalid : ((validatePEImage 4096).run (peImage 64)).value = true := by decide +kernel
  have hbits : ¬ Executable32 (peImage 64) 4096 := by decide +kernel
  exact hbits (haccepts.mp hvalid).2

end

end MeOS.PeValidate
