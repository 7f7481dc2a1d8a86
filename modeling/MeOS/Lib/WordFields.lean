import Mathlib.Data.BitVec

/-! # Fields of a word

A mask `m` selects a field of a word: `x &&& m` reads it, and
`(x &&& ~~~m) ||| v` replaces it by `v`. Bits outside the mask are kept. A word
lies within another when all its bits are bits of the other.
-/

namespace WordFields

variable {w : Nat} {x m v f : BitVec w}

/-- The field that was set is read back. -/
theorem get_set (hv : v &&& m = v) : ((x &&& ~~~m) ||| v) &&& m = v := by
  apply BitVec.eq_of_getLsbD_eq
  intro i hi
  have hbit := congrArg (fun y => y.getLsbD i) hv
  simp only [BitVec.getLsbD_and, BitVec.getLsbD_or, BitVec.getLsbD_not, hi] at hbit ⊢
  generalize x.getLsbD i = a, m.getLsbD i = b, v.getLsbD i = c at hbit ⊢
  revert a b c
  decide

/-- Setting a field keeps the bits outside of it. -/
theorem and_set (hv : v &&& m = v) (hf : f &&& m = 0#w) :
    ((x &&& ~~~m) ||| v) &&& f = x &&& f := by
  apply BitVec.eq_of_getLsbD_eq
  intro i hi
  have hbit := congrArg (fun y => y.getLsbD i) hv
  have hout := congrArg (fun y => y.getLsbD i) hf
  simp only [BitVec.getLsbD_and, BitVec.getLsbD_or, BitVec.getLsbD_not, BitVec.getLsbD_zero,
    hi] at hbit hout ⊢
  generalize x.getLsbD i = a, m.getLsbD i = b, v.getLsbD i = c, f.getLsbD i = d at hbit hout ⊢
  revert a b c d
  decide

/-- Switching bits on outside of a field keeps the field. -/
theorem get_or (hf : f &&& m = 0#w) : (x ||| f) &&& m = x &&& m := by
  apply BitVec.eq_of_getLsbD_eq
  intro i hi
  have hout := congrArg (fun y => y.getLsbD i) hf
  simp only [BitVec.getLsbD_and, BitVec.getLsbD_or, BitVec.getLsbD_zero] at hout ⊢
  generalize x.getLsbD i = a, m.getLsbD i = b, f.getLsbD i = c at hout ⊢
  revert a b c
  decide

/-- Bits that are switched on are on. -/
theorem or_and_of_le (hv : f &&& v = v) : (x ||| f) &&& v = v := by
  apply BitVec.eq_of_getLsbD_eq
  intro i hi
  have hbit := congrArg (fun y => y.getLsbD i) hv
  simp only [BitVec.getLsbD_and, BitVec.getLsbD_or] at hbit ⊢
  generalize x.getLsbD i = a, f.getLsbD i = b, v.getLsbD i = c at hbit ⊢
  revert a b c
  decide

/-- Switching bits off outside of a field keeps the field. -/
theorem get_del (hf : f &&& m = 0#w) : (x &&& ~~~f) &&& m = x &&& m := by
  apply BitVec.eq_of_getLsbD_eq
  intro i hi
  have hout := congrArg (fun y => y.getLsbD i) hf
  simp only [BitVec.getLsbD_and, BitVec.getLsbD_not, BitVec.getLsbD_zero, hi] at hout ⊢
  generalize x.getLsbD i = a, m.getLsbD i = b, f.getLsbD i = c at hout ⊢
  revert a b c
  decide

/-- Bits that are switched off are off. -/
theorem del_and_self : (x &&& ~~~f) &&& f = 0#w := by
  apply BitVec.eq_of_getLsbD_eq
  intro i hi
  simp only [BitVec.getLsbD_and, BitVec.getLsbD_not, BitVec.getLsbD_zero, hi]
  cases x.getLsbD i <;> cases f.getLsbD i <;> rfl

/-- Outside of the field, setting it switches the bits of the value on. -/
theorem set_and (hf : f &&& m = 0#w) : ((x &&& ~~~m) ||| v) &&& f = (x ||| v) &&& f := by
  apply BitVec.eq_of_getLsbD_eq
  intro i hi
  have hout := congrArg (fun y => y.getLsbD i) hf
  simp only [BitVec.getLsbD_and, BitVec.getLsbD_or, BitVec.getLsbD_not, BitVec.getLsbD_zero,
    hi] at hout ⊢
  generalize x.getLsbD i = a, m.getLsbD i = b, v.getLsbD i = c, f.getLsbD i = d at hout ⊢
  revert a b c d
  decide

/-- The bits of `x` are bits of `v`. -/
def Within (x v : BitVec w) : Prop := x &&& v = x

instance (x v : BitVec w) : Decidable (Within x v) := inferInstanceAs (Decidable (x &&& v = x))

/-- Switching bits on in a field adds none when they are there. -/
theorem or_and_eq_iff : (x ||| v) &&& m = v &&& m ↔ Within (x &&& m) v := by
  have hbits : ∀ a b c : Bool, ((a || b) && c) = (b && c) ↔ (a && c && b) = (a && c) := by decide
  unfold Within
  constructor
  · intro h
    apply BitVec.eq_of_getLsbD_eq
    intro i hi
    have hbit := congrArg (fun y => y.getLsbD i) h
    simp only [BitVec.getLsbD_and, BitVec.getLsbD_or] at hbit ⊢
    exact (hbits _ _ _).mp hbit
  · intro h
    apply BitVec.eq_of_getLsbD_eq
    intro i hi
    have hbit := congrArg (fun y => y.getLsbD i) h
    simp only [BitVec.getLsbD_and, BitVec.getLsbD_or] at hbit ⊢
    exact (hbits _ _ _).mpr hbit

theorem within_and_iff : Within x (v &&& f) ↔ Within x v ∧ Within x f := by
  unfold Within
  constructor
  · intro h
    constructor
    · rw [← h, BitVec.and_assoc, BitVec.and_assoc, BitVec.and_comm f v, ← BitVec.and_assoc v v,
        BitVec.and_self]
    · rw [← h, BitVec.and_assoc, BitVec.and_assoc, BitVec.and_self]
  · intro ⟨hv, hf⟩
    rw [← BitVec.and_assoc, hv, hf]

end WordFields
