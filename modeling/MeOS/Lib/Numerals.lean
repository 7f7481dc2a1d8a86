import Mathlib.Data.Nat.Digits.Lemmas

/-! # Numerals

The digits of a number as a loop of divisions finds them, the last one first. Unlike `Nat.digits`,
zero has a digit. Read from the front, digits add up to a number.
-/

namespace Numerals

/-- The digits, the last one first. -/
def digitsOf (base n : Nat) : List Nat := if n = 0 then [0] else Nat.digits base n

variable {base n k d : Nat} {l : List Nat}

/-- A number below the base is its digit. -/
theorem digitsOf_small (h : n < base) : digitsOf base n = [n] := by
  unfold digitsOf
  by_cases hn : n = 0
  · rw [if_pos hn, hn]
  · rw [if_neg hn, Nat.digits_of_lt base n hn h]

/-- The last digit and those of the quotient. -/
theorem digitsOf_large (hbase : 2 ≤ base) (h : base ≤ n) :
    digitsOf base n = n % base :: digitsOf base (n / base) := by
  have hquot : n / base ≠ 0 := Nat.ne_of_gt (Nat.div_pos h (by omega))
  unfold digitsOf
  rw [if_neg (by omega), if_neg hquot, Nat.digits_def' (by omega) (by omega)]

/-- Induction along the divisions. -/
theorem digits_induction {motive : Nat → Prop} (hbase : 2 ≤ base)
    (small : ∀ n, n < base → motive n)
    (large : ∀ n, base ≤ n → motive (n / base) → motive n) (n : Nat) : motive n := by
  induction n using Nat.strong_induction_on with
  | _ n ih =>
    by_cases h : n < base
    · exact small n h
    · exact large n (by omega) (ih _ (Nat.div_lt_self (by omega) (by omega)))

theorem digitsOf_lt (hbase : 2 ≤ base) (h : d ∈ digitsOf base n) : d < base := by
  unfold digitsOf at h
  by_cases hn : n = 0
  · rw [if_pos hn, List.mem_singleton] at h
    omega
  · rw [if_neg hn] at h
    exact Nat.digits_lt_base (by omega) h

theorem digitsOf_length_pos (base n : Nat) : 0 < (digitsOf base n).length := by
  unfold digitsOf
  by_cases hn : n = 0
  · rw [if_pos hn]
    exact Nat.one_pos
  · rw [if_neg hn]
    exact List.length_pos_iff.mpr (Nat.digits_ne_nil_iff_ne_zero.mpr hn)

/-- The number of digits against a power of the base. -/
theorem digitsOf_length_le_iff (hbase : 2 ≤ base) (hk : 0 < k) :
    (digitsOf base n).length ≤ k ↔ n < base ^ k := by
  unfold digitsOf
  by_cases hn : n = 0
  · rw [if_pos hn, hn]
    exact iff_of_true hk (Nat.pow_pos (by omega))
  · rw [if_neg hn]
    exact Nat.digits_length_le_iff (by omega) n

/-- Some digit is not zero, except for zero. -/
theorem exists_digit_pos (base : Nat) (hn : n ≠ 0) : ∃ d ∈ digitsOf base n, 0 < d := by
  have hne : Nat.digits base n ≠ [] := Nat.digits_ne_nil_iff_ne_zero.mpr hn
  refine ⟨(Nat.digits base n).getLast hne, ?_, ?_⟩
  · rw [digitsOf, if_neg hn]
    exact List.getLast_mem hne
  · exact Nat.pos_of_ne_zero (Nat.getLast_digit_ne_zero base hn)

/-! ## Reading -/

/-- The value of digits, the first one first. -/
def valueOf (base : Nat) : List Nat → Nat
  | [] => 0
  | d :: l => d * base ^ l.length + valueOf base l

/-- One digit more. -/
theorem valueOf_append_singleton :
    valueOf base (l ++ [d]) = valueOf base l * base + d := by
  induction l with
  | nil => simp [valueOf]
  | cons a l ih =>
    rw [List.cons_append, valueOf, valueOf, ih, List.length_append, List.length_singleton,
      Nat.pow_succ]
    ring

/-- The digits of a number have its value. -/
theorem valueOf_reverse_digitsOf (hbase : 2 ≤ base) (n : Nat) :
    valueOf base (digitsOf base n).reverse = n := by
  refine digits_induction (motive := fun n => valueOf base (digitsOf base n).reverse = n) hbase
    ?_ ?_ n
  · intro n h
    rw [digitsOf_small h]
    simp [valueOf]
  · intro n h ih
    rw [digitsOf_large hbase h, List.reverse_cons, valueOf_append_singleton, ih]
    exact Nat.div_add_mod' n base

end Numerals
