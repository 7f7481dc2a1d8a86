import Mathlib.Tactic

/-! # Reversal in place

A range of a memory is reversed by exchanges of cells from both ends on, up to the middle.
-/

namespace Reversal

variable {α : Type} {f : Nat → α} {b n j x : Nat}

/-- The contents of two cells are exchanged. -/
def exchange (f : Nat → α) (a b : Nat) : Nat → α :=
  Function.update (Function.update f a (f b)) b (f a)

/-- The `n` cells from `b` on are in reverse order. -/
def reversed (f : Nat → α) (b n : Nat) : Nat → α := fun x =>
  if b ≤ x ∧ x < b + n then f (2 * b + n - 1 - x) else f x

/-- The `n` cells are in reverse order but for those more than `j` away from both ends. -/
def mirrored (f : Nat → α) (b n j : Nat) : Nat → α := fun x =>
  if b ≤ x ∧ x < b + n ∧ (x < b + j ∨ b + n ≤ x + j) then f (2 * b + n - 1 - x) else f x

theorem mirrored_zero : mirrored f b n 0 = f := by
  funext x
  exact if_neg (by omega)

/-- One exchange. -/
theorem mirrored_succ (hj : 2 * (j + 1) ≤ n) :
    exchange (mirrored f b n j) (b + j) (b + (n - 1 - j)) = mirrored f b n (j + 1) := by
  have hleft : mirrored f b n j (b + j) = f (b + j) := if_neg (by omega)
  have hright : mirrored f b n j (b + (n - 1 - j)) = f (b + (n - 1 - j)) := if_neg (by omega)
  funext x
  rw [exchange, hleft, hright]
  by_cases hr : x = b + (n - 1 - j)
  · have hcell : 2 * b + n - 1 - x = b + j := by omega
    rw [hr, Function.update_self, mirrored, if_pos (by omega), ← hr, hcell]
  · rw [Function.update_of_ne hr]
    by_cases hl : x = b + j
    · have hcell : 2 * b + n - 1 - x = b + (n - 1 - j) := by omega
      rw [hl, Function.update_self, mirrored, if_pos (by omega), ← hl, hcell]
    · -- the other cells are on the same side of both bounds
      have hsame : (b ≤ x ∧ x < b + n ∧ (x < b + j ∨ b + n ≤ x + j)) ↔
          (b ≤ x ∧ x < b + n ∧ (x < b + (j + 1) ∨ b + n ≤ x + (j + 1))) := by omega
      rw [Function.update_of_ne hl]
      simp only [mirrored, hsame]

/-- At the middle all is done. -/
theorem mirrored_half : mirrored f b n (n / 2) = reversed f b n := by
  funext x
  by_cases hx : b ≤ x ∧ x < b + n
  · rw [reversed, if_pos hx]
    by_cases hside : x < b + n / 2 ∨ b + n ≤ x + n / 2
    · exact if_pos ⟨hx.1, hx.2, hside⟩
    · -- the cell in the middle
      have hmiddle : 2 * b + n - 1 - x = x := by omega
      rw [hmiddle]
      exact if_neg fun h => hside h.2.2
  · rw [reversed, if_neg hx]
    exact if_neg fun h => hx ⟨h.1, h.2.1⟩

theorem reversed_inside (h : x < n) : reversed f b n (b + x) = f (b + (n - 1 - x)) := by
  have hcell : 2 * b + n - 1 - (b + x) = b + (n - 1 - x) := by omega
  rw [reversed, if_pos (by omega), hcell]

end Reversal
