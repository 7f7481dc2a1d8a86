import Mathlib.Logic.Function.Basic
import Mathlib.Data.List.Basic
import Mathlib.Data.Nat.ModEq

/-! # Lists in a ring of cells

A ring of `n` cells holds a list from a head position on, wrapping around at
the end. Elements are put behind the last one and taken at the head; cells
outside the list may hold anything.
-/

namespace Ring

variable {α : Type*} {n head i j : Nat} {buf : Nat → α} {l : List α} {x : α}

/-- The cells from `head` on hold `l`. -/
def Holds (n : Nat) (buf : Nat → α) (head : Nat) (l : List α) : Prop :=
  ∀ k, (h : k < l.length) → buf ((head + k) % n) = l[k]

/-- The number of steps from position `a` to position `b`. -/
def dist (n a b : Nat) : Nat := (b + (n - a)) % n

/-- Positions less than a turn apart are different. -/
theorem pos_inj (hi : i < n) (hj : j < n) (h : (head + i) % n = (head + j) % n) : i = j := by
  have hmod : i ≡ j [MOD n] := Nat.ModEq.add_left_cancel' head h
  have hij : i % n = j % n := hmod
  rw [Nat.mod_eq_of_lt hi, Nat.mod_eq_of_lt hj] at hij
  exact hij

theorem pos_add (a b : Nat) : ((head + a) % n + b) % n = (head + (a + b)) % n := by
  rw [Nat.mod_add_mod, Nat.add_assoc]

/-- The distance to a position behind `head`. -/
theorem dist_pos (hhead : head < n) (hi : i < n) : dist n head ((head + i) % n) = i := by
  unfold dist
  rw [Nat.mod_add_mod, show head + i + (n - head) = i + n by omega, Nat.add_mod_right,
    Nat.mod_eq_of_lt hi]

/-- A position is the head moved on by its distance. -/
theorem pos_dist (hhead : head < n) (hi : i < n) : (head + dist n head i) % n = i := by
  unfold dist
  rw [Nat.add_mod_mod, show head + (i + (n - head)) = i + n by omega, Nat.add_mod_right,
    Nat.mod_eq_of_lt hi]

theorem Holds.nil : Holds n buf head [] := by
  intro k hk
  cases hk

/-- The first element is in the cell at the head. -/
theorem Holds.first (hhead : head < n) (h : Holds n buf head (x :: l)) : buf head = x := by
  have h₀ := h 0 (Nat.succ_pos _)
  rw [Nat.add_zero, Nat.mod_eq_of_lt hhead] at h₀
  exact h₀

/-- The cell behind the last element is not one of the list. -/
theorem spare (hlen : l.length < n) {k : Nat} (hk : k < l.length) :
    (head + l.length) % n ≠ (head + k) % n := by
  intro heq
  have := pos_inj hlen (Nat.lt_trans hk hlen) heq
  omega

/-- A write behind the last element leaves the list alone. -/
theorem Holds.write (h : Holds n buf head l) (hlen : l.length < n) :
    Holds n (Function.update buf ((head + l.length) % n) x) head l := by
  intro k hk
  rw [Function.update_of_ne (Ne.symm (spare hlen hk))]
  exact h k hk

/-- An element that was put behind the last one belongs to the list. -/
theorem Holds.push (h : Holds n buf head l) (hx : buf ((head + l.length) % n) = x) :
    Holds n buf head (l ++ [x]) := by
  intro k hk
  by_cases hlt : k < l.length
  · rw [List.getElem_append_left hlt]
    exact h k hlt
  · rw [List.length_append, List.length_singleton] at hk
    have hkl : k = l.length := by omega
    subst hkl
    rw [hx]
    simp

/-- The head moves on by `m` elements. -/
theorem Holds.drop (h : Holds n buf head l) (m : Nat) :
    Holds n buf ((head + m) % n) (l.drop m) := by
  intro k hk
  rw [List.length_drop] at hk
  rw [pos_add, List.getElem_drop]
  exact h (m + k) (by omega)

/-- The first element is taken. -/
theorem Holds.pop (h : Holds n buf head (x :: l)) : Holds n buf ((head + 1) % n) l :=
  h.drop 1

/-- The position behind the last element stays when the head moves on. -/
theorem end_drop {m : Nat} (n head : Nat) (hm : m ≤ l.length) :
    ((head + m) % n + (l.drop m).length) % n = (head + l.length) % n := by
  rw [pos_add, List.length_drop, show m + (l.length - m) = l.length by omega]

end Ring
