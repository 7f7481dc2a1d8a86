import Mathlib.Data.Nat.ModEq
import Mathlib.Tactic

/-! # Ones-complement sums

Words of 16 bits are added with end-around carry. The sum of some words is the number modulo
65535, with 65535 itself in the place of zero unless all words are zero; so it is all ones
exactly when the plain sum is a positive multiple of 65535. The order of the bytes does not
matter for that: swapping them multiplies by 256.
-/

namespace OnesComplement

/-- Addition with end-around carry. -/
def add (a b : Nat) : Nat := if a + b < 65536 then a + b else a + b - 65535

/-- The sum of words. -/
def sum (ws : List Nat) : Nat := ws.foldl add 0

/-- The two bytes of a word change places. -/
def swap (w : Nat) : Nat := w % 256 * 256 + w / 256

section

variable {a b w c s : Nat} {ws : List Nat}

theorem add_lt (ha : a < 65536) (hb : b < 65536) : add a b < 65536 := by
  unfold add
  split <;> omega

theorem add_mod (a b : Nat) : add a b % 65535 = (a + b) % 65535 := by
  unfold add
  split <;> omega

theorem add_eq_zero : add a b = 0 ↔ a = 0 ∧ b = 0 := by
  unfold add
  split <;> omega

/-- The invariant of the addition: the plain sum modulo 65535, and zero only for zeros. -/
theorem foldl_add (hws : ∀ w ∈ ws, w < 65536) (ha : a < 65536) :
    ws.foldl add a < 65536 ∧ ws.foldl add a % 65535 = (a + ws.sum) % 65535 ∧
      (ws.foldl add a = 0 ↔ a + ws.sum = 0) := by
  induction ws generalizing a with
  | nil => exact ⟨ha, rfl, Iff.rfl⟩
  | cons w ws ih =>
    rcases List.forall_mem_cons.mp hws with ⟨hw, hrest⟩
    obtain ⟨hlt, hmod, hzero⟩ := ih hrest (add_lt ha hw)
    rw [List.foldl_cons, List.sum_cons]
    refine ⟨hlt, ?_, ?_⟩
    · rw [hmod, ← Nat.mod_add_mod, add_mod, Nat.mod_add_mod, Nat.add_assoc]
    · rw [hzero, Nat.add_eq_zero_iff, add_eq_zero]
      omega

/-- The sum is all ones for a positive multiple of 65535. -/
theorem sum_eq_ones (hws : ∀ w ∈ ws, w < 65536) :
    sum ws = 65535 ↔ 0 < ws.sum ∧ 65535 ∣ ws.sum := by
  obtain ⟨hlt, hmod, hzero⟩ := foldl_add hws (show (0 : Nat) < 65536 by decide)
  rw [Nat.zero_add] at hmod hzero
  change ws.foldl add 0 = 65535 ↔ _
  omega

theorem swap_lt (hw : w < 65536) : swap w < 65536 := by
  unfold swap
  omega

theorem swap_mod (w : Nat) : swap w % 65535 = 256 * w % 65535 := by
  unfold swap
  omega

theorem sum_map_swap_mod : (ws.map swap).sum % 65535 = 256 * ws.sum % 65535 := by
  induction ws with
  | nil => rfl
  | cons w ws ih =>
    rw [List.map_cons, List.sum_cons, List.sum_cons, Nat.mul_add, Nat.add_mod, swap_mod, ih,
      ← Nat.add_mod]

theorem sum_map_swap_eq_zero : (ws.map swap).sum = 0 ↔ ws.sum = 0 := by
  induction ws with
  | nil => exact Iff.rfl
  | cons w ws ih =>
    rw [List.map_cons, List.sum_cons, List.sum_cons, Nat.add_eq_zero_iff, Nat.add_eq_zero_iff, ih]
    unfold swap
    omega

/-- A sum that is all ones is so in the other byte order too. -/
theorem sum_swap_eq_ones (hws : ∀ w ∈ ws, w < 65536) :
    sum (ws.map swap) = 65535 ↔ sum ws = 65535 := by
  have hswapped : ∀ w ∈ ws.map swap, w < 65536 := by
    intro w hw
    obtain ⟨v, hv, rfl⟩ := List.mem_map.mp hw
    exact swap_lt (hws v hv)
  rw [sum_eq_ones hswapped, sum_eq_ones hws]
  refine and_congr ?_ ?_
  · rw [Nat.pos_iff_ne_zero, Nat.pos_iff_ne_zero, Ne, Ne, sum_map_swap_eq_zero]
  · rw [Nat.dvd_iff_mod_eq_zero, sum_map_swap_mod, ← Nat.dvd_iff_mod_eq_zero]
    exact Nat.Coprime.dvd_mul_left (by norm_num)

/-! ## A check word -/

/-- The carries of a 32-bit sum, added once; what is left above 16 bits is dropped. -/
def foldOnce (t : Nat) : Nat := (t / 65536 + t % 65536) % 65536

/-- The complement of `s + c`, folded once, completes `s` to a multiple of 65535 exactly when the
fold leaves no carry and `c` is a zero, or leaves one and `c` makes up for it. -/
theorem complement_dvd (hs : s + c ≤ 1966050) (hc : c < 65536) :
    65535 ∣ s + (65535 - foldOnce (s + c)) ↔
      if (s + c) / 65536 + (s + c) % 65536 < 65536 then c = 0 ∨ c = 65535 else c = 1 := by
  have hsplit := Nat.div_add_mod (s + c) 65536
  have hquot : (s + c) / 65536 < 30 := by omega
  have hrem : (s + c) % 65536 < 65536 := Nat.mod_lt _ (by decide)
  unfold foldOnce
  generalize (s + c) / 65536 = q at hsplit hquot ⊢
  generalize (s + c) % 65536 = r at hsplit hrem ⊢
  by_cases hcarry : q + r < 65536
  · rw [if_pos hcarry, Nat.mod_eq_of_lt hcarry]
    have htotal : s + (65535 - (q + r)) + c = 65535 * (q + 1) := by omega
    omega
  · rw [if_neg hcarry]
    have hfold : (q + r) % 65536 = q + r - 65536 := by omega
    have htotal : s + (65535 - (q + r - 65536)) + c = 65535 * (q + 2) + 1 := by omega
    rw [hfold]
    omega

end

end OnesComplement
