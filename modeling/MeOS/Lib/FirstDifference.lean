import Mathlib.Order.PiLex
import Mathlib.Tactic

/-! # The first difference of two sequences

Sequences are compared where they first differ, by any relation of the values there. What is called
before need not be an order: where the relation is not transitive, only the sequences that all
differ at one place tell.
-/

namespace FirstDifference

variable {α : Type} {r : α → α → Prop} {a b c : Nat → α} {i j k : Nat}

/-- The sequences agree up to the place `k`, and differ there. -/
structure DifferAt (a b : Nat → α) (k : Nat) : Prop where
  before : ∀ j < k, a j = b j
  here : a k ≠ b k

theorem DifferAt.symm (h : DifferAt a b k) : DifferAt b a k :=
  ⟨fun j hj => (h.before j hj).symm, h.here.symm⟩

theorem DifferAt.unique (h : DifferAt a b i) (h' : DifferAt a b j) : i = j := by
  rcases Nat.lt_trichotomy i j with hlt | heq | hlt
  · exact absurd (h'.before i hlt) h.here
  · exact heq
  · exact absurd (h.before j hlt) h'.here

/-- Sequences that are not the same differ somewhere first. -/
theorem exists_differAt (h : a ≠ b) : ∃ k, DifferAt a b k := by
  classical
  have hne : ∃ k, a k ≠ b k := Function.ne_iff.mp h
  exact ⟨Nat.find hne, fun j hj => not_not.mp (Nat.find_min hne hj), Nat.find_spec hne⟩

/-- A value in front that is the same. -/
theorem DifferAt.cons (h : DifferAt (fun n => a (n + 1)) (fun n => b (n + 1)) k) (h0 : a 0 = b 0) :
    DifferAt a b (k + 1) := by
  refine ⟨fun j hj => ?_, h.here⟩
  cases j with
  | zero => exact h0
  | succ j => exact h.before j (Nat.lt_of_succ_lt_succ hj)

/-- The earlier one of two differences is that of the outer sequences. -/
theorem DifferAt.trans_lt (hab : DifferAt a b i) (hbc : DifferAt b c j) (h : i < j) :
    DifferAt a c i ∧ b i = c i := by
  have heq := hbc.before i h
  exact ⟨⟨fun n hn => (hab.before n hn).trans (hbc.before n (hn.trans h)), heq ▸ hab.here⟩, heq⟩

theorem DifferAt.trans_same (hab : DifferAt a b k) (hbc : DifferAt b c k) (h : a k ≠ c k) :
    DifferAt a c k :=
  ⟨fun n hn => (hab.before n hn).trans (hbc.before n hn), h⟩

/-! ## The order of the first differences -/

/-- `a` is before `b` where they first differ. -/
abbrev LexBefore (r : α → α → Prop) (a b : Nat → α) : Prop := Pi.Lex (· < ·) (fun {_} => r) a b

theorem DifferAt.lexBefore (h : DifferAt a b k) (hr : r (a k) (b k)) : LexBefore r a b :=
  ⟨k, h.before, hr⟩

theorem LexBefore.differAt (hirrefl : ∀ x, ¬ r x x) (h : LexBefore r a b) :
    ∃ k, DifferAt a b k ∧ r (a k) (b k) := by
  obtain ⟨k, hbefore, hr⟩ := h
  exact ⟨k, ⟨hbefore, fun heq => hirrefl (b k) (heq ▸ hr)⟩, hr⟩

/-- Where the first difference is, the relation there decides. -/
theorem lexBefore_iff (hirrefl : ∀ x, ¬ r x x) (h : DifferAt a b k) :
    LexBefore r a b ↔ r (a k) (b k) := by
  refine ⟨fun hlex => ?_, h.lexBefore⟩
  obtain ⟨j, hj, hr⟩ := hlex.differAt hirrefl
  exact h.unique hj ▸ hr

/-- A sequence is not before itself. -/
theorem lexBefore_irrefl (hirrefl : ∀ x, ¬ r x x) : ¬ LexBefore r a a := by
  rintro ⟨k, _, hr⟩
  exact hirrefl (a k) hr

/-- Two steps make one, if they do at the places where both are. -/
theorem LexBefore.trans_of (hirrefl : ∀ x, ¬ r x x) (hab : LexBefore r a b)
    (hbc : LexBefore r b c)
    (hsame : ∀ k, DifferAt a b k → DifferAt b c k → r (a k) (b k) → r (b k) (c k) →
      r (a k) (c k)) : LexBefore r a c := by
  obtain ⟨i, hi, hri⟩ := hab.differAt hirrefl
  obtain ⟨j, hj, hrj⟩ := hbc.differAt hirrefl
  rcases Nat.lt_trichotomy i j with hlt | rfl | hlt
  · obtain ⟨hac, heq⟩ := hi.trans_lt hj hlt
    exact hac.lexBefore (heq ▸ hri)
  · have hr := hsame i hi hj hri hrj
    exact (hi.trans_same hj fun heq => hirrefl (c i) (heq ▸ hr)).lexBefore hr
  · obtain ⟨hca, heq⟩ := hj.symm.trans_lt hi.symm hlt
    exact hca.symm.lexBefore (heq ▸ hrj)

end FirstDifference
