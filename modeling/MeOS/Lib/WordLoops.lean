import Mathlib.Tactic
import Mathlib.Data.Nat.Find

/-! # Loops over words with an inclusive bound

`for (i = first; i <= last; i++)` over words that wrap at `size`. A turn of the
body gives the next state, or breaks the loop off. Unless `last` is the last word, the
distance to `last` bounds the turns; if it is, no word lies beyond it and only the
body can end the loop, however often it goes round.
-/

namespace WordLoops

variable {σ ρ : Type*}

/-- The loop ends, in front of word `i`. -/
inductive Ends (body : Nat → σ → Except ρ σ) (size last : Nat) : Nat → σ → Prop where
  | beyond {i : Nat} {s : σ} (h : last < i) : Ends body size last i s
  | stop {i : Nat} {s : σ} {r : ρ} (hle : i ≤ last) (h : body i s = .error r) :
      Ends body size last i s
  | next {i : Nat} {s s' : σ} (hle : i ≤ last) (h : body i s = .ok s')
      (hrest : Ends body size last ((i + 1) % size) s') : Ends body size last i s

/-- `k` turns of the body, from word `i` on. -/
def turns (body : Nat → σ → Except ρ σ) (size : Nat) : Nat → Nat → σ → Except ρ σ
  | 0, _, s => .ok s
  | k + 1, i, s =>
    match body i s with
    | .error r => .error r
    | .ok s' => turns body size k ((i + 1) % size) s'

/-- The body breaks the loop off at some turn, with no bound on the words. -/
def Breaks (body : Nat → σ → Except ρ σ) (size i : Nat) (s : σ) : Prop :=
  ∃ k r, turns body size k i s = .error r

section Loop

variable {body : Nat → σ → Except ρ σ} {size last i k q : Nat} {s s' : σ} {r : ρ}

/-- A bound below the last word is passed. -/
theorem Ends.of_lt (h : last + 1 < size) (s : σ) (hi : i ≤ last + 1) :
    Ends body size last i s := by
  obtain ⟨n, hn⟩ : ∃ n, n = last + 1 - i := ⟨_, rfl⟩
  induction n generalizing i s with
  | zero => exact .beyond (by omega)
  | succ n ih =>
    have hle : i ≤ last := by omega
    have hmod : (i + 1) % size = i + 1 := Nat.mod_eq_of_lt (by omega)
    cases hbody : body i s with
    | error r => exact .stop hle hbody
    | ok s' =>
      refine .next hle hbody ?_
      rw [hmod]
      exact ih s' (by omega) (by omega)

theorem Breaks.here (h : body i s = .error r) : Breaks body size i s :=
  ⟨1, r, by simp only [turns, h]⟩

theorem breaks_next (h : body i s = .ok s') :
    Breaks body size i s ↔ Breaks body size ((i + 1) % size) s' := by
  constructor
  · rintro ⟨k, r, hk⟩
    cases k with
    | zero => cases hk
    | succ k =>
      simp only [turns, h] at hk
      exact ⟨k, r, hk⟩
  · rintro ⟨k, r, hk⟩
    refine ⟨k + 1, r, ?_⟩
    simp only [turns, h]
    exact hk

/-- Up to the last word, the loop ends exactly when its body breaks it off. -/
theorem ends_top_iff (htop : size = last + 1) (hi : i < size) :
    Ends body size last i s ↔ Breaks body size i s := by
  have hpos : 0 < size := by omega
  constructor
  · intro h
    induction h with
    | beyond h => omega
    | stop _ h => exact .here h
    | next _ h _ ih => exact (breaks_next h).mpr (ih (Nat.mod_lt _ hpos))
  · rintro ⟨k, r, hk⟩
    induction k generalizing i s with
    | zero => cases hk
    | succ k ih =>
      have hle : i ≤ last := by omega
      cases hbody : body i s with
      | error r' => exact .stop hle hbody
      | ok s' =>
        simp only [turns, hbody] at hk
        exact .next hle hbody (ih (Nat.mod_lt _ hpos) hk)

/-- Turns that pass the loop on. -/
theorem breaks_after (h : turns body size k i s = .ok s') (hi : i < size) :
    Breaks body size i s ↔ Breaks body size ((i + k) % size) s' := by
  induction k generalizing i s with
  | zero =>
    obtain rfl : s = s' := Except.ok.inj h
    rw [Nat.add_zero, Nat.mod_eq_of_lt hi]
  | succ k ih =>
    cases hbody : body i s with
    | error r =>
      simp only [turns, hbody] at h
      cases h
    | ok t =>
      simp only [turns, hbody] at h
      rw [breaks_next hbody, ih h (Nat.mod_lt _ (by omega)), Nat.mod_add_mod,
        Nat.add_right_comm, Nat.add_assoc]

/-- Turns that do nothing. -/
theorem turns_idle (h : ∀ j < k, body ((i + j) % size) s = .ok s) (hi : i < size) :
    turns body size k i s = .ok s := by
  induction k generalizing i with
  | zero => rfl
  | succ k ih =>
    have hfirst := h 0 (Nat.succ_pos k)
    rw [Nat.add_zero, Nat.mod_eq_of_lt hi] at hfirst
    simp only [turns, hfirst]
    refine ih (fun j hj => ?_) (Nat.mod_lt _ (by omega))
    have hj' := h (j + 1) (Nat.succ_lt_succ hj)
    rwa [Nat.mod_add_mod, show i + 1 + j = i + (j + 1) by omega]

/-- The words come round: the first of some that lies ahead. -/
theorem exists_ahead {p : Nat → Prop} [DecidablePred p] (hq : q < size) (hp : p q) (hi : i < size) :
    ∃ k, p ((i + k) % size) ∧ ∀ j < k, ¬ p ((i + j) % size) := by
  have hround : ∃ k, p ((i + k) % size) := by
    refine ⟨q + size - i, ?_⟩
    rwa [show i + (q + size - i) = q + size by omega, Nat.add_mod_right, Nat.mod_eq_of_lt hq]
  exact ⟨Nat.find hround, Nat.find_spec hround, fun j hj => Nat.find_min hround hj⟩

/-- If the body is idle where `p` does not hold, the loop gets to the first word
with `p` unchanged. -/
theorem breaks_ahead {p : Nat → Prop} [DecidablePred p] (hq : q < size) (hp : p q) (hi : i < size)
    (hidle : ∀ w, ¬ p w → body w s = .ok s) :
    ∃ w < size, p w ∧ (Breaks body size i s ↔ Breaks body size w s) := by
  obtain ⟨k, hk, hbefore⟩ := exists_ahead hq hp hi
  have hpass := turns_idle (fun j hj => hidle _ (hbefore j hj)) hi
  exact ⟨_, Nat.mod_lt _ (by omega), hk, breaks_after hpass hi⟩

/-- A body that keeps `I` and goes on under it never breaks off. -/
theorem not_breaks {I : σ → Prop} (hkeep : ∀ w < size, ∀ s, I s → ∃ s', body w s = .ok s' ∧ I s')
    (h : I s) (hi : i < size) : ¬ Breaks body size i s := by
  rintro ⟨k, r, hk⟩
  induction k generalizing i s with
  | zero => cases hk
  | succ k ih =>
    obtain ⟨s', hbody, hI⟩ := hkeep i hi s h
    simp only [turns, hbody] at hk
    exact ih hI (Nat.mod_lt _ (by omega)) hk

/-- A word at which the body breaks off under `I` is reached. -/
theorem breaks_at {I : σ → Prop} (hkeep : ∀ w s s', I s → body w s = .ok s' → I s') (h : I s)
    (hi : i < size) (hq : q < size) (hbreak : ∀ s, I s → ∃ r, body q s = .error r) :
    Breaks body size i s := by
  obtain ⟨k, hk, -⟩ := exists_ahead (p := (· = q)) hq rfl hi
  induction k generalizing i s with
  | zero =>
    rw [Nat.add_zero, Nat.mod_eq_of_lt hi] at hk
    subst hk
    obtain ⟨r, hr⟩ := hbreak s h
    exact .here hr
  | succ k ih =>
    cases hbody : body i s with
    | error r => exact .here hbody
    | ok s' =>
      refine (breaks_next hbody).mpr (ih (hkeep i s s' h hbody) (Nat.mod_lt _ (by omega)) ?_)
      rwa [Nat.mod_add_mod, show i + 1 + k = i + (k + 1) by omega]

end Loop

end WordLoops
