import Mathlib.Logic.Function.Basic

/-! # Tables that end at a mark

A table of slots is read from the front: slots may be free, a slot may say
that the table ends there, and of what comes before, the live slots are seen.
A table is closed when nothing but end marks follows the first one. What
clearing a slot and filling the first slot that can be had do to either notion
is said here for any classification of slots.
-/

namespace EndMarked

/-- What a slot says of itself. -/
inductive Kind where
  | live
  | free
  | stop
deriving Repr, DecidableEq

namespace Kind

/-- A slot of this kind can be filled. -/
def Vacant (k : Kind) : Prop := k = free ∨ k = stop

instance : DecidablePred Vacant := fun k => inferInstanceAs (Decidable (k = free ∨ k = stop))

end Kind

variable {α : Type*} (kind : α → Kind) (n : Nat) (t : Nat → α)

/-- Behind an end mark there are end marks only. -/
def Closed : Prop := ∀ i j, i < j → j < n → kind (t i) = .stop → kind (t j) = .stop

/-- Slot `i` is seen: it is live, and the table has not ended before it. -/
def Visible (i : Nat) : Prop :=
  i < n ∧ kind (t i) = .live ∧ ∀ j < i, kind (t j) ≠ .stop

instance (i : Nat) : Decidable (Visible kind n t i) :=
  inferInstanceAs (Decidable (i < n ∧ kind (t i) = .live ∧ ∀ j < i, kind (t j) ≠ .stop))

/-- Slot `i` is the first that can be filled. -/
def FirstVacant (i : Nat) : Prop :=
  (kind (t i)).Vacant ∧ ∀ j < i, ¬ (kind (t j)).Vacant

/-- Slot `j` is live and hidden by the end mark at `i` alone. -/
def HiddenBehind (i j : Nat) : Prop :=
  i < j ∧ j < n ∧ kind (t i) = .stop ∧ kind (t j) = .live ∧
    ∀ k, i < k → k < j → kind (t k) ≠ .stop

variable {kind n t}

section Basic

variable {i j : Nat} {x : α}

theorem FirstVacant.not_stop (h : FirstVacant kind t i) (hj : j < i) : kind (t j) ≠ .stop :=
  fun hstop => h.2 j hj (Or.inr hstop)

/-- A closed table hides nothing. -/
theorem Closed.not_hidden (h : Closed kind n t) : ¬ HiddenBehind kind n t i j := by
  rintro ⟨hij, hj, hstop, hlive, _⟩
  rw [h i j hij hj hstop] at hlive
  cases hlive

/-- Both notions look at the slots of the table only. -/
theorem Closed.congr {t' : Nat → α} (h : Closed kind n t) (heq : ∀ i < n, t' i = t i) :
    Closed kind n t' := by
  intro i j hij hj hstop
  rw [heq i (by omega)] at hstop
  rw [heq j hj]
  exact h i j hij hj hstop

theorem visible_congr {t' : Nat → α} (heq : ∀ i < n, t' i = t i) :
    Visible kind n t' i ↔ Visible kind n t i := by
  refine and_congr_right fun hi => ?_
  rw [heq i hi]
  refine and_congr_right fun _ => forall_congr' fun j => forall_congr' fun hj => ?_
  rw [heq j (by omega)]

end Basic

/-! ## Clearing a slot -/

section Clear

variable {i j : Nat} {x : α}

/-- What may be put into a slot to clear it: a free mark, or an end mark in
front of another one. -/
def Clears (kind : α → Kind) (n : Nat) (t : Nat → α) (i : Nat) (x : α) : Prop :=
  kind x = .free ∨ (kind x = .stop ∧ i + 1 < n ∧ kind (t (i + 1)) = .stop)

theorem Closed.clear (h : Closed kind n t) (hi : kind (t i) ≠ .stop)
    (hx : Clears kind n t i x) : Closed kind n (Function.update t i x) := by
  intro a b hab hb hstop
  by_cases hbi : b = i
  · subst hbi
    rw [Function.update_of_ne (by omega)] at hstop
    exact absurd (h a b hab hb hstop) hi
  · rw [Function.update_of_ne hbi]
    by_cases hai : a = i
    · subst hai
      rw [Function.update_self] at hstop
      rcases hx with hfree | ⟨_, hlt, hnext⟩
      · rw [hfree] at hstop
        cases hstop
      · rcases Nat.lt_or_ge (a + 1) b with hlt' | hge
        · exact h (a + 1) b hlt' hb hnext
        · obtain rfl : b = a + 1 := by omega
          exact hnext
    · rw [Function.update_of_ne hai] at hstop
      exact h a b hab hb hstop

/-- A cleared slot is no longer seen; everything else is seen as before. -/
theorem visible_clear (hi : kind (t i) ≠ .stop) (hx : Clears kind n t i x) :
    Visible kind n (Function.update t i x) j ↔ Visible kind n t j ∧ j ≠ i := by
  constructor
  · rintro ⟨hj, hlive, hall⟩
    have hji : j ≠ i := by
      rintro rfl
      rw [Function.update_self] at hlive
      rcases hx with hfree | ⟨hstop, _⟩
      · rw [hfree] at hlive
        cases hlive
      · rw [hstop] at hlive
        cases hlive
    rw [Function.update_of_ne hji] at hlive
    refine ⟨⟨hj, hlive, fun k hk => ?_⟩, hji⟩
    by_cases hki : k = i
    · rw [hki]
      exact hi
    · have hk' := hall k hk
      rwa [Function.update_of_ne hki] at hk'
  · rintro ⟨⟨hj, hlive, hall⟩, hji⟩
    refine ⟨hj, ?_, fun k hk => ?_⟩
    · rwa [Function.update_of_ne hji]
    · by_cases hki : k = i
      · subst hki
        rw [Function.update_self]
        rcases hx with hfree | ⟨_, hlt, hnext⟩
        · rw [hfree]
          exact Kind.noConfusion
        · -- the end mark behind the slot would hide `j` already
          rcases Nat.lt_or_ge (k + 1) j with hlt' | hge
          · exact absurd hnext (hall (k + 1) hlt')
          · obtain rfl : j = k + 1 := by omega
            rw [hnext] at hlive
            cases hlive
      · rw [Function.update_of_ne hki]
        exact hall k hk

end Clear

/-! ## Filling a slot -/

section Fill

variable {i j : Nat} {x : α}

theorem Closed.fill (h : Closed kind n t) (hi : FirstVacant kind t i) (hx : kind x ≠ .stop) :
    Closed kind n (Function.update t i x) := by
  intro a b hab hb hstop
  have hai : a ≠ i := by
    rintro rfl
    rw [Function.update_self] at hstop
    exact hx hstop
  rw [Function.update_of_ne hai] at hstop
  have hia : i < a := by
    by_contra hle
    exact hi.not_stop (j := a) (by omega) hstop
  rw [Function.update_of_ne (by omega)]
  exact h a b hab hb hstop

/-- The filled slot is seen, and so is what an end mark in its place has
hidden. -/
theorem visible_fill (hi : FirstVacant kind t i) (hin : i < n) (hx : kind x = .live) :
    Visible kind n (Function.update t i x) j ↔
      j = i ∨ Visible kind n t j ∨ HiddenBehind kind n t i j := by
  -- the front is untouched and shows no end mark
  have hfront : ∀ k, k < i → Function.update t i x k = t k := fun k hk =>
    Function.update_of_ne (by omega) _ _
  constructor
  · rintro ⟨hj, hlive, hall⟩
    rcases Nat.lt_trichotomy j i with hlt | rfl | hgt
    · rw [hfront j hlt] at hlive
      exact Or.inr (Or.inl ⟨hj, hlive, fun k hk => hi.not_stop (by omega)⟩)
    · exact Or.inl rfl
    · rw [Function.update_of_ne (by omega)] at hlive
      have hall' : ∀ k, k < j → k ≠ i → kind (t k) ≠ .stop := by
        intro k hk hki
        have hk' := hall k hk
        rwa [Function.update_of_ne hki] at hk'
      -- the slot was the end mark or a hole: only the first hid what is behind it
      by_cases hstop : kind (t i) = .stop
      · exact Or.inr (Or.inr ⟨hgt, hj, hstop, hlive, fun k hk hkj => hall' k hkj (by omega)⟩)
      · refine Or.inr (Or.inl ⟨hj, hlive, fun k hk => ?_⟩)
        by_cases hki : k = i
        · rw [hki]
          exact hstop
        · exact hall' k hk hki
  · rintro (rfl | ⟨hj, hlive, hall⟩ | ⟨hij, hj, hstop, hlive, hall⟩)
    · refine ⟨hin, ?_, fun k hk => ?_⟩
      · rwa [Function.update_self]
      · rw [hfront k hk]
        exact hi.not_stop hk
    · have hji : j ≠ i := by
        rintro rfl
        rcases hi.1 with hfree | hstop
        · rw [hfree] at hlive
          cases hlive
        · rw [hstop] at hlive
          cases hlive
      refine ⟨hj, by rwa [Function.update_of_ne hji], fun k hk => ?_⟩
      by_cases hki : k = i
      · rw [hki, Function.update_self, hx]
        exact Kind.noConfusion
      · rw [Function.update_of_ne hki]
        exact hall k hk
    · refine ⟨hj, by rwa [Function.update_of_ne (by omega)], fun k hk => ?_⟩
      rcases Nat.lt_trichotomy k i with hlt | rfl | hgt
      · rw [hfront k hlt]
        exact hi.not_stop hlt
      · rw [Function.update_self, hx]
        exact Kind.noConfusion
      · rw [Function.update_of_ne (by omega)]
        exact hall k hgt hk

/-- In a closed table just the filled slot comes into sight. -/
theorem Closed.visible_fill (h : Closed kind n t) (hi : FirstVacant kind t i) (hin : i < n)
    (hx : kind x = .live) :
    Visible kind n (Function.update t i x) j ↔ j = i ∨ Visible kind n t j := by
  rw [EndMarked.visible_fill hi hin hx]
  exact or_congr_right ⟨fun hj => hj.resolve_right h.not_hidden, Or.inl⟩

end Fill

end EndMarked
