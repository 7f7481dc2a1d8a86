import Mathlib.Logic.Relation

/-! # Runs of a transition system

A system starts in a state of `Init` and takes steps of `Next`. What holds
initially and is kept by every step holds in every reachable state; the step
may use that its source is reachable, so invariants can be stacked.
-/

namespace Runs

/-- A transition system. -/
structure System (σ : Type*) where
  Init : σ → Prop
  Next : σ → σ → Prop

namespace System

variable {σ : Type*} (S : System σ)

/-- The states of the runs of `S`. -/
inductive Reachable : σ → Prop where
  | init {s : σ} (h : S.Init s) : Reachable s
  | next {s s' : σ} (h : Reachable s) (hs : S.Next s s') : Reachable s'

/-- `I` holds initially and every step keeps it. -/
structure Inductive (I : σ → Prop) : Prop where
  init : ∀ s, S.Init s → I s
  next : ∀ s s', I s → S.Next s s' → I s'

variable {S}

/-- An inductive invariant holds in every reachable state. -/
theorem Inductive.holds {I : σ → Prop} (hI : S.Inductive I) {s : σ} (h : S.Reachable s) :
    I s := by
  induction h with
  | init h => exact hI.init _ h
  | next _ hs ih => exact hI.next _ _ ih hs

end System

/-- A computation bounded by fuel keeps its result when it gets more. -/
def FuelMono {β : Type*} (f : Nat → Option β) : Prop :=
  ∀ n k r, f n = some r → n ≤ k → f k = some r

/-- Two results of one computation are the same. -/
theorem FuelMono.unique {β : Type*} {f : Nat → Option β} (h : FuelMono f) {n k : Nat} {r r' : β}
    (hn : f n = some r) (hk : f k = some r') : r = r' := by
  have h₁ := h n (max n k) r hn (Nat.le_max_left n k)
  have h₂ := h k (max n k) r' hk (Nat.le_max_right n k)
  exact Option.some.inj (h₁.symm.trans h₂)

end Runs
