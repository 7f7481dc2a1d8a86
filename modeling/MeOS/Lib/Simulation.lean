import Mathlib.Logic.Relation

/-! # Labelled runs

A run lists the labels of its steps. What a user sees of two systems is the same when a
function of the states carries the steps of the one to steps of the other with the same
labels; an invariant of the first may help.
-/

namespace Runs

/-- A run from `s` to `s'` with the labels of its steps in order. -/
inductive Trace {σ α : Type*} (Next : σ → α → σ → Prop) : σ → List α → σ → Prop where
  | nil {s : σ} : Trace Next s [] s
  | cons {s s' s'' : σ} {a : α} {as : List α} (h : Next s a s') (hs : Trace Next s' as s'') :
      Trace Next s (a :: as) s''

namespace Trace

variable {σ τ α : Type*} {Next : σ → α → σ → Prop} {Next' : τ → α → τ → Prop} {s s' : σ}
  {as : List α}

/-- What every step with a label of the run keeps, the run keeps. -/
theorem keeps {I : σ → Prop} (h : Trace Next s as s')
    (hstep : ∀ a ∈ as, ∀ s s', I s → Next s a s' → I s') (hI : I s) : I s' := by
  induction h with
  | nil => exact hI
  | cons h hs ih =>
    exact ih (fun a ha => hstep a (List.mem_cons_of_mem _ ha)) (hstep _ List.mem_cons_self _ _ hI h)

/-- Under `I` every step of the one system is seen through `f` as a step of the other. -/
theorem simulates {I : σ → Prop} {f : σ → τ} (h : Trace Next s as s')
    (hstep : ∀ s a s', I s → Next s a s' → I s' ∧ Next' (f s) a (f s')) (hI : I s) :
    Trace Next' (f s) as (f s') := by
  induction h with
  | nil => exact nil
  | cons h hs ih =>
    have hnext := hstep _ _ _ hI h
    exact cons hnext.2 (ih hnext.1)

/-- A run splits where its labels do. -/
theorem split {bs : List α} (h : Trace Next s (as ++ bs) s') :
    ∃ t, Trace Next s as t ∧ Trace Next t bs s' := by
  induction as generalizing s with
  | nil => exact ⟨s, nil, h⟩
  | cons a as ih =>
    cases h with
    | cons h hs =>
      obtain ⟨t, hfirst, hlast⟩ := ih hs
      exact ⟨t, cons h hfirst, hlast⟩

end Trace

end Runs
