import Mathlib.Data.List.Nodup

/-! # Queues

A queue is a list in which no element stands twice. `Lists queue waits` says that it holds
those for which `waits` is true: it does after a push when the new element starts to wait, and
after a pop when the first one stops.
-/

namespace Queue

variable {α : Type*}

/-- An element that is not there is appended. -/
theorem nodup_push {l : List α} {a : α} (h : l.Nodup) (ha : a ∉ l) : (l ++ [a]).Nodup := by
  rw [← List.concat_eq_append]
  exact List.Nodup.concat ha h

/-- The queue holds those who wait, each once. -/
structure Lists (queue : List α) (waits : α → Prop) : Prop where
  nodup : queue.Nodup
  mem : ∀ a, a ∈ queue ↔ waits a

namespace Lists

variable {queue : List α} {waits waits' : α → Prop} {a : α}

/-- An element starts to wait, and nothing else changes. -/
theorem push (h : Lists queue waits) (hout : ¬ waits a) (hhere : waits' a)
    (hothers : ∀ b, b ≠ a → (waits' b ↔ waits b)) : Lists (queue ++ [a]) waits' where
  nodup := nodup_push h.nodup fun ha => hout ((h.mem a).mp ha)
  mem := by
    intro b
    rw [List.mem_append, List.mem_singleton, h.mem b]
    by_cases hb : b = a
    · subst hb
      exact iff_of_true (Or.inr rfl) hhere
    · rw [hothers b hb, or_iff_left hb]

/-- The first element stops to wait, and nothing else changes. -/
theorem pop (h : Lists (a :: queue) waits) (hhere : ¬ waits' a)
    (hothers : ∀ b, b ≠ a → (waits' b ↔ waits b)) : Lists queue waits' where
  nodup := (List.nodup_cons.mp h.nodup).2
  mem := by
    intro b
    by_cases hb : b = a
    · subst hb
      exact iff_of_false (List.nodup_cons.mp h.nodup).1 hhere
    · rw [hothers b hb, ← h.mem b, List.mem_cons, or_iff_right hb]

end Lists

end Queue
