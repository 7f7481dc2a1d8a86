import MeOS.QueueSpsc
import MeOS.Lib.Queue

/-! # Runs of the single-producer single-consumer queue

Without clears the queue is a FIFO: what was removed is a prefix of what was
inserted. With clears it is one as long as an index that is about to be written
still fits the other side's index.
-/

namespace MeOS

open Ring Runs

section Spsc

variable {T : Type} {maxElements : Nat} {s s' : SpscRun T} {queued : List (Tagged T)}

/-- The elements are numbered in the order of their inserts. -/
def Numbered (l : List (Tagged T)) : Prop := ∀ (i : Nat) (x : Tagged T), l[i]? = some x → x.serial = i

theorem Numbered.append {l : List (Tagged T)} (h : Numbered l) {x : Tagged T}
    (hx : x.serial = l.length) : Numbered (l ++ [x]) := by
  intro i y hy
  by_cases hi : i < l.length
  · rw [List.getElem?_append_left hi] at hy
    exact h i y hy
  · have hlt := (List.getElem?_eq_some_iff.mp hy).1
    rw [List.length_append, List.length_singleton] at hlt
    have hil : i = l.length := by omega
    subst hil
    rw [List.getElem?_append_right (Nat.le_refl _), Nat.sub_self] at hy
    cases hy
    exact hx

theorem Numbered.lt {l : List (Tagged T)} (h : Numbered l) {x : Tagged T} (hx : x ∈ l) :
    x.serial < l.length := by
  rcases List.getElem?_of_mem hx with ⟨i, hi⟩
  rw [h i x hi]
  exact (List.getElem?_eq_some_iff.mp hi).1

/-! ## Without clears -/

/-- An element that the consumer has found is still there. -/
def Found (s : SpscRun T) : Prop :=
  match s.consumer with
  | .removeAgain | .removeStore _ | .peekCell | .peekRead _ => s.live ≠ []
  | .peekHead t => t ≠ s.q.headIndex → s.live ≠ []
  | _ => True

/-- The queue holds what was inserted and not removed. -/
structure FifoInv (s : SpscRun T) : Prop where
  ring : Queued s s.live
  split : s.inserted = s.removed ++ s.live
  numbered : Numbered s.inserted
  found : Found s

/-- The element at the head of the queue has a number of its own. -/
theorem FifoInv.filter_tail (h : FifoInv s) {x : Tagged T} {l : List (Tagged T)}
    (hlive : s.live = x :: l) : s.live.filter (fun y => y.serial ≠ x.serial) = l := by
  have hnumbered := h.numbered
  rw [h.split, hlive] at hnumbered
  have hx := hnumbered s.removed.length x (by
    rw [List.getElem?_append_right (Nat.le_refl _), Nat.sub_self]
    rfl)
  have hself : (x :: l).filter (fun y => y.serial ≠ x.serial) =
      l.filter (fun y => y.serial ≠ x.serial) := by simp
  rw [hlive, hself, List.filter_eq_self]
  intro y hy
  rcases List.getElem?_of_mem hy with ⟨i, hi⟩
  have hserial := hnumbered (s.removed.length + (i + 1)) y (by
    rw [List.getElem?_append_right (Nat.le_add_right _ _), Nat.add_sub_cancel_left]
    exact hi)
  have hne : y.serial ≠ x.serial := by omega
  exact decide_eq_true hne

/-- What a step does to the elements, when the queue holds what is not removed. -/
theorem FifoInv.change (h : FifoInv s) (hring : Queued s' queued)
    (hchange : Change s s' s.live queued) (hfound : Found s') : FifoInv s' := by
  have hcases : queued = s'.live ∧ s'.inserted = s'.removed ++ s'.live ∧ Numbered s'.inserted := by
    generalize hl : s.live = l at hchange
    cases hchange with
    | keep hins hrem hlive =>
      refine ⟨hl.symm.trans hlive.symm, ?_, ?_⟩
      · rw [hins, hrem, hlive]
        exact h.split
      · rw [hins]
        exact h.numbered
    | insert x hserial hins hrem hlive =>
      refine ⟨by rw [hlive, hl], ?_, ?_⟩
      · rw [hins, hrem, hlive, h.split, List.append_assoc]
      · rw [hins]
        exact h.numbered.append hserial
    | remove x hins hrem hlive =>
      have htail := h.filter_tail hl
      rw [htail] at hlive
      refine ⟨hlive.symm, ?_, ?_⟩
      · rw [hins, hrem, hlive, h.split, hl, List.append_assoc]
        rfl
      · rw [hins]
        exact h.numbered
  rcases hcases with ⟨hqueued, hsplit, hnumbered⟩
  rw [hqueued] at hring
  exact ⟨hring, hsplit, hnumbered, hfound⟩

/-- A step of the producer does not take elements away. -/
theorem InsertStep.keeps (h : InsertStep s s') :
    s'.consumer = s.consumer ∧ s'.q.headIndex = s.q.headIndex ∧ ∀ x ∈ s.live, x ∈ s'.live := by
  cases h with
  | store hpc => exact ⟨rfl, rfl, fun x hx => List.mem_append_left _ hx⟩
  | call x hpc => exact ⟨rfl, rfl, fun _ hx => hx⟩
  | readTail hpc => exact ⟨rfl, rfl, fun _ hx => hx⟩
  | readHead hpc => exact ⟨rfl, rfl, fun _ hx => hx⟩
  | readCell hpc => exact ⟨rfl, rfl, fun _ hx => hx⟩
  | write hpc => exact ⟨rfl, rfl, fun _ hx => hx⟩
  | readAgain hpc => exact ⟨rfl, rfl, fun _ hx => hx⟩
  | done hpc => exact ⟨rfl, rfl, fun _ hx => hx⟩

theorem Found.insertStep (h : Found s) (hstep : InsertStep s s') : Found s' := by
  rcases hstep.keeps with ⟨hpc, hhead, hlive⟩
  have hne : s.live ≠ [] → s'.live ≠ [] := by
    intro hne hnil
    obtain ⟨x, hx⟩ := List.exists_mem_of_ne_nil _ hne
    have := hlive x hx
    rw [hnil] at this
    cases this
  unfold Found at h ⊢
  rw [hpc, hhead]
  cases hc : s.consumer with
  | removeAgain =>
    rw [hc] at h
    exact hne h
  | removeStore i =>
    rw [hc] at h
    exact hne h
  | peekCell =>
    rw [hc] at h
    exact hne h
  | peekRead i =>
    rw [hc] at h
    exact hne h
  | peekHead t =>
    rw [hc] at h
    exact fun ht => hne (h ht)
  | _ => trivial

theorem FifoInv.found_removeStep (h : FifoInv s) (hstep : RemoveStep s s') : Found s' := by
  have hfound := h.found
  unfold Found at hfound
  have hempty := h.ring.empty_iff
  cases hstep with
  | callRemove hpc => trivial
  | removeHead hpc => trivial
  | @removeTail i hpc =>
    have hown := h.ring.consumer
    unfold OwnHead at hown
    rw [hpc] at hown
    subst hown
    unfold Found
    dsimp only
    -- the head met no tail, so an element is there, and no other party takes it
    by_cases hne : s.q.headIndex ≠ s.q.tailIndex
    · rw [if_pos hne]
      exact mt hempty.mpr hne
    · rw [if_neg hne]
      trivial
  | removeAgain hpc =>
    rw [hpc] at hfound
    exact hfound
  | removeStore hpc => trivial
  | callPeek hpc => trivial
  | peekTail hpc => exact fun hne => mt hempty.mpr (Ne.symm hne)
  | @peekHead t hpc =>
    rw [hpc] at hfound
    unfold Found
    dsimp only
    by_cases hne : t ≠ s.q.headIndex
    · rw [if_pos hne]
      exact hfound hne
    · rw [if_neg hne]
      trivial
  | peekCell hpc =>
    rw [hpc] at hfound
    exact hfound
  | peekRead hpc => trivial
  | callIsEmpty hpc => trivial
  | isEmptyTail hpc => trivial
  | isEmptyHead hpc => trivial
  | done hpc => trivial
  | doneIsEmpty hpc => trivial
  | donePeek hpc => trivial

/-- Every step of a run without clears keeps the invariant. -/
theorem FifoInv.step (h : FifoInv s) (hstep : (spscSystem T maxElements).Next s s') :
    FifoInv s' := by
  rcases hstep with hinsert | hremove
  · rcases h.ring.insertStep hinsert with ⟨queued, hring, hchange⟩
    exact h.change hring hchange (h.found.insertStep hinsert)
  · have hne : ∀ i, s.consumer = .removeStore i → s.live ≠ [] := by
      intro i hpc
      have hfound := h.found
      unfold Found at hfound
      rw [hpc] at hfound
      exact hfound
    rcases h.ring.removeStep hremove hne with ⟨queued, hring, hchange⟩
    exact h.change hring hchange (h.found_removeStep hremove)

theorem FifoInv.init (hmax : 1 ≤ maxElements) (h : s.Fresh maxElements) : FifoInv s := by
  have hring := Queued.init hmax h
  rcases h with ⟨_, _, hconsumer, hinserted, hremoved, hlive⟩
  refine ⟨by rw [hlive]; exact hring, by rw [hinserted, hremoved, hlive]; rfl, ?_, ?_⟩
  · rw [hinserted]
    intro i x hx
    cases hx
  · unfold Found
    rw [hconsumer]
    trivial

/-- No step changes the capacity. -/
theorem maxCount_kept (h : (spscSystem T maxElements).Reachable s) :
    s.q.maxCount = maxElements := by
  induction h with
  | init hinit =>
    rcases hinit.1 with ⟨buffer, hq⟩
    rw [hq]
    rfl
  | next _ hstep ih =>
    rcases hstep with hinsert | hremove
    · cases hinsert <;> exact ih
    · cases hremove <;> exact ih

/-- The queue is a FIFO for every capacity and every interleaving. -/
theorem spsc_fifo (hmax : 1 ≤ maxElements) (h : (spscSystem T maxElements).Reachable s) :
    s.removed <+: s.inserted ∧
    (∀ i, s.consumer = .removeStore i ∨ s.consumer = .peekRead i →
      s.inserted[s.removed.length]? = some (s.q.buffer i)) ∧
    (∀ k, (hk : k < s.live.length) →
      s.inserted[s.removed.length + k]? = some s.live[k] ∧
      s.q.buffer ((s.q.headIndex + k) % maxElements) = s.live[k] ∧
      ∀ x t, s.producer = .insertWrite x t → t ≠ (s.q.headIndex + k) % maxElements) ∧
    (∀ s', InsertStep s s' → s'.producer = .returned false → s.count = maxElements - 1) ∧
    (∀ s', RemoveStep s s' → s'.consumer = .returned false → s.count = 0) := by
  have hcount := maxCount_kept h
  have hinv : FifoInv s := by
    induction h with
    | init hinit => exact FifoInv.init hmax hinit
    | next hreach hstep ih => exact (ih (maxCount_kept hreach)).step hstep
  have hsplit := hinv.split
  refine ⟨⟨s.live, hsplit.symm⟩, ?_, ?_, ?_, ?_⟩
  · intro i hpc
    have hfound := hinv.found
    have hown := hinv.ring.consumer
    unfold Found at hfound
    unfold OwnHead at hown
    -- the consumer reads a cell only after it has seen the queue not empty
    have hfirst : s.live ≠ [] ∧ i = s.q.headIndex := by
      rcases hpc with hpc | hpc
      · rw [hpc] at hfound hown
        exact ⟨hfound, hown⟩
      · rw [hpc] at hfound hown
        exact ⟨hfound, hown⟩
    rcases hinv.ring.first hfirst.1 with ⟨rest, hrest⟩
    rw [hsplit, hfirst.2, hrest]
    simp
  · intro k hk
    refine ⟨?_, ?_, ?_⟩
    · rw [hsplit, List.getElem?_append_right (Nat.le_add_right _ _), Nat.add_sub_cancel_left]
      exact List.getElem?_eq_getElem hk
    · rw [← hcount]
      exact hinv.ring.holds k hk
    · intro x t hpc
      -- the cell under write is the spare one
      have hknows := hinv.ring.producer
      unfold ProducerKnows at hknows
      rw [hpc] at hknows
      rw [hknows.2.2, hinv.ring.tail, ← hcount]
      exact spare hinv.ring.room hk
  · intro s' hstep hret
    have hknows := hinv.ring.producer
    unfold ProducerKnows at hknows
    cases hstep with
    | @readHead x t hpc =>
      rw [hpc] at hknows
      rw [hknows.2] at hret
      -- only this label can refuse an element
      have hfull : (s.q.tailIndex + 1) % s.q.maxCount = s.q.headIndex := by
        by_contra hne
        simp only [if_pos hne] at hret
        cases hret
      have := hinv.ring.full_iff.mp hfull
      rw [hinv.ring.count]
      omega
    | call x hpc => cases hret
    | readTail hpc => cases hret
    | readCell hpc => cases hret
    | write hpc => cases hret
    | readAgain hpc => cases hret
    | store hpc => cases hret
    | done hpc => cases hret
  · intro s' hstep hret
    have hown := hinv.ring.consumer
    unfold OwnHead at hown
    cases hstep with
    | @removeTail i hpc =>
      rw [hpc] at hown
      rw [hown] at hret
      -- only this label can find the queue empty
      have hempty : s.q.headIndex = s.q.tailIndex := by
        by_contra hne
        simp only [if_pos hne] at hret
        cases hret
      rw [hinv.ring.count, hinv.ring.empty_iff.mp hempty]
      rfl
    | @peekHead t hpc =>
      dsimp only at hret
      split_ifs at hret
    | callRemove hpc => cases hret
    | removeHead hpc => cases hret
    | removeAgain hpc => cases hret
    | removeStore hpc => cases hret
    | callPeek hpc => cases hret
    | peekTail hpc => cases hret
    | peekCell hpc => cases hret
    | peekRead hpc => cases hret
    | callIsEmpty hpc => cases hret
    | isEmptyTail hpc => cases hret
    | isEmptyHead hpc => cases hret
    | done hpc => cases hret
    | doneIsEmpty hpc => cases hret
    | donePeek hpc => cases hret

/-- A fresh queue of two cells. -/
def twoCellQueue : SpscRun Nat where
  q := queueSpscInit (fun _ => ⟨0, 0⟩) 2
  producer := .idle
  consumer := .idle
  inserted := []
  removed := []
  live := []

/-- An insert up to the write of its cell. -/
theorem spsc_fifo_two : ∃ s : SpscRun Nat, s.producer = .insertWrite ⟨0, 7⟩ 0 ∧
    s.removed <+: s.inserted := by
  have h₀ : (spscSystem Nat 2).Reachable twoCellQueue := .init ⟨⟨_, rfl⟩, rfl, rfl, rfl, rfl, rfl⟩
  have h₁ := h₀.next (Or.inl (.call 7 rfl))
  have h₂ := h₁.next (Or.inl (.readTail rfl))
  have h₃ := h₂.next (Or.inl (.readHead rfl))
  have h₄ := h₃.next (Or.inl (.readCell rfl))
  exact ⟨_, rfl, (spsc_fifo (by decide) h₄).1⟩

/-! ## With clears -/

/-- The producer writes the tail while the head is still the one it has read. -/
def ProducerSteady (s : SpscRun T) : Prop :=
  ∀ i, s.producer = .clearStore i → s.q.headIndex = i

/-- The consumer writes the head in `queue_spsc_remove` while the queue is still not empty, and in
`queue_spsc_clear` while the tail it has read is still a position between head and tail. -/
def ConsumerSteady (s : SpscRun T) : Prop :=
  (∀ i, s.consumer = .removeStore i → s.q.headIndex ≠ s.q.tailIndex) ∧
    ∀ t upTo, s.consumer = .clearStore t upTo → dist s.q.maxCount s.q.headIndex t ≤ s.count

/-- Producer and consumer may clear the queue; every write of an index is a steady one. -/
def steadySystem (T : Type) (maxElements : Nat) : System (SpscRun T) where
  Init := SpscRun.Fresh maxElements
  Next s s' := (InsertStep s s' ∨ ProducerClear s s') ∧ ProducerSteady s ∨
    (RemoveStep s s' ∨ ConsumerClear s s') ∧ ConsumerSteady s

/-- Producer and consumer may clear the queue at any time. -/
def clearSystem (T : Type) (maxElements : Nat) : System (SpscRun T) where
  Init := SpscRun.Fresh maxElements
  Next s s' := (InsertStep s s' ∨ ProducerClear s s') ∨ (RemoveStep s s' ∨ ConsumerClear s s')

/-- The producer has put the element into the queue, or is about to advance the tail over it, and
it was not removed. -/
def Given (s : SpscRun T) (x : Tagged T) : Prop :=
  (x ∈ s.inserted ∨ s.producer = .insertAgain x ∨ ∃ t, s.producer = .insertStore x t) ∧
    x ∉ s.removed

/-- What the consumer is going to read was put there by the producer. -/
def PeekKnows (s : SpscRun T) : Prop :=
  match s.consumer with
  | .peekHead t => t ≠ s.q.headIndex → Given s (s.q.buffer s.q.headIndex)
  | .peekCell | .peekRead _ => Given s (s.q.buffer s.q.headIndex)
  | _ => True

/-- The elements behind the tail that the consumer has read were inserted since. -/
def ClearKnows (s : SpscRun T) (queued : List (Tagged T)) : Prop :=
  match s.consumer with
  | .clearStore t upTo => t < s.q.maxCount ∧ upTo ≤ s.inserted.length ∧
    ∀ x ∈ queued.drop (dist s.q.maxCount s.q.headIndex t), upTo ≤ x.serial
  | _ => True

/-- The queue holds elements that are neither removed nor cleared. -/
structure ClearInv (s : SpscRun T) (queued : List (Tagged T)) : Prop where
  ring : Queued s queued
  sub : queued.Sublist s.live
  live : ∀ x ∈ s.live, x ∈ s.inserted ∧ x ∉ s.removed
  unique : (s.live.map (·.serial)).Nodup
  numbered : Numbered s.inserted
  removed : s.removed.Nodup ∧ ∀ x ∈ s.removed, x ∈ s.inserted
  peek : PeekKnows s
  clear : ClearKnows s queued

/-- What is inserted next was not removed before. -/
theorem ClearInv.fresh (h : ClearInv s queued) {x : Tagged T} (hx : x.serial = s.inserted.length) :
    x ∉ s.inserted ∧ x ∉ s.removed := by
  have hnot : x ∉ s.inserted := by
    intro hmem
    have := h.numbered.lt hmem
    omega
  exact ⟨hnot, fun hmem => hnot (h.removed.2 x hmem)⟩

/-- What is in the queue was inserted and not removed. -/
theorem ClearInv.given (h : ClearInv s queued) {x : Tagged T} (hx : x ∈ queued) :
    x ∈ s.inserted ∧ x ∉ s.removed := h.live x (h.sub.subset hx)

/-- The elements after a step that changes them as `Change` says. -/
theorem ClearInv.change {queued' : List (Tagged T)} (h : ClearInv s queued)
    (hring : Queued s' queued') (hchange : Change s s' queued queued') (hpeek : PeekKnows s')
    (hclear : ClearKnows s' queued') : ClearInv s' queued' := by
  have hlists : queued'.Sublist s'.live ∧ (∀ x ∈ s'.live, x ∈ s'.inserted ∧ x ∉ s'.removed) ∧
      (s'.live.map (·.serial)).Nodup ∧ Numbered s'.inserted ∧ s'.removed.Nodup ∧
        ∀ x ∈ s'.removed, x ∈ s'.inserted := by
    cases hchange with
    | keep hins hrem hlive =>
      rw [hins, hrem, hlive]
      exact ⟨h.sub, h.live, h.unique, h.numbered, h.removed⟩
    | insert x hserial hins hrem hlive =>
      rcases h.fresh hserial with ⟨_, hnot⟩
      rw [hins, hrem, hlive]
      refine ⟨h.sub.append_right [x], ?_, ?_, h.numbered.append hserial, h.removed.1, ?_⟩
      · intro y hy
        rcases List.mem_append.mp hy with hy | hy
        · exact ⟨List.mem_append_left _ (h.live y hy).1, (h.live y hy).2⟩
        · rw [List.mem_singleton.mp hy]
          exact ⟨List.mem_append_right _ List.mem_cons_self, hnot⟩
      · rw [List.map_append, List.map_singleton]
        refine Queue.nodup_push h.unique fun hmem => ?_
        rcases List.mem_map.mp hmem with ⟨y, hy, hsame⟩
        have hlt := h.numbered.lt (h.live y hy).1
        omega
      · intro y hy
        exact List.mem_append_left _ (h.removed.2 y hy)
    | remove x hins hrem hlive =>
      rcases h.given List.mem_cons_self with ⟨hin, hnot⟩
      rw [hins, hrem, hlive]
      refine ⟨?_, ?_, ?_, h.numbered, ?_, ?_⟩
      · -- the elements behind `x` have other numbers
        have hserials := h.unique.sublist (h.sub.map (·.serial))
        rw [List.map_cons, List.nodup_cons] at hserials
        have hrest : queued'.filter (fun y => y.serial ≠ x.serial) = queued' := by
          rw [List.filter_eq_self]
          intro y hy
          apply decide_eq_true
          intro heq
          apply hserials.1
          rw [← heq]
          exact List.mem_map_of_mem hy
        have hsub : queued'.Sublist s.live := (List.sublist_cons_self x queued').trans h.sub
        rw [← hrest]
        exact hsub.filter _
      · intro y hy
        rcases List.mem_filter.mp hy with ⟨hy, hne⟩
        refine ⟨(h.live y hy).1, ?_⟩
        intro hmem
        rcases List.mem_append.mp hmem with hmem | hmem
        · exact (h.live y hy).2 hmem
        · rw [List.mem_singleton.mp hmem] at hne
          simp at hne
      · exact h.unique.sublist (List.filter_sublist.map _)
      · exact Queue.nodup_push h.removed.1 hnot
      · intro y hy
        rcases List.mem_append.mp hy with hy | hy
        · exact h.removed.2 y hy
        · rw [List.mem_singleton.mp hy]
          exact hin
  rcases hlists with ⟨hsub, hlive, hunique, hnumbered, hremoved⟩
  exact ⟨hring, hsub, hlive, hunique, hnumbered, hremoved, hpeek, hclear⟩

/-- The producer's steps keep what it has put into the queue. -/
theorem Given.insertStep {x : Tagged T} (hx : Given s x) (hstep : InsertStep s s') :
    Given s' x := by
  rcases hx with ⟨hput, hnot⟩
  cases hstep with
  | @store y t hpc =>
    refine ⟨Or.inl ?_, hnot⟩
    rcases hput with hin | hagain | ⟨t', hstore⟩
    · exact List.mem_append_left _ hin
    · rw [hpc] at hagain
      cases hagain
    · rw [hpc] at hstore
      cases hstore
      exact List.mem_append_right _ List.mem_cons_self
  | @readAgain y hpc =>
    refine ⟨?_, hnot⟩
    rcases hput with hin | hagain | ⟨t', hstore⟩
    · exact Or.inl hin
    · rw [hpc] at hagain
      cases hagain
      exact Or.inr (Or.inr ⟨_, rfl⟩)
    · rw [hpc] at hstore
      cases hstore
  | call y hpc => exact ⟨Or.inl (by simpa [hpc] using hput), hnot⟩
  | readTail hpc => exact ⟨Or.inl (by simpa [hpc] using hput), hnot⟩
  | readHead hpc => exact ⟨Or.inl (by simpa [hpc] using hput), hnot⟩
  | readCell hpc => exact ⟨Or.inl (by simpa [hpc] using hput), hnot⟩
  | write hpc => exact ⟨Or.inl (by simpa [hpc] using hput), hnot⟩
  | done hpc => exact ⟨Or.inl (by simpa [hpc] using hput), hnot⟩

/-- What is in the cell at the head stays given when the producer goes on. -/
theorem ClearInv.given_insertStep (h : ClearInv s queued) (hstep : InsertStep s s')
    (hx : Given s (s.q.buffer s.q.headIndex)) : Given s' (s'.q.buffer s'.q.headIndex) := by
  have hkeep := hx.insertStep hstep
  have hknows := h.ring.producer
  unfold ProducerKnows at hknows
  cases hstep with
  | @write x t hpc =>
    rw [hpc] at hknows
    dsimp only
    by_cases hhead : s.q.headIndex = t
    · rw [hhead, Function.update_self]
      exact ⟨Or.inr (Or.inl rfl), (h.fresh hknows.1).2⟩
    · rw [Function.update_of_ne hhead]
      exact hkeep
  | call y hpc => exact hkeep
  | readTail hpc => exact hkeep
  | readHead hpc => exact hkeep
  | readCell hpc => exact hkeep
  | readAgain hpc => exact hkeep
  | store hpc => exact hkeep
  | done hpc => exact hkeep

/-- A step of the producer keeps what the consumer knows of the cell at the head. -/
theorem PeekKnows.producer (h : PeekKnows s) (hpc : s'.consumer = s.consumer)
    (hhead : s'.q.headIndex = s.q.headIndex) (hgiven : Given s (s.q.buffer s.q.headIndex) →
      Given s' (s'.q.buffer s'.q.headIndex)) : PeekKnows s' := by
  unfold PeekKnows at h ⊢
  rw [hpc]
  cases hc : s.consumer with
  | peekHead t =>
    rw [hc] at h
    intro ht
    rw [hhead] at ht
    exact hgiven (h ht)
  | peekCell =>
    rw [hc] at h
    exact hgiven h
  | peekRead i =>
    rw [hc] at h
    exact hgiven h
  | _ => trivial

/-- An insert keeps what the consumer knows of the tail it has read. -/
theorem ClearInv.clear_insertStep {queued' : List (Tagged T)} (h : ClearInv s queued)
    (hstep : InsertStep s s') (hchange : Change s s' queued queued') : ClearKnows s' queued' := by
  have hclear := h.clear
  have hmax : s'.q.maxCount = s.q.maxCount := by cases hstep <;> rfl
  rcases hstep.keeps with ⟨hpc, hhead, _⟩
  unfold ClearKnows at hclear ⊢
  rw [hpc, hmax, hhead]
  cases hc : s.consumer with
  | clearStore t upTo =>
    rw [hc] at hclear
    rcases hclear with ⟨ht, hupTo, hbehind⟩
    cases hchange with
    | keep hins _ _ =>
      rw [hins]
      exact ⟨ht, hupTo, hbehind⟩
    | insert x hserial hins _ _ =>
      rw [hins, List.length_append, List.length_singleton]
      refine ⟨ht, by omega, ?_⟩
      intro y hy
      rw [List.drop_append] at hy
      rcases List.mem_append.mp hy with hy | hy
      · exact hbehind y hy
      · rw [List.mem_singleton.mp (List.mem_of_mem_drop hy)]
        omega
    | remove x hins hrem _ =>
      -- the producer does not remove
      have hsame : s'.removed = s.removed := by cases hstep <;> rfl
      rw [hsame] at hrem
      have hlen := congrArg List.length hrem
      rw [List.length_append, List.length_singleton] at hlen
      omega
  | _ => trivial

/-- Inserting keeps the invariant. -/
theorem ClearInv.insertStep (h : ClearInv s queued) (hstep : InsertStep s s') :
    ∃ queued', ClearInv s' queued' := by
  rcases h.ring.insertStep hstep with ⟨queued', hring, hchange⟩
  rcases hstep.keeps with ⟨hpc, hhead, _⟩
  exact ⟨queued', h.change hring hchange (h.peek.producer hpc hhead (h.given_insertStep hstep))
    (h.clear_insertStep hstep hchange)⟩

/-- What is in the cell at the head of a queue that is not empty. -/
theorem ClearInv.given_first (h : ClearInv s queued) (hne : s.q.headIndex ≠ s.q.tailIndex) :
    Given s (s.q.buffer s.q.headIndex) := by
  rcases h.ring.first (mt h.ring.empty_iff.mpr hne) with ⟨rest, hrest⟩
  have hmem : s.q.buffer s.q.headIndex ∈ queued := by
    rw [hrest]
    exact List.mem_cons_self
  rcases h.given hmem with ⟨hin, hnot⟩
  exact ⟨Or.inl hin, hnot⟩

theorem ClearInv.peek_removeStep (h : ClearInv s queued) (hstep : RemoveStep s s') :
    PeekKnows s' := by
  have hpeek := h.peek
  unfold PeekKnows at hpeek
  cases hstep with
  | peekTail hpc => exact fun hne => h.given_first (Ne.symm hne)
  | @peekHead t hpc =>
    rw [hpc] at hpeek
    unfold PeekKnows
    dsimp only
    by_cases hne : t ≠ s.q.headIndex
    · rw [if_pos hne]
      exact hpeek hne
    · rw [if_neg hne]
      trivial
  | peekCell hpc =>
    rw [hpc] at hpeek
    exact hpeek
  | removeTail hpc =>
    unfold PeekKnows
    dsimp only
    split_ifs <;> trivial
  | _ => trivial

theorem RemoveStep.clear (hstep : RemoveStep s s') : ClearKnows s' queued := by
  cases hstep with
  | peekHead hpc =>
    unfold ClearKnows
    dsimp only
    split_ifs <;> trivial
  | removeTail hpc =>
    unfold ClearKnows
    dsimp only
    split_ifs <;> trivial
  | _ => trivial

/-- Removing and looking keep the invariant when the head is written to a queue that is not
empty. -/
theorem ClearInv.removeStep (h : ClearInv s queued) (hstep : RemoveStep s s')
    (hsteady : ConsumerSteady s) : ∃ queued', ClearInv s' queued' := by
  have hne : ∀ i, s.consumer = .removeStore i → queued ≠ [] := by
    intro i hpc
    exact mt h.ring.empty_iff.mpr (hsteady.1 i hpc)
  rcases h.ring.removeStep hstep hne with ⟨queued', hring, hchange⟩
  exact ⟨queued', h.change hring hchange (h.peek_removeStep hstep) hstep.clear⟩

/-- What was put into the queue stays given when the producer clears it. -/
theorem Given.producerClear {x : Tagged T} (hx : Given s x) (hstep : ProducerClear s s') :
    Given s' x := by
  rcases hx with ⟨hput, hnot⟩
  cases hstep with
  | call hpc => exact ⟨Or.inl (by simpa [hpc] using hput), hnot⟩
  | read hpc => exact ⟨Or.inl (by simpa [hpc] using hput), hnot⟩
  | store hpc => exact ⟨Or.inl (by simpa [hpc] using hput), hnot⟩

/-- The producer's clear empties the queue when the head has not moved. -/
theorem ClearInv.producerClear (h : ClearInv s queued) (hstep : ProducerClear s s')
    (hsteady : ProducerSteady s) : ∃ queued', ClearInv s' queued' := by
  have hgiven : Given s (s.q.buffer s.q.headIndex) →
      Given s' (s.q.buffer s.q.headIndex) := fun hx => hx.producerClear hstep
  cases hstep with
  | call hpc =>
    exact ⟨queued, h.ring.producerMoves trivial, h.sub, h.live, h.unique, h.numbered, h.removed,
      h.peek.producer rfl rfl hgiven, h.clear⟩
  | read hpc =>
    exact ⟨queued, h.ring.producerMoves trivial, h.sub, h.live, h.unique, h.numbered, h.removed,
      h.peek.producer rfl rfl hgiven, h.clear⟩
  | @store i hpc =>
    have hhead := hsteady i hpc
    subst hhead
    have hpos : 0 < s.q.maxCount := by
      have := h.ring.head
      omega
    refine ⟨[], ⟨h.ring.head, hpos, ?_, Holds.nil, trivial, h.ring.consumer⟩, List.nil_sublist _,
      ?_, List.nodup_nil, h.numbered, h.removed, h.peek.producer rfl rfl hgiven, ?_⟩
    · exact (Nat.mod_eq_of_lt h.ring.head).symm
    · intro x hx
      cases hx
    · have hclear := h.clear
      unfold ClearKnows at hclear ⊢
      dsimp only
      cases hc : s.consumer with
      | clearStore t upTo =>
        rw [hc] at hclear
        refine ⟨hclear.1, hclear.2.1, ?_⟩
        intro x hx
        rw [List.drop_nil] at hx
        cases hx
      | _ => trivial

/-- The consumer's clear takes elements off the front when its tail is still in the queue. -/
theorem ClearInv.consumerClear (h : ClearInv s queued) (hstep : ConsumerClear s s')
    (hsteady : ConsumerSteady s) : ∃ queued', ClearInv s' queued' := by
  have hpos : 0 < s.q.maxCount := by
    have := h.ring.head
    omega
  cases hstep with
  | call hpc =>
    exact ⟨queued, h.ring.consumerMoves trivial, h.sub, h.live, h.unique, h.numbered, h.removed,
      trivial, trivial⟩
  | read hpc =>
    refine ⟨queued, h.ring.consumerMoves trivial, h.sub, h.live, h.unique, h.numbered, h.removed,
      trivial, ?_, Nat.le_refl _, ?_⟩
    · dsimp only
      rw [h.ring.tail]
      exact Nat.mod_lt _ hpos
    · intro x hx
      have hcount := h.ring.count
      unfold SpscRun.count at hcount
      dsimp only at hx
      rw [hcount, List.drop_length] at hx
      cases hx
  | @store t upTo hpc =>
    have hclear := h.clear
    unfold ClearKnows at hclear
    rw [hpc] at hclear
    rcases hclear with ⟨ht, _, hbehind⟩
    -- the head moves no further than the elements that are there
    have hle := hsteady.2 t upTo hpc
    rw [h.ring.count] at hle
    have hhead := pos_dist h.ring.head ht
    have hroom := h.ring.room
    have hlen : (queued.drop (dist s.q.maxCount s.q.headIndex t)).length ≤ queued.length := by
      rw [List.length_drop]
      omega
    refine ⟨queued.drop (dist s.q.maxCount s.q.headIndex t), ⟨ht, ?_, ?_, ?_, ?_, trivial⟩, ?_, ?_,
      ?_, h.numbered, h.removed, trivial, trivial⟩
    · dsimp only
      omega
    · have hend := end_drop s.q.maxCount s.q.headIndex hle
      rw [hhead] at hend
      dsimp only
      rw [hend, h.ring.tail]
    · have hholds := h.ring.holds.drop (dist s.q.maxCount s.q.headIndex t)
      rw [hhead] at hholds
      exact hholds
    · exact h.ring.producer.fewer ⟨rfl, rfl, rfl⟩ rfl rfl hlen
    · have hsub := (List.drop_sublist (dist s.q.maxCount s.q.headIndex t) queued).trans h.sub
      have hall : (queued.drop (dist s.q.maxCount s.q.headIndex t)).filter
          (fun x => upTo ≤ x.serial) = queued.drop (dist s.q.maxCount s.q.headIndex t) := by
        rw [List.filter_eq_self]
        intro x hx
        exact decide_eq_true (hbehind x hx)
      rw [← hall]
      exact hsub.filter _
    · intro x hx
      exact h.live x (List.mem_of_mem_filter hx)
    · exact h.unique.sublist (List.filter_sublist.map _)

theorem ClearInv.init (hmax : 1 ≤ maxElements) (h : s.Fresh maxElements) : ClearInv s [] := by
  have hring := Queued.init hmax h
  rcases h with ⟨_, _, hconsumer, hinserted, hremoved, hlive⟩
  refine ⟨hring, List.nil_sublist _, ?_, ?_, ?_, ⟨?_, ?_⟩, ?_, ?_⟩
  · rw [hlive]
    intro x hx
    cases hx
  · rw [hlive]
    exact List.nodup_nil
  · rw [hinserted]
    intro i x hx
    cases hx
  · rw [hremoved]
    exact List.nodup_nil
  · rw [hremoved]
    intro x hx
    cases hx
  · unfold PeekKnows
    rw [hconsumer]
    trivial
  · unfold ClearKnows
    rw [hconsumer]
    trivial

/-- In runs whose writes of an index are steady, what the consumer obtains was inserted and not
removed before, and the queue holds no more than was inserted and neither removed nor cleared. -/
theorem spsc_clear_steady (hmax : 1 ≤ maxElements) (h : (steadySystem T maxElements).Reachable s) :
    s.count ≤ s.live.length ∧ (s.removed.Nodup ∧ ∀ x ∈ s.removed, x ∈ s.inserted) ∧
      ∀ i, s.consumer = .peekRead i → Given s (s.q.buffer i) := by
  have hinv : ∃ queued, ClearInv s queued := by
    induction h with
    | init hinit => exact ⟨[], ClearInv.init hmax hinit⟩
    | next _ hstep ih =>
      rcases ih with ⟨queued, hinv⟩
      rcases hstep with ⟨hinsert | hclear, hsteady⟩ | ⟨hremove | hclear, hsteady⟩
      · exact hinv.insertStep hinsert
      · exact hinv.producerClear hclear hsteady
      · exact hinv.removeStep hremove hsteady
      · exact hinv.consumerClear hclear hsteady
  rcases hinv with ⟨queued, hinv⟩
  refine ⟨?_, hinv.removed, ?_⟩
  · rw [hinv.ring.count]
    exact hinv.sub.length_le
  · intro i hpc
    have hpeek := hinv.peek
    have hown := hinv.ring.consumer
    unfold PeekKnows at hpeek
    unfold OwnHead at hown
    rw [hpc] at hpeek hown
    rw [hown]
    exact hpeek

/-- The producer clears the queue while the consumer is in `queue_spsc_remove`: the head passes the
tail, and the empty queue holds an element. -/
theorem spsc_clear_races : ¬∀ s, (clearSystem Nat 2).Reachable s → s.count ≤ s.live.length := by
  intro hall
  have hinit : (clearSystem Nat 2).Reachable twoCellQueue :=
    .init ⟨⟨_, rfl⟩, rfl, rfl, rfl, rfl, rfl⟩
  have hinsert := (((((((hinit.next (Or.inl (Or.inl (.call 7 rfl)))).next
    (Or.inl (Or.inl (.readTail rfl)))).next (Or.inl (Or.inl (.readHead rfl)))).next
    (Or.inl (Or.inl (.readCell rfl)))).next (Or.inl (Or.inl (.write rfl)))).next
    (Or.inl (Or.inl (.readAgain rfl)))).next (Or.inl (Or.inl (.store rfl)))).next
    (Or.inl (Or.inl (.done rfl)))
  have hfound := (((hinsert.next (Or.inr (Or.inl (.callRemove rfl)))).next
    (Or.inr (Or.inl (.removeHead rfl)))).next (Or.inr (Or.inl (.removeTail rfl)))).next
    (Or.inr (Or.inl (.removeAgain rfl)))
  have hclear := ((hfound.next (Or.inl (Or.inr (.call rfl)))).next
    (Or.inl (Or.inr (.read rfl)))).next (Or.inl (Or.inr (.store rfl)))
  have hremoved := hclear.next (Or.inr (Or.inl (.removeStore rfl)))
  have hcount := hall _ hremoved
  exact absurd hcount (by decide)

/-- A clear of the empty queue by the producer. -/
theorem spsc_clear_steady_two : ∃ s : SpscRun Nat, s.producer = .clearStore 0 ∧
    s.count ≤ s.live.length := by
  have hinit : (steadySystem Nat 2).Reachable twoCellQueue :=
    .init ⟨⟨_, rfl⟩, rfl, rfl, rfl, rfl, rfl⟩
  have hcall := hinit.next (Or.inl ⟨Or.inr (.call rfl), fun i hpc => by cases hpc⟩)
  have hread := hcall.next (Or.inl ⟨Or.inr (.read rfl), fun i hpc => by cases hpc⟩)
  exact ⟨_, rfl, (spsc_clear_steady (by decide) hread).1⟩

end Spsc

end MeOS
