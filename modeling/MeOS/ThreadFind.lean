import MeOS.SchedRuns

/-! # `thread_find`

The search walks the ready queues from the highest priority to the lowest with one
cursor. A hit ends the walk of its own queue only: the cursor then starts over at the
head of the next queue, so what the search answers is what the last queue has.
-/

namespace MeOS

open Links

/-! ## The search -/

/-- The inner loop of `thread_find`, in a list of less than `fuel` nodes; `ids` are the `id`
fields of the threads. -/
def threadFindInner (s : Scheduler) (ids : Nat → Nat) (id : Nat) : Nat → Nat → Outcome Nat
  | 0, _ => .running
  | fuel + 1, temp =>
    if temp = 0 then .ret temp
    else if ids (s.nodes.data temp) = id then .ret temp
    else threadFindInner s ids id fuel (s.nodes.next temp)

/-- The loop over the queues; `break` does not leave it. -/
def threadFindOuter (s : Scheduler) (ids : Nat → Nat) (id : Nat) : List Nat → Nat → Outcome Nat
  | [], temp => .ret temp
  | i :: is, _ => do
    let queue := s.lists (.ready i)
    let temp ← threadFindInner s ids id (queue.count + 1) queue.head
    threadFindOuter s ids id is temp

/-- `thread_find`; interrupts are off while it searches. -/
def threadFind (s : Scheduler) (ids : Nat → Nat) (id : Nat) : Outcome Nat := do
  let temp ← threadFindOuter s ids id (List.range numberPriorities) 0
  if temp = 0 then .ret 0 else .ret (s.nodes.data temp)

/-! ## What it is to find -/

/-- The ready queue with the lowest priority. -/
abbrev lowestQueue : ListRef := .ready (numberPriorities - 1)

/-- The ready queues are in order and hold threads with distinct ids. -/
structure Populated (s : Scheduler) (ids : Nat → Nat) : Prop where
  lists : ∀ i < numberPriorities, Lists s.nodes (s.lists (.ready i)) (s.queued (.ready i))
  thread : ∀ i < numberPriorities, ∀ n ∈ s.queued (.ready i), s.nodes.data n ≠ 0
  distinct : ∀ i < numberPriorities, ∀ j < numberPriorities,
    ∀ n ∈ s.queued (.ready i), ∀ n' ∈ s.queued (.ready j),
      ids (s.nodes.data n) = ids (s.nodes.data n') → s.nodes.data n = s.nodes.data n'

/-- A thread with the id is in the queue. -/
def HasId (s : Scheduler) (ids : Nat → Nat) (id : Nat) (r : ListRef) : Prop :=
  ∃ n ∈ s.queued r, ids (s.nodes.data n) = id

/-- `thread_find` answers with the thread that has the id, and with 0 when none has it. -/
def FindsThread (s : Scheduler) (ids : Nat → Nat) (id : Nat) : Prop :=
  ∃ t, threadFind s ids id = .ret t ∧
    (∀ i < numberPriorities, ∀ n ∈ s.queued (.ready i), ids (s.nodes.data n) = id →
      t = s.nodes.data n) ∧
    ((∀ i < numberPriorities, ¬ HasId s ids id (.ready i)) → t = 0)

/-! ## What it finds -/

section Search

variable {s : Scheduler} {ids : Nat → Nat} {id : Nat}

/-- The first of the nodes whose thread has the id, or 0. -/
def firstWithId (s : Scheduler) (ids : Nat → Nat) (id : Nat) (xs : List Nat) : Nat :=
  (xs.find? fun n => decide (ids (s.nodes.data n) = id)).getD 0

/-- The inner loop stops at the first hit of its queue. -/
theorem threadFindInner_eq {xs : List Nat} {p : Nat} (h : Chain s.nodes.next s.nodes.prev p xs 0)
    (haddr : ∀ a ∈ xs, 0 < a) :
    threadFindInner s ids id (xs.length + 1) (xs.headD 0) = .ret (firstWithId s ids id xs) := by
  induction xs generalizing p with
  | nil => rfl
  | cons a xs ih =>
    rcases chain_cons.mp h with ⟨_, hnext, hrest⟩
    have hpos : a ≠ 0 := Nat.pos_iff_ne_zero.mp (haddr a List.mem_cons_self)
    show (if a = 0 then .ret a else if ids (s.nodes.data a) = id then .ret a
      else threadFindInner s ids id (xs.length + 1) (s.nodes.next a)) = _
    rw [if_neg hpos]
    unfold firstWithId
    by_cases hid : ids (s.nodes.data a) = id
    · rw [if_pos hid, List.find?_cons_of_pos (by simpa using hid)]
      rfl
    · rw [if_neg hid, hnext, List.find?_cons_of_neg (by simpa using hid)]
      exact ih hrest (fun b hb => haddr b (List.mem_cons_of_mem a hb))

theorem Populated.inner (h : Populated s ids) {i : Nat} (hi : i < numberPriorities) :
    threadFindInner s ids id ((s.lists (.ready i)).count + 1) (s.lists (.ready i)).head =
      .ret (firstWithId s ids id (s.queued (.ready i))) := by
  have hlist := h.lists i hi
  rw [hlist.count, hlist.head]
  exact threadFindInner_eq hlist.chain (fun a ha => (hlist.addr a ha).1)

/-- Every queue overwrites the cursor, so the last one decides. -/
theorem Populated.outer (h : Populated s ids) {is : List Nat} {i : Nat}
    (his : ∀ j ∈ is, j < numberPriorities) (hi : i < numberPriorities) (temp : Nat) :
    threadFindOuter s ids id (is ++ [i]) temp =
      .ret (firstWithId s ids id (s.queued (.ready i))) := by
  induction is generalizing temp with
  | nil =>
    show (do
      let temp ← threadFindInner s ids id _ _
      threadFindOuter s ids id [] temp) = _
    rw [h.inner hi]
    rfl
  | cons j is ih =>
    show (do
      let temp ← threadFindInner s ids id _ _
      threadFindOuter s ids id (is ++ [i]) temp) = _
    rw [h.inner (his j List.mem_cons_self), Outcome.ret_bind]
    exact ih (fun k hk => his k (List.mem_cons_of_mem j hk)) _

/-- The search answers what the lowest queue has. -/
theorem Populated.find_eq (h : Populated s ids) :
    threadFind s ids id =
      if firstWithId s ids id (s.queued lowestQueue) = 0 then .ret 0
      else .ret (s.nodes.data (firstWithId s ids id (s.queued lowestQueue))) := by
  have hall : List.range numberPriorities = List.range (numberPriorities - 1) ++
      [numberPriorities - 1] := List.range_succ
  unfold threadFind
  rw [hall, h.outer _ (by decide), Outcome.ret_bind]
  intro j hj
  exact Nat.lt_succ_of_lt (List.mem_range.mp hj)

theorem Populated.find_absent (h : Populated s ids) (hnone : ¬ HasId s ids id lowestQueue) :
    threadFind s ids id = .ret 0 := by
  have hfirst : firstWithId s ids id (s.queued lowestQueue) = 0 := by
    unfold firstWithId
    rw [List.find?_eq_none.mpr]
    · rfl
    · intro n hn hid
      exact hnone ⟨n, hn, of_decide_eq_true hid⟩
  rw [h.find_eq, if_pos hfirst]

theorem Populated.find_present (h : Populated s ids) (hsome : HasId s ids id lowestQueue) :
    ∃ n ∈ s.queued lowestQueue, ids (s.nodes.data n) = id ∧
      threadFind s ids id = .ret (s.nodes.data n) := by
  rcases hsome with ⟨m, hm, hid⟩
  cases hfind : (s.queued lowestQueue).find? fun n => decide (ids (s.nodes.data n) = id) with
  | none =>
    have hmiss := List.find?_eq_none.mp hfind m hm
    simp [hid] at hmiss
  | some n =>
    have hn := List.mem_of_find?_eq_some hfind
    have hnid : ids (s.nodes.data n) = id := by simpa using List.find?_some hfind
    have hpos := ((h.lists _ (by decide)).addr n hn).1
    have hfirst : firstWithId s ids id (s.queued lowestQueue) = n := by
      unfold firstWithId
      rw [hfind]
      rfl
    refine ⟨n, hn, hnid, ?_⟩
    rw [h.find_eq, hfirst, if_neg (by omega)]

/-- The search is right exactly for a thread of the lowest queue and for an id that no thread
of any ready queue has. -/
theorem findsThread_iff (h : Populated s ids) :
    FindsThread s ids id ↔ HasId s ids id lowestQueue ∨
      ∀ i < numberPriorities, ¬ HasId s ids id (.ready i) := by
  constructor
  · rintro ⟨t, hret, hhit, _⟩
    by_contra hnot
    rw [not_or] at hnot
    rcases hnot with ⟨hlow, hall⟩
    push Not at hall
    rcases hall with ⟨i, hi, n, hn, hid⟩
    -- the thread of the higher queue is lost
    have hzero : t = 0 := Outcome.ret.inj (hret.symm.trans (h.find_absent hlow))
    exact h.thread i hi n hn ((hhit i hi n hn hid).symm.trans hzero)
  · rintro (hlow | hall)
    · rcases h.find_present hlow with ⟨m, hm, hmid, hret⟩
      refine ⟨_, hret, ?_, ?_⟩
      · intro i hi n hn hid
        exact h.distinct _ (by decide) i hi m hm n hn (hmid.trans hid.symm)
      · intro hnone
        exact absurd hlow (hnone _ (by decide))
    · refine ⟨0, h.find_absent (hall _ (by decide)), ?_, fun _ => rfl⟩
      intro i hi n hn hid
      exact absurd ⟨n, hn, hid⟩ (hall i hi)

end Search

/-! ## A kernel that searches -/

/-- In a run of the scheduler the ready queues are in order. -/
theorem Kept.populated {s : Scheduler} {threads : List Nat} {ids : Nat → Nat}
    (h : Kept s threads) (hthread : ∀ n ∈ threads, s.nodes.data n ≠ 0)
    (hdistinct : ∀ n ∈ threads, ∀ n' ∈ threads,
      ids (s.nodes.data n) = ids (s.nodes.data n') → s.nodes.data n = s.nodes.data n') :
    Populated s ids := by
  rcases h with ⟨b, hshows, _, hth⟩
  have hon : ∀ {i n}, n ∈ s.queued (.ready i) → n ∈ threads := by
    intro i n hn
    rw [hshows.queued] at hn
    exact (hth n).mpr ⟨_, hn⟩
  constructor
  · intro i _
    rw [hshows.queued]
    exact hshows.lists _
  · intro i _ n hn
    exact hthread n (hon hn)
  · intro i _ j _ n hn n' hn'
    exact hdistinct n (hon hn) n' (hon hn')

/-- The two threads have their addresses as ids. -/
theorem startedPair_populated {s : Scheduler} (h : startedPair = .ret s) :
    Populated s fun t => t := by
  have hdata : s.nodes.data 16 = 1 ∧ s.nodes.data 32 = 2 := by
    cases h
    exact ⟨rfl, rfl⟩
  apply (schedSystem_kept.holds (startedPair_reachable h)).populated
  · intro n hn
    rcases List.mem_pair.mp hn with rfl | rfl
    · rw [hdata.2]
      decide
    · rw [hdata.1]
      decide
  · intro n _ n' _ heq
    exact heq

/-- Both threads have priority 3. An id that nobody has is reported as such. -/
theorem findsThread_iff_pair : ∃ s, startedPair = .ret s ∧ FindsThread s (fun t => t) 3 := by
  obtain ⟨s, hs⟩ : ∃ s, startedPair = .ret s := ⟨_, rfl⟩
  refine ⟨s, hs, (findsThread_iff (startedPair_populated hs)).mpr (Or.inr ?_)⟩
  cases hs
  unfold HasId
  decide

/-- The thread with the id 1 runs, in the queue of priority 3, and is not found. -/
theorem threadFind_misses : ∃ s, startedPair = .ret s ∧ Populated s (fun t => t) ∧
    HasId s (fun t => t) 1 (.ready 3) ∧ threadFind s (fun t => t) 1 = .ret 0 ∧
    ¬ ∀ (s : Scheduler) (ids : Nat → Nat) (id : Nat), Populated s ids → FindsThread s ids id := by
  obtain ⟨s, hs⟩ : ∃ s, startedPair = .ret s := ⟨_, rfl⟩
  have hpop := startedPair_populated hs
  have hthere : 16 ∈ s.queued (.ready 3) ∧ s.nodes.data 16 = 1 := by
    cases hs
    decide
  have hmiss : threadFind s (fun t => t) 1 = .ret 0 := by
    cases hs
    decide
  refine ⟨s, hs, hpop, ⟨16, hthere⟩, hmiss, ?_⟩
  intro hall
  rcases hall s (fun t => t) 1 hpop with ⟨t, hret, hhit, _⟩
  have ht : t = s.nodes.data 16 := hhit 3 (by decide) 16 hthere.1 hthere.2
  rw [Outcome.ret.inj (hret.symm.trans hmiss), hthere.2] at ht
  cases ht

end MeOS
