import MeOS.Scheduler
import MeOS.Lib.Queue

/-! # The board: queues of threads

What the scheduler is for, without pointers: a board of queues, on which every
thread stands in one place. A call takes a thread from one queue to the end of
another (`move`) or turns a queue (`rotate`), and a switch lets the first thread
of the first non-empty ready queue run. `Ok` is the invariant of the board
between two calls; `Sorted` is the part of it that also holds within a call.
-/

namespace MeOS

/-- The queues as lists of nodes, with the state and the priority of each node's
thread. -/
structure Board where
  queue : ListRef → List Nat
  state : Nat → ThreadState
  priority : Nat → Nat
  lock : Nat → Int
  current : Nat

/-- The queue that a thread of this state and priority stands in. -/
def Fits (state : ThreadState) (priority : Nat) : ListRef → Prop
  | .ready i => (state = .ready ∨ state = .running) ∧ i = priority
  | .block => state = .block
  | .sleep => state = .sleep
  | .waiting _ => state = .block

namespace Board

variable (b : Board)

/-- Take `n` from the queue `r` to the end of the queue `r'`. -/
def move (n : Nat) (r r' : ListRef) (state : ThreadState) : Board :=
  { b with
    queue := Function.update (Function.update b.queue r ((b.queue r).erase n)) r' (b.queue r' ++ [n])
    state := Function.update b.state n state }

/-- The first thread of the queue goes to its end. -/
def rotate (r : ListRef) : Board :=
  { b with queue := Function.update b.queue r ((b.queue r).rotate 1) }

/-- `n` has the state. -/
def setState (n : Nat) (state : ThreadState) : Board :=
  { b with state := Function.update b.state n state }

/-- The first thread of the first non-empty ready queue. -/
def pick : Option Nat :=
  (List.range numberPriorities).findSome? fun i => (b.queue (.ready i)).head?

/-- Let the picked thread run. -/
def dispatch : Board :=
  match b.pick with
  | none => b
  | some n => { b.setState n .running with current := n }

/-- A switch: the running thread goes to the end of its queue first. -/
def switch : Board :=
  if b.state b.current = .running then
    ((b.setState b.current .ready).rotate (.ready (b.priority b.current))).dispatch
  else
    b.dispatch

/-- A new thread joins its ready queue. -/
def insert (n priority : Nat) : Board :=
  { b with
    queue := Function.update b.queue (.ready priority) (b.queue (.ready priority) ++ [n])
    state := Function.update b.state n .ready
    priority := Function.update b.priority n priority }

/-- A ready or running thread leaves for the queue `r`. -/
def leave (n : Nat) (r : ListRef) (state : ThreadState) : Board :=
  let b' := b.move n (.ready (b.priority n)) r state
  if n = b.current then b'.switch else b'

/-- A thread comes back from the queue `r`. -/
def comeBack (n : Nat) (r : ListRef) : Board := b.move n r (.ready (b.priority n)) .ready

/-- Change the counter of a semaphore. -/
def setLock (sem : Nat) (value : Int) : Board :=
  { b with lock := Function.update b.lock sem value }

/-- The running thread takes a unit of the semaphore or queues up for one. -/
def wait (sem : Nat) : Board :=
  if b.lock sem ≤ 0 then b.leave b.current (.waiting sem) .block
  else b.setLock sem (wrapInt32 (b.lock sem - 1))

/-- A unit of the semaphore goes to the first waiting thread or to the counter. -/
def signal (sem : Nat) : Board :=
  match b.queue (.waiting sem) with
  | n :: _ => b.comeBack n (.waiting sem)
  | [] => b.setLock sem (wrapInt32 (b.lock sem + 1))

/-! ## Invariants -/

/-- Every thread stands in at most one place, and it is the right one. -/
structure Sorted : Prop where
  nodup : ∀ r, (b.queue r).Nodup
  apart : ∀ {r r' n}, n ∈ b.queue r → n ∈ b.queue r' → r = r'
  fits : ∀ {r n}, n ∈ b.queue r → Fits (b.state n) (b.priority n) r
  prio : ∀ {r n}, n ∈ b.queue r → b.priority n < numberPriorities

/-- Nobody runs. -/
def Idle : Prop := ∀ {r n}, n ∈ b.queue r → b.state n ≠ .running

/-- The board between two calls: one thread runs, the first of its queue. -/
structure Ok : Prop extends Sorted b where
  running : b.state b.current = .running
  first : (b.queue (.ready (b.priority b.current))).head? = some b.current
  unique : ∀ {r n}, n ∈ b.queue r → b.state n = .running → n = b.current

/-- Some thread is ready to run. -/
def SomeReady : Prop := ∃ r n, n ∈ b.queue r ∧ b.state n = .ready

end Board

/-! ## Moves -/

section Moves

variable {b : Board} {n : Nat} {r r' q : ListRef} {st : ThreadState}

theorem Board.move_queue_to : (b.move n r r' st).queue r' = b.queue r' ++ [n] :=
  Function.update_self r' _ _

theorem Board.move_queue_from (hne : r ≠ r') : (b.move n r r' st).queue r = (b.queue r).erase n :=
  (Function.update_of_ne hne _ _).trans (Function.update_self r _ _)

theorem Board.move_queue_other (hr : q ≠ r) (hr' : q ≠ r') :
    (b.move n r r' st).queue q = b.queue q :=
  (Function.update_of_ne hr' _ _).trans (Function.update_of_ne hr _ _)

theorem Board.rotate_queue_self : (b.rotate r).queue r = (b.queue r).rotate 1 :=
  Function.update_self r _ _

theorem Board.rotate_queue_other (hr : q ≠ r) : (b.rotate r).queue q = b.queue q :=
  Function.update_of_ne hr _ _

/-- After a move `n` stands in `r'` and everybody else where they stood. -/
theorem Board.mem_move (hne : r ≠ r') (hs : b.Sorted) (hn : n ∈ b.queue r) {a : Nat} :
    a ∈ (b.move n r r' st).queue q ↔ if a = n then q = r' else a ∈ b.queue q := by
  by_cases hq' : q = r'
  · subst hq'
    rw [Board.move_queue_to, List.mem_append, List.mem_singleton]
    by_cases ha : a = n
    · simp [ha]
    · simp [ha]
  · by_cases hq : q = r
    · subst hq
      rw [Board.move_queue_from hne, (hs.nodup q).mem_erase_iff]
      by_cases ha : a = n
      · simp [ha, hq']
      · simp [ha]
    · rw [Board.move_queue_other hq hq']
      by_cases ha : a = n
      · subst ha
        -- `n` stands in `r` only
        have hout : a ∉ b.queue q := fun hmem => hq (hs.apart hmem hn)
        simp [hout, hq']
      · simp [ha]

theorem Board.move_state (a : Nat) :
    (b.move n r r' st).state a = if a = n then st else b.state a := by
  unfold Board.move
  by_cases ha : a = n
  · subst ha
    simp
  · simp [ha]

/-- A move to the fitting queue keeps the board sorted. -/
theorem Board.Sorted.move (hs : b.Sorted) (hne : r ≠ r') (hn : n ∈ b.queue r)
    (hfit : Fits st (b.priority n) r') : (b.move n r r' st).Sorted where
  nodup := by
    intro q
    -- the node leaves `r` and is put behind the nodes of `r'`
    by_cases hq' : q = r'
    · subst hq'
      have hout : n ∉ b.queue q := fun hmem => hne (hs.apart hn hmem)
      rw [Board.move_queue_to]
      exact Queue.nodup_push (hs.nodup q) hout
    · by_cases hq : q = r
      · subst hq
        rw [Board.move_queue_from hne]
        exact (hs.nodup q).erase n
      · rw [Board.move_queue_other hq hq']
        exact hs.nodup q
  apart := by
    intro q q' a ha ha'
    rw [Board.mem_move hne hs hn] at ha ha'
    by_cases han : a = n
    · rw [if_pos han] at ha ha'
      exact ha.trans ha'.symm
    · rw [if_neg han] at ha ha'
      exact hs.apart ha ha'
  fits := by
    intro q a ha
    rw [Board.mem_move hne hs hn] at ha
    rw [Board.move_state]
    show Fits _ (b.priority a) q
    by_cases han : a = n
    · rw [if_pos han] at ha ⊢
      rw [han, ha]
      exact hfit
    · rw [if_neg han] at ha ⊢
      exact hs.fits ha
  prio := by
    intro q a ha
    rw [Board.mem_move hne hs hn] at ha
    by_cases han : a = n
    · rw [han]
      exact hs.prio hn
    · rw [if_neg han] at ha
      exact hs.prio ha

/-- Turning a queue keeps who stands in it. -/
theorem Board.mem_rotate {a : Nat} : a ∈ (b.rotate r).queue q ↔ a ∈ b.queue q := by
  by_cases hq : q = r
  · subst hq
    rw [Board.rotate_queue_self, List.mem_rotate]
  · rw [Board.rotate_queue_other hq]

theorem Board.Sorted.rotate (hs : b.Sorted) : (b.rotate r).Sorted where
  nodup := by
    intro q
    by_cases hq : q = r
    · subst hq
      rw [Board.rotate_queue_self, List.nodup_rotate]
      exact hs.nodup q
    · rw [Board.rotate_queue_other hq]
      exact hs.nodup q
  apart := by
    intro q q' a ha ha'
    exact hs.apart (Board.mem_rotate.mp ha) (Board.mem_rotate.mp ha')
  fits := by
    intro q a ha
    exact hs.fits (Board.mem_rotate.mp ha)
  prio := by
    intro q a ha
    exact hs.prio (Board.mem_rotate.mp ha)

/-- A ready thread may run and a running one may be made ready. -/
theorem Board.Sorted.setState (hs : b.Sorted)
    (hfit : ∀ q, n ∈ b.queue q → Fits st (b.priority n) q) : (b.setState n st).Sorted where
  nodup := hs.nodup
  apart := hs.apart
  fits := by
    intro q a ha
    show Fits (Function.update b.state n st a) (b.priority a) q
    by_cases han : a = n
    · subst han
      rw [Function.update_self]
      exact hfit q ha
    · rw [Function.update_of_ne han]
      exact hs.fits ha
  prio := hs.prio

/-- A move keeps the first of a queue that `n` does not head. -/
theorem Board.head_move {c : Nat} (hne : r ≠ r') (hcn : c ≠ n)
    (hhead : (b.queue q).head? = some c) : ((b.move n r r' st).queue q).head? = some c := by
  rcases List.head?_eq_some_iff.mp hhead with ⟨v, hv⟩
  by_cases hq' : q = r'
  · subst hq'
    rw [Board.move_queue_to, hv]
    rfl
  · by_cases hq : q = r
    · subst hq
      rw [Board.move_queue_from hne, hv, List.erase_cons_tail (by simpa using hcn)]
      rfl
    · rw [Board.move_queue_other hq hq']
      exact hhead

end Moves

/-! ## Choosing who runs -/

section Dispatch

variable {b : Board} {n : Nat} {r : ListRef}

theorem Board.pick_head (h : b.pick = some n) :
    ∃ i, i < numberPriorities ∧ (b.queue (.ready i)).head? = some n := by
  rcases List.exists_of_findSome?_eq_some h with ⟨i, hi, hhead⟩
  exact ⟨i, List.mem_range.mp hi, hhead⟩

/-- A ready or running thread stands in the ready queue of its priority. -/
theorem Board.Sorted.ready_mem (hs : b.Sorted) (hn : n ∈ b.queue r)
    (hstate : b.state n = .ready ∨ b.state n = .running) :
    n ∈ b.queue (.ready (b.priority n)) := by
  have hfit := hs.fits hn
  cases r with
  | ready i =>
    rw [← hfit.2]
    exact hn
  | block =>
    have hb : b.state n = .block := hfit
    rw [hb] at hstate
    rcases hstate with h | h <;> cases h
  | sleep =>
    have hb : b.state n = .sleep := hfit
    rw [hb] at hstate
    rcases hstate with h | h <;> cases h
  | waiting k =>
    have hb : b.state n = .block := hfit
    rw [hb] at hstate
    rcases hstate with h | h <;> cases h

/-- A blocked thread that waits for no semaphore stands in the block queue. -/
theorem Board.Sorted.block_mem (hs : b.Sorted) (hn : n ∈ b.queue r) (hr : ∀ k, r ≠ .waiting k)
    (hblock : b.state n = .block) : n ∈ b.queue .block := by
  have hfit := hs.fits hn
  rw [hblock] at hfit
  cases r with
  | ready i => rcases hfit.1 with heq | heq <;> cases heq
  | block => exact hn
  | sleep => cases hfit
  | waiting k => exact absurd rfl (hr k)

/-- As long as somebody is ready, somebody is picked. -/
theorem Board.pick_isSome (hs : b.Sorted) (hr : b.SomeReady) : ∃ n, b.pick = some n := by
  rcases hr with ⟨r, n, hn, hstate⟩
  have hfit := hs.fits hn
  rw [hstate] at hfit
  cases hpick : b.pick with
  | some a => exact ⟨a, rfl⟩
  | none =>
    exfalso
    cases r with
    | ready i =>
      have hi : i < numberPriorities := hfit.2 ▸ hs.prio hn
      have hnone := List.findSome?_eq_none_iff.mp hpick i (List.mem_range.mpr hi)
      rw [List.head?_eq_none_iff] at hnone
      rw [hnone] at hn
      cases hn
    | block => cases hfit
    | sleep => cases hfit
    | waiting k => cases hfit

/-- With nobody running, the picked thread is ready and its priority is that of
its queue. -/
theorem Board.pick_ready (hs : b.Sorted) (hidle : b.Idle) (h : b.pick = some n) :
    b.state n = .ready ∧ b.priority n < numberPriorities ∧
      (b.queue (.ready (b.priority n))).head? = some n := by
  rcases Board.pick_head h with ⟨i, hi, hhead⟩
  have hmem := List.mem_of_head? hhead
  rcases hs.fits hmem with ⟨hstate, hprio⟩
  constructor
  · rcases hstate with hready | hrunning
    · exact hready
    · exact absurd hrunning (hidle hmem)
  · rw [← hprio]
    exact ⟨hi, hhead⟩

/-- Letting the picked thread run restores the invariant. -/
theorem Board.dispatch_ok (hs : b.Sorted) (hidle : b.Idle) (hr : b.SomeReady) :
    b.dispatch.Ok := by
  rcases Board.pick_isSome hs hr with ⟨n, hpick⟩
  rcases Board.pick_ready hs hidle hpick with ⟨hready, hprio, hhead⟩
  have hmem := List.mem_of_head? hhead
  have heq : b.dispatch = { b.setState n .running with current := n } := by
    unfold Board.dispatch
    rw [hpick]
  have hsorted : (b.setState n .running).Sorted := by
    apply hs.setState
    intro q hq
    rw [hs.apart hq hmem]
    exact ⟨Or.inr rfl, rfl⟩
  rw [heq]
  refine { hsorted with running := ?_, first := ?_, unique := ?_ }
  · exact Function.update_self n _ _
  · exact hhead
  · intro r a ha hrun
    by_contra hne
    have hold : b.state a = .running := by
      rw [← hrun]
      exact (Function.update_of_ne hne _ _).symm
    exact hidle ha hold

/-- The running thread may be made ready. -/
theorem Board.Ok.yield_sorted (h : b.Ok) : (b.setState b.current .ready).Sorted := by
  have hmem := List.mem_of_head? h.first
  apply h.toSorted.setState
  intro q hq
  rw [h.apart hq hmem]
  exact ⟨Or.inl rfl, (h.fits hmem).2⟩

/-- Then nobody runs, and it is ready itself. -/
theorem Board.Ok.yield_idle (h : b.Ok) :
    ((b.setState b.current .ready).rotate r).Sorted ∧
      ((b.setState b.current .ready).rotate r).Idle ∧
      ((b.setState b.current .ready).rotate r).SomeReady := by
  have hmem := List.mem_of_head? h.first
  refine ⟨h.yield_sorted.rotate, ?_, ?_⟩
  · intro q a ha hrun
    have ha' : a ∈ b.queue q := Board.mem_rotate.mp ha
    by_cases hac : a = b.current
    · rw [hac] at hrun
      have hself : (Function.update b.state b.current ThreadState.ready) b.current = .running := hrun
      rw [Function.update_self] at hself
      cases hself
    · have hold : b.state a = .running := by
        rw [← hrun]
        exact (Function.update_of_ne hac _ _).symm
      exact hac (h.unique ha' hold)
  · refine ⟨.ready (b.priority b.current), b.current, Board.mem_rotate.mpr hmem, ?_⟩
    exact Function.update_self b.current _ _

/-- A switch keeps the invariant. -/
theorem Board.switch_ok (h : b.Ok) : b.switch.Ok := by
  rcases h.yield_idle with ⟨hsorted, hidle, hready⟩
  unfold Board.switch
  rw [if_pos h.running]
  exact Board.dispatch_ok hsorted hidle hready

end Dispatch

/-! ## The calls keep the invariant -/

section Calls

variable {b : Board} {n : Nat} {r : ListRef} {st : ThreadState}

/-- A thread that is neither the running one nor made running may move. -/
theorem Board.Ok.move {r' : ListRef} (h : b.Ok) (hne : r ≠ r') (hn : n ∈ b.queue r)
    (hnc : n ≠ b.current) (hst : st ≠ .running) (hfit : Fits st (b.priority n) r') :
    (b.move n r r' st).Ok := by
  refine { h.toSorted.move hne hn hfit with running := ?_, first := ?_, unique := ?_ }
  · show (b.move n r r' st).state b.current = .running
    rw [Board.move_state, if_neg (Ne.symm hnc)]
    exact h.running
  · exact Board.head_move hne (Ne.symm hnc) h.first
  · intro q a ha hrun
    rw [Board.mem_move hne h.toSorted hn] at ha
    rw [Board.move_state] at hrun
    by_cases han : a = n
    · rw [if_pos han] at hrun
      exact absurd hrun hst
    · rw [if_neg han] at ha hrun
      exact h.unique ha hrun

/-- When the running thread leaves, nobody runs until the switch picks one of the
threads that were ready before. -/
theorem Board.Ok.leave_idle (h : b.Ok) (hr : ∀ i, r ≠ .ready i) (hst : st ≠ .running)
    (hst' : st ≠ .ready) (hfit : Fits st (b.priority b.current) r) :
    (b.move b.current (.ready (b.priority b.current)) r st).Sorted ∧
      (b.move b.current (.ready (b.priority b.current)) r st).Idle ∧
      ((b.move b.current (.ready (b.priority b.current)) r st).SomeReady ↔ b.SomeReady) := by
  have hn := List.mem_of_head? h.first
  have hne : ListRef.ready (b.priority b.current) ≠ r := Ne.symm (hr _)
  refine ⟨h.toSorted.move hne hn hfit, ?_, ?_⟩
  · intro q a ha hrun
    rw [Board.mem_move hne h.toSorted hn] at ha
    rw [Board.move_state] at hrun
    by_cases han : a = b.current
    · rw [if_pos han] at hrun
      exact hst hrun
    · rw [if_neg han] at ha hrun
      exact han (h.unique ha hrun)
  · constructor
    · rintro ⟨q, a, ha, hstate⟩
      rw [Board.mem_move hne h.toSorted hn] at ha
      rw [Board.move_state] at hstate
      by_cases han : a = b.current
      · rw [if_pos han] at hstate
        exact absurd hstate hst'
      · rw [if_neg han] at ha hstate
        exact ⟨q, a, ha, hstate⟩
    · rintro ⟨q, a, ha, hstate⟩
      have han : a ≠ b.current := by
        intro heq
        rw [heq, h.running] at hstate
        cases hstate
      refine ⟨q, a, ?_, ?_⟩
      · rw [Board.mem_move hne h.toSorted hn, if_neg han]
        exact ha
      · rw [Board.move_state, if_neg han]
        exact hstate

/-- A ready or running thread leaves; if it was running, somebody else has to be
ready. -/
theorem Board.leave_ok (h : b.Ok) (hn : n ∈ b.queue (.ready (b.priority n)))
    (hr : ∀ i, r ≠ .ready i) (hst : st ≠ .running) (hst' : st ≠ .ready)
    (hfit : Fits st (b.priority n) r) (hsome : n = b.current → b.SomeReady) :
    (b.leave n r st).Ok := by
  unfold Board.leave
  by_cases hnc : n = b.current
  · simp only [if_pos hnc]
    subst hnc
    rcases h.leave_idle hr hst hst' hfit with ⟨hsorted, hidle, hready⟩
    unfold Board.switch
    rw [if_neg]
    · exact Board.dispatch_ok hsorted hidle (hready.mpr (hsome rfl))
    · show ¬ (b.move b.current _ r st).state b.current = .running
      rw [Board.move_state, if_pos rfl]
      exact hst
  · simp only [if_neg hnc]
    exact h.move (Ne.symm (hr _)) hn hnc hst hfit

/-- A blocked thread comes back to its ready queue. -/
theorem Board.comeBack_ok (h : b.Ok) (hn : n ∈ b.queue r) (hr : ∀ i, r ≠ .ready i)
    (hblock : b.state n = .block) :
    (b.comeBack n r).Ok := by
  unfold Board.comeBack
  apply h.move (hr _) hn
  · intro heq
    rw [heq, h.running] at hblock
    cases hblock
  · intro heq
    cases heq
  · exact ⟨Or.inl rfl, rfl⟩

theorem Board.mem_insert {p a : Nat} {q : ListRef} (hn : ∀ q, n ∉ b.queue q) :
    a ∈ (b.insert n p).queue q ↔ if a = n then q = .ready p else a ∈ b.queue q := by
  unfold Board.insert
  by_cases hq : q = .ready p
  · subst hq
    simp only [Function.update_self, List.mem_append, List.mem_singleton]
    by_cases ha : a = n
    · simp [ha]
    · simp [ha]
  · simp only [Function.update_of_ne hq]
    by_cases ha : a = n
    · subst ha
      simp [hn q, hq]
    · simp [ha]

theorem Board.insert_state {p : Nat} (a : Nat) :
    (b.insert n p).state a = if a = n then .ready else b.state a := by
  unfold Board.insert
  by_cases ha : a = n
  · subst ha
    simp
  · simp [ha]

theorem Board.insert_priority {p : Nat} (a : Nat) :
    (b.insert n p).priority a = if a = n then p else b.priority a := by
  unfold Board.insert
  by_cases ha : a = n
  · subst ha
    simp
  · simp [ha]

theorem Board.insert_queue_self {p : Nat} :
    (b.insert n p).queue (.ready p) = b.queue (.ready p) ++ [n] :=
  Function.update_self _ _ _

theorem Board.insert_queue_other {p : Nat} {q : ListRef} (hq : q ≠ .ready p) :
    (b.insert n p).queue q = b.queue q :=
  Function.update_of_ne hq _ _

/-- A new thread joins a sorted board. -/
theorem Board.Sorted.insert {p : Nat} (h : b.Sorted) (hn : ∀ q, n ∉ b.queue q)
    (hp : p < numberPriorities) : (b.insert n p).Sorted where
  nodup := by
    intro q
    by_cases hq : q = .ready p
    · subst hq
      rw [Board.insert_queue_self]
      exact Queue.nodup_push (h.nodup _) (hn _)
    · rw [Board.insert_queue_other hq]
      exact h.nodup q
  apart := by
    intro q q' a ha ha'
    rw [Board.mem_insert hn] at ha ha'
    by_cases han : a = n
    · rw [if_pos han] at ha ha'
      exact ha.trans ha'.symm
    · rw [if_neg han] at ha ha'
      exact h.apart ha ha'
  fits := by
    intro q a ha
    rw [Board.mem_insert hn] at ha
    rw [Board.insert_state, Board.insert_priority]
    by_cases han : a = n
    · rw [if_pos han] at ha ⊢
      rw [ha, if_pos han]
      exact ⟨Or.inl rfl, rfl⟩
    · rw [if_neg han] at ha ⊢
      rw [if_neg han]
      exact h.fits ha
  prio := by
    intro q a ha
    rw [Board.mem_insert hn] at ha
    rw [Board.insert_priority]
    by_cases han : a = n
    · rw [if_pos han]
      exact hp
    · rw [if_neg han] at ha ⊢
      exact h.prio ha

/-- A new thread joins while another one runs. -/
theorem Board.insert_ok {p : Nat} (h : b.Ok) (hn : ∀ q, n ∉ b.queue q) (hp : p < numberPriorities) :
    (b.insert n p).Ok := by
  have hcn : b.current ≠ n := fun heq => hn _ (heq ▸ List.mem_of_head? h.first)
  refine { h.toSorted.insert hn hp with running := ?_, first := ?_, unique := ?_ }
  · show (b.insert n p).state b.current = .running
    rw [Board.insert_state, if_neg hcn]
    exact h.running
  · show ((b.insert n p).queue (.ready ((b.insert n p).priority b.current))).head? = some b.current
    rw [Board.insert_priority, if_neg hcn]
    by_cases hq : ListRef.ready (b.priority b.current) = .ready p
    · rw [hq, Board.insert_queue_self, ← hq, List.head?_append, h.first]
      rfl
    · rw [Board.insert_queue_other hq]
      exact h.first
  · intro q a ha hrun
    rw [Board.mem_insert hn] at ha
    rw [Board.insert_state] at hrun
    by_cases han : a = n
    · rw [if_pos han] at hrun
      cases hrun
    · rw [if_neg han] at ha hrun
      exact h.unique ha hrun

/-- The counters play no part in the invariant. -/
theorem Board.setLock_ok {k : Nat} {v : Int} (h : b.Ok) : (b.setLock k v).Ok :=
  ⟨⟨h.nodup, h.apart, h.fits, h.prio⟩, h.running, h.first, h.unique⟩

theorem Board.signal_ok {k : Nat} (h : b.Ok) : (b.signal k).Ok := by
  unfold Board.signal
  cases hq : b.queue (.waiting k) with
  | nil => exact Board.setLock_ok h
  | cons n v =>
    have hn : n ∈ b.queue (.waiting k) := by
      rw [hq]
      exact List.mem_cons_self
    apply Board.comeBack_ok h hn
    · intro i heq
      cases heq
    · exact h.fits hn

end Calls

/-! ## Who stands on the board

No call makes a thread disappear, and only `thread_insert` brings a new one. -/

section Standing

variable {b : Board} {n : Nat} {r r' : ListRef} {st : ThreadState}

/-- `a` stands somewhere on the board. -/
def Board.On (b : Board) (a : Nat) : Prop := ∃ r, a ∈ b.queue r

theorem Board.on_move (hs : b.Sorted) (hne : r ≠ r') (hn : n ∈ b.queue r) {a : Nat} :
    (b.move n r r' st).On a ↔ b.On a := by
  unfold Board.On
  simp only [Board.mem_move hne hs hn]
  by_cases han : a = n
  · subst han
    simp only [if_true, exists_eq]
    exact iff_of_true trivial ⟨r, hn⟩
  · simp only [if_neg han]

theorem Board.on_insert {p a : Nat} (hn : ∀ q, n ∉ b.queue q) :
    (b.insert n p).On a ↔ a = n ∨ b.On a := by
  unfold Board.On
  simp only [Board.mem_insert hn]
  by_cases han : a = n
  · simp [han]
  · simp [han]

theorem Board.on_comeBack (hs : b.Sorted) (hr : ∀ i, r ≠ .ready i) (hn : n ∈ b.queue r) {a : Nat} :
    (b.comeBack n r).On a ↔ b.On a :=
  Board.on_move hs (hr _) hn

theorem Board.on_signal (h : b.Ok) {k a : Nat} : (b.signal k).On a ↔ b.On a := by
  unfold Board.signal
  cases hq : b.queue (.waiting k) with
  | nil => exact Iff.rfl
  | cons n v =>
    have hn : n ∈ b.queue (.waiting k) := by
      rw [hq]
      exact List.mem_cons_self
    exact Board.on_comeBack h.toSorted (by simp) hn

/-- Letting a thread run moves nobody. -/
theorem Board.dispatch_queue : b.dispatch.queue = b.queue := by
  unfold Board.dispatch
  cases b.pick with
  | none => rfl
  | some n => rfl

theorem Board.dispatch_lock : b.dispatch.lock = b.lock := by
  unfold Board.dispatch
  cases b.pick with
  | none => rfl
  | some n => rfl

/-- A switch turns a ready queue and leaves the others. -/
theorem Board.switch_queue_other {q : ListRef} (hq : ∀ i, q ≠ .ready i) :
    b.switch.queue q = b.queue q := by
  unfold Board.switch
  by_cases hrun : b.state b.current = .running
  · rw [if_pos hrun, Board.dispatch_queue, Board.rotate_queue_other (hq _)]
    rfl
  · rw [if_neg hrun, Board.dispatch_queue]

theorem Board.switch_lock : b.switch.lock = b.lock := by
  unfold Board.switch
  by_cases hrun : b.state b.current = .running
  · rw [if_pos hrun, Board.dispatch_lock]
    rfl
  · rw [if_neg hrun, Board.dispatch_lock]

theorem Board.on_switch {a : Nat} : b.switch.On a ↔ b.On a := by
  unfold Board.switch
  by_cases hrun : b.state b.current = .running
  · rw [if_pos hrun]
    unfold Board.On
    simp only [Board.dispatch_queue, Board.mem_rotate]
    rfl
  · rw [if_neg hrun]
    unfold Board.On
    simp only [Board.dispatch_queue]

theorem Board.on_leave (hs : b.Sorted) (hr : ∀ i, r ≠ .ready i)
    (hn : n ∈ b.queue (.ready (b.priority n))) {a : Nat} : (b.leave n r st).On a ↔ b.On a := by
  unfold Board.leave
  by_cases hnc : n = b.current
  · simp only [if_pos hnc]
    rw [Board.on_switch]
    exact Board.on_move hs (Ne.symm (hr _)) hn
  · simp only [if_neg hnc]
    exact Board.on_move hs (Ne.symm (hr _)) hn

theorem Board.leave_lock : (b.leave n r st).lock = b.lock := by
  unfold Board.leave
  by_cases hnc : n = b.current
  · simp only [if_pos hnc]
    exact Board.switch_lock
  · simp only [if_neg hnc]
    rfl

/-- The queue a thread leaves for gets it at its end. -/
theorem Board.leave_queue_to (hr : ∀ i, r ≠ .ready i) :
    (b.leave n r st).queue r = b.queue r ++ [n] := by
  unfold Board.leave
  by_cases hnc : n = b.current
  · simp only [if_pos hnc]
    rw [Board.switch_queue_other hr, Board.move_queue_to]
  · simp only [if_neg hnc]
    exact Board.move_queue_to

theorem Board.leave_queue_other {q : ListRef} (hq : ∀ i, q ≠ .ready i) (hqr : q ≠ r) :
    (b.leave n r st).queue q = b.queue q := by
  unfold Board.leave
  by_cases hnc : n = b.current
  · simp only [if_pos hnc]
    rw [Board.switch_queue_other hq, Board.move_queue_other (hq _) hqr]
  · simp only [if_neg hnc]
    exact Board.move_queue_other (hq _) hqr

end Standing

end MeOS
