import Mathlib.Data.List.Induction

/-! # Counting semaphores that hand units over

A semaphore has a counter and a list of waiting threads. A `wait` takes a unit
from the counter or queues up; a `signal` gives its unit to the first waiting
thread, without touching the counter, or adds it to the counter. The log of a
semaphore lists what happened to it; `Balanced` ties the log to its state, and
`Disciplined` logs of a semaphore with one unit have one holder at most.
-/

namespace HandOff

variable {T : Type*}

/-- A semaphore. -/
structure Sem (T : Type*) where
  lock : Int
  waiting : List T

/-- What happens to a semaphore: a wait is granted at once, it blocks, the unit of
a signal releases a blocked thread, a thread signals. -/
inductive Event (T : Type*) where
  | granted (t : T)
  | blocked (t : T)
  | released (t : T)
  | signalled (t : T)
deriving DecidableEq

namespace Sem

/-- The thread `t` waits. -/
def wait (s : Sem T) (t : T) : Sem T × List (Event T) :=
  if s.lock ≤ 0 then ({ s with waiting := s.waiting ++ [t] }, [.blocked t])
  else ({ s with lock := s.lock - 1 }, [.granted t])

/-- The thread `t` signals. -/
def signal (s : Sem T) (t : T) : Sem T × List (Event T) :=
  match s.waiting with
  | n :: rest => ({ s with waiting := rest }, [.signalled t, .released n])
  | [] => ({ s with lock := s.lock + 1 }, [.signalled t])

/-- The units that are available, less the threads that wait for one. -/
def net (s : Sem T) : Int := s.lock - s.waiting.length

/-- A wait takes a unit, at once or when it is served. -/
theorem net_wait (s : Sem T) (t : T) : (s.wait t).1.net = s.net + -1 := by
  unfold wait net
  by_cases hlock : s.lock ≤ 0
  · simp only [if_pos hlock, List.length_append, List.length_singleton]
    omega
  · simp only [if_neg hlock]
    omega

/-- A signal gives a unit, to the first thread that waits or to the counter. -/
theorem net_signal (s : Sem T) (t : T) : (s.signal t).1.net = s.net + 1 := by
  unfold signal net
  cases hwaiting : s.waiting with
  | nil =>
    simp only [List.length_nil]
    omega
  | cons n rest =>
    simp only [List.length_cons]
    omega

end Sem

/-! ## Reading the log -/

/-- The threads that blocked, in order. -/
def blockedOf (log : List (Event T)) : List T :=
  log.filterMap fun e => match e with
    | .blocked t => some t
    | _ => none

/-- The threads that were released after they had blocked, in order. -/
def releasedOf (log : List (Event T)) : List T :=
  log.filterMap fun e => match e with
    | .released t => some t
    | _ => none

/-- The threads whose waits were granted, at once or later. -/
def grantsOf (log : List (Event T)) : List T :=
  log.filterMap fun e => match e with
    | .granted t => some t
    | .released t => some t
    | _ => none

/-- The threads that signalled. -/
def signalsOf (log : List (Event T)) : List T :=
  log.filterMap fun e => match e with
    | .signalled t => some t
    | _ => none

section Append

variable (log log' : List (Event T))

@[simp] theorem blockedOf_append : blockedOf (log ++ log') = blockedOf log ++ blockedOf log' :=
  List.filterMap_append

@[simp] theorem releasedOf_append : releasedOf (log ++ log') = releasedOf log ++ releasedOf log' :=
  List.filterMap_append

@[simp] theorem grantsOf_append : grantsOf (log ++ log') = grantsOf log ++ grantsOf log' :=
  List.filterMap_append

@[simp] theorem signalsOf_append : signalsOf (log ++ log') = signalsOf log ++ signalsOf log' :=
  List.filterMap_append

end Append

/-! ## Conservation -/

/-- The log accounts for the state of a semaphore that started with `v` units. -/
structure Balanced (v : Int) (s : Sem T) (log : List (Event T)) : Prop where
  nonneg : 0 ≤ s.lock
  idle : s.waiting ≠ [] → s.lock = 0
  conserved : ((grantsOf log).length : Int) = v + (signalsOf log).length - s.lock
  fifo : blockedOf log = releasedOf log ++ s.waiting

section Balanced

variable {v : Int} {s : Sem T} {log : List (Event T)}

theorem Balanced.init (hv : 0 ≤ v) : Balanced v (⟨v, []⟩ : Sem T) [] where
  nonneg := hv
  idle := by
    intro h
    exact absurd rfl h
  conserved := by
    show (0 : Int) = v + (0 : Nat) - v
    simp
  fifo := rfl

theorem Balanced.wait (h : Balanced v s log) (t : T) :
    Balanced v (s.wait t).1 (log ++ (s.wait t).2) := by
  have hnonneg := h.nonneg
  have hcons := h.conserved
  unfold Sem.wait
  by_cases hlock : s.lock ≤ 0
  · rw [if_pos hlock]
    have hzero : s.lock = 0 := Int.le_antisymm hlock hnonneg
    constructor
    · exact hnonneg
    · intro _
      exact hzero
    · simpa [grantsOf, signalsOf] using hcons
    · rw [blockedOf_append, releasedOf_append, h.fifo]
      simp [blockedOf, releasedOf]
  · rw [if_neg hlock]
    constructor
    · show 0 ≤ s.lock - 1
      omega
    · intro hwait
      exact absurd (h.idle hwait) (by omega)
    · simp only [grantsOf_append, signalsOf_append, List.length_append]
      show (((grantsOf log).length + 1 : Nat) : Int) = v + ((signalsOf log).length + 0 : Nat) -
        (s.lock - 1)
      push_cast
      omega
    · rw [blockedOf_append, releasedOf_append, h.fifo]
      simp [blockedOf, releasedOf]

theorem Balanced.signal (h : Balanced v s log) (t : T) :
    Balanced v (s.signal t).1 (log ++ (s.signal t).2) := by
  have hnonneg := h.nonneg
  have hcons := h.conserved
  have hfifo := h.fifo
  have hidle := h.idle
  unfold Sem.signal
  cases hw : s.waiting with
  | nil =>
    rw [hw] at hfifo
    constructor
    · show 0 ≤ s.lock + 1
      omega
    · intro hwait
      exact absurd rfl hwait
    · simp only [grantsOf_append, signalsOf_append, List.length_append]
      show (((grantsOf log).length + 0 : Nat) : Int) = v + ((signalsOf log).length + 1 : Nat) -
        (s.lock + 1)
      push_cast
      omega
    · rw [blockedOf_append, releasedOf_append, hfifo]
      simp [blockedOf, releasedOf]
  | cons n rest =>
    rw [hw] at hfifo hidle
    -- somebody waits, so the count is 0; the unit goes to the first waiter
    have hzero : s.lock = 0 := hidle (List.cons_ne_nil n rest)
    constructor
    · exact hnonneg
    · intro _
      exact hzero
    · simp only [grantsOf_append, signalsOf_append, List.length_append]
      show (((grantsOf log).length + 1 : Nat) : Int) =
        v + ((signalsOf log).length + 1 : Nat) - s.lock
      push_cast
      omega
    · rw [blockedOf_append, releasedOf_append, hfifo]
      simp [blockedOf, releasedOf]

end Balanced

/-! ## Mutual exclusion -/

section Exclusion

variable [DecidableEq T]

/-- `t` was granted more units than it gave back. -/
def Holding (log : List (Event T)) (t : T) : Prop :=
  (signalsOf log).count t < (grantsOf log).count t

/-- Every signal gives back a unit that its thread holds. -/
def Disciplined (log : List (Event T)) : Prop :=
  ∀ before t after, log = before ++ .signalled t :: after → Holding before t

theorem Disciplined.of_append {log log' : List (Event T)} (h : Disciplined (log ++ log')) :
    Disciplined log := by
  intro before t after heq
  apply h before t (after ++ log')
  rw [heq, List.append_assoc, List.cons_append]

/-- In a disciplined log the units that were granted and not given back are held by
somebody. -/
theorem Disciplined.holders {log : List (Event T)} (h : Disciplined log) :
    ∃ held : List T,
      (∀ t, (grantsOf log).count t = (signalsOf log).count t + held.count t) ∧
        (grantsOf log).length = (signalsOf log).length + held.length := by
  induction log using List.reverseRecOn with
  | nil => exact ⟨[], fun _ => rfl, rfl⟩
  | append_singleton log e ih =>
    rcases ih h.of_append with ⟨held, hcount, hlen⟩
    rw [grantsOf_append, signalsOf_append]
    cases e with
    | granted a =>
      refine ⟨a :: held, ?_, ?_⟩
      · intro t
        have := hcount t
        simp only [grantsOf, signalsOf, List.filterMap_cons, List.filterMap_nil, List.count_append,
          List.count_cons, List.count_nil] at this ⊢
        omega
      · simp only [grantsOf, signalsOf, List.filterMap_cons, List.filterMap_nil,
          List.length_append, List.length_cons, List.length_nil] at hlen ⊢
        omega
    | blocked a =>
      refine ⟨held, ?_, ?_⟩
      · intro t
        simpa [grantsOf, signalsOf] using hcount t
      · simpa [grantsOf, signalsOf] using hlen
    | released a =>
      refine ⟨a :: held, ?_, ?_⟩
      · intro t
        have := hcount t
        simp only [grantsOf, signalsOf, List.filterMap_cons, List.filterMap_nil, List.count_append,
          List.count_cons, List.count_nil] at this ⊢
        omega
      · simp only [grantsOf, signalsOf, List.filterMap_cons, List.filterMap_nil,
          List.length_append, List.length_cons, List.length_nil] at hlen ⊢
        omega
    | signalled a =>
      -- the discipline says that `a` is among the holders
      have hholding : Holding log a := h log a [] rfl
      have hmem : a ∈ held := by
        rw [← List.count_pos_iff]
        have := hcount a
        unfold Holding at hholding
        omega
      refine ⟨held.erase a, ?_, ?_⟩
      · intro t
        have := hcount t
        simp only [grantsOf, signalsOf, List.filterMap_cons, List.filterMap_nil, List.count_append,
          List.count_cons, List.count_nil, List.count_erase] at this ⊢
        by_cases hta : a = t
        · subst hta
          have hpos := List.count_pos_iff.mpr hmem
          simp only [BEq.rfl, if_true] at this ⊢
          omega
        · simp only [beq_iff_eq, hta, if_false] at this ⊢
          omega
      · have hpos := List.length_pos_of_mem hmem
        simp only [grantsOf, signalsOf, List.filterMap_cons, List.filterMap_nil,
          List.length_append, List.length_cons, List.length_nil, List.length_erase_of_mem hmem]
          at hlen ⊢
        omega

/-- A disciplined semaphore with one unit has one holder at most. -/
theorem Balanced.exclusive {s : Sem T} {log : List (Event T)} (h : Balanced 1 s log)
    (hd : Disciplined log) {t t' : T} (ht : Holding log t) (ht' : Holding log t') : t = t' := by
  rcases hd.holders with ⟨held, hcount, hlen⟩
  have hcons := h.conserved
  have hnonneg := h.nonneg
  have hmem : ∀ a, Holding log a → a ∈ held := by
    intro a ha
    rw [← List.count_pos_iff]
    have := hcount a
    unfold Holding at ha
    omega
  have hone : held.length ≤ 1 := by omega
  match held, hone with
  | [], _ => exact absurd (hmem t ht) List.not_mem_nil
  | [a], _ =>
    rw [List.mem_singleton.mp (hmem t ht), List.mem_singleton.mp (hmem t' ht')]

end Exclusion

end HandOff
