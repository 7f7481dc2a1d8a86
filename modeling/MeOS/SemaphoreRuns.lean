import MeOS.Lib.HandOff
import MeOS.SchedRuns

/-! # What a semaphore keeps

A semaphore of the source hands its units over: `semaphore_signal` gives the
unit to the first waiting thread without touching `lock`. A run is watched from
the moment a semaphore is initialised; the log says which threads were granted
a unit, which blocked, which were released and which signalled. `sem_balanced`
accounts for `lock` and for the waiting list in every state of every run, with
any calls of any threads in between.
-/

namespace MeOS

open Runs HandOff

/-- The node of the thread that makes the call. -/
def callerNode (s : Scheduler) : Nat :=
  match threadGetCurrentNode s with
  | .ret n => n
  | _ => 0

/-- What a call from `s` to `s'` did to the semaphore `k`: a waiting thread is
blocked if it is on the waiting list afterwards, and the threads that are no
longer on it have been released. -/
def semEvents (k : Nat) (s s' : Scheduler) : SchedCall → List (Event Nat)
  | .semaphoreWait sem =>
    if sem = k then
      if callerNode s ∈ s'.queued (.waiting k) then [.blocked (callerNode s)]
      else [.granted (callerNode s)]
    else []
  | .semaphoreSignal sem =>
    if sem = k then
      .signalled (callerNode s) ::
        ((s.queued (.waiting k)).filter fun n => n ∉ s'.queued (.waiting k)).map .released
    else []
  | _ => []

/-- A run in which the semaphore is watched. -/
structure SemRun where
  sched : Scheduler
  threads : List Nat
  log : List (Event Nat)

/-- The call leaves the semaphore initialised, and its counter stays an `int32`. -/
def SchedCall.Counts (s : Scheduler) (k : Nat) : SchedCall → Prop
  | .semaphoreInit sem _ => sem ≠ k
  | .semaphoreSignal sem => sem = k → s.locks k < 2147483647
  | _ => True

/-- The runs that go on after `semaphore_init(k, v)`; `mutex_init` is the case of
`v = 1`. -/
def semSystem (k : Nat) (v : Int) : System SemRun where
  Init c := ∃ s, schedSystem.Reachable ⟨s, c.threads⟩ ∧ s.queued (.waiting k) = [] ∧
    c.sched = semaphoreInit s k v ∧ c.log = []
  Next c c' := ∃ call : SchedCall, call.Made c.sched c.threads ∧ call.Counts c.sched k ∧
    call.exec c.sched = .ret c'.sched ∧ c'.threads = call.threads c.threads ∧
    c'.log = c.log ++ semEvents k c.sched c'.sched call

/-! ## The semaphore on the board -/

/-- The semaphore `k` as the board has it. -/
def Board.sem (b : Board) (k : Nat) : Sem Nat := { lock := b.lock k, waiting := b.queue (.waiting k) }

section OnBoard

variable {b : Board} {s : Scheduler} {k : Nat}

theorem Board.sem_eq {b' : Board} (hq : b'.queue (.waiting k) = b.queue (.waiting k))
    (hl : b'.lock k = b.lock k) : b'.sem k = b.sem k := by
  unfold Board.sem
  rw [hq, hl]

/-- A thread that leaves for another list does not touch the semaphore. -/
theorem Board.sem_leave {n : Nat} {r : ListRef} {st : ThreadState} (hr : r ≠ .waiting k) :
    (b.leave n r st).sem k = b.sem k := by
  apply Board.sem_eq
  · exact Board.leave_queue_other (by simp) (Ne.symm hr)
  · rw [Board.leave_lock]

theorem Board.sem_comeBack {n : Nat} {r : ListRef} (hr : r ≠ .waiting k) :
    (b.comeBack n r).sem k = b.sem k :=
  Board.sem_eq (Board.move_queue_other (Ne.symm hr) (by simp)) rfl

/-- Only its own calls change a semaphore. -/
theorem Board.sem_after {c : SchedCall} (hinit : ∀ v, c ≠ .semaphoreInit k v)
    (hwait : c ≠ .semaphoreWait k) (hsignal : c ≠ .semaphoreSignal k) :
    (b.after s c).sem k = b.sem k := by
  cases c with
  | threadInsert node thread => exact Board.sem_eq (Board.insert_queue_other (by simp)) rfl
  | threadSwitch =>
    apply Board.sem_eq
    · exact Board.switch_queue_other (by simp)
    · show b.switch.lock k = b.lock k
      rw [Board.switch_lock]
  | threadBlock node => exact Board.sem_leave (by simp)
  | threadSleep node ms => exact Board.sem_leave (by simp)
  | threadNotify node =>
    show (if b.state node = .block then b.comeBack node .block else b).sem k = b.sem k
    by_cases hblock : b.state node = .block
    · rw [if_pos hblock]
      exact Board.sem_comeBack (by simp)
    · rw [if_neg hblock]
  | semaphoreInit sem v =>
    have hne : k ≠ sem := fun heq => hinit v (heq ▸ rfl)
    exact Board.sem_eq rfl (Function.update_of_ne hne _ _)
  | semaphoreWait sem =>
    have hne : k ≠ sem := fun heq => hwait (heq ▸ rfl)
    show (b.wait sem).sem k = b.sem k
    unfold Board.wait
    by_cases hlock : b.lock sem ≤ 0
    · rw [if_pos hlock]
      exact Board.sem_leave (by simpa using Ne.symm hne)
    · rw [if_neg hlock]
      exact Board.sem_eq rfl (Function.update_of_ne hne _ _)
  | semaphoreSignal sem =>
    have hne : k ≠ sem := fun heq => hsignal (heq ▸ rfl)
    show (b.signal sem).sem k = b.sem k
    unfold Board.signal
    cases b.queue (.waiting sem) with
    | nil => exact Board.sem_eq rfl (Function.update_of_ne hne _ _)
    | cons n rest => exact Board.sem_comeBack (by simpa using Ne.symm hne)

theorem Board.sem_setLock (v : Int) :
    (b.setLock k v).sem k = { lock := v, waiting := b.queue (.waiting k) } := by
  have hlock : (b.setLock k v).lock k = v := by
    show Function.update b.lock k v k = v
    exact Function.update_self k v b.lock
  unfold Board.sem
  rw [hlock]
  rfl

/-- `semaphore_wait` is the abstract wait of the running thread. -/
theorem Board.sem_wait (hlo : 0 ≤ b.lock k) (hhi : b.lock k < 2147483648) :
    (b.wait k).sem k = ((b.sem k).wait b.current).1 := by
  unfold Board.wait Sem.wait
  by_cases hlock : b.lock k ≤ 0
  · rw [if_pos hlock, if_pos (show (b.sem k).lock ≤ 0 from hlock)]
    unfold Board.sem
    rw [Board.leave_queue_to (by simp), Board.leave_lock]
  · rw [if_neg hlock, if_neg (show ¬ (b.sem k).lock ≤ 0 from hlock),
      wrapInt32_eq (by omega) (by omega), Board.sem_setLock]
    rfl

/-- `semaphore_signal` is the abstract signal. -/
theorem Board.sem_signal (hlo : 0 ≤ b.lock k) (hhi : b.lock k < 2147483647) :
    (b.signal k).sem k = ((b.sem k).signal b.current).1 := by
  unfold Board.signal Sem.signal
  cases hq : b.queue (.waiting k) with
  | nil =>
    rw [show (b.sem k).waiting = [] from hq, wrapInt32_eq (by omega) (by omega)]
    show (b.setLock k (b.lock k + 1)).sem k = _
    rw [Board.sem_setLock, hq]
    rfl
  | cons n rest =>
    rw [show (b.sem k).waiting = n :: rest from hq]
    unfold Board.sem Board.comeBack
    rw [Board.move_queue_from (by simp), hq, List.erase_cons_head]
    rfl

end OnBoard

/-! ## The events -/

section Events

variable {s s' : Scheduler} {b b' : Board} {k : Nat}

theorem Shows.callerNode (h : Shows s b) (hok : b.Ok) : callerNode s = b.current := by
  unfold MeOS.callerNode
  rw [h.currentNode hok]

/-- The events seen at a wait are those of the abstract wait. -/
theorem Shows.semEvents_wait (h : Shows s b) (hok : b.Ok) (h' : Shows s' b')
    (hsem : b'.sem k = ((b.sem k).wait b.current).1) :
    semEvents k s s' (.semaphoreWait k) = ((b.sem k).wait b.current).2 := by
  have hq : b'.queue (.waiting k) = ((b.sem k).wait b.current).1.waiting :=
    congrArg Sem.waiting hsem
  have hout : b.current ∉ b.queue (.waiting k) := by
    intro hmem
    cases hok.apart hmem (List.mem_of_head? hok.first)
  unfold semEvents
  dsimp only
  rw [if_pos rfl, h.callerNode hok, h'.queued, hq]
  unfold Sem.wait
  by_cases hlock : (b.sem k).lock ≤ 0
  · rw [if_pos hlock, if_pos]
    exact List.mem_append_right _ List.mem_cons_self
  · rw [if_neg hlock, if_neg]
    exact hout

/-- The events seen at a signal are those of the abstract signal. -/
theorem Shows.semEvents_signal (h : Shows s b) (hok : b.Ok) (h' : Shows s' b')
    (hsem : b'.sem k = ((b.sem k).signal b.current).1) :
    semEvents k s s' (.semaphoreSignal k) = ((b.sem k).signal b.current).2 := by
  have hq : b'.queue (.waiting k) = ((b.sem k).signal b.current).1.waiting :=
    congrArg Sem.waiting hsem
  have hnodup := hok.nodup (.waiting k)
  unfold semEvents
  dsimp only
  rw [if_pos rfl, h.callerNode hok, h.queued, h'.queued, hq]
  unfold Sem.signal
  cases hw : b.queue (.waiting k) with
  | nil =>
    rw [show (b.sem k).waiting = [] from hw]
    rfl
  | cons n rest =>
    rw [hw] at hnodup
    have hn := (List.nodup_cons.mp hnodup).1
    rw [show (b.sem k).waiting = n :: rest from hw]
    -- the first waiting thread is gone, the others still wait
    have hfilter : (n :: rest).filter (fun a => a ∉ rest) = [n] := by
      rw [List.filter_cons_of_pos (by simpa using hn)]
      congr 1
      rw [List.filter_eq_nil_iff]
      intro a ha
      simpa using ha
    show Event.signalled b.current :: ((n :: rest).filter fun a => a ∉ rest).map _ = _
    rw [hfilter]
    rfl

end Events

/-! ## Runs -/

/-- The scheduler is in order and the log accounts for the semaphore. -/
def SemKept (k : Nat) (v : Int) (c : SemRun) : Prop :=
  ∃ b, Shows c.sched b ∧ b.Ok ∧ (∀ n, n ∈ c.threads ↔ b.On n) ∧ Balanced v (b.sem k) c.log ∧
    b.lock k < 2147483648

/-- One call keeps the account. -/
theorem SemKept.exec {k : Nat} {v : Int} {c c' : SemRun} (h : SemKept k v c)
    {call : SchedCall} (hmade : call.Made c.sched c.threads) (hcounts : call.Counts c.sched k)
    (hret : call.exec c.sched = .ret c'.sched) (hth' : c'.threads = call.threads c.threads)
    (hlog : c'.log = c.log ++ semEvents k c.sched c'.sched call) : SemKept k v c' := by
  rcases h with ⟨b, hshows, hok, hth, hbal, hmax⟩
  rcases hshows.exec hok hth hmade with ⟨hgo, hback⟩
  rcases hgo (hback _ hret) with ⟨s'', hret', hshows', hok', hon'⟩
  obtain rfl : s'' = c'.sched := Outcome.ret.inj (hret'.symm.trans hret)
  have hlo : 0 ≤ b.lock k := hbal.nonneg
  refine ⟨b.after c.sched call, hshows', hok', ?_, ?_⟩
  · rw [hth']
    exact hon'
  rw [hlog]
  by_cases hwait : call = .semaphoreWait k
  · subst hwait
    have hsem : (b.after c.sched (.semaphoreWait k)).sem k = ((b.sem k).wait b.current).1 :=
      Board.sem_wait hlo hmax
    rw [hshows.semEvents_wait hok hshows' hsem, hsem]
    refine ⟨hbal.wait b.current, ?_⟩
    show ((b.after c.sched (.semaphoreWait k)).sem k).lock < 2147483648
    rw [hsem]
    unfold Sem.wait
    by_cases hlock : (b.sem k).lock ≤ 0
    · rw [if_pos hlock]
      exact hmax
    · rw [if_neg hlock]
      show b.lock k - 1 < 2147483648
      omega
  · by_cases hsignal : call = .semaphoreSignal k
    · subst hsignal
      have hlt : b.lock k < 2147483647 := by
        have := hcounts rfl
        rwa [hshows.locks] at this
      have hsem : (b.after c.sched (.semaphoreSignal k)).sem k = ((b.sem k).signal b.current).1 :=
        Board.sem_signal hlo hlt
      rw [hshows.semEvents_signal hok hshows' hsem, hsem]
      refine ⟨hbal.signal b.current, ?_⟩
      show ((b.after c.sched (.semaphoreSignal k)).sem k).lock < 2147483648
      rw [hsem]
      unfold Sem.signal
      cases (b.sem k).waiting with
      | nil =>
        show b.lock k + 1 < 2147483648
        omega
      | cons n rest => exact hmax
    · -- the call is not one of this semaphore
      have hinit : ∀ v, call ≠ .semaphoreInit k v := by
        intro v heq
        rw [heq] at hcounts
        exact hcounts rfl
      have hsem : (b.after c.sched call).sem k = b.sem k := Board.sem_after hinit hwait hsignal
      have hnone : semEvents k c.sched c'.sched call = [] := by
        cases call with
        | semaphoreWait sem =>
          have hne : sem ≠ k := fun heq => hwait (heq ▸ rfl)
          exact if_neg hne
        | semaphoreSignal sem =>
          have hne : sem ≠ k := fun heq => hsignal (heq ▸ rfl)
          exact if_neg hne
        | _ => rfl
      rw [hnone, hsem, List.append_nil]
      refine ⟨hbal, ?_⟩
      show ((b.after c.sched call).sem k).lock < 2147483648
      rw [hsem]
      exact hmax

/-- The account holds in every run. -/
theorem semSystem_kept {k : Nat} {v : Int} (hv : 0 ≤ v) (hmax : v < 2147483648) :
    (semSystem k v).Inductive (SemKept k v) where
  init := by
    rintro c ⟨s, hreach, hempty, hsched, hlog⟩
    rcases schedSystem_kept.holds hreach with ⟨b, hshows, hok, hth⟩
    have hq : b.queue (.waiting k) = [] := (hshows.queued _).symm.trans hempty
    have hsem : (b.setLock k v).sem k = ⟨v, []⟩ := by
      rw [Board.sem_setLock, hq]
    refine ⟨b.setLock k v, ?_, Board.setLock_ok hok, hth, ?_, ?_⟩
    · rw [hsched]
      exact hshows.semaphoreInit k v hq
    · rw [hsem, hlog]
      exact Balanced.init hv
    · show ((b.setLock k v).sem k).lock < 2147483648
      rw [hsem]
      exact hmax
  next := by
    rintro c c' hkept ⟨call, hmade, hcounts, hret, hth, hlog⟩
    exact hkept.exec hmade hcounts hret hth hlog

/-- In every state of every run: `lock` is not negative; threads wait only when it is
0; the waits granted so far are the initial value plus the signals less `lock`;
the threads that blocked are, in order, those that were released and those that
wait. With one unit, as after `mutex_init`, and releases only by threads that
hold it, one thread holds it at most. -/
theorem sem_balanced {k : Nat} {v : Int} (hv : 0 ≤ v) (hmax : v < 2147483648) {c : SemRun}
    (h : (semSystem k v).Reachable c) :
    0 ≤ c.sched.locks k ∧
      (c.sched.queued (.waiting k) ≠ [] → c.sched.locks k = 0) ∧
      ((grantsOf c.log).length : Int) = v + (signalsOf c.log).length - c.sched.locks k ∧
      blockedOf c.log = releasedOf c.log ++ c.sched.queued (.waiting k) ∧
      (v = 1 → Disciplined c.log →
        ∀ t t', Holding c.log t → Holding c.log t' → t = t') := by
  rcases (semSystem_kept hv hmax).holds h with ⟨b, hshows, _, _, hbal, _⟩
  rw [hshows.queued, hshows.locks]
  refine ⟨hbal.nonneg, hbal.idle, hbal.conserved, hbal.fifo, ?_⟩
  intro hone hd t t' ht ht'
  subst hone
  exact hbal.exclusive hd ht ht'

theorem sem_balanced_pair : ∃ s s', startedPair = .ret s ∧
    semaphoreWait (mutexInit s 100) 100 = .ret s' ∧
    0 ≤ s'.locks 100 ∧ (s'.queued (.waiting 100) ≠ [] → s'.locks 100 = 0) := by
  obtain ⟨s, s', hs, hwait, hempty⟩ : ∃ s s', startedPair = .ret s ∧
      semaphoreWait (mutexInit s 100) 100 = .ret s' ∧ s.queued (.waiting 100) = [] :=
    ⟨_, _, rfl, rfl, rfl⟩
  have hinit : (semSystem 100 1).Reachable ⟨mutexInit s 100, [32, 16], []⟩ :=
    System.Reachable.init ⟨s, startedPair_reachable hs, hempty, rfl, rfl⟩
  have hnext : (semSystem 100 1).Reachable
      ⟨s', [32, 16], [] ++ semEvents 100 (mutexInit s 100) s' (.semaphoreWait 100)⟩ :=
    hinit.next ⟨.semaphoreWait 100, trivial, trivial, hwait, rfl, rfl⟩
  have h := sem_balanced (by decide) (by decide) hnext
  exact ⟨s, s', hs, hwait, h.1, h.2.1⟩

end MeOS
