import MeOS.Lib.Runs
import MeOS.SchedRefine

/-! # Runs of the scheduler

A run starts with `init_thread_scheduler`, inserts threads, calls
`scheduler_start` and then makes any calls. `queues_kept` says what holds in
every state it reaches: every thread is on exactly one list, the list that its
state asks for, and the thread that runs is the head of its ready queue. No
call stops with `PANIC` then, as long as somebody is left to run.
-/

namespace MeOS

open Runs

namespace Scheduler

/-- The nodes of a list, following the pointers from its head. -/
def queued (s : Scheduler) (r : ListRef) : List Nat := dlListNodes s.nodes (s.lists r)

/-- The thread of a node. -/
def tcbOf (s : Scheduler) (n : Nat) : Tcb := s.tcbs (s.nodes.data n)

end Scheduler

/-- The list matches the thread on it. -/
def InPlace (t : Tcb) : ListRef → Prop
  | .ready i => (t.state = .ready ∨ t.state = .running) ∧ threadGetPriority t = i ∧
      i < numberPriorities
  | .block => t.state = .block
  | .sleep => t.state = .sleep
  | .waiting _ => t.state = .block

/-- The queues of the scheduler are in order; `threads` are the nodes of the
inserted threads. -/
structure QueueInv (s : Scheduler) (threads : List Nat) : Prop where
  place : ∀ n ∈ threads, ∃! r, n ∈ s.queued r
  once : ∀ r, (s.queued r).Nodup
  only : ∀ r n, n ∈ s.queued r → n ∈ threads
  inPlace : ∀ r n, n ∈ s.queued r → InPlace (s.tcbOf n) r
  running : ∃ n ∈ threads, (s.tcbOf n).state = .running ∧ s.nodes.data n = s.currentThread ∧
    (s.queued (.ready (threadGetPriority (s.tcbOf n)).toNat)).head? = some n ∧
    ∀ a ∈ threads, (s.tcbOf a).state = .running → a = n

/-! ## Calls that are made -/

/-- Some thread is ready to run. -/
def OtherReady (s : Scheduler) (threads : List Nat) : Prop :=
  ∃ n ∈ threads, (s.tcbOf n).state = .ready

/-- The call makes sense: a new thread comes with a node of its own and a
priority of a queue, a blocked or sleeping thread was ready or running, and
`thread_notify` is not used for a thread that waits for a semaphore. -/
def SchedCall.Made (s : Scheduler) (threads : List Nat) : SchedCall → Prop
  | .threadInsert node thread =>
    (node ∉ threads ∧ 0 < node ∧ node < 4294967296) ∧
      (∀ n ∈ threads, s.nodes.data n ≠ thread) ∧
      0 ≤ threadGetPriority (s.tcbs thread) ∧
      threadGetPriority (s.tcbs thread) < numberPriorities
  | .threadSwitch => True
  | .threadBlock node =>
    node ∈ threads ∧ ((s.tcbOf node).state = .ready ∨ s.nodes.data node = s.currentThread)
  | .threadSleep node _ =>
    node ∈ threads ∧ ((s.tcbOf node).state = .ready ∨ s.nodes.data node = s.currentThread)
  | .threadNotify node => node ∈ threads ∧ ∀ k, node ∉ s.queued (.waiting k)
  | .semaphoreInit sem _ => s.queued (.waiting sem) = []
  | .semaphoreWait _ => True
  | .semaphoreSignal _ => True

/-- The call makes the running thread give up the processor for good. -/
def SchedCall.GivesUp (s : Scheduler) : SchedCall → Prop
  | .threadBlock node => s.nodes.data node = s.currentThread
  | .threadSleep node _ => s.nodes.data node = s.currentThread
  | .semaphoreWait sem => s.locks sem ≤ 0
  | _ => False

/-- The threads after a call. -/
def SchedCall.threads (threads : List Nat) : SchedCall → List Nat
  | .threadInsert node _ => node :: threads
  | _ => threads

/-- The scheduler with the nodes of the threads inserted so far. -/
structure SchedRun where
  sched : Scheduler
  threads : List Nat

/-- Threads are inserted before the scheduler starts. -/
inductive Booted : Scheduler → List Nat → Prop where
  | init (nodes : DlNodes Nat) (tcbs : Nat → Tcb) (locks : Nat → Int) :
    Booted (initThreadScheduler nodes tcbs locks) []
  | insert {s s' : Scheduler} {threads : List Nat} {node thread : Nat} (h : Booted s threads)
      (hmade : (SchedCall.threadInsert node thread).Made s threads)
      (hret : threadInsert s node thread = .ret s') : Booted s' (node :: threads)

/-- The runs of the scheduler. -/
def schedSystem : System SchedRun where
  Init c := ∃ s, Booted s c.threads ∧ schedulerStart s = .ret c.sched
  Next c c' := ∃ call : SchedCall, call.Made c.sched c.threads ∧
    call.exec c.sched = .ret c'.sched ∧ c'.threads = call.threads c.threads

/-! ## One call -/

/-- The scheduler shows a board in order, on which the threads stand. -/
def Kept (s : Scheduler) (threads : List Nat) : Prop :=
  ∃ b, Shows s b ∧ b.Ok ∧ ∀ n, n ∈ threads ↔ b.On n

/-- What a call does to the board. -/
def Board.after (b : Board) (s : Scheduler) : SchedCall → Board
  | .threadInsert node thread => b.insert node (threadGetPriority (s.tcbs thread)).toNat
  | .threadSwitch => b.switch
  | .threadBlock node => b.leave node .block .block
  | .threadSleep node _ => b.leave node .sleep .sleep
  | .threadNotify node => if b.state node = .block then b.comeBack node .block else b
  | .semaphoreInit sem initialValue => b.setLock sem initialValue
  | .semaphoreWait sem => b.wait sem
  | .semaphoreSignal sem => b.signal sem

section Call

variable {s s' : Scheduler} {b : Board} {threads : List Nat} {n : Nat} {r : ListRef}

theorem ShowsQueues.queued (h : ShowsQueues s b) (r : ListRef) : s.queued r = b.queue r :=
  (h.lists r).nodes_eq

theorem ShowsQueues.otherReady (h : ShowsQueues s b) (hth : ∀ n, n ∈ threads ↔ b.On n) :
    OtherReady s threads ↔ b.SomeReady := by
  constructor
  · rintro ⟨n, hn, hstate⟩
    rcases (hth n).mp hn with ⟨r, hr⟩
    exact ⟨r, n, hr, (h.state hr).symm.trans hstate⟩
  · rintro ⟨r, n, hr, hstate⟩
    exact ⟨n, (hth n).mpr ⟨r, hr⟩, (h.state hr).trans hstate⟩

/-- The thread that a call of the running thread is about is the running one. -/
theorem Shows.eq_current (h : Shows s b) (hok : b.Ok) (hn : n ∈ b.queue r)
    (heq : s.nodes.data n = s.currentThread) : n = b.current :=
  h.threads hn (List.mem_of_head? hok.first) (heq.trans h.current)

/-- A thread that blocks or sleeps: it was ready and another one runs on, or it was
running and, unless the machine stops, another one takes over. -/
theorem Shows.leave_call (h : Shows s b) (hok : b.Ok) (st : ThreadState) (hst : st ≠ .running)
    (hst' : st ≠ .ready) (hr : ∀ i, r ≠ .ready i) (hfit : ∀ p, Fits st p r)
    (hth : ∀ n, n ∈ threads ↔ b.On n) (hn : n ∈ threads)
    (hcase : (s.tcbOf n).state = .ready ∨ s.nodes.data n = s.currentThread)
    {call : Outcome Scheduler} {s₁ : Scheduler} (hs₁ : Shows s₁ b)
    (hready : b.state n = .ready → ∃ s', call = .ret s' ∧ Shows s' (b.leave n r st))
    (hcurrent : n = b.current → call = giveUp s₁ b.current (b.priority b.current) r st) :
    ((s.nodes.data n = s.currentThread → OtherReady s threads) →
      ∃ s', call = .ret s' ∧ Shows s' (b.leave n r st) ∧ (b.leave n r st).Ok ∧
        ∀ a, a ∈ threads ↔ (b.leave n r st).On a) ∧
      ∀ s', call = .ret s' → s.nodes.data n = s.currentThread → OtherReady s threads := by
  rcases (hth n).mp hn with ⟨q, hq⟩
  have hstate := h.state hq
  have hmem : n ∈ b.queue (.ready (b.priority n)) := by
    apply hok.ready_mem hq
    rcases hcase with hc | hc
    · exact Or.inl (hstate.symm.trans hc)
    · rw [h.eq_current hok hq hc]
      exact Or.inr hok.running
  have hon : ∀ a, a ∈ threads ↔ (b.leave n r st).On a := by
    intro a
    rw [hth a, Board.on_leave hok.toSorted hr hmem]
  by_cases hnc : n = b.current
  · -- the running thread needs another one to take over
    have hdata : s.nodes.data n = s.currentThread := by
      rw [hnc]
      exact h.current.symm
    rcases hs₁.giveUp_iff hok r st hr hst hst' (hfit _) with ⟨hback, hgo⟩
    rw [hcurrent hnc, h.otherReady hth]
    constructor
    · intro hsome
      have hok' := Board.leave_ok hok hmem hr hst hst' (hfit _) (fun _ => hsome hdata)
      rcases hgo (hsome hdata) with ⟨s', hret, hshows⟩
      rw [← hnc] at hshows
      exact ⟨s', hret, hshows, hok', hon⟩
    · intro s' hret _
      exact hback s' hret
  · have hdata : s.nodes.data n ≠ s.currentThread := fun heq => hnc (h.eq_current hok hq heq)
    have hready' : b.state n = .ready := hstate.symm.trans (hcase.resolve_right hdata)
    have hok' := Board.leave_ok hok hmem hr hst hst' (hfit _) (fun heq => absurd heq hnc)
    rcases hready hready' with ⟨s', hret, hshows⟩
    constructor
    · intro _
      exact ⟨s', hret, hshows, hok', hon⟩
    · intro _ _ heq
      exact absurd heq hdata

/-- A call that makes sense returns exactly when the processor is not given up or
somebody takes over; what it returns shows the board after the call. -/
theorem Shows.exec (h : Shows s b) (hok : b.Ok) (hth : ∀ n, n ∈ threads ↔ b.On n)
    {c : SchedCall} (hmade : c.Made s threads) :
    ((c.GivesUp s → OtherReady s threads) →
      ∃ s', c.exec s = .ret s' ∧ Shows s' (b.after s c) ∧ (b.after s c).Ok ∧
        ∀ a, a ∈ c.threads threads ↔ (b.after s c).On a) ∧
      ∀ s', c.exec s = .ret s' → c.GivesUp s → OtherReady s threads := by
  cases c with
  | threadInsert node thread =>
    rcases hmade with ⟨⟨hnew, haddr⟩, hother, hlo, hhi⟩
    have hout : ∀ q, node ∉ b.queue q := fun q hq => hnew ((hth node).mpr ⟨q, hq⟩)
    have hprio : threadGetPriority (s.tcbs thread) = (threadGetPriority (s.tcbs thread)).toNat :=
      (Int.toNat_of_nonneg hlo).symm
    have hlt : (threadGetPriority (s.tcbs thread)).toNat < numberPriorities := by omega
    rcases h.threadInsert hok.toSorted hout haddr
      (fun ha => hother _ ((hth _).mpr ⟨_, ha⟩)) hprio hlt with ⟨s', hret, hq, hcur, hdata⟩
    -- the new node is in no queue, so it is not that of the running thread
    have hne : b.current ≠ node := fun heq => hout _ (heq ▸ List.mem_of_head? hok.first)
    have hok' := Board.insert_ok hok hout hlt
    constructor
    · intro _
      refine ⟨s', hret, { hq with current := ?_ }, hok', ?_⟩
      · rw [hcur, hdata]
        show s.currentThread = Function.update s.nodes.data node thread b.current
        rw [Function.update_of_ne hne]
        exact h.current
      · intro a
        show a ∈ node :: threads ↔ (b.insert node _).On a
        rw [Board.on_insert hout, List.mem_cons, hth a]
    · intro _ _ hfalse
      exact absurd hfalse id
  | threadSwitch =>
    rcases h.switch hok with ⟨s', hret, hshows⟩
    constructor
    · intro _
      refine ⟨s', hret, hshows, Board.switch_ok hok, ?_⟩
      intro a
      exact (hth a).trans Board.on_switch.symm
    · intro _ _ hfalse
      exact absurd hfalse id
  | threadBlock node =>
    rcases hmade with ⟨hn, hcase⟩
    rcases (hth node).mp hn with ⟨q, hq⟩
    apply h.leave_call (r := .block) hok .block (by simp) (by simp) (by simp) (fun _ => rfl) hth hn
      hcase h
    · exact h.threadBlock_ready hok hq
    · intro heq
      rw [heq]
      exact h.threadBlock_current hok
  | threadSleep node ms =>
    rcases hmade with ⟨hn, hcase⟩
    rcases (hth node).mp hn with ⟨q, hq⟩
    apply h.leave_call (r := .sleep) hok .sleep (by simp) (by simp) (by simp) (fun _ => rfl) hth hn
      hcase (h.setSleepTime (s.nodes.data b.current) ms)
    · intro hready
      exact h.threadSleep_ready hok hq hready ms
    · intro heq
      rw [heq]
      exact h.threadSleep_current hok ms
  | threadNotify node =>
    rcases hmade with ⟨hn, hwait⟩
    rcases (hth node).mp hn with ⟨q, hq⟩
    -- a notified thread is not on a semaphore, by what the caller promises
    have hqw : ∀ k, q ≠ .waiting k := by
      intro k heq
      apply hwait k
      rw [h.queued, ← heq]
      exact hq
    rcases h.threadNotify hok hq hqw with ⟨s', hret, hshows⟩
    constructor
    · intro _
      refine ⟨s', hret, hshows, ?_⟩
      show (if b.state node = .block then b.comeBack node .block else b).Ok ∧
        ∀ a, a ∈ threads ↔ (if b.state node = .block then b.comeBack node .block else b).On a
      by_cases hblock : b.state node = .block
      · have hmem := hok.block_mem hq hqw hblock
        rw [if_pos hblock]
        refine ⟨Board.comeBack_ok hok hmem (by simp) hblock, ?_⟩
        intro a
        rw [Board.on_comeBack hok.toSorted (by simp) hmem]
        exact hth a
      · rw [if_neg hblock]
        exact ⟨hok, hth⟩
    · intro _ _ hfalse
      exact absurd hfalse id
  | semaphoreInit k v =>
    have hq : b.queue (.waiting k) = [] := (h.queued _).symm.trans hmade
    constructor
    · intro _
      exact ⟨_, rfl, h.semaphoreInit k v hq, Board.setLock_ok hok, hth⟩
    · intro _ _ hfalse
      exact absurd hfalse id
  | semaphoreWait k =>
    have hn := List.mem_of_head? hok.first
    have hlocks : s.locks k = b.lock k := by rw [h.locks]
    show ((s.locks k ≤ 0 → _) → _) ∧ ∀ s', semaphoreWait s k = .ret s' → s.locks k ≤ 0 → _
    rw [hlocks]
    by_cases hlock : b.lock k ≤ 0
    · rcases h.giveUp_iff hok (.waiting k) .block (by simp) (by simp) (by simp) rfl with
        ⟨hback, hgo⟩
      -- no unit is left: the caller gives the processor up, which needs another ready thread
      have heq := h.semaphoreWait_block hok hlock
      have hboard : b.after s (.semaphoreWait k) = b.leave b.current (.waiting k) .block := by
        show b.wait k = _
        unfold Board.wait
        rw [if_pos hlock]
      rw [h.otherReady hth, hboard]
      constructor
      · intro hsome
        rcases hgo (hsome hlock) with ⟨s', hret, hshows⟩
        refine ⟨s', heq.trans hret, hshows, ?_, ?_⟩
        · exact Board.leave_ok hok hn (by simp) (by simp) (by simp) rfl (fun _ => hsome hlock)
        · intro a
          rw [Board.on_leave hok.toSorted (by simp) hn]
          exact hth a
      · intro s' hret _
        exact hback s' (heq.symm.trans hret)
    · rcases h.semaphoreWait_take hok hlock with ⟨s', hret, hshows⟩
      have hboard : b.after s (.semaphoreWait k) = b.setLock k (wrapInt32 (b.lock k - 1)) := by
        show b.wait k = _
        unfold Board.wait
        rw [if_neg hlock]
      rw [hboard]
      constructor
      · intro _
        exact ⟨s', hret, hshows, Board.setLock_ok hok, hth⟩
      · intro _ _ hle
        exact absurd hle hlock
  | semaphoreSignal k =>
    rcases h.semaphoreSignal hok k with ⟨s', hret, hshows⟩
    constructor
    · intro _
      refine ⟨s', hret, hshows, Board.signal_ok hok, ?_⟩
      intro a
      exact (hth a).trans (Board.on_signal hok).symm
    · intro _ _ hfalse
      exact absurd hfalse id

end Call

/-! ## Runs -/

section Run

variable {s s' : Scheduler} {b : Board} {threads : List Nat}

/-- A board in order has its queues in order. -/
theorem Kept.queueInv (h : Kept s threads) : QueueInv s threads := by
  rcases h with ⟨b, hshows, hok, hth⟩
  have hcur := List.mem_of_head? hok.first
  constructor
  · intro n hn
    rcases (hth n).mp hn with ⟨r, hr⟩
    refine ⟨r, ?_, ?_⟩
    · show n ∈ s.queued r
      rw [hshows.queued]
      exact hr
    · intro r' hr'
      have hr'' : n ∈ s.queued r' := hr'
      rw [hshows.queued] at hr''
      exact hok.apart hr'' hr
  · intro r
    rw [hshows.queued]
    exact hok.nodup r
  · intro r n hn
    rw [hshows.queued] at hn
    exact (hth n).mpr ⟨r, hn⟩
  · intro r n hn
    rw [hshows.queued] at hn
    have hfit := hok.fits hn
    -- the board gives each queue its state and priority, and the threads show the board
    have hstate := hshows.state hn
    have hprio := hshows.priority hn
    have hlt := hok.prio hn
    unfold Scheduler.tcbOf
    cases r with
    | ready i =>
      rcases hfit with ⟨hst, hi⟩
      refine ⟨?_, ?_, ?_⟩
      · rw [hstate]
        exact hst
      · rw [hprio, hi]
      · rw [hi]
        exact hlt
    | block => exact hstate.trans hfit
    | sleep => exact hstate.trans hfit
    | waiting k => exact hstate.trans hfit
  · refine ⟨b.current, (hth _).mpr ⟨_, hcur⟩, ?_, hshows.current.symm, ?_, ?_⟩
    · exact (hshows.state hcur).trans hok.running
    · unfold Scheduler.tcbOf
      rw [hshows.priority hcur, Int.toNat_natCast, hshows.queued]
      exact hok.first
    · intro a ha hrun
      rcases (hth a).mp ha with ⟨r, hr⟩
      exact hok.unique hr ((hshows.state hr).symm.trans hrun)

/-- A call keeps the queues in order. -/
theorem Kept.exec (h : Kept s threads) {c : SchedCall} (hmade : c.Made s threads)
    (hret : c.exec s = .ret s') : Kept s' (c.threads threads) := by
  rcases h with ⟨b, hshows, hok, hth⟩
  rcases hshows.exec hok hth hmade with ⟨hgo, hback⟩
  rcases hgo (hback s' hret) with ⟨s'', hret', hshows', hok', hth'⟩
  obtain rfl : s'' = s' := Outcome.ret.inj (hret'.symm.trans hret)
  exact ⟨b.after s c, hshows', hok', hth'⟩

/-- Before the scheduler starts every thread is ready. -/
theorem Booted.board (h : Booted s threads) :
    ∃ b, ShowsQueues s b ∧ b.Sorted ∧ (∀ n, n ∈ threads ↔ b.On n) ∧
      ∀ n, b.On n → b.state n = .ready := by
  induction h with
  | init nodes tcbs locks =>
    refine ⟨{ queue := fun _ => [], state := fun _ => .none, priority := fun _ => 0,
              lock := locks, current := 0 }, ?_, ?_, ?_, ?_⟩
    · exact { lists := fun _ => Lists.init, state := fun hn => absurd hn List.not_mem_nil,
              priority := fun hn => absurd hn List.not_mem_nil,
              threads := fun hn => absurd hn List.not_mem_nil, locks := rfl, critical := rfl }
    · exact { nodup := fun _ => List.nodup_nil, apart := fun hn => absurd hn List.not_mem_nil,
              fits := fun hn => absurd hn List.not_mem_nil,
              prio := fun hn => absurd hn List.not_mem_nil }
    · intro n
      refine iff_of_false List.not_mem_nil ?_
      rintro ⟨r, hr⟩
      exact List.not_mem_nil hr
    · rintro n ⟨r, hr⟩
      exact absurd hr List.not_mem_nil
  | @insert s s' threads node thread _ hmade hret ih =>
    rcases ih with ⟨b, hq, hs, hth, hready⟩
    rcases hmade with ⟨⟨hnew, haddr⟩, hother, hlo, hhi⟩
    have hout : ∀ q, node ∉ b.queue q := fun q hn => hnew ((hth node).mpr ⟨q, hn⟩)
    have hlt : (threadGetPriority (s.tcbs thread)).toNat < numberPriorities := by omega
    rcases hq.threadInsert hs hout haddr (fun ha => hother _ ((hth _).mpr ⟨_, ha⟩))
      (Int.toNat_of_nonneg hlo).symm hlt with ⟨s'', hret', hq', _, _⟩
    obtain rfl : s'' = s' := Outcome.ret.inj (hret'.symm.trans hret)
    refine ⟨_, hq', hs.insert hout hlt, ?_, ?_⟩
    · intro n
      rw [Board.on_insert hout, List.mem_cons, hth n]
    · intro n hn
      rw [Board.on_insert hout] at hn
      rw [Board.insert_state]
      by_cases heq : n = node
      · rw [if_pos heq]
      · rw [if_neg heq]
        exact hready n (hn.resolve_left heq)

/-- `scheduler_start` makes the same choice as a switch. -/
theorem Booted.start (h : Booted s threads) (hret : schedulerStart s = .ret s') :
    Kept s' threads := by
  rcases h.board with ⟨b, hq, hs, hth, hready⟩
  have hidle : b.Idle := by
    intro r n hn hrun
    rw [hready n ⟨r, hn⟩] at hrun
    cases hrun
  -- a queue was found, so somebody is ready
  have hsome : b.SomeReady := by
    unfold schedulerStart schedGetFirstNonEmpty at hret
    cases hfind : (List.range numberPriorities).find? fun i =>
        decide ((s.lists (.ready i)).count > 0) with
    | none =>
      rw [hfind] at hret
      cases hret
    | some i =>
      have hpos : (s.lists (.ready i)).count > 0 := by
        simpa using List.find?_some hfind
      rcases hq.count_pos.mp hpos with ⟨a, hhead⟩
      have ha := List.mem_of_head? hhead
      exact ⟨_, a, ha, hready a ⟨_, ha⟩⟩
  rcases hq.dispatch hs hidle hsome with ⟨s'', hrun, hshows⟩
  have hsame : s'' = s' := by
    unfold setupToExecute at hrun
    unfold schedulerStart at hret
    cases hfirst : schedGetFirstNonEmpty s with
    | none =>
      rw [hfirst] at hret
      cases hret
    | some q =>
      rw [hfirst] at hrun hret
      dsimp only at hrun hret
      by_cases hst : (s.tcbs (s.peek q)).state ≠ .ready
      · rw [if_pos hst] at hrun
        cases hrun
      · rw [if_neg hst] at hrun
        exact Outcome.ret.inj (hrun.symm.trans hret)
  subst hsame
  refine ⟨b.dispatch, hshows, Board.dispatch_ok hs hidle hsome, ?_⟩
  intro n
  rw [hth n]
  unfold Board.On
  rw [Board.dispatch_queue]

/-- In every run the queues stay in order. -/
theorem schedSystem_kept : schedSystem.Inductive fun c => Kept c.sched c.threads where
  init := by
    rintro c ⟨s, hboot, hret⟩
    exact hboot.start hret
  next := by
    rintro c c' hkept ⟨call, hmade, hret, hth⟩
    rw [hth]
    exact hkept.exec hmade hret

end Run

/-- A machine with no thread yet; the threads to come have priority 3. -/
def emptyScheduler : Scheduler :=
  initThreadScheduler { data := fun _ => 0, next := fun _ => 0, prev := fun _ => 0 }
    (fun _ => { sleepTime := 0, plusPriority := 0, basePriority := 3, state := .none })
    (fun _ => 0)

/-- Two threads are inserted and the scheduler starts. -/
def startedPair : Outcome Scheduler := do
  let s ← threadInsert emptyScheduler 16 1
  let s ← threadInsert s 32 2
  schedulerStart s

/-- That is the beginning of a run. -/
theorem startedPair_reachable {s : Scheduler} (h : startedPair = .ret s) :
    schedSystem.Reachable ⟨s, [32, 16]⟩ := by
  rcases Outcome.bind_eq_ret.mp h with ⟨s₁, h₁, h⟩
  rcases Outcome.bind_eq_ret.mp h with ⟨s₂, h₂, h₃⟩
  have hprio₁ : threadGetPriority (emptyScheduler.tcbs 1) = 3 := rfl
  obtain ⟨hprio₂, hdata⟩ : threadGetPriority (s₁.tcbs 2) = 3 ∧ s₁.nodes.data 16 = 1 := by
    cases h₁
    exact ⟨rfl, rfl⟩
  have hboot₀ : Booted emptyScheduler [] := Booted.init _ _ _
  have hboot₁ : Booted s₁ [16] := by
    apply hboot₀.insert _ h₁
    refine ⟨⟨by simp, by simp, by simp⟩, by simp, ?_, ?_⟩
    · rw [hprio₁]
      decide
    · rw [hprio₁]
      decide
  have hboot₂ : Booted s₂ [32, 16] := by
    apply hboot₁.insert _ h₂
    refine ⟨⟨by simp, by simp, by simp⟩, ?_, ?_, ?_⟩
    · intro n hn
      rw [List.mem_singleton.mp hn, hdata]
      decide
    · rw [hprio₂]
      decide
    · rw [hprio₂]
      decide
  exact System.Reachable.init ⟨s₂, hboot₂, h₃⟩

/-- In every reachable state the queues are in order, and a call that makes sense
returns, provided that another thread is ready when the running one gives up
the processor: no `PANIC` is reached. -/
theorem queues_kept {c : SchedRun} (h : schedSystem.Reachable c) :
    QueueInv c.sched c.threads ∧
      ∀ call : SchedCall, call.Made c.sched c.threads →
        (call.GivesUp c.sched → OtherReady c.sched c.threads) →
          ∃ s', call.exec c.sched = .ret s' := by
  have hkept := schedSystem_kept.holds h
  refine ⟨hkept.queueInv, ?_⟩
  intro call hmade hother
  rcases hkept with ⟨b, hshows, hok, hth⟩
  rcases (hshows.exec hok hth hmade).1 hother with ⟨s', hret, _⟩
  exact ⟨s', hret⟩

theorem queues_kept_pair : ∃ s, startedPair = .ret s ∧ QueueInv s [32, 16] ∧
    ∀ call : SchedCall, call.Made s [32, 16] → (call.GivesUp s → OtherReady s [32, 16]) →
      ∃ s', call.exec s = .ret s' := by
  obtain ⟨s, hs⟩ : ∃ s, startedPair = .ret s := ⟨_, rfl⟩
  exact ⟨s, hs, queues_kept (startedPair_reachable hs)⟩

end MeOS
