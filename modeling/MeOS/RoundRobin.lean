import MeOS.SleepAstray

/-! # Turns at the top priority

The timer interrupt calls `scheduler_thread_switch` and then
`scheduler_decrease_sleep_time`. As long as no tick takes the wrong sleeper, the queues
stay in order in every run of calls, interrupts and critical sections, and then the
threads of the highest non-empty priority take turns.
-/

namespace MeOS

open Runs

/-! ## The kernel under the timer -/

/-- `scheduler_interrupt`: nothing is switched before the scheduler has started. -/
def schedulerInterrupt (s : Scheduler) (frequency : Nat) : Outcome Scheduler :=
  if s.currentThread = 0 then .ret s
  else do
    let s ← schedulerThreadSwitch s
    schedulerDecreaseSleepTime s frequency

/-- What happens to a kernel that runs. -/
inductive KernelCall where
  | call (c : SchedCall)
  | timer (frequency : Nat)
  | critlockAcquire
  | critlockRelease
deriving Repr, DecidableEq

def KernelCall.exec (s : Scheduler) : KernelCall → Outcome Scheduler
  | .call c => c.exec s
  | .timer frequency => schedulerInterrupt s frequency
  | .critlockAcquire => .ret { s with inCriticalSection := 1 }
  | .critlockRelease => .ret { s with inCriticalSection := 0 }

def KernelCall.threads (threads : List Nat) : KernelCall → List Nat
  | .call c => c.threads threads
  | _ => threads

/-- A call makes sense, and nobody gives up the processor within a critical section. -/
def KernelCall.Made (c : SchedRun) : KernelCall → Prop
  | .call d => d.Made c.sched c.threads ∧
      (c.sched.inCriticalSection ≠ 0 → ¬ d.GivesUp c.sched)
  | .timer frequency => 0 < frequency
  | .critlockAcquire => True
  | .critlockRelease => True

/-- Besides, no tick finds an expired sleeper behind one that sleeps on. -/
def KernelCall.InOrder (c : SchedRun) (call : KernelCall) : Prop :=
  call.Made c ∧ ∀ frequency, call = .timer frequency → ExpiredFirst c.sched (1000 / frequency)

/-- The runs of a kernel whose steps are as `Step` asks. -/
def kernelSystem (Step : SchedRun → KernelCall → Prop) : System SchedRun where
  Init := schedSystem.Init
  Next c c' := ∃ call : KernelCall, Step c call ∧ call.exec c.sched = .ret c'.sched ∧
    c'.threads = call.threads c.threads

/-! ## Turns -/

/-- `scheduler_thread_switch`, `k` times; the threads that ran, and the last state. -/
def threadSwitches : Nat → Scheduler → Outcome (List Nat × Scheduler)
  | 0, s => .ret ([], s)
  | k + 1, s => do
    let s ← schedulerThreadSwitch s
    let (ran, s') ← threadSwitches k s
    .ret (s.currentThread :: ran, s')

/-- The running thread has the highest non-empty priority `p`; its ready queue is `t₀`, which runs,
and `ts`. -/
structure TopRuns (s : Scheduler) (p t₀ : Nat) (ts : List Nat) : Prop where
  outside : s.inCriticalSection = 0
  running : (s.tcbs s.currentThread).state = .running
  current : s.nodes.data t₀ = s.currentThread
  queue : s.queued (.ready p) = t₀ :: ts
  top : ∀ j < p, s.queued (.ready j) = []

instance (s : Scheduler) (p t₀ : Nat) (ts : List Nat) : Decidable (TopRuns s p t₀ ts) :=
  decidable_of_iff (s.inCriticalSection = 0 ∧ (s.tcbs s.currentThread).state = .running ∧
      s.nodes.data t₀ = s.currentThread ∧ s.queued (.ready p) = t₀ :: ts ∧
      ∀ j < p, s.queued (.ready j) = [])
    ⟨fun ⟨h₁, h₂, h₃, h₄, h₅⟩ => ⟨h₁, h₂, h₃, h₄, h₅⟩,
      fun h => ⟨h.outside, h.running, h.current, h.queue, h.top⟩⟩

/-- With `k` threads in the queue, `k` switches run the others in order and then `t₀` again, each
once; no queue is changed in the end. -/
def TakeTurns (s : Scheduler) (p t₀ : Nat) (ts : List Nat) : Prop :=
  ∃ s', threadSwitches (ts.length + 1) s = .ret ((ts ++ [t₀]).map s.nodes.data, s') ∧
    ((ts ++ [t₀]).map s.nodes.data).Nodup ∧ s'.queued (.ready p) = t₀ :: ts ∧
    ∀ r, r ≠ .ready p → s'.queued r = s.queued r

section Turns

variable {s s' : Scheduler} {b : Board} {n p : Nat} {u v w : List Nat}

/-- The head of the first non-empty ready queue is picked. -/
theorem Board.pick_eq (hp : p < numberPriorities) (htop : ∀ j < p, b.queue (.ready j) = [])
    (hhead : (b.queue (.ready p)).head? = some n) : b.pick = some n := by
  rcases List.append_of_mem (List.mem_range.mpr hp) with ⟨l, r, hsplit⟩
  have hsorted : (l ++ p :: r).Pairwise (· < ·) := hsplit ▸ List.pairwise_lt_range
  unfold Board.pick
  rw [hsplit]
  apply List.findSome?_eq_some_iff.mpr
  refine ⟨l, p, r, rfl, hhead, ?_⟩
  intro j hj
  rw [htop j ((List.pairwise_append.mp hsorted).2.2 j hj p List.mem_cons_self)]
  rfl

/-- A switch at the top priority turns its queue, and the new head runs. -/
theorem Board.switch_top (hok : b.Ok) (hq : b.queue (.ready p) = b.current :: w)
    (htop : ∀ j < p, b.queue (.ready j) = []) :
    b.switch.queue (.ready p) = w ++ [b.current] ∧
      (∀ r, r ≠ .ready p → b.switch.queue r = b.queue r) ∧
      (w ++ [b.current]).head? = some b.switch.current := by
  have hmem : b.current ∈ b.queue (.ready p) := by
    rw [hq]
    exact List.mem_cons_self
  have hprio : b.priority b.current = p := (hok.fits hmem).2.symm
  have hturned : ((b.setState b.current .ready).rotate (.ready p)).queue (.ready p) =
      w ++ [b.current] := by
    rw [Board.rotate_queue_self]
    show (b.queue (.ready p)).rotate 1 = _
    rw [hq, List.rotate_cons_succ, List.rotate_zero]
  have hother : ∀ r, r ≠ .ready p →
      ((b.setState b.current .ready).rotate (.ready p)).queue r = b.queue r :=
    fun r hr => Board.rotate_queue_other hr
  obtain ⟨a, ha⟩ : ∃ a, (w ++ [b.current]).head? = some a := by
    cases w with
    | nil => exact ⟨_, rfl⟩
    | cons c w => exact ⟨_, rfl⟩
  have hpick : ((b.setState b.current .ready).rotate (.ready p)).pick = some a := by
    apply Board.pick_eq (hprio ▸ hok.prio hmem)
    · intro j hj
      rw [hother _ (by simpa using Nat.ne_of_lt hj)]
      exact htop j hj
    · rw [hturned]
      exact ha
  have hswitch : b.switch = ((b.setState b.current .ready).rotate (.ready p)).dispatch := by
    unfold Board.switch
    rw [if_pos hok.running, hprio]
  refine ⟨?_, ?_, ?_⟩
  · rw [hswitch, Board.dispatch_queue]
    exact hturned
  · intro r hr
    rw [hswitch, Board.dispatch_queue]
    exact hother r hr
  · rw [ha, hswitch]
    unfold Board.dispatch
    rw [hpick]

/-- A switch writes states and links, and `in_critical_section` not at all. -/
structure Switched (s s' : Scheduler) : Prop where
  data : s'.nodes.data = s.nodes.data
  critical : s'.inCriticalSection = s.inCriticalSection
  sleepTime : ∀ t, (s'.tcbs t).sleepTime = (s.tcbs t).sleepTime

theorem setState_sleepTime (s : Scheduler) (t t' : Nat) (st : ThreadState) :
    ((s.setState t st).tcbs t').sleepTime = (s.tcbs t').sleepTime := by
  unfold Scheduler.setState
  by_cases h : t' = t
  · subst h
    simp
  · simp [h]

theorem setupToExecute_switched (h : setupToExecute s = .ret s') : Switched s s' := by
  unfold setupToExecute at h
  cases hfirst : schedGetFirstNonEmpty s with
  | none =>
    rw [hfirst] at h
    cases h
  | some q =>
    rw [hfirst] at h
    dsimp only at h
    split_ifs at h
    obtain rfl := Outcome.ret.inj h
    exact ⟨rfl, rfl, fun t => setState_sleepTime s (s.peek q) t .running⟩

theorem headToTail_data (m : DlNodes Nat) (l : DlList) :
    (dlListHeadToTail m l).1.data = m.data := by
  unfold dlListHeadToTail
  split_ifs
  · rfl
  · rfl
  · rfl

theorem threadSwitch_switched (h : schedulerThreadSwitch s = .ret s') : Switched s s' := by
  unfold schedulerThreadSwitch at h
  split_ifs at h
  · obtain rfl := Outcome.ret.inj h
    exact ⟨rfl, rfl, fun _ => rfl⟩
  · rcases Outcome.bind_eq_ret.mp h with ⟨q, _, hrest⟩
    have hsw := setupToExecute_switched hrest
    have hdata : ((s.setState s.currentThread .ready).headToTail q).nodes.data = s.nodes.data :=
      headToTail_data _ _
    refine ⟨hsw.data.trans hdata, hsw.critical, ?_⟩
    intro t
    exact (hsw.sleepTime t).trans (setState_sleepTime s s.currentThread t .ready)
  · exact setupToExecute_switched h

/-- The switches of a part `u` of a turn. -/
theorem Shows.switches (h : Shows s b) (hok : b.Ok) (hq : b.queue (.ready p) = b.current :: w)
    (htop : ∀ j < p, b.queue (.ready j) = []) (hu : w ++ [b.current] = u ++ v) :
    ∃ s' b', threadSwitches u.length s = .ret (u.map s.nodes.data, s') ∧ Shows s' b' ∧
      b'.queue (.ready p) = (b.queue (.ready p)).rotate u.length ∧
      ∀ r, r ≠ .ready p → b'.queue r = b.queue r := by
  induction u generalizing s b w v with
  | nil => exact ⟨s, b, rfl, h, (List.rotate_zero _).symm, fun _ _ => rfl⟩
  | cons a u ih =>
    rcases Board.switch_top hok hq htop with ⟨hturn, hother, hcur⟩
    rw [hu] at hturn hcur
    obtain rfl : a = b.switch.current := Option.some.inj hcur
    rcases h.switch hok with ⟨s₁, hret, hshows⟩
    have hdata := (threadSwitch_switched hret).data
    have htop' : ∀ j < p, b.switch.queue (.ready j) = [] := by
      intro j hj
      rw [hother _ (by simpa using Nat.ne_of_lt hj)]
      exact htop j hj
    rcases ih hshows (Board.switch_ok hok) hturn htop' (List.append_assoc u v _) with
      ⟨s₂, b₂, hrest, hshows₂, hq₂, hother₂⟩
    refine ⟨s₂, b₂, ?_, hshows₂, ?_, fun r hr => (hother₂ r hr).trans (hother r hr)⟩
    · show (schedulerThreadSwitch s >>= _) = _
      rw [hret, Outcome.ret_bind]
      show (threadSwitches u.length s₁ >>= _) = _
      rw [hrest, Outcome.ret_bind, hdata]
      show Outcome.ret (s₁.currentThread :: _, s₂) = _
      rw [hshows.current, hdata]
      rfl
    · rw [hq₂, hturn, ← hu, hq, List.length_cons, List.rotate_cons_succ]

/-- On a board in order the threads of the top priority take turns. -/
theorem Shows.takeTurns {t₀ : Nat} {ts : List Nat} (h : Shows s b) (hok : b.Ok)
    (htop : TopRuns s p t₀ ts) : TakeTurns s p t₀ ts := by
  have hqueue : b.queue (.ready p) = t₀ :: ts := (h.queued _).symm.trans htop.queue
  have hmem : t₀ ∈ b.queue (.ready p) := by
    rw [hqueue]
    exact List.mem_cons_self
  obtain rfl : t₀ = b.current := h.eq_current hok hmem htop.current
  have hempty : ∀ j < p, b.queue (.ready j) = [] :=
    fun j hj => (h.queued _).symm.trans (htop.top j hj)
  rcases h.switches hok hqueue hempty (List.append_nil (ts ++ [b.current])).symm with
    ⟨s', b', hret, hshows, hq, hother⟩
  rw [List.length_append, List.length_singleton] at hret hq
  have hnodup := hok.nodup (.ready p)
  rw [hqueue] at hnodup hq
  refine ⟨s', hret, ?_, ?_, ?_⟩
  · apply List.Nodup.map_on
    · intro a ha c hc heq
      have hin : ∀ {x}, x ∈ ts ++ [b.current] → x ∈ b.queue (.ready p) := by
        intro x hx
        rw [hqueue]
        simp only [List.mem_append, List.mem_cons] at hx ⊢
        tauto
      exact h.threads (hin ha) (hin hc) heq
    · have hperm : (ts ++ [b.current]).Perm (b.current :: ts) := List.perm_append_singleton _ ts
      exact hperm.nodup_iff.mpr hnodup
  · rw [hshows.queued, hq]
    exact List.rotate_length (b.current :: ts)
  · intro r hr
    rw [hshows.queued, h.queued]
    exact hother r hr

end Turns

/-! ## Critical sections -/

section Critical

variable {s s' : Scheduler} {threads : List Nat}

/-- What is done with a ready queue commutes with leaving the critical section. -/
theorem readyQueue_outside (t : Tcb) {f g : ListRef → Scheduler} (h : ∀ q, f q = (g q).outside) :
    (readyQueue t >>= fun q => Outcome.ret (f q)) =
      (readyQueue t >>= fun q => Outcome.ret (g q)) >>= fun s' => Outcome.ret s'.outside := by
  cases readyQueue t with
  | ret q => exact congrArg Outcome.ret (h q)
  | panic => rfl
  | undefined => rfl
  | running => rfl

theorem threadBlock_of_ready {node : Nat} (h : (s.tcbs (s.nodes.data node)).state = .ready) :
    threadBlock s node =
      readyQueue ((s.setState (s.nodes.data node) .block).tcbs (s.nodes.data node)) >>= fun q =>
        Outcome.ret (((s.setState (s.nodes.data node) .block).removeNode q node).1.insertBackNode
          .block node) := by
  unfold threadBlock
  dsimp only
  rw [h, if_neg (by simp), if_neg (by simp), if_pos (by simp)]
  rfl

theorem threadSleep_of_ready {node ms : Nat} (h : (s.tcbs (s.nodes.data node)).state = .ready) :
    threadSleep s node ms =
      readyQueue (((s.setSleepTime (s.nodes.data node) ms).setState (s.nodes.data node)
        .sleep).tcbs (s.nodes.data node)) >>= fun q =>
          Outcome.ret ((((s.setSleepTime (s.nodes.data node) ms).setState (s.nodes.data node)
            .sleep).removeNode q node).1.insertBackNode .sleep node) := by
  have hset : ((s.setSleepTime (s.nodes.data node) ms).tcbs (s.nodes.data node)).state = .ready := by
    rw [setSleepTime_self]
    exact h
  unfold threadSleep
  dsimp only
  rw [h, if_neg (by simp), if_neg (by simp), hset, if_pos (by simp)]
  rfl

/-- A call that gives nothing up does the same within a critical section as outside, unless it is
a switch. -/
theorem exec_outside {c : SchedCall} (hmade : c.Made s threads) (hkeeps : ¬ c.GivesUp s)
    (hswitch : c ≠ .threadSwitch) :
    c.exec s.outside = c.exec s >>= fun s' => Outcome.ret s'.outside := by
  cases c with
  | threadInsert node thread => exact readyQueue_outside _ fun _ => rfl
  | threadSwitch => exact absurd rfl hswitch
  | threadBlock node =>
    have hready : (s.tcbs (s.nodes.data node)).state = .ready := hmade.2.resolve_right hkeeps
    have hready' : (s.outside.tcbs (s.outside.nodes.data node)).state = .ready := hready
    show threadBlock s.outside node = threadBlock s node >>= _
    rw [threadBlock_of_ready hready, threadBlock_of_ready hready']
    exact readyQueue_outside _ fun _ => rfl
  | threadSleep node ms =>
    have hready : (s.tcbs (s.nodes.data node)).state = .ready := hmade.2.resolve_right hkeeps
    have hready' : (s.outside.tcbs (s.outside.nodes.data node)).state = .ready := hready
    show threadSleep s.outside node ms = threadSleep s node ms >>= _
    rw [threadSleep_of_ready hready, threadSleep_of_ready hready']
    exact readyQueue_outside _ fun _ => rfl
  | threadNotify node =>
    show threadNotify s.outside node = threadNotify s node >>= _
    unfold threadNotify
    by_cases hblock : (s.tcbs (s.nodes.data node)).state ≠ .block
    · have hblock' : (s.outside.tcbs (s.outside.nodes.data node)).state ≠ .block := hblock
      rw [if_pos hblock, if_pos hblock']
      rfl
    · have hblock' : ¬ (s.outside.tcbs (s.outside.nodes.data node)).state ≠ .block := hblock
      rw [if_neg hblock, if_neg hblock']
      exact readyQueue_outside _ fun _ => rfl
  | semaphoreInit sem initialValue => rfl
  | semaphoreWait sem =>
    have hunit : ¬ s.locks sem ≤ 0 := hkeeps
    have hunit' : ¬ s.outside.locks sem ≤ 0 := hkeeps
    have hnode : threadGetCurrentNode s.outside = threadGetCurrentNode s := rfl
    show semaphoreWait s.outside sem = semaphoreWait s sem >>= _
    unfold semaphoreWait
    rw [hnode]
    cases threadGetCurrentNode s with
    | ret n =>
      simp only [Outcome.ret_bind, if_neg hunit, if_neg hunit']
      rfl
    | panic => rfl
    | undefined => rfl
    | running => rfl
  | semaphoreSignal sem =>
    show semaphoreSignal s.outside sem = semaphoreSignal s sem >>= _
    unfold semaphoreSignal
    by_cases hwait : (s.lists (.waiting sem)).count > 0
    · have hwait' : (s.outside.lists (.waiting sem)).count > 0 := hwait
      rw [if_pos hwait, if_pos hwait', removeFrontNode_outside]
      cases s.removeFrontNode (.waiting sem) with
      | ret p => exact readyQueue_outside _ fun _ => rfl
      | panic => rfl
      | undefined => rfl
      | running => rfl
    · have hwait' : ¬ (s.outside.lists (.waiting sem)).count > 0 := hwait
      rw [if_neg hwait, if_neg hwait']
      rfl

end Critical

/-! ## Runs -/

section Run

variable {s s' : Scheduler} {threads : List Nat} {c : SchedRun}

/-- A call keeps the queues in order, within a critical section, too. -/
theorem Kept.exec_outside (h : Kept s.outside threads) {c : SchedCall} (hmade : c.Made s threads)
    (hkeeps : s.inCriticalSection ≠ 0 → ¬ c.GivesUp s) (hret : c.exec s = .ret s') :
    Kept s'.outside (c.threads threads) := by
  by_cases hcrit : s.inCriticalSection = 0
  · have hsame : s.outside = s := by
      unfold Scheduler.outside
      rw [← hcrit]
    rw [hsame] at h
    have hkept := h.exec hmade hret
    rcases hkept with ⟨b, hshows, hok, hth⟩
    exact ⟨b, hshows.outside, hok, hth⟩
  by_cases hswitch : c = .threadSwitch
  · subst hswitch
    have hstays : schedulerThreadSwitch s = .ret s := by
      unfold schedulerThreadSwitch
      rw [if_pos hcrit]
    obtain rfl : s = s' := Outcome.ret.inj (hstays.symm.trans hret)
    exact h
  · have hout := MeOS.exec_outside hmade (hkeeps hcrit) hswitch
    rw [hret, Outcome.ret_bind] at hout
    have hmade' : c.Made s.outside threads := by
      cases c <;> exact hmade
    exact h.exec hmade' hout

/-- A tick that finds the expired sleepers in front keeps the queues in order. -/
theorem Kept.decrease (h : Kept s.outside threads) {frequency : Nat}
    (hfirst : ExpiredFirst s (1000 / frequency))
    (hret : schedulerDecreaseSleepTime s frequency = .ret s') : Kept s'.outside threads := by
  rcases h with ⟨b, hshows, hok, hth⟩
  unfold schedulerDecreaseSleepTime at hret
  split_ifs at hret
  rcases hshows.tick hok.toSorted hfirst with ⟨s'', b', htick, _, hshows', hok', hon⟩
  have hout := decrease_outside (1000 / frequency) ((s.lists .sleep).count + 1)
    (s.lists .sleep).head 0 s
  rw [hret, Outcome.ret_bind] at hout
  obtain rfl : s'' = s'.outside := Outcome.ret.inj (htick.symm.trans hout)
  exact ⟨b', hshows', hok' hok, fun n => (hth n).trans (hon n).symm⟩

/-- A switch does not change who sleeps, and how long. -/
theorem Kept.expiredFirst (h : Kept s.outside threads) {elapsed : Nat}
    (hret : schedulerThreadSwitch s = .ret s') (hfirst : ExpiredFirst s elapsed) :
    ExpiredFirst s' elapsed := by
  have hsw := threadSwitch_switched hret
  have hqueue : s'.queued .sleep = s.queued .sleep := by
    by_cases hcrit : s.inCriticalSection = 0
    · have hsame : s.outside = s := by
        unfold Scheduler.outside
        rw [← hcrit]
      rw [hsame] at h
      rcases h with ⟨b, hshows, hok, _⟩
      rcases hshows.switch hok with ⟨s'', hret', hshows'⟩
      obtain rfl : s'' = s' := Outcome.ret.inj (hret'.symm.trans hret)
      rw [hshows'.queued, hshows.queued]
      exact Board.switch_queue_other (by simp)
    · unfold schedulerThreadSwitch at hret
      rw [if_pos hcrit] at hret
      rw [Outcome.ret.inj hret]
  unfold ExpiredFirst
  rw [hqueue]
  apply hfirst.imp
  intro n n' hlater
  have hsame : ∀ a, (s'.tcbOf a).sleepTime = (s.tcbOf a).sleepTime := by
    intro a
    unfold Scheduler.tcbOf
    rw [hsw.data]
    exact hsw.sleepTime _
  unfold Expired
  rw [hsame, hsame]
  exact hlater

/-- In every run in order the queues stay in order. -/
theorem kernelSystem_kept :
    (kernelSystem KernelCall.InOrder).Inductive fun c => Kept c.sched.outside c.threads where
  init := by
    rintro c ⟨s, hboot, hret⟩
    rcases hboot.start hret with ⟨b, hshows, hok, hth⟩
    exact ⟨b, hshows.outside, hok, hth⟩
  next := by
    rintro c c' hkept ⟨call, ⟨hmade, hticks⟩, hret, hth⟩
    rw [hth]
    cases call with
    | call d => exact hkept.exec_outside hmade.1 hmade.2 hret
    | timer frequency =>
      have hfirst := hticks frequency rfl
      have hint : schedulerInterrupt c.sched frequency = .ret c'.sched := hret
      unfold schedulerInterrupt at hint
      split_ifs at hint
      · rw [← Outcome.ret.inj hint]
        exact hkept
      · rcases Outcome.bind_eq_ret.mp hint with ⟨s₁, hswitch, hdecrease⟩
        have hkept₁ : Kept s₁.outside c.threads :=
          hkept.exec_outside (c := .threadSwitch) trivial (fun _ => id) hswitch
        exact hkept₁.decrease (hkept.expiredFirst hswitch hfirst) hdecrease
    | critlockAcquire =>
      have hset : c'.sched = { c.sched with inCriticalSection := 1 } :=
        (Outcome.ret.inj hret).symm
      show Kept c'.sched.outside c.threads
      rw [hset]
      exact hkept
    | critlockRelease =>
      have hset : c'.sched = { c.sched with inCriticalSection := 0 } :=
        (Outcome.ret.inj hret).symm
      show Kept c'.sched.outside c.threads
      rw [hset]
      exact hkept

/-- In every run in order, whenever the running thread has the highest non-empty priority and no
critical section is held, the threads of that priority take turns. -/
theorem round_robin (h : (kernelSystem KernelCall.InOrder).Reachable c) {p t₀ : Nat}
    {ts : List Nat} (htop : TopRuns c.sched p t₀ ts) : TakeTurns c.sched p t₀ ts := by
  rcases kernelSystem_kept.holds h with ⟨b, hshows, hok, _⟩
  have hsame : c.sched.outside = c.sched := by
    unfold Scheduler.outside
    rw [← htop.outside]
  rw [hsame] at hshows
  exact hshows.takeTurns hok htop

/-- The calls alone make runs of the kernel. -/
theorem kernelSystem_of_sched {Step : SchedRun → KernelCall → Prop}
    (hstep : ∀ c call, call.Made c.sched c.threads → c.sched.inCriticalSection = 0 →
      Step c (.call call))
    (h : schedSystem.Reachable c) : (kernelSystem Step).Reachable c := by
  induction h with
  | init h => exact System.Reachable.init h
  | @next c c' hreach hnext ih =>
    rcases hnext with ⟨call, hmade, hret, hth⟩
    rcases schedSystem_kept.holds hreach with ⟨b, hshows, _⟩
    exact ih.next ⟨.call call, hstep c call hmade hshows.critical, hret, hth⟩

end Run

/-! ## A queue with a sleeper in it -/

theorem round_robin_pair : ∃ s, startedPair = .ret s ∧ TakeTurns s 3 16 [32] := by
  obtain ⟨s, hs⟩ : ∃ s, startedPair = .ret s := ⟨_, rfl⟩
  refine ⟨s, hs, round_robin (c := ⟨s, [32, 16]⟩) ?_ ?_⟩
  · apply kernelSystem_of_sched _ (startedPair_reachable hs)
    intro c call hmade hcrit
    refine ⟨⟨hmade, fun hne => absurd hcrit hne⟩, ?_⟩
    intro frequency hbad
    cases hbad
  · cases hs
    exact ⟨rfl, rfl, rfl, rfl, by decide⟩

/-- A tick puts a thread that sleeps on into the ready queue of the running one; the next switch
picks it and stops with `PANIC`. -/
theorem round_robin_panics : ∃ s, (kernelSystem KernelCall.Made).Reachable ⟨s, [48, 32, 16]⟩ ∧
    TopRuns s 3 48 [16] ∧ schedulerThreadSwitch s = .panic ∧
    ¬ ∀ c, (kernelSystem KernelCall.Made).Reachable c → ∀ p t₀ ts, TopRuns c.sched p t₀ ts →
      TakeTurns c.sched p t₀ ts := by
  obtain ⟨s, hs, htest⟩ := Outcome.exists_of_test (x := sleepingPair 100 5)
    (p := fun s => (schedulerInterrupt s 100).test fun s' =>
      decide (TopRuns s' 3 48 [16]) &&
      match schedulerThreadSwitch s' with
      | .panic => true
      | _ => false) (by decide +kernel)
  obtain ⟨s', hs', hend⟩ := Outcome.exists_of_test htest
  rw [Bool.and_eq_true, decide_eq_true_eq] at hend
  obtain ⟨htop, hswitch⟩ := hend
  have hpanic : schedulerThreadSwitch s' = .panic := by
    cases hret : schedulerThreadSwitch s' with
    | panic => rfl
    | ret s =>
      rw [hret] at hswitch
      cases hswitch
    | undefined =>
      rw [hret] at hswitch
      cases hswitch
    | running =>
      rw [hret] at hswitch
      cases hswitch
  have hcurrent : ∀ s, sleepingOne 100 = .ret s → s.nodes.data 32 = s.currentThread := by
    intro s hs
    cases hs
    rfl
  have hreach : (kernelSystem KernelCall.Made).Reachable ⟨s, [48, 32, 16]⟩ := by
    apply kernelSystem_of_sched _ (sleepingPair_reachable hcurrent hs)
    intro c call hmade hcrit
    exact ⟨hmade, fun hne => absurd hcrit hne⟩
  have hreach' : (kernelSystem KernelCall.Made).Reachable ⟨s', [48, 32, 16]⟩ :=
    hreach.next ⟨.timer 100, Nat.succ_pos 99, hs', rfl⟩
  refine ⟨s', hreach', htop, hpanic, ?_⟩
  intro hall
  rcases hall _ hreach' 3 48 [16] htop with ⟨s'', hret, _⟩
  have hstuck : threadSwitches ([16].length + 1) s' = .panic := by
    show (schedulerThreadSwitch s' >>= _) = _
    rw [hpanic]
    rfl
  rw [hstuck] at hret
  cases hret

end MeOS
