import MeOS.SchedBoard

/-! # The scheduler refines the board

`Shows s b` says that the lists of the scheduler `s` show the board `b`. Each
call of the source, made on a board that keeps the invariant, returns and shows
what the same call does to the board; in particular no `PANIC` is reached.
-/

namespace MeOS

/-- The lists of the scheduler are the queues of the board. -/
structure ShowsQueues (s : Scheduler) (b : Board) : Prop where
  lists : ∀ r, Lists s.nodes (s.lists r) (b.queue r)
  state : ∀ {r n}, n ∈ b.queue r → (s.tcbs (s.nodes.data n)).state = b.state n
  priority : ∀ {r n}, n ∈ b.queue r → threadGetPriority (s.tcbs (s.nodes.data n)) = b.priority n
  threads : ∀ {r r' n n'}, n ∈ b.queue r → n' ∈ b.queue r' →
    s.nodes.data n = s.nodes.data n' → n = n'
  locks : s.locks = b.lock
  critical : s.inCriticalSection = 0

/-- The scheduler shows the board, also who runs. -/
structure Shows (s : Scheduler) (b : Board) : Prop extends ShowsQueues s b where
  current : s.currentThread = s.nodes.data b.current

/-! ## The steps a call is made of -/

section Steps

variable {s : Scheduler} {b : Board} {n : Nat} {r r' : ListRef} {st : ThreadState}

/-- The ready queue of a thread on the board. -/
theorem readyQueue_eq {t : Tcb} {p : Nat} (ht : threadGetPriority t = p)
    (hp : p < numberPriorities) : readyQueue t = .ret (.ready p) := by
  unfold readyQueue
  rw [if_pos (by rw [ht]; omega), ht]
  rfl

theorem setState_priority (t : Nat) (t' : Nat) :
    threadGetPriority ((s.setState t st).tcbs t') = threadGetPriority (s.tcbs t') := by
  unfold Scheduler.setState
  by_cases h : t' = t
  · subst h
    simp [threadGetPriority]
  · simp [h]

theorem setState_currentThread (t : Nat) :
    (s.setState t st).currentThread = s.currentThread := rfl

/-- Writing the state of a thread on the board. -/
theorem ShowsQueues.setState (h : ShowsQueues s b) (hn : n ∈ b.queue r) :
    ShowsQueues (s.setState (s.nodes.data n) st) (b.setState n st) where
  lists := h.lists
  state := by
    intro q a ha
    show (Function.update s.tcbs (s.nodes.data n) _ (s.nodes.data a)).state =
      Function.update b.state n st a
    by_cases han : a = n
    · subst han
      simp
    · have hdata : s.nodes.data a ≠ s.nodes.data n := fun heq => han (h.threads ha hn heq)
      rw [Function.update_of_ne hdata, Function.update_of_ne han]
      exact h.state ha
  priority := by
    intro q a ha
    exact (setState_priority _ _).trans (h.priority ha)
  threads := h.threads
  locks := h.locks
  critical := h.critical

theorem Shows.setState (h : Shows s b) (hn : n ∈ b.queue r) :
    Shows (s.setState (s.nodes.data n) st) (b.setState n st) :=
  { h.toShowsQueues.setState hn with current := h.current }

/-- What `dl_list_remove_node` followed by `dl_list_insert_back_node` does to
the lists. -/
theorem Shows.relocate (h : Shows s b) (hs : b.Sorted) (hne : r ≠ r') (hn : n ∈ b.queue r) :
    Shows ((s.removeNode r n).1.insertBackNode r' n) (b.move n r r' (b.state n)) ∧
      (s.removeNode r n).2 = n ∧
      ((s.removeNode r n).1.insertBackNode r' n).nodes.data = s.nodes.data := by
  rcases List.append_of_mem hn with ⟨u, v, hsplit⟩
  have hr := h.lists r
  rw [hsplit] at hr
  rcases removeNode_spec hr with ⟨m₁, l₁, hrem, hl₁, hk₁⟩
  have herase : (b.queue r).erase n = u ++ v := by
    have hnu : n ∉ u := by
      intro hu
      exact List.disjoint_of_nodup_append hr.nodup hu List.mem_cons_self
    rw [hsplit, List.erase_append_right _ hnu, List.erase_cons_head]
  -- the other lists do not share a node with this one
  have hother : ∀ q, q ≠ r → Lists m₁ (s.lists q) (b.queue q) := by
    intro q hq
    apply hk₁.lists (h.lists q)
    intro a ha hmem
    rw [← hsplit] at hmem
    exact hq (hs.apart ha hmem)
  have hout : n ∉ b.queue r' := fun hmem => hne (hs.apart hn hmem)
  rcases insertBackNode_spec (hother r' (Ne.symm hne)) hout (hr.addr n (by simp)) with
    ⟨m₂, l₂, hins, hl₂, hk₂⟩
  have heq₁ : s.removeNode r n =
      ({ s with nodes := m₁, lists := Function.update s.lists r l₁ }, n) := by
    unfold Scheduler.removeNode
    rw [hrem]
  have heq₂ : (s.removeNode r n).1.insertBackNode r' n =
      { s with nodes := m₂, lists := Function.update (Function.update s.lists r l₁) r' l₂ } := by
    rw [heq₁]
    unfold Scheduler.insertBackNode
    dsimp only
    rw [Function.update_of_ne (Ne.symm hne), hins]
  have hdata : m₂.data = s.nodes.data := hk₂.data.trans hk₁.data
  have hmem : ∀ {q a}, a ∈ (b.move n r r' (b.state n)).queue q → ∃ q', a ∈ b.queue q' := by
    intro q a ha
    rw [Board.mem_move hne hs hn] at ha
    by_cases han : a = n
    · exact ⟨r, han ▸ hn⟩
    · rw [if_neg han] at ha
      exact ⟨q, ha⟩
  have hstate : ∀ a, (b.move n r r' (b.state n)).state a = b.state a := by
    intro a
    rw [Board.move_state]
    by_cases han : a = n
    · rw [if_pos han, han]
    · rw [if_neg han]
  rw [heq₁] at *
  rw [heq₂]
  refine ⟨?_, rfl, hdata⟩
  refine { lists := ?_, state := ?_, priority := ?_, threads := ?_, current := ?_,
           locks := h.locks, critical := h.critical }
  · intro q
    show Lists m₂ (Function.update (Function.update s.lists r l₁) r' l₂ q) _
    by_cases hq' : q = r'
    · subst hq'
      rw [Function.update_self, Board.move_queue_to]
      exact hl₂
    · rw [Function.update_of_ne hq']
      by_cases hq : q = r
      · subst hq
        rw [Function.update_self, Board.move_queue_from hne, herase]
        apply hk₂.lists hl₁
        intro a ha hmem
        have har : a ∈ b.queue q := by
          rw [hsplit]
          simp only [List.mem_append, List.mem_cons] at ha ⊢
          tauto
        rcases List.mem_append.mp hmem with hm | hm
        · exact hne (hs.apart har hm)
        · rw [List.mem_singleton.mp hm, ← herase, (hs.nodup q).mem_erase_iff] at ha
          exact ha.1 rfl
      · rw [Function.update_of_ne hq, Board.move_queue_other hq hq']
        apply hk₂.lists (hother q hq)
        intro a ha hmem
        rcases List.mem_append.mp hmem with hm | hm
        · exact hq' (hs.apart ha hm)
        · rw [List.mem_singleton.mp hm] at ha
          exact hq (hs.apart ha hn)
  · intro q a ha
    rcases hmem ha with ⟨q', ha'⟩
    rw [hstate]
    show (s.tcbs (m₂.data a)).state = _
    rw [hdata]
    exact h.state ha'
  · intro q a ha
    rcases hmem ha with ⟨q', ha'⟩
    show threadGetPriority (s.tcbs (m₂.data a)) = _
    rw [hdata]
    exact h.priority ha'
  · intro q q' a a' ha ha' heq
    rcases hmem ha with ⟨_, hb⟩
    rcases hmem ha' with ⟨_, hb'⟩
    have heq' : m₂.data a = m₂.data a' := heq
    rw [hdata] at heq'
    exact h.threads hb hb' heq'
  · show s.currentThread = m₂.data b.current
    rw [hdata]
    exact h.current

/-- The state is written and the node moved. -/
theorem Shows.move (h : Shows s b) (hs : b.Sorted) (hne : r ≠ r') (hn : n ∈ b.queue r) :
    Shows (((s.setState (s.nodes.data n) st).removeNode r n).1.insertBackNode r' n)
      (b.move n r r' st) := by
  rcases h.relocate hs hne hn with ⟨hmoved, _, hdata⟩
  -- the write of the state commutes with the pointer writes
  have hcomm : ((s.setState (s.nodes.data n) st).removeNode r n).1.insertBackNode r' n =
      ((s.removeNode r n).1.insertBackNode r' n).setState (s.nodes.data n) st := rfl
  have hboard : b.move n r r' st = (b.move n r r' (b.state n)).setState n st := by
    unfold Board.move Board.setState
    rw [Function.update_idem]
  have hmem : n ∈ (b.move n r r' (b.state n)).queue r' := by
    rw [Board.mem_move hne hs hn, if_pos rfl]
  rw [hcomm, hboard, ← hdata]
  exact hmoved.setState hmem

/-- `dl_list_head_to_tail` turns the queue. -/
theorem Shows.rotate (h : Shows s b) (hs : b.Sorted) (hn : (b.queue r).head? = some n) :
    Shows (s.headToTail r) (b.rotate r) := by
  rcases List.head?_eq_some_iff.mp hn with ⟨v, hv⟩
  have hr := h.lists r
  rw [hv] at hr
  rcases headToTail_spec hr with ⟨m', l', hturn, hl', hk⟩
  have heq : s.headToTail r = { s with nodes := m', lists := Function.update s.lists r l' } := by
    unfold Scheduler.headToTail
    rw [hturn]
  rw [heq]
  refine { lists := ?_, state := ?_, priority := ?_, threads := ?_, current := ?_,
           locks := h.locks, critical := h.critical }
  · intro q
    show Lists m' (Function.update s.lists r l' q) _
    -- the nodes of another queue are not touched by the turn
    by_cases hq : q = r
    · subst hq
      rw [Function.update_self, Board.rotate_queue_self, hv, List.rotate_cons_succ,
        List.rotate_zero]
      exact hl'
    · rw [Function.update_of_ne hq, Board.rotate_queue_other hq]
      apply hk.lists (h.lists q)
      intro a ha hmem
      rw [← hv] at hmem
      exact hq (hs.apart ha hmem)
  · intro q a ha
    show (s.tcbs (m'.data a)).state = _
    rw [hk.data]
    exact h.state (Board.mem_rotate.mp ha)
  · intro q a ha
    show threadGetPriority (s.tcbs (m'.data a)) = _
    rw [hk.data]
    exact h.priority (Board.mem_rotate.mp ha)
  · intro q q' a a' ha ha' heq
    have heq' : m'.data a = m'.data a' := heq
    rw [hk.data] at heq'
    exact h.threads (Board.mem_rotate.mp ha) (Board.mem_rotate.mp ha') heq'
  · show s.currentThread = m'.data b.current
    rw [hk.data]
    exact h.current

/-- Removing the front node is removing the head of the queue. -/
theorem Shows.removeFront (h : Shows s b) (hn : (b.queue r).head? = some n) :
    s.removeFrontNode r = .ret (s.removeNode r n) := by
  rcases List.head?_eq_some_iff.mp hn with ⟨v, hv⟩
  have hr := h.lists r
  rw [hv] at hr
  unfold Scheduler.removeFrontNode Scheduler.removeNode
  rw [removeFrontNode_eq hr]
  rfl

/-- `LIST_PEEK` gives the thread of the head of the queue. -/
theorem ShowsQueues.peek (h : ShowsQueues s b) (hn : (b.queue r).head? = some n) :
    s.peek r = s.nodes.data n := by
  rcases List.head?_eq_some_iff.mp hn with ⟨v, hv⟩
  have hr := h.lists r
  rw [hv] at hr
  unfold Scheduler.peek
  rw [hr.head]
  rfl

theorem ShowsQueues.count_pos (h : ShowsQueues s b) :
    (s.lists r).count > 0 ↔ ∃ a, (b.queue r).head? = some a := by
  rw [(h.lists r).count]
  cases b.queue r with
  | nil => simp
  | cons a v => simp

/-- The source and the board choose the same queue. -/
theorem ShowsQueues.firstNonEmpty (h : ShowsQueues s b) (hpick : b.pick = some n) :
    ∃ i, schedGetFirstNonEmpty s = some (.ready i) ∧ (b.queue (.ready i)).head? = some n := by
  have hsearch : ∀ is : List Nat,
      (is.findSome? fun i => (b.queue (.ready i)).head?) = some n →
        ∃ i, (is.find? fun i => decide ((s.lists (.ready i)).count > 0)) = some i ∧
          (b.queue (.ready i)).head? = some n := by
    intro is
    induction is with
    | nil =>
      intro hnone
      cases hnone
    | cons i is ih =>
      intro hsome
      rw [List.findSome?_cons] at hsome
      rw [List.find?_cons]
      cases hhead : (b.queue (.ready i)).head? with
      | some a =>
        rw [hhead] at hsome
        have hpos : (s.lists (.ready i)).count > 0 := h.count_pos.mpr ⟨a, hhead⟩
        rw [decide_eq_true hpos]
        exact ⟨i, rfl, hhead.trans hsome⟩
      | none =>
        rw [hhead] at hsome
        have hzero : ¬ (s.lists (.ready i)).count > 0 := by
          rw [h.count_pos]
          rintro ⟨a, ha⟩
          rw [hhead] at ha
          cases ha
        rw [decide_eq_false hzero]
        exact ih hsome
  rcases hsearch _ hpick with ⟨i, hfind, hhead⟩
  refine ⟨i, ?_, hhead⟩
  unfold schedGetFirstNonEmpty
  rw [hfind]
  rfl

/-- The choice of the next thread. -/
theorem ShowsQueues.dispatch (h : ShowsQueues s b) (hs : b.Sorted) (hidle : b.Idle)
    (hr : b.SomeReady) :
    ∃ s', setupToExecute s = .ret s' ∧ Shows s' b.dispatch := by
  rcases Board.pick_isSome hs hr with ⟨n, hpick⟩
  rcases h.firstNonEmpty hpick with ⟨i, hfirst, hhead⟩
  have hmem := List.mem_of_head? hhead
  have hready := (Board.pick_ready hs hidle hpick).1
  have hstate : (s.tcbs (s.nodes.data n)).state = .ready := (h.state hmem).trans hready
  refine ⟨{ s.setState (s.nodes.data n) .running with currentThread := s.nodes.data n }, ?_, ?_⟩
  · unfold setupToExecute
    rw [hfirst]
    dsimp only
    rw [h.peek hhead, if_neg (by rw [hstate]; simp)]
  · have hset : ShowsQueues (s.setState (s.nodes.data n) .running) (b.setState n .running) :=
      h.setState hmem
    unfold Board.dispatch
    rw [hpick]
    exact { lists := hset.lists, state := hset.state, priority := hset.priority,
            threads := hset.threads, locks := hset.locks, critical := hset.critical, current := rfl }

/-- Without a ready thread nothing is chosen: the source stops with `PANIC`. -/
theorem ShowsQueues.dispatch_ret (h : ShowsQueues s b) (hs : b.Sorted) (hidle : b.Idle)
    {s' : Scheduler} (hret : setupToExecute s = .ret s') : b.SomeReady := by
  unfold setupToExecute at hret
  cases hfirst : schedGetFirstNonEmpty s with
  | none =>
    rw [hfirst] at hret
    cases hret
  | some q =>
    unfold schedGetFirstNonEmpty at hfirst
    rcases Option.map_eq_some_iff.mp hfirst with ⟨i, hfind, _⟩
    have hpos : (s.lists (.ready i)).count > 0 := by
      simpa using List.find?_some hfind
    rcases h.count_pos.mp hpos with ⟨a, hhead⟩
    have ha := List.mem_of_head? hhead
    rcases (hs.fits ha).1 with hready | hrunning
    · exact ⟨_, a, ha, hready⟩
    · exact absurd hrunning (hidle ha)

/-- A switch when nobody runs any more is a choice of the next thread. -/
theorem Shows.switch_idle (h : Shows s b) (hidle : b.Idle) (hcur : b.current ∈ b.queue r) :
    schedulerThreadSwitch s = setupToExecute s ∧ b.switch = b.dispatch := by
  have hrun : ¬ (s.tcbs s.currentThread).state = .running := by
    rw [h.current, h.state hcur]
    exact hidle hcur
  unfold schedulerThreadSwitch Board.switch
  rw [if_neg (by rw [h.critical]; simp), if_neg hrun, if_neg (hidle hcur)]
  exact ⟨rfl, rfl⟩

/-- A switch between two calls. -/
theorem Shows.switch (h : Shows s b) (hok : b.Ok) :
    ∃ s', schedulerThreadSwitch s = .ret s' ∧ Shows s' b.switch := by
  have hmem := List.mem_of_head? hok.first
  have hrun : (s.tcbs s.currentThread).state = .running := by
    rw [h.current, h.state hmem]
    exact hok.running
  have hset : Shows (s.setState s.currentThread .ready) (b.setState b.current .ready) := by
    rw [h.current]
    exact h.setState hmem
  have hq : readyQueue ((s.setState s.currentThread .ready).tcbs s.currentThread) =
      .ret (.ready (b.priority b.current)) := by
    apply readyQueue_eq _ (hok.prio hmem)
    rw [setState_priority, h.current]
    exact h.priority hmem
  rcases hok.yield_idle with ⟨hsorted, hidle, hready⟩
  have hrot := hset.rotate (hok.yield_sorted) hok.first
  unfold schedulerThreadSwitch Board.switch
  rw [if_neg (by rw [h.critical]; simp), if_pos hrun, if_pos hok.running]
  dsimp only
  rw [show (s.setState s.currentThread .ready).currentThread = s.currentThread from rfl, hq]
  exact hrot.dispatch hsorted hidle hready

end Steps

/-! ## The calls -/

section Calls

variable {s : Scheduler} {b : Board} {n : Nat} {r : ListRef} {st : ThreadState}

/-- A thread's ready queue, also after its state was written. -/
theorem Shows.readyQueue (h : Shows s b) (hs : b.Sorted) (hn : n ∈ b.queue r) :
    MeOS.readyQueue ((s.setState (s.nodes.data n) st).tcbs (s.nodes.data n)) =
      .ret (.ready (b.priority n)) := by
  apply readyQueue_eq _ (hs.prio hn)
  rw [setState_priority]
  exact h.priority hn

/-- The common part of `thread_block`, `thread_sleep` and `semaphore_wait` for a
thread that does not run. -/
theorem Shows.leave_other (h : Shows s b) (hok : b.Ok) (hn : n ∈ b.queue (.ready (b.priority n)))
    (hr : ∀ i, r ≠ .ready i) (hnc : n ≠ b.current) :
    Shows (((s.setState (s.nodes.data n) st).removeNode (.ready (b.priority n)) n).1.insertBackNode
      r n) (b.leave n r st) := by
  unfold Board.leave
  simp only [if_neg hnc]
  exact h.move hok.toSorted (Ne.symm (hr _)) hn

/-- How the running thread, with the node `n`, gives up the processor and leaves
for the queue `r`. -/
def giveUp (s : Scheduler) (n p : Nat) (r : ListRef) (st : ThreadState) : Outcome Scheduler :=
  schedulerThreadSwitch
    (((s.setState (s.nodes.data n) st).removeNode (.ready p) n).1.insertBackNode r n)

/-- It may do so exactly when some other thread is ready. -/
theorem Shows.giveUp_iff (h : Shows s b) (hok : b.Ok) (r : ListRef) (st : ThreadState)
    (hr : ∀ i, r ≠ .ready i) (hst : st ≠ .running) (hst' : st ≠ .ready)
    (hfit : Fits st (b.priority b.current) r) :
    (∀ s', giveUp s b.current (b.priority b.current) r st = .ret s' → b.SomeReady) ∧
      (b.SomeReady → ∃ s', giveUp s b.current (b.priority b.current) r st = .ret s' ∧
        Shows s' (b.leave b.current r st)) := by
  have hn := List.mem_of_head? hok.first
  have hne : ListRef.ready (b.priority b.current) ≠ r := Ne.symm (hr _)
  have hmoved : Shows _ (b.move b.current (.ready (b.priority b.current)) r st) :=
    h.move hok.toSorted hne hn
  rcases hok.leave_idle hr hst hst' hfit with ⟨hsorted, hidle, hready⟩
  have hcur : b.current ∈ (b.move b.current (.ready (b.priority b.current)) r st).queue r := by
    rw [Board.mem_move hne hok.toSorted hn, if_pos rfl]
  rcases hmoved.switch_idle hidle hcur with ⟨hswitch, hboard⟩
  unfold giveUp Board.leave
  simp only [if_true]
  rw [hswitch, hboard]
  constructor
  · intro s' hret
    exact hready.mp (hmoved.dispatch_ret hsorted hidle hret)
  · intro hsome
    exact hmoved.dispatch hsorted hidle (hready.mpr hsome)

/-- `thread_block` of a ready thread. -/
theorem Shows.threadBlock_ready (h : Shows s b) (hok : b.Ok) (hn : n ∈ b.queue r)
    (hready : b.state n = .ready) :
    ∃ s', threadBlock s n = .ret s' ∧ Shows s' (b.leave n .block .block) := by
  have hstate : (s.tcbs (s.nodes.data n)).state = .ready := (h.state hn).trans hready
  have hnc : n ≠ b.current := by
    intro heq
    rw [heq, hok.running] at hready
    cases hready
  refine ⟨_, ?_, h.leave_other hok (hok.ready_mem hn (Or.inl hready)) (by simp) hnc⟩
  unfold threadBlock
  dsimp only
  rw [if_neg (by rw [hstate]; simp), if_neg (by rw [hstate]; simp), if_pos (by rw [hstate]; simp),
    h.readyQueue hok.toSorted hn]
  rfl

/-- `thread_block` of the running thread. -/
theorem Shows.threadBlock_current (h : Shows s b) (hok : b.Ok) :
    threadBlock s b.current = giveUp s b.current (b.priority b.current) .block .block := by
  have hn := List.mem_of_head? hok.first
  have hstate : (s.tcbs (s.nodes.data b.current)).state = .running := (h.state hn).trans hok.running
  have hset : Shows (s.setState (s.nodes.data b.current) .block) (b.setState b.current .block) :=
    h.setState hn
  unfold threadBlock
  dsimp only
  rw [if_neg (by rw [hstate]; simp), if_neg (by rw [hstate]; simp), if_neg (by rw [hstate]; simp),
    setState_currentThread, if_pos h.current.symm, h.readyQueue hok.toSorted hn]
  show ((s.setState (s.nodes.data b.current) .block).removeFrontNode
      (.ready (b.priority b.current)) >>= fun r =>
    schedulerThreadSwitch (r.1.insertBackNode .block b.current)) = _
  rw [hset.removeFront hok.first]
  rfl

/-- `sleep_time` plays no part in the queues. -/
theorem Shows.setSleepTime (h : Shows s b) (t sleepTime : Nat) :
    Shows (s.setSleepTime t sleepTime) b := by
  have hstate : ∀ t', ((s.setSleepTime t sleepTime).tcbs t').state = (s.tcbs t').state := by
    intro t'
    unfold Scheduler.setSleepTime
    by_cases ht : t' = t
    · subst ht
      simp
    · simp [ht]
  have hprio : ∀ t', threadGetPriority ((s.setSleepTime t sleepTime).tcbs t') =
      threadGetPriority (s.tcbs t') := by
    intro t'
    unfold Scheduler.setSleepTime
    by_cases ht : t' = t
    · subst ht
      simp [threadGetPriority]
    · simp [ht]
  exact { h with
    state := fun hn => (hstate _).trans (h.state hn)
    priority := fun hn => (hprio _).trans (h.priority hn) }

/-- `thread_sleep` of a ready thread. -/
theorem Shows.threadSleep_ready (h : Shows s b) (hok : b.Ok) (hn : n ∈ b.queue r)
    (hready : b.state n = .ready) (ms : Nat) :
    ∃ s', threadSleep s n ms = .ret s' ∧ Shows s' (b.leave n .sleep .sleep) := by
  have hsl := h.setSleepTime (s.nodes.data n) ms
  have hstate : (s.tcbs (s.nodes.data n)).state = .ready := (h.state hn).trans hready
  have hstate' : ((s.setSleepTime (s.nodes.data n) ms).tcbs (s.nodes.data n)).state = .ready :=
    (hsl.state hn).trans hready
  have hnc : n ≠ b.current := by
    intro heq
    rw [heq, hok.running] at hready
    cases hready
  have hq : MeOS.readyQueue (((s.setSleepTime (s.nodes.data n) ms).setState (s.nodes.data n)
      .sleep).tcbs (s.nodes.data n)) = .ret (.ready (b.priority n)) :=
    hsl.readyQueue hok.toSorted hn
  refine ⟨_, ?_, hsl.leave_other hok (hok.ready_mem hn (Or.inl hready)) (by simp) hnc⟩
  unfold threadSleep
  dsimp only
  rw [if_neg (by rw [hstate]; simp), if_neg (by rw [hstate]; simp), if_pos (by rw [hstate']; simp),
    hq]
  rfl

/-- `thread_sleep` of the running thread. -/
theorem Shows.threadSleep_current (h : Shows s b) (hok : b.Ok) (ms : Nat) :
    threadSleep s b.current ms = giveUp (s.setSleepTime (s.nodes.data b.current) ms) b.current
      (b.priority b.current) .sleep .sleep := by
  have hn := List.mem_of_head? hok.first
  have hsl := h.setSleepTime (s.nodes.data b.current) ms
  have hstate : (s.tcbs (s.nodes.data b.current)).state = .running := (h.state hn).trans hok.running
  have hstate' : ((s.setSleepTime (s.nodes.data b.current) ms).tcbs
      (s.nodes.data b.current)).state = .running := (hsl.state hn).trans hok.running
  have hset : Shows ((s.setSleepTime (s.nodes.data b.current) ms).setState
      (s.nodes.data b.current) .sleep) (b.setState b.current .sleep) := hsl.setState hn
  have hq : MeOS.readyQueue (((s.setSleepTime (s.nodes.data b.current) ms).setState
      (s.nodes.data b.current) .sleep).tcbs (s.nodes.data b.current)) =
        .ret (.ready (b.priority b.current)) := hsl.readyQueue hok.toSorted hn
  have hcur : s.nodes.data b.current =
      (s.setSleepTime (s.nodes.data b.current) ms).currentThread := h.current.symm
  unfold threadSleep
  dsimp only
  rw [if_neg (by rw [hstate]; simp), if_neg (by rw [hstate]; simp), if_neg (by rw [hstate']; simp),
    if_pos hcur, hq]
  show (((s.setSleepTime (s.nodes.data b.current) ms).setState
      (s.nodes.data b.current) .sleep).removeFrontNode (.ready (b.priority b.current)) >>= fun r =>
    schedulerThreadSwitch (r.1.insertBackNode .sleep b.current)) = _
  rw [hset.removeFront hok.first]
  rfl

/-- The common part of `thread_notify` and `semaphore_signal`. -/
theorem Shows.comeBack (h : Shows s b) (hok : b.Ok) (hn : n ∈ b.queue r)
    (hr : ∀ i, r ≠ .ready i) :
    Shows (((s.removeNode r n).1.setState (s.nodes.data n) .ready).insertBackNode
      (.ready (b.priority n)) n) (b.comeBack n r) :=
  h.move hok.toSorted (hr _) hn

/-- The ready queue of a thread that has just left `r`. -/
theorem Shows.readyQueue_removed (h : Shows s b) (hs : b.Sorted) (hn : n ∈ b.queue r) :
    MeOS.readyQueue (((s.removeNode r n).1.setState (s.nodes.data n) .ready).tcbs
      (s.nodes.data n)) = .ret (.ready (b.priority n)) :=
  h.readyQueue hs hn

/-- `dl_list_remove_node` returns the node. -/
theorem Shows.removed (h : Shows s b) (hn : n ∈ b.queue r) :
    (s.removeNode r n).2 = n ∧ (s.removeNode r n).1.nodes.data = s.nodes.data := by
  rcases List.append_of_mem hn with ⟨u, v, hsplit⟩
  have hr := h.lists r
  rw [hsplit] at hr
  rcases removeNode_spec hr with ⟨m', l', hrem, _, hk⟩
  unfold Scheduler.removeNode
  rw [hrem]
  exact ⟨rfl, hk.data⟩

/-- `thread_notify` of a thread that does not wait for a semaphore. -/
theorem Shows.threadNotify (h : Shows s b) (hok : b.Ok) (hn : n ∈ b.queue r)
    (hr : ∀ k, r ≠ .waiting k) :
    ∃ s', threadNotify s n = .ret s' ∧
      Shows s' (if b.state n = .block then b.comeBack n .block else b) := by
  have hstate := h.state hn
  by_cases hblock : b.state n = .block
  · -- a blocked thread that waits for no semaphore stands in the block queue
    have hmem := hok.block_mem hn hr hblock
    rcases h.removed hmem with ⟨hnode, _⟩
    rw [if_pos hblock]
    refine ⟨_, ?_, h.comeBack hok hmem (by simp)⟩
    unfold MeOS.threadNotify
    dsimp only
    rw [if_neg (by rw [hstate, hblock]; simp), h.readyQueue_removed hok.toSorted hmem, hnode]
    rfl
  · rw [if_neg hblock]
    refine ⟨s, ?_, h⟩
    unfold MeOS.threadNotify
    dsimp only
    rw [if_pos (by rw [hstate]; exact hblock)]

/-- `thread_get_current_node` finds the node of the running thread. -/
theorem Shows.currentNode (h : Shows s b) (hok : b.Ok) :
    threadGetCurrentNode s = .ret b.current := by
  have hn := List.mem_of_head? hok.first
  have hq : MeOS.readyQueue (s.tcbs s.currentThread) = .ret (.ready (b.priority b.current)) := by
    apply readyQueue_eq _ (hok.prio hn)
    rw [h.current]
    exact h.priority hn
  unfold threadGetCurrentNode
  rw [hq]
  show Outcome.ret _ = _
  congr 1
  apply findNode_spec (h.lists _) hn h.current.symm
  intro a ha hdata
  apply h.threads ha hn
  rw [hdata, h.current]

/-- `semaphore_wait` with no unit left. -/
theorem Shows.semaphoreWait_block (h : Shows s b) (hok : b.Ok) {k : Nat} (hlock : b.lock k ≤ 0) :
    semaphoreWait s k = giveUp s b.current (b.priority b.current) (.waiting k) .block := by
  have hn := List.mem_of_head? hok.first
  have hnonzero : b.current ≠ 0 := by
    have := ((h.lists _).addr _ hn).1
    omega
  unfold semaphoreWait
  rw [h.currentNode hok, Outcome.ret_bind, h.locks, if_pos hlock, if_neg hnonzero]
  dsimp only
  rw [h.readyQueue hok.toSorted hn]
  rfl

/-- `semaphore_wait` with a unit left. -/
theorem Shows.semaphoreWait_take (h : Shows s b) (hok : b.Ok) {k : Nat} (hlock : ¬ b.lock k ≤ 0) :
    ∃ s', semaphoreWait s k = .ret s' ∧ Shows s' (b.setLock k (wrapInt32 (b.lock k - 1))) := by
  unfold semaphoreWait
  rw [h.currentNode hok, Outcome.ret_bind, h.locks, if_neg hlock]
  refine ⟨_, rfl, ?_⟩
  exact { h with locks := rfl }

/-- `semaphore_signal`. -/
theorem Shows.semaphoreSignal (h : Shows s b) (hok : b.Ok) (k : Nat) :
    ∃ s', semaphoreSignal s k = .ret s' ∧ Shows s' (b.signal k) := by
  unfold MeOS.semaphoreSignal Board.signal
  cases hq : b.queue (.waiting k) with
  | nil =>
    have hzero : ¬ (s.lists (.waiting k)).count > 0 := by
      rw [h.count_pos, hq]
      simp
    rw [if_neg hzero, h.locks]
    refine ⟨_, rfl, ?_⟩
    exact { h with locks := rfl }
  | cons n v =>
    have hhead : (b.queue (.waiting k)).head? = some n := by
      rw [hq]
      rfl
    have hn := List.mem_of_head? hhead
    rcases h.removed hn with ⟨hnode, hdata⟩
    rw [if_pos (h.count_pos.mpr ⟨n, hhead⟩), h.removeFront hhead, Outcome.ret_bind]
    refine ⟨_, ?_, h.comeBack hok hn (by simp)⟩
    dsimp only
    rw [hnode, hdata, h.readyQueue_removed hok.toSorted hn]
    rfl

/-- `semaphore_init` of a semaphore nobody waits for. -/
theorem Shows.semaphoreInit (h : Shows s b) (k : Nat) (v : Int) (hq : b.queue (.waiting k) = []) :
    Shows (semaphoreInit s k v) (b.setLock k v) := by
  refine { h with lists := ?_, locks := ?_ }
  · intro r
    show Lists s.nodes (Function.update s.lists (.waiting k) dlListInit r) (b.queue r)
    by_cases hr : r = .waiting k
    · subst hr
      rw [Function.update_self, hq]
      exact Lists.init
    · rw [Function.update_of_ne hr]
      exact h.lists r
  · show Function.update s.locks k v = Function.update b.lock k v
    rw [h.locks]

/-- `thread_insert` of a thread that is on no list, with a fresh node. -/
theorem ShowsQueues.threadInsert {t p : Nat} (h : ShowsQueues s b) (hs : b.Sorted)
    (hn : ∀ q, n ∉ b.queue q)
    (haddr : 0 < n ∧ n < 4294967296) (ht : ∀ {q a}, a ∈ b.queue q → s.nodes.data a ≠ t)
    (hprio : threadGetPriority (s.tcbs t) = p) (hp : p < numberPriorities) :
    ∃ s', MeOS.threadInsert s n t = .ret s' ∧ ShowsQueues s' (b.insert n p) ∧
      s'.currentThread = s.currentThread ∧
      s'.nodes.data = Function.update s.nodes.data n t := by
  -- writing `data` moves no pointer
  have hlist : ∀ q, Lists { s.nodes with data := Function.update s.nodes.data n t }
      (s.lists q) (b.queue q) := fun q => (h.lists q).congr (fun _ _ => rfl) (fun _ _ => rfl)
  rcases insertBackNode_spec (hlist (.ready p)) (hn _) haddr with ⟨m', l', hins, hl', hk⟩
  have hdata : m'.data = Function.update s.nodes.data n t := hk.data
  have hold : ∀ {q a}, a ∈ b.queue q → m'.data a = s.nodes.data a ∧ s.nodes.data a ≠ t := by
    intro q a ha
    have han : a ≠ n := fun heq => hn q (heq ▸ ha)
    rw [hdata, Function.update_of_ne han]
    exact ⟨rfl, ht ha⟩
  have hnew : m'.data n = t := by
    rw [hdata, Function.update_self]
  have hset : (s.setState t .ready).tcbs t = { s.tcbs t with state := .ready } :=
    Function.update_self t _ _
  have hother : ∀ t', t' ≠ t → (s.setState t .ready).tcbs t' = s.tcbs t' := by
    intro t' ht'
    exact Function.update_of_ne ht' _ _
  have heq : MeOS.threadInsert s n t = .ret { s.setState t .ready with
      nodes := m', lists := Function.update s.lists (.ready p) l' } := by
    unfold MeOS.threadInsert
    dsimp only
    rw [readyQueue_eq ((setState_priority t t).trans hprio) hp]
    show Outcome.ret (Scheduler.insertBackNode _ _ _) = _
    unfold Scheduler.insertBackNode
    dsimp only
    rw [show (s.setState t .ready).nodes = s.nodes from rfl,
      show (s.setState t .ready).lists = s.lists from rfl, hins]
  refine ⟨_, heq, ?_, rfl, hdata⟩
  refine { lists := ?_, state := ?_, priority := ?_, threads := ?_,
           locks := h.locks, critical := h.critical }
  · intro q
    show Lists m' (Function.update s.lists (.ready p) l' q) _
    by_cases hq : q = .ready p
    · subst hq
      rw [Function.update_self, Board.insert_queue_self]
      exact hl'
    · rw [Function.update_of_ne hq, Board.insert_queue_other hq]
      apply hk.lists (hlist q)
      intro a ha hmem
      rcases List.mem_append.mp hmem with hm | hm
      · exact hq (hs.apart ha hm)
      · exact hn q (List.mem_singleton.mp hm ▸ ha)
  · intro q a ha
    rw [Board.mem_insert hn] at ha
    rw [Board.insert_state]
    show ((s.setState t .ready).tcbs (m'.data a)).state = _
    by_cases han : a = n
    · rw [if_pos han, han, hnew, hset]
    · rw [if_neg han] at ha ⊢
      rcases hold ha with ⟨hda, hdt⟩
      rw [hda, hother _ hdt]
      exact h.state ha
  · intro q a ha
    rw [Board.mem_insert hn] at ha
    rw [Board.insert_priority]
    show threadGetPriority ((s.setState t .ready).tcbs (m'.data a)) = _
    rw [setState_priority]
    by_cases han : a = n
    · rw [if_pos han, han, hnew]
      exact hprio
    · rw [if_neg han] at ha ⊢
      rw [(hold ha).1]
      exact h.priority ha
  · intro q q' a a' ha ha' hdd
    rw [Board.mem_insert hn] at ha ha'
    have hdd' : m'.data a = m'.data a' := hdd
    by_cases han : a = n
    · by_cases han' : a' = n
      · rw [han, han']
      · rw [if_neg han'] at ha'
        rcases hold ha' with ⟨hda, hdt⟩
        rw [han, hnew, hda] at hdd'
        exact absurd hdd'.symm hdt
    · rw [if_neg han] at ha
      rcases hold ha with ⟨hda, hdt⟩
      by_cases han' : a' = n
      · rw [han', hnew, hda] at hdd'
        exact absurd hdd' hdt
      · rw [if_neg han'] at ha'
        rw [hda, (hold ha').1] at hdd'
        exact h.threads ha ha' hdd'

end Calls

end MeOS
