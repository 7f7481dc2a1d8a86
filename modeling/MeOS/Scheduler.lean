import MeOS.DlList

/-! # `thread_sched.cpp`, `semaphore.cpp` and `mutex.cpp`

Every thread has one list node, which the functions below move between the
eight ready queues, the block queue, the sleep queue and the waiting lists of
the semaphores. Saving a thread's registers and jumping to another one are not
modelled: a function that switches ends with `currentThread` set to the thread
that runs next. Interrupts are off in each of them, so they are atomic.
-/

namespace MeOS

/-- `THREAD_STATE`. -/
inductive ThreadState where
  | none
  | sleep
  | ready
  | running
  | block
deriving Repr, DecidableEq

/-- The fields of a `thread_control_block` that the scheduler works on. -/
structure Tcb where
  sleepTime : Nat
  plusPriority : Int
  basePriority : Int
  state : ThreadState
deriving Repr, DecidableEq

/-- The list objects: `READY_QUEUE(i)`, `BLOCK_QUEUE`, `SLEEP_QUEUE` and the
`waiting_threads` of the semaphore at an address. -/
inductive ListRef where
  | ready (i : Nat)
  | block
  | sleep
  | waiting (sem : Nat)
deriving Repr, DecidableEq

/-- The scheduler, the thread control blocks and the semaphores. A node's `data`
is the address of its thread control block. -/
structure Scheduler where
  nodes : DlNodes Nat
  tcbs : Nat → Tcb
  lists : ListRef → DlList
  locks : Nat → Int
  currentThread : Nat
  inCriticalSection : Nat

/-- An `int32` result. -/
def wrapInt32 (x : Int) : Int := Int.bmod x 4294967296

theorem wrapInt32_eq {x : Int} (h₁ : -2147483648 ≤ x) (h₂ : x < 2147483648) : wrapInt32 x = x := by
  unfold wrapInt32
  exact Int.bmod_eq_of_le (by omega) (by omega)

/-- `thread_get_priority`. -/
def threadGetPriority (t : Tcb) : Int := wrapInt32 (t.basePriority + t.plusPriority)

/-- `NUMBER_PRIORITIES`. -/
abbrev numberPriorities : Nat := 8

/-- `READY_QUEUE(thread_get_priority(thread))`; the array has eight queues. -/
def readyQueue (t : Tcb) : Outcome ListRef :=
  if 0 ≤ threadGetPriority t ∧ threadGetPriority t < numberPriorities then
    .ret (.ready (threadGetPriority t).toNat)
  else
    .undefined

namespace Scheduler

/-- `thread->state = state`. -/
def setState (s : Scheduler) (thread : Nat) (state : ThreadState) : Scheduler :=
  { s with tcbs := Function.update s.tcbs thread { s.tcbs thread with state := state } }

/-- `thread->sleep_time = sleepTime`. -/
def setSleepTime (s : Scheduler) (thread sleepTime : Nat) : Scheduler :=
  { s with tcbs := Function.update s.tcbs thread { s.tcbs thread with sleepTime := sleepTime } }

/-- `dl_list_remove_node(&list, node)`. -/
def removeNode (s : Scheduler) (r : ListRef) (node : Nat) : Scheduler × Nat :=
  let (nodes, l, result) := dlListRemoveNode s.nodes (s.lists r) node
  ({ s with nodes := nodes, lists := Function.update s.lists r l }, result)

/-- `dl_list_remove_front_node(&list)`. -/
def removeFrontNode (s : Scheduler) (r : ListRef) : Outcome (Scheduler × Nat) := do
  let (nodes, l, result) ← dlListRemoveFrontNode s.nodes (s.lists r)
  return ({ s with nodes := nodes, lists := Function.update s.lists r l }, result)

/-- `dl_list_insert_back_node(&list, node)`. -/
def insertBackNode (s : Scheduler) (r : ListRef) (node : Nat) : Scheduler :=
  let (nodes, l) := dlListInsertBackNode s.nodes (s.lists r) node
  { s with nodes := nodes, lists := Function.update s.lists r l }

/-- `dl_list_head_to_tail(&list)`. -/
def headToTail (s : Scheduler) (r : ListRef) : Scheduler :=
  let (nodes, l) := dlListHeadToTail s.nodes (s.lists r)
  { s with nodes := nodes, lists := Function.update s.lists r l }

/-- `LIST_PEEK(list)`: the thread of the first node. -/
def peek (s : Scheduler) (r : ListRef) : Nat := s.nodes.data (s.lists r).head

end Scheduler

/-! ## `thread_sched.cpp` -/

/-- `init_thread_scheduler`, with no thread waiting for a semaphore. -/
def initThreadScheduler (nodes : DlNodes Nat) (tcbs : Nat → Tcb) (locks : Nat → Int) : Scheduler :=
  { nodes := nodes, tcbs := tcbs, lists := fun _ => dlListInit, locks := locks,
    currentThread := 0, inCriticalSection := 0 }

/-- `sched_get_first_non_empty`. -/
def schedGetFirstNonEmpty (s : Scheduler) : Option ListRef :=
  ((List.range numberPriorities).find? fun i => decide ((s.lists (.ready i)).count > 0)).map .ready

/-- `thread_get_current_node`; 0 when the running thread is not in its queue. -/
def threadGetCurrentNode (s : Scheduler) : Outcome Nat := do
  let q ← readyQueue (s.tcbs s.currentThread)
  return dlListFindNode s.nodes (s.lists q) s.currentThread

/-- The second half of `scheduler_thread_switch`: choose the thread to execute. -/
def setupToExecute (s : Scheduler) : Outcome Scheduler :=
  match schedGetFirstNonEmpty s with
  | none => .panic
  | some toExecuteList =>
    let toExecute := s.peek toExecuteList
    if (s.tcbs toExecute).state ≠ .ready then .panic
    else .ret { s.setState toExecute .running with currentThread := toExecute }

/-- `scheduler_thread_switch`; `thread_current_yield` saves the registers and
calls it. -/
def schedulerThreadSwitch (s : Scheduler) : Outcome Scheduler :=
  -- inside a critical section the running thread goes on
  if s.inCriticalSection ≠ 0 then
    .ret s
  else if (s.tcbs s.currentThread).state = .running then do
    let s := s.setState s.currentThread .ready
    let q ← readyQueue (s.tcbs s.currentThread)
    setupToExecute (s.headToTail q)
  else
    setupToExecute s

/-- `scheduler_start`; the first thread is taken without a look at its state. -/
def schedulerStart (s : Scheduler) : Outcome Scheduler :=
  match schedGetFirstNonEmpty s with
  | none => .panic
  | some queue =>
    let current := s.peek queue
    .ret { s.setState current .running with currentThread := current }

/-- `thread_insert`; `node` is the address `new` returns for the list node. -/
def threadInsert (s : Scheduler) (node thread : Nat) : Outcome Scheduler := do
  let s := s.setState thread .ready
  let s := { s with nodes := { s.nodes with data := Function.update s.nodes.data node thread } }
  let q ← readyQueue (s.tcbs thread)
  return s.insertBackNode q node

/-- `thread_block`. -/
def threadBlock (s : Scheduler) (node : Nat) : Outcome Scheduler :=
  let thread := s.nodes.data node
  if (s.tcbs thread).state = .block then
    .panic
  else if (s.tcbs thread).state ≠ .running ∧ (s.tcbs thread).state ≠ .ready then
    .panic
  else if (s.tcbs thread).state ≠ .running then do
    let s := s.setState thread .block
    let q ← readyQueue (s.tcbs thread)
    return (s.removeNode q node).1.insertBackNode .block node
  else
    let s := s.setState thread .block
    if thread = s.currentThread then do
      let q ← readyQueue (s.tcbs thread)
      let (s, _) ← s.removeFrontNode q
      schedulerThreadSwitch (s.insertBackNode .block node)
    else
      -- "Blocking a running thread from a running thread"
      .panic

/-- `thread_sleep`. -/
def threadSleep (s : Scheduler) (node sleepTime : Nat) : Outcome Scheduler :=
  let thread := s.nodes.data node
  if (s.tcbs thread).state = .sleep then
    .panic
  else if (s.tcbs thread).state ≠ .running ∧ (s.tcbs thread).state ≠ .ready then
    .panic
  else
    let s := s.setSleepTime thread sleepTime
    if (s.tcbs thread).state ≠ .running then do
      let s := s.setState thread .sleep
      let q ← readyQueue (s.tcbs thread)
      return (s.removeNode q node).1.insertBackNode .sleep node
    else if thread = s.currentThread then do
      let s := s.setState thread .sleep
      let q ← readyQueue (s.tcbs thread)
      let (s, _) ← s.removeFrontNode q
      schedulerThreadSwitch (s.insertBackNode .sleep node)
    else
      .panic

/-- `thread_notify`. -/
def threadNotify (s : Scheduler) (node : Nat) : Outcome Scheduler :=
  let thread := s.nodes.data node
  if (s.tcbs thread).state ≠ .block then
    .ret s
  else do
    let (s, removed) := s.removeNode .block node
    let s := s.setState thread .ready
    let q ← readyQueue (s.tcbs thread)
    return s.insertBackNode q removed

/-! ## `semaphore.cpp` and `mutex.cpp` -/

/-- `semaphore_init`. -/
def semaphoreInit (s : Scheduler) (sem : Nat) (initialValue : Int) : Scheduler :=
  { s with
    locks := Function.update s.locks sem initialValue
    lists := Function.update s.lists (.waiting sem) dlListInit }

/-- `semaphore_wait`. -/
def semaphoreWait (s : Scheduler) (sem : Nat) : Outcome Scheduler := do
  let node ← threadGetCurrentNode s
  if s.locks sem ≤ 0 then
    -- a null node is dereferenced
    if node = 0 then .undefined
    else
      let thread := s.nodes.data node
      let s := s.setState thread .block
      let q ← readyQueue (s.tcbs thread)
      schedulerThreadSwitch ((s.removeNode q node).1.insertBackNode (.waiting sem) node)
  else
    return { s with locks := Function.update s.locks sem (wrapInt32 (s.locks sem - 1)) }

/-- `semaphore_signal`. -/
def semaphoreSignal (s : Scheduler) (sem : Nat) : Outcome Scheduler :=
  if (s.lists (.waiting sem)).count > 0 then do
    let (s, node) ← s.removeFrontNode (.waiting sem)
    let thread := s.nodes.data node
    let s := s.setState thread .ready
    let q ← readyQueue (s.tcbs thread)
    return s.insertBackNode q node
  else
    .ret { s with locks := Function.update s.locks sem (wrapInt32 (s.locks sem + 1)) }

/-- `mutex_init`. -/
def mutexInit (s : Scheduler) (mutex : Nat) : Scheduler := semaphoreInit s mutex 1

/-- `mutex_acquire`. -/
def mutexAcquire (s : Scheduler) (mutex : Nat) : Outcome Scheduler := semaphoreWait s mutex

/-- `mutex_release`. -/
def mutexRelease (s : Scheduler) (mutex : Nat) : Outcome Scheduler := semaphoreSignal s mutex

/-! ## Calls -/

/-- The calls a kernel makes once the scheduler runs. `threadSwitch` is the timer
interrupt or `thread_current_yield`. -/
inductive SchedCall where
  | threadInsert (node thread : Nat)
  | threadSwitch
  | threadBlock (node : Nat)
  | threadSleep (node sleepTime : Nat)
  | threadNotify (node : Nat)
  | semaphoreInit (sem : Nat) (initialValue : Int)
  | semaphoreWait (sem : Nat)
  | semaphoreSignal (sem : Nat)
deriving Repr, DecidableEq

/-- Execute a call. -/
def SchedCall.exec (s : Scheduler) : SchedCall → Outcome Scheduler
  | .threadInsert node thread => MeOS.threadInsert s node thread
  | .threadSwitch => schedulerThreadSwitch s
  | .threadBlock node => MeOS.threadBlock s node
  | .threadSleep node sleepTime => MeOS.threadSleep s node sleepTime
  | .threadNotify node => MeOS.threadNotify s node
  | .semaphoreInit sem initialValue => .ret (MeOS.semaphoreInit s sem initialValue)
  | .semaphoreWait sem => MeOS.semaphoreWait s sem
  | .semaphoreSignal sem => MeOS.semaphoreSignal s sem

end MeOS
