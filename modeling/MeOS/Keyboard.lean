import MeOS.Lib.Runs
import Mathlib.Logic.Function.Basic

/-! # `keyboard.cpp`: from the interrupt to the reader

The interrupt handler queues a keycode and notifies the daemon, the daemon queues a
key and notifies the reader in `active`. Both ends test their queue and then call
`thread_block`; a notification of a thread that is not blocked yet is dropped. A
state is cut at each access to what the interrupt handler or another thread shares;
the handler runs behind an interrupt gate, and `thread_block` and `thread_notify`
run with interrupts disabled, so each of them is one step.

`keycode_buffer` has one consumer, so it is the list of its entries; `user_buffer`
has as many as there are threads in `kybd_read`, and is kept with its two indices.
-/

namespace MeOS

open Runs

/-- Where the daemon is in `keyboard_irq`. -/
inductive DaemonPc where
  /-- Before `queue_spsc_is_empty(&keycode_buffer)`. -/
  | test
  /-- Before the peek and the removal. -/
  | take
  /-- Before the test of `active`, with the code. -/
  | handle (code : Nat)
  /-- `queue_spsc_insert(&user_buffer, key)`: before the read of `head_index`. -/
  | insert (key : Nat)
  /-- Before the writes of the cell and of `tail_index`. -/
  | insertStore (key : Nat)
  /-- Before the read of `active` for `thread_notify`. -/
  | notify
  /-- Before `INT_OFF` in `thread_notify`. -/
  | notifyCall (thread : Nat)
  /-- Before `thread_get_current_node`. -/
  | getNode
  /-- Before `INT_OFF` in `thread_block`. -/
  | blockCall
deriving Repr, DecidableEq

/-- Where a thread is in `kybd_read`, with its `temp_count`. -/
inductive ReaderPc where
  | idle
  /-- Before the write of `active`. -/
  | begin (count : Nat)
  /-- Before the read of `tail_index` in `queue_spsc_is_empty(&user_buffer)`. -/
  | test (count : Nat)
  /-- Before its read of `head_index`. -/
  | testHead (count tail : Nat)
  /-- Before `queue_spsc_peek`, which only reads. -/
  | peek (count : Nat)
  /-- `queue_spsc_remove`: before the read of `head_index` in the condition. -/
  | remove (count : Nat)
  /-- Before the read of `tail_index` in the condition. -/
  | removeTail (count head : Nat)
  /-- Before the read of `head_index` for its update. -/
  | removeAgain (count : Nat)
  /-- Before the write of `head_index`. -/
  | removeStore (count head : Nat)
  /-- Before `thread_get_current_node`. -/
  | getNode (count : Nat)
  /-- Before `INT_OFF` in `thread_block`. -/
  | blockCall (count : Nat)
  /-- Before `active = 0`. -/
  | finish
deriving Repr, DecidableEq

/-- The thread of `keyboard_daemon`. -/
abbrev keyboardDaemon : Nat := 0

/-- The processor, the daemon, and the threads that may read the keyboard. -/
structure KybdRun where
  keycodes : List Nat
  userHead : Nat
  userTail : Nat
  userCells : Nat → Nat
  active : Option Nat
  current : Nat
  /-- The interrupt flag of the processor. -/
  interrupts : Bool
  /-- The interrupt flag in the saved frame of a thread. -/
  frame : Nat → Bool
  /-- In `THREAD_BLOCK`. -/
  blocked : Nat → Bool
  daemon : DaemonPc
  reader : Nat → ReaderPc

namespace KybdRun

/-- The current thread goes on at `pc` of `kybd_read`. -/
def goto (s : KybdRun) (pc : ReaderPc) : KybdRun :=
  { s with reader := Function.update s.reader s.current pc }

/-- The frame of the current thread is saved, and `thread` runs with its own. -/
def switchTo (s : KybdRun) (thread : Nat) : KybdRun :=
  let frame := Function.update s.frame s.current s.interrupts
  { s with current := thread, frame := frame, interrupts := frame thread }

/-- `thread_block` of the current thread; the scheduler chooses `thread`. The frame is saved with
interrupts disabled. -/
def threadBlock (s : KybdRun) (thread : Nat) : Option KybdRun :=
  let s := { s with blocked := Function.update s.blocked s.current true, interrupts := false }
  if s.blocked thread then none else some (s.switchTo thread)

/-- `thread_notify`: it leaves interrupts disabled when the thread was blocked. -/
def threadNotify (s : KybdRun) (thread : Nat) : KybdRun :=
  if s.blocked thread then
    { s with blocked := Function.update s.blocked thread false, interrupts := false }
  else { s with interrupts := true }

/-- `keyboard_callback` with a code to read; the end of the interrupt restores the flag. -/
def keyboardCallback (s : KybdRun) (code : Nat) : KybdRun :=
  let keycodes := if s.keycodes.length + 1 < 10 then s.keycodes ++ [code] else s.keycodes
  { ({ s with keycodes := keycodes }).threadNotify keyboardDaemon with interrupts := s.interrupts }

/-- The next instructions of `keyboard_irq`, with the table of keys by scan code; `thread` runs next
if the daemon blocks. Without an active reader `thread_notify` has no thread to look at. -/
def keyboardIrq (kybrdScancodeStd : Nat → Nat) (s : KybdRun) (thread : Nat) : Option KybdRun :=
  match s.daemon with
  | .test => some { s with daemon := if s.keycodes = [] then .getNode else .take }
  | .take => some { s with daemon := .handle (s.keycodes.headD 0), keycodes := s.keycodes.tail }
  | .handle code =>
    -- break code
    if code &&& 0x80 ≠ 0 then some { s with daemon := .test }
    else if s.active = none then some { s with daemon := .test }
    else some { s with daemon := .insert (kybrdScancodeStd code) }
  | .insert key =>
    if (s.userTail + 1) % 10 ≠ s.userHead then some { s with daemon := .insertStore key }
    else some { s with daemon := .notify }
  | .insertStore key =>
    some { s with
      userCells := Function.update s.userCells s.userTail key
      userTail := (s.userTail + 1) % 10
      daemon := .notify }
  | .notify => s.active.map fun t => { s with daemon := .notifyCall t }
  | .notifyCall t => some { s.threadNotify t with daemon := .test }
  | .getNode => some { s with daemon := .blockCall, interrupts := true }
  | .blockCall => ({ s with daemon := .test }).threadBlock thread

/-- The next instructions of `kybd_read` in the current thread; `thread` runs next if it blocks. -/
def kybdRead (s : KybdRun) (thread : Nat) : Option KybdRun :=
  match s.reader s.current with
  | .idle => none
  | .begin count => some { s.goto (.test count) with active := some s.current }
  | .test 0 => some (s.goto .finish)
  | .test (count + 1) => some (s.goto (.testHead (count + 1) s.userTail))
  | .testHead count tail =>
    if tail = s.userHead then some (s.goto (.getNode count)) else some (s.goto (.peek count))
  | .peek count => some (s.goto (.remove count))
  | .remove count => some (s.goto (.removeTail count s.userHead))
  | .removeTail count head =>
    if head ≠ s.userTail then some (s.goto (.removeAgain count))
    else some (s.goto (.test (count - 1)))
  | .removeAgain count => some (s.goto (.removeStore count s.userHead))
  | .removeStore count head =>
    some { s.goto (.test (count - 1)) with userHead := (head + 1) % 10 }
  | .getNode count => some { s.goto (.blockCall count) with interrupts := true }
  | .blockCall count => (s.goto (.test count)).threadBlock thread
  | .finish => some { s.goto .idle with active := none }

end KybdRun

/-- What may happen next. -/
inductive KybdEvent where
  /-- A keyboard interrupt with a code. -/
  | key (code : Nat)
  /-- A tick after which `thread` runs. -/
  | tick (thread : Nat)
  /-- The current thread goes on in `keyboard_irq` or `kybd_read`. -/
  | next (thread : Nat)
  /-- The current thread calls `kybd_read`; `thread_get_current_node` enables interrupts. -/
  | call (count : Nat)
  /-- The current thread does something else, which leaves the interrupt flag so. -/
  | work (flag : Bool)
  /-- The current thread gives the processor away in something else. -/
  | leave (flag : Bool) (thread : Nat)
deriving Repr, DecidableEq

/-- One step; interrupts come wherever they are enabled. -/
def KybdRun.step (kybrdScancodeStd : Nat → Nat) (s : KybdRun) : KybdEvent → Option KybdRun
  | .key code => if s.interrupts then some (s.keyboardCallback code) else none
  | .tick thread =>
    if s.interrupts && !s.blocked thread then some (s.switchTo thread) else none
  | .next thread =>
    if s.current = keyboardDaemon then s.keyboardIrq kybrdScancodeStd thread
    else s.kybdRead thread
  | .call count =>
    if s.current ≠ keyboardDaemon ∧ s.reader s.current = .idle then
      some { s.goto (.begin count) with interrupts := true }
    else none
  | .work flag =>
    if s.current ≠ keyboardDaemon ∧ s.reader s.current = .idle then
      some { s with interrupts := flag }
    else none
  | .leave flag thread =>
    if s.current ≠ keyboardDaemon ∧ s.reader s.current = .idle ∧ s.blocked thread = false then
      some (({ s with interrupts := flag }).switchTo thread)
    else none

/-- After `init_keyboard`: the daemon is blocked, the queues are empty and nobody reads. -/
structure KybdRun.Fresh (s : KybdRun) : Prop where
  keycodes : s.keycodes = []
  userHead : s.userHead = 0
  userTail : s.userTail = 0
  active : s.active = none
  current : s.current ≠ keyboardDaemon
  blocked : ∀ t, s.blocked t = decide (t = keyboardDaemon)
  daemon : s.daemon = .test
  reader : ∀ t, s.reader t = .idle

/-- Any interrupts and any schedule. -/
def kybdSystem (kybrdScancodeStd : Nat → Nat) : System KybdRun where
  Init := KybdRun.Fresh
  Next s s' := ∃ e, s.step kybrdScancodeStd e = some s'

end MeOS
