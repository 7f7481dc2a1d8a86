import MeOS.Lib.HandOff
import MeOS.Lib.Runs
import Mathlib.Logic.Function.Basic

/-! # `AHCI.cpp`: one request at a time

The threads in `ahci_data_transfer`, the device, and its interrupts. A call takes the
unit of `ahci_request_sem`, issues its command, waits for a unit of
`ahci_callback_sem`, which starts with none, and gives the request unit back. An
interrupt signals `ahci_callback_sem`, whatever command it is for; so a call returns
early when the device raises more interrupts than it completed commands.

`semaphore_wait` and `semaphore_signal` run with interrupts disabled and are one step
each. The commands are numbered in the order in which they are issued.
-/

namespace MeOS

open HandOff Runs

/-- Where a thread is in `ahci_data_transfer`. -/
inductive AhciPc where
  | idle
  /-- Waits for the request unit. -/
  | requestBlocked
  /-- Fills the command table and spins until the port is no longer busy. -/
  | setup
  /-- Before `port->ci |= 1 << slot`. -/
  | issue
  /-- Before `semaphore_wait(&ahci_callback_sem)`. -/
  | await (command : Nat)
  /-- Waits for the interrupt. -/
  | callbackBlocked (command : Nat)
  /-- Before `semaphore_signal(&ahci_request_sem)`. -/
  | finish (command : Nat)
  /-- Returned `ERROR_OK`. -/
  | returned (command : Nat)
  /-- Returned `ERROR_OCCUR` as the port stayed busy; the request unit is not given back. -/
  | failed
deriving Repr, DecidableEq

/-- The semaphores, the commands that are issued and not complete, and the threads. -/
structure AhciRun where
  requestSem : Sem Nat
  callbackSem : Sem Nat
  issued : Nat
  outstanding : List Nat
  /-- The interrupts handled so far. -/
  interrupts : Nat
  pc : Nat → AhciPc

/-- What may happen next. -/
inductive AhciEvent where
  /-- A thread calls `ahci_data_transfer`. -/
  | call (t : Nat)
  /-- A thread that calls goes on. -/
  | next (t : Nat)
  /-- The port of a thread stays busy for 500 ms. -/
  | timeout (t : Nat)
  /-- The device completes a command. -/
  | complete (command : Nat)
  /-- An interrupt that the device raises for a command. -/
  | interrupt (command : Nat)
deriving Repr, DecidableEq

/-- A released thread goes on behind `semaphore_wait`. -/
def AhciPc.woken : AhciPc → AhciPc
  | .requestBlocked => .setup
  | .callbackBlocked command => .finish command
  | pc => pc

namespace AhciRun

/-- The thread `t` goes on at `pc`. -/
def goto (s : AhciRun) (t : Nat) (pc : AhciPc) : AhciRun :=
  { s with pc := Function.update s.pc t pc }

/-- The thread that a signal of `sem` releases goes on. -/
def wake (s : AhciRun) (sem : Sem Nat) : AhciRun :=
  match sem.waiting with
  | n :: _ => s.goto n (s.pc n).woken
  | [] => s

/-- `semaphore_wait(&ahci_request_sem)` at the start of `ahci_data_transfer`. -/
def ahciDataTransfer (s : AhciRun) (t : Nat) : AhciRun :=
  { s.goto t (if s.requestSem.lock ≤ 0 then .requestBlocked else .setup) with
    requestSem := (s.requestSem.wait t).1 }

/-- The next part of `ahci_data_transfer`. -/
def transferNext (s : AhciRun) (t : Nat) : Option AhciRun :=
  match s.pc t with
  | .setup => some (s.goto t .issue)
  | .issue =>
    some { s.goto t (.await s.issued) with
      issued := s.issued + 1, outstanding := s.outstanding ++ [s.issued] }
  | .await command =>
    some { s.goto t (if s.callbackSem.lock ≤ 0 then .callbackBlocked command else .finish command)
      with callbackSem := (s.callbackSem.wait t).1 }
  | .finish command =>
    some { (s.goto t (.returned command)).wake s.requestSem with
      requestSem := (s.requestSem.signal t).1 }
  | _ => none

/-- `ahci_callback` for one pending port. -/
def ahciCallback (s : AhciRun) : AhciRun :=
  { s.wake s.callbackSem with
    callbackSem := (s.callbackSem.signal 0).1, interrupts := s.interrupts + 1 }

/-- The thread is in `ahci_data_transfer`. -/
def inCall : AhciPc → Bool
  | .idle | .returned _ | .failed => false
  | _ => true

/-- One step. -/
def step (s : AhciRun) : AhciEvent → Option AhciRun
  | .call t => if inCall (s.pc t) then none else some (s.ahciDataTransfer t)
  | .next t => s.transferNext t
  | .timeout t => if s.pc t = .setup then some (s.goto t .failed) else none
  | .complete command =>
    if command ∈ s.outstanding then some { s with outstanding := s.outstanding.erase command }
    else none
  | .interrupt command => if command < s.issued then some s.ahciCallback else none

end AhciRun

/-- After `init_ahci`. -/
structure AhciRun.Fresh (s : AhciRun) : Prop where
  requestSem : s.requestSem = ⟨1, []⟩
  callbackSem : s.callbackSem = ⟨0, []⟩
  issued : s.issued = 0
  outstanding : s.outstanding = []
  interrupts : s.interrupts = 0
  pc : ∀ t, s.pc t = .idle

/-- Any threads, and a device that raises any interrupts for the commands it was given. -/
def ahciSystem : System AhciRun where
  Init := AhciRun.Fresh
  Next s s' := ∃ e, s.step e = some s'

end MeOS
