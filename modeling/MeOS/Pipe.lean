import MeOS.Lib.HandOff
import MeOS.Lib.Ring
import MeOS.Lib.Runs
import MeOS.Scheduler
import Mathlib.Data.List.Perm.Basic
import Mathlib.Data.List.Count

/-! # `pipe.cpp`

The threads that share a pipe, cut at each read and write of a position or of a
cell. `semaphore_wait` and `semaphore_signal` run with interrupts disabled and
are one step each; on the scheduler's queues they do what `HandOff.Sem` does. A
thread that blocks in `semaphore_wait` goes on behind it once a signal has
released it.

The counters stay between the `int32` that `create_pipe` passes and the size of
the buffer, so counting does not wrap; the positions stay below the size.
-/

namespace MeOS

open HandOff Ring Runs

/-- Where a thread is in `pipe_write(element)` or `pipe_read`. -/
inductive PipePc where
  | idle
  /-- `pipe_write` waits for a slot. -/
  | writeBlocked (element : UInt8)
  /-- Before the read of `write_pos` for the cell. -/
  | writePos (element : UInt8)
  /-- Before the write of the cell. -/
  | writeCell (element : UInt8) (pos : Nat)
  /-- Before the read of `write_pos` for its update. -/
  | writeAgain (element : UInt8)
  /-- Before the write of `write_pos`. -/
  | writeStore (element : UInt8) (pos : Nat)
  /-- Before `semaphore_signal(&pipe->lock_messages)`. -/
  | writeSignal
  /-- `pipe_read` waits for a message. -/
  | readBlocked
  /-- Before the read of `read_pos` for the cell. -/
  | readPos
  /-- Before the read of the cell. -/
  | readCell (pos : Nat)
  /-- Before the read of `read_pos` for its update. -/
  | readAgain (result : UInt8)
  /-- Before the write of `read_pos`. -/
  | readStore (result : UInt8) (pos : Nat)
  /-- Before `semaphore_signal(&pipe->lock_slots)`. -/
  | readSignal (result : UInt8)
deriving Repr, DecidableEq

/-- `_pipe`. -/
structure PipeState where
  buffer : Nat → UInt8
  size : Nat
  readPos : Nat
  writePos : Nat
  lockSlots : Sem Nat
  lockMessages : Sem Nat

/-- `semaphore_init`. -/
def semaphoreFresh (initialValue : Int) : Sem Nat := { lock := initialValue, waiting := [] }

/-- `create_pipe`; the `uint32` size is passed on as the `int32` value of a semaphore. -/
def createPipe (buf : Nat → UInt8) (size : Nat) : PipeState where
  buffer := buf
  size := size
  readPos := 0
  writePos := 0
  lockMessages := semaphoreFresh 0
  lockSlots := semaphoreFresh (wrapInt32 size)

/-- The pipe with its threads, the bytes passed to `pipe_write` and returned by `pipe_read` so
far, and those behind the updates of the positions. -/
structure PipeRun where
  pipe : PipeState
  pcs : List PipePc
  passed : List UInt8
  stored : List UInt8
  taken : List UInt8
  returned : List UInt8

/-- A released thread goes on behind `semaphore_wait`. -/
def PipePc.released : PipePc → PipePc
  | .writeBlocked e => .writePos e
  | .readBlocked => .readPos
  | pc => pc

/-- The thread that a signal releases goes on. -/
def release (pcs : List PipePc) (s : Sem Nat) : List PipePc :=
  match s.waiting with
  | n :: _ => pcs.modify n PipePc.released
  | [] => pcs

/-- The thread `i` runs `pipe_write`. -/
inductive PipeWrite (i : Nat) : PipeRun → PipeRun → Prop where
  | call {s} (e : UInt8) (hpc : s.pcs[i]? = some .idle) :
    PipeWrite i s { s with
      pipe := { s.pipe with lockSlots := (s.pipe.lockSlots.wait i).1 }
      pcs := s.pcs.set i (if s.pipe.lockSlots.lock ≤ 0 then .writeBlocked e else .writePos e)
      passed := s.passed ++ [e] }
  | readPos {s e} (hpc : s.pcs[i]? = some (.writePos e)) :
    PipeWrite i s { s with pcs := s.pcs.set i (.writeCell e s.pipe.writePos) }
  | cell {s e p} (hpc : s.pcs[i]? = some (.writeCell e p)) :
    PipeWrite i s { s with
      pipe := { s.pipe with buffer := Function.update s.pipe.buffer p e }
      pcs := s.pcs.set i (.writeAgain e) }
  | readAgain {s e} (hpc : s.pcs[i]? = some (.writeAgain e)) :
    PipeWrite i s { s with pcs := s.pcs.set i (.writeStore e s.pipe.writePos) }
  | store {s e p} (hpc : s.pcs[i]? = some (.writeStore e p)) :
    PipeWrite i s { s with
      pipe := { s.pipe with writePos := (p + 1) % s.pipe.size }
      pcs := s.pcs.set i .writeSignal
      stored := s.stored ++ [e] }
  | signal {s} (hpc : s.pcs[i]? = some .writeSignal) :
    PipeWrite i s { s with
      pipe := { s.pipe with lockMessages := (s.pipe.lockMessages.signal i).1 }
      pcs := release (s.pcs.set i .idle) s.pipe.lockMessages }

/-- The thread `i` runs `pipe_read`. -/
inductive PipeRead (i : Nat) : PipeRun → PipeRun → Prop where
  | call {s} (hpc : s.pcs[i]? = some .idle) :
    PipeRead i s { s with
      pipe := { s.pipe with lockMessages := (s.pipe.lockMessages.wait i).1 }
      pcs := s.pcs.set i (if s.pipe.lockMessages.lock ≤ 0 then .readBlocked else .readPos) }
  | readPos {s} (hpc : s.pcs[i]? = some .readPos) :
    PipeRead i s { s with pcs := s.pcs.set i (.readCell s.pipe.readPos) }
  | cell {s p} (hpc : s.pcs[i]? = some (.readCell p)) :
    PipeRead i s { s with pcs := s.pcs.set i (.readAgain (s.pipe.buffer p)) }
  | readAgain {s e} (hpc : s.pcs[i]? = some (.readAgain e)) :
    PipeRead i s { s with pcs := s.pcs.set i (.readStore e s.pipe.readPos) }
  | store {s e p} (hpc : s.pcs[i]? = some (.readStore e p)) :
    PipeRead i s { s with
      pipe := { s.pipe with readPos := (p + 1) % s.pipe.size }
      pcs := s.pcs.set i (.readSignal e)
      taken := s.taken ++ [e] }
  | signal {s e} (hpc : s.pcs[i]? = some (.readSignal e)) :
    PipeRead i s { s with
      pipe := { s.pipe with lockSlots := (s.pipe.lockSlots.signal i).1 }
      pcs := release (s.pcs.set i .idle) s.pipe.lockSlots
      returned := s.returned ++ [e] }

/-- The pipe after `create_pipe`, with `threads` threads before any call. -/
def PipeRun.Fresh (size threads : Nat) (s : PipeRun) : Prop :=
  (∃ buf, s.pipe = createPipe buf size) ∧ s.pcs = List.replicate threads .idle ∧
    s.passed = [] ∧ s.stored = [] ∧ s.taken = [] ∧ s.returned = []

/-- Any threads read and write. -/
def pipeSystem (size threads : Nat) : System PipeRun where
  Init := PipeRun.Fresh size threads
  Next s s' := ∃ i, PipeWrite i s s' ∨ PipeRead i s s'

/-! ## Units -/

/-- Granted a slot, and `write_pos` not yet updated. -/
def PipePc.storing : PipePc → Bool
  | .writePos _ | .writeCell _ _ | .writeAgain _ | .writeStore _ _ => true
  | _ => false

/-- Granted a message, and `read_pos` not yet updated. -/
def PipePc.taking : PipePc → Bool
  | .readPos | .readCell _ | .readAgain _ | .readStore _ _ => true
  | _ => false

def PipePc.storedOne : PipePc → Bool
  | .writeSignal => true
  | _ => false

def PipePc.tookOne : PipePc → Bool
  | .readSignal _ => true
  | _ => false

/-- The element a writer has not stored yet. -/
def PipePc.toStore : PipePc → Option UInt8
  | .writeBlocked e | .writePos e | .writeCell e _ | .writeAgain e | .writeStore e _ => some e
  | _ => none

/-- The result a reader has taken and not returned yet. -/
def PipePc.toReturn : PipePc → Option UInt8
  | .readSignal e => some e
  | _ => none

/-- Between the read of `write_pos` and its update. -/
def PipePc.inStore : PipePc → Bool
  | .writeCell _ _ | .writeAgain _ | .writeStore _ _ => true
  | _ => false

/-- Between the read of `read_pos` and its update. -/
def PipePc.inTake : PipePc → Bool
  | .readCell _ | .readAgain _ | .readStore _ _ => true
  | _ => false

/-- In a semaphore's waiting list. -/
def PipePc.blocked : PipePc → Bool
  | .writeBlocked _ | .readBlocked => true
  | _ => false

/-- 1 for a thread of the kind, 0 for another. -/
def unit (p : PipePc → Bool) (pc : PipePc) : Int := if p pc then 1 else 0

/-- The number of bytes whose `write_pos` was updated and whose `read_pos` was not. -/
def PipeRun.inBuffer (s : PipeRun) : Int := s.stored.length - s.taken.length

/-- The units of the semaphores: those in the counters, those of the calls in progress, and the
bytes in the buffer. -/
structure Units (v : Int) (s : PipeRun) : Prop where
  least : min v 0 ≤ s.pipe.lockSlots.lock
  slots : s.pipe.lockSlots.lock + s.pcs.countP PipePc.storing + s.inBuffer +
    s.pcs.countP PipePc.tookOne = v
  messages : s.inBuffer = s.pipe.lockMessages.lock + s.pcs.countP PipePc.storedOne +
    s.pcs.countP PipePc.taking
  nonneg : 0 ≤ s.pipe.lockMessages.lock
  writers : s.pipe.lockSlots.waiting.Nodup ∧
    ∀ n ∈ s.pipe.lockSlots.waiting, ∃ e, s.pcs[n]? = some (.writeBlocked e)
  readers : s.pipe.lockMessages.waiting.Nodup ∧
    ∀ n ∈ s.pipe.lockMessages.waiting, s.pcs[n]? = some .readBlocked

/-! ## Threads in a list -/

section Threads

variable {pcs : List PipePc} {i j : Nat} {pc pc' : PipePc}

/-- A thread apart from the others, before and after a step. -/
theorem set_perm (h : pcs[i]? = some pc) (pc' : PipePc) :
    pcs.Perm (pc :: pcs.eraseIdx i) ∧ (pcs.set i pc').Perm (pc' :: pcs.eraseIdx i) := by
  rcases List.getElem?_eq_some_iff.mp h with ⟨hlt, hget⟩
  constructor
  · have hperm := List.getElem_cons_eraseIdx_perm hlt
    rw [hget] at hperm
    exact hperm.symm
  · exact List.set_perm_cons_eraseIdx hlt pc'

/-- One thread moves: how a count changes. -/
theorem countP_move (h : pcs[i]? = some pc) (pc' : PipePc) (p : PipePc → Bool) :
    ((pcs.set i pc').countP p : Int) = pcs.countP p + unit p pc' - unit p pc := by
  rcases set_perm h pc' with ⟨hbefore, hafter⟩
  rw [hbefore.countP_eq, hafter.countP_eq, List.countP_cons, List.countP_cons]
  unfold unit
  split_ifs <;> push_cast <;> omega

/-- One thread moves: how the elements in hand change. -/
theorem filterMap_move (h : pcs[i]? = some pc) (f : PipePc → Option UInt8) :
    ((f pc).toList ++ (pcs.set i pc').filterMap f).Perm
      ((f pc').toList ++ pcs.filterMap f) := by
  rcases set_perm h pc' with ⟨hbefore, hafter⟩
  have hcons : ∀ (q : PipePc) (l : List PipePc),
      (q :: l).filterMap f = (f q).toList ++ l.filterMap f := by
    intro q l
    cases hq : f q with
    | none => rw [List.filterMap_cons_none hq]; rfl
    | some x => rw [List.filterMap_cons_some hq]; rfl
  have hb := hbefore.filterMap f
  have ha := hafter.filterMap f
  rw [hcons] at hb ha
  have hswap := (ha.append_left (f pc).toList).trans
    (List.perm_append_comm_assoc (f pc).toList (f pc').toList _)
  exact hswap.trans (hb.symm.append_left _)

theorem modify_eq_set (h : pcs[i]? = some pc) (f : PipePc → PipePc) :
    pcs.modify i f = pcs.set i (f pc) := by
  apply List.ext_getElem?
  intro j
  by_cases hj : j = i
  · subst hj
    rw [List.getElem?_modify_eq, h, List.getElem?_set_self (List.getElem?_eq_some_iff.mp h).1]
    rfl
  · rw [List.getElem?_modify_ne _ _ (Ne.symm hj), List.getElem?_set_ne (Ne.symm hj)]

theorem set_same (h : pcs[i]? = some pc) : (pcs.set i pc')[i]? = some pc' :=
  List.getElem?_set_self (List.getElem?_eq_some_iff.mp h).1

theorem set_other (hij : j ≠ i) : (pcs.set i pc')[j]? = pcs[j]? :=
  List.getElem?_set_ne (Ne.symm hij)

end Threads

end MeOS
