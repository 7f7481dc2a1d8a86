import MeOS.Lib.Critical
import MeOS.Lib.Ring

/-! # `queue_mpmc.h`

The queue for several producers and consumers is a ring of cells like the one for two sides, and
each operation runs between `critlock_acquire` and `critlock_release`. The bodies are cut at each
read and write of an index or of a cell; the operands of a comparison are read from left to right.
The flag of the machine is `in_critical_section`, and a tick is `scheduler_thread_switch`. The
indices stay below `max_count`, so adding one to them does not wrap.
-/

namespace MeOS.Mpmc

open Critical Ring

variable {T : Type}

/-- `queue_mpmc<T>`. -/
structure QueueMpmc (T : Type) where
  buffer : Nat → T
  maxCount : Nat
  headIndex : Nat
  tailIndex : Nat

/-- `queue_mpmc_init`; the cells of the new buffer hold anything. -/
def queueMpmcInit (buffer : Nat → T) (maxElements : Nat) : QueueMpmc T :=
  { buffer := buffer, maxCount := maxElements, headIndex := 0, tailIndex := 0 }

/-- The functions of the queue. -/
inductive Operation (T : Type) where
  | remove
  | insert (element : T)
  | peek
  | isEmpty
  | clear (readerCaller : Bool)
deriving Repr, DecidableEq

/-- What they return; `none` stands for the `object` of `queue_mpmc_peek` that nothing was
assigned to. -/
inductive Result (T : Type) where
  | result (b : Bool)
  | object (x : Option T)
  | unit
deriving Repr, DecidableEq

/-- Where a thread is between `critlock_acquire` and `critlock_release`. -/
inductive Label (T : Type) where
  /-- `queue_mpmc_remove`: before the read of `head_index` in the condition. -/
  | remove
  /-- Before the read of `tail_index` in the condition. -/
  | removeTail (head : Nat)
  /-- Before the read of `head_index` for its update. -/
  | removeAgain
  /-- Before the write of `head_index`. -/
  | removeStore (head : Nat)
  /-- `queue_mpmc_insert`: before the read of `tail_index` in the condition. -/
  | insert (element : T)
  /-- Before the read of `head_index` in the condition. -/
  | insertHead (element : T) (tail : Nat)
  /-- Before the read of `tail_index` for the cell. -/
  | insertCell (element : T)
  /-- Before the write of the cell. -/
  | insertWrite (element : T) (tail : Nat)
  /-- Before the read of `tail_index` for its update. -/
  | insertAgain
  /-- Before the write of `tail_index`. -/
  | insertStore (tail : Nat)
  /-- `queue_mpmc_peek`: before the read of `tail_index`. -/
  | peek
  /-- Before the read of `head_index` in the condition. -/
  | peekHead (tail : Nat)
  /-- Before the read of `head_index` for the cell. -/
  | peekCell
  /-- Before the read of the cell. -/
  | peekRead (head : Nat)
  /-- `queue_mpmc_is_empty`: before the read of `tail_index`. -/
  | isEmpty
  /-- Before its read of `head_index`. -/
  | isEmptyHead (tail : Nat)
  /-- `queue_mpmc_clear`: before the test of `reader_caller`. -/
  | clear (readerCaller : Bool)
  /-- Before the write of `head_index`. -/
  | clearHead (tail : Nat)
  /-- Before the write of `tail_index`. -/
  | clearTail (head : Nat)
deriving Repr, DecidableEq

/-- The first statement of a function. -/
def begin : Operation T → Label T
  | .remove => .remove
  | .insert x => .insert x
  | .peek => .peek
  | .isEmpty => .isEmpty
  | .clear readerCaller => .clear readerCaller

/-- One statement. -/
def statement (p : Label T) (q : QueueMpmc T) : QueueMpmc T × (Label T ⊕ Result T) :=
  match p with
  | .remove => (q, .inl (.removeTail q.headIndex))
  | .removeTail head =>
    (q, if head ≠ q.tailIndex then .inl .removeAgain else .inr (.result false))
  | .removeAgain => (q, .inl (.removeStore q.headIndex))
  | .removeStore head =>
    ({ q with headIndex := (head + 1) % q.maxCount }, .inr (.result true))
  | .insert x => (q, .inl (.insertHead x q.tailIndex))
  | .insertHead x tail =>
    (q, if (tail + 1) % q.maxCount ≠ q.headIndex then .inl (.insertCell x)
      else .inr (.result false))
  | .insertCell x => (q, .inl (.insertWrite x q.tailIndex))
  | .insertWrite x tail => ({ q with buffer := Function.update q.buffer tail x }, .inl .insertAgain)
  | .insertAgain => (q, .inl (.insertStore q.tailIndex))
  | .insertStore tail =>
    ({ q with tailIndex := (tail + 1) % q.maxCount }, .inr (.result true))
  | .peek => (q, .inl (.peekHead q.tailIndex))
  | .peekHead tail => (q, if tail ≠ q.headIndex then .inl .peekCell else .inr (.object none))
  | .peekCell => (q, .inl (.peekRead q.headIndex))
  | .peekRead head => (q, .inr (.object (some (q.buffer head))))
  | .isEmpty => (q, .inl (.isEmptyHead q.tailIndex))
  | .isEmptyHead tail => (q, .inr (.result (tail == q.headIndex)))
  | .clear true => (q, .inl (.clearHead q.tailIndex))
  | .clear false => (q, .inl (.clearTail q.headIndex))
  | .clearHead tail => ({ q with headIndex := tail }, .inr .unit)
  | .clearTail head => ({ q with tailIndex := head }, .inr .unit)

/-- The queue as an object of threads. -/
def queueMpmc (T : Type) : Object (QueueMpmc T) (Operation T) (Label T) (Result T) where
  start := begin
  step := statement

/-! ## What the queue is for -/

/-- A queue of fewer than `n` elements, first in, first out. -/
def fifo (n : Nat) : Operation T → List T → List T × Result T
  | .remove, l => (l.tail, .result (!l.isEmpty))
  | .insert x, l =>
    if l.length + 1 < n then (l ++ [x], .result true) else (l, .result false)
  | .peek, l => (l, .object l.head?)
  | .isEmpty, l => (l, .result l.isEmpty)
  | .clear _, _ => ([], .unit)

/-- The elements from the head to the tail are `l`. -/
structure Represents (n : Nat) (l : List T) (q : QueueMpmc T) : Prop where
  maxCount : q.maxCount = n
  head : q.headIndex < n
  room : l.length < n
  tail : q.tailIndex = (q.headIndex + l.length) % n
  cells : Holds n q.buffer q.headIndex l

section Laws

variable {n : Nat} {l : List T} {q q' : QueueMpmc T} {r : Result T} {x : T}

/-- The indices agree exactly for the empty queue. -/
theorem Represents.tail_eq_head (h : Represents n l q) :
    q.tailIndex = q.headIndex ↔ l = [] := by
  have hpos : 0 < n := Nat.lt_of_le_of_lt (Nat.zero_le _) h.room
  have hself : q.headIndex = (q.headIndex + 0) % n := by
    rw [Nat.add_zero, Nat.mod_eq_of_lt h.head]
  constructor
  · intro heq
    rw [h.tail] at heq
    have hlen := pos_inj h.room hpos (heq.trans hself)
    exact List.length_eq_zero_iff.mp hlen
  · rintro rfl
    rw [h.tail]
    exact hself.symm

/-- The next tail meets the head exactly when the queue is full. -/
theorem Represents.next_tail_eq_head (h : Represents n l q) :
    (q.tailIndex + 1) % q.maxCount = q.headIndex ↔ ¬ l.length + 1 < n := by
  have hroom := h.room
  have hpos : 0 < n := Nat.lt_of_le_of_lt (Nat.zero_le _) h.room
  have hnext : (q.tailIndex + 1) % q.maxCount = (q.headIndex + (l.length + 1)) % n := by
    rw [h.maxCount, h.tail, pos_add]
  rw [hnext]
  constructor
  · intro heq hlt
    have hself : q.headIndex = (q.headIndex + 0) % n := by
      rw [Nat.add_zero, Nat.mod_eq_of_lt h.head]
    have := pos_inj hlt hpos (heq.trans hself)
    omega
  · intro hfull
    have hlen : l.length + 1 = n := by omega
    rw [hlen, Nat.add_mod_right, Nat.mod_eq_of_lt h.head]

/-- The state that `queue_mpmc_init` leaves. -/
theorem represents_init (buffer : Nat → T) (hpos : 0 < n) :
    Represents n [] (queueMpmcInit buffer n) where
  maxCount := rfl
  head := hpos
  room := hpos
  tail := (Nat.zero_mod _).symm
  cells := Holds.nil

theorem Represents.remove (h : Represents n (x :: l) q) :
    Represents n l { q with headIndex := (q.headIndex + 1) % q.maxCount } where
  maxCount := h.maxCount
  head := by
    show (q.headIndex + 1) % q.maxCount < n
    rw [h.maxCount]
    exact Nat.mod_lt _ (Nat.lt_of_le_of_lt (Nat.zero_le _) h.room)
  room := Nat.lt_of_succ_lt h.room
  tail := by
    show q.tailIndex = ((q.headIndex + 1) % q.maxCount + l.length) % n
    rw [h.tail, h.maxCount, pos_add, List.length_cons, Nat.add_comm 1]
  cells := by
    show Holds n q.buffer ((q.headIndex + 1) % q.maxCount) l
    rw [h.maxCount]
    exact h.cells.pop

theorem Represents.insert (h : Represents n l q) (hroom : l.length + 1 < n) (x : T) :
    Represents n (l ++ [x])
      { q with
        buffer := Function.update q.buffer q.tailIndex x
        tailIndex := (q.tailIndex + 1) % q.maxCount } where
  maxCount := h.maxCount
  head := h.head
  room := by rwa [List.length_append, List.length_singleton]
  tail := by
    show (q.tailIndex + 1) % q.maxCount = (q.headIndex + (l ++ [x]).length) % n
    rw [h.maxCount, h.tail, pos_add, List.length_append, List.length_singleton]
  cells := by
    show Holds n (Function.update q.buffer q.tailIndex x) q.headIndex (l ++ [x])
    rw [h.tail]
    exact (h.cells.write h.room).push (Function.update_self _ _ _)

/-- Both indices at one place make the queue empty. -/
theorem Represents.clear (h : Represents n l q) {i : Nat} (hi : i < n) :
    Represents n [] { q with headIndex := i, tailIndex := i } where
  maxCount := h.maxCount
  head := hi
  room := Nat.lt_of_le_of_lt (Nat.zero_le _) h.room
  tail := (Nat.mod_eq_of_lt hi).symm
  cells := Holds.nil

theorem Represents.tail_lt (h : Represents n l q) : q.tailIndex < n := by
  rw [h.tail]
  exact Nat.mod_lt _ (Nat.lt_of_le_of_lt (Nat.zero_le _) h.room)

/-! ## One call -/

theorem remove_call (h : Represents n l q)
    (hc : Calls (queueMpmc T) .remove q q' r) :
    (fifo n .remove l).2 = r ∧ Represents n (fifo n .remove l).1 q' := by
  have hcond := Returns.next hc
    (show statement .remove q = (q, .inl (.removeTail q.headIndex)) from rfl)
  cases l with
  | nil =>
    have heq : q.headIndex = q.tailIndex := (h.tail_eq_head.mpr rfl).symm
    obtain ⟨rfl, rfl⟩ := hcond.last (t := q) (v := .result false) (by
      show (q, _) = _
      rw [if_neg (not_not.mpr heq)])
    exact ⟨rfl, h⟩
  | cons x l =>
    have hne : q.headIndex ≠ q.tailIndex :=
      fun heq => List.cons_ne_nil x l (h.tail_eq_head.mp heq.symm)
    have hagain := hcond.next (t := q) (q := .removeAgain) (by
      show (q, _) = _
      rw [if_pos hne])
    have hstore := hagain.next (t := q) (q := .removeStore q.headIndex) rfl
    obtain ⟨rfl, rfl⟩ := hstore.last rfl
    exact ⟨rfl, h.remove⟩

theorem insert_call (h : Represents n l q)
    (hc : Calls (queueMpmc T) (.insert x) q q' r) :
    (fifo n (.insert x) l).2 = r ∧
      Represents n (fifo n (.insert x) l).1 q' := by
  have hcond := Returns.next hc
    (show statement (.insert x) q = (q, .inl (.insertHead x q.tailIndex)) from rfl)
  by_cases hroom : l.length + 1 < n
  · have hne : (q.tailIndex + 1) % q.maxCount ≠ q.headIndex :=
      fun heq => h.next_tail_eq_head.mp heq hroom
    have hcell := hcond.next (t := q) (q := .insertCell x) (by
      show (q, _) = _
      rw [if_pos hne])
    have hwrite := hcell.next (t := q) (q := .insertWrite x q.tailIndex) rfl
    have hagain := hwrite.next (q := .insertAgain) rfl
    have hstore := hagain.next (q := .insertStore q.tailIndex) rfl
    obtain ⟨rfl, rfl⟩ := hstore.last rfl
    rw [fifo, if_pos hroom]
    exact ⟨rfl, h.insert hroom x⟩
  · have heq := h.next_tail_eq_head.mpr hroom
    obtain ⟨rfl, rfl⟩ := hcond.last (t := q) (v := .result false) (by
      show (q, _) = _
      rw [if_neg (not_not.mpr heq)])
    rw [fifo, if_neg hroom]
    exact ⟨rfl, h⟩

theorem peek_call (h : Represents n l q) (hc : Calls (queueMpmc T) .peek q q' r) :
    (fifo n .peek l).2 = r ∧ Represents n (fifo n .peek l).1 q' := by
  have hcond := Returns.next hc
    (show statement .peek q = (q, .inl (.peekHead q.tailIndex)) from rfl)
  cases l with
  | nil =>
    obtain ⟨rfl, rfl⟩ := hcond.last (t := q) (v := .object none) (by
      show (q, _) = _
      rw [if_neg (not_not.mpr (h.tail_eq_head.mpr rfl))])
    exact ⟨rfl, h⟩
  | cons x l =>
    have hcell := hcond.next (t := q) (q := .peekCell) (by
      show (q, _) = _
      rw [if_pos fun heq => List.cons_ne_nil x l (h.tail_eq_head.mp heq)])
    have hread := hcell.next (t := q) (q := .peekRead q.headIndex) rfl
    obtain ⟨rfl, rfl⟩ := hread.last rfl
    refine ⟨?_, h⟩
    rw [h.cells.first h.head]
    rfl

theorem isEmpty_call (h : Represents n l q) (hc : Calls (queueMpmc T) .isEmpty q q' r) :
    (fifo n .isEmpty l).2 = r ∧ Represents n (fifo n .isEmpty l).1 q' := by
  have hcond := Returns.next hc
    (show statement .isEmpty q = (q, .inl (.isEmptyHead q.tailIndex)) from rfl)
  obtain ⟨rfl, rfl⟩ := hcond.last rfl
  refine ⟨?_, h⟩
  have heq : (q'.tailIndex == q'.headIndex) = l.isEmpty := by
    rw [Bool.eq_iff_iff, beq_iff_eq, List.isEmpty_iff]
    exact h.tail_eq_head
  rw [heq]
  rfl

theorem clear_call (h : Represents n l q) {readerCaller : Bool}
    (hc : Calls (queueMpmc T) (.clear readerCaller) q q' r) :
    (fifo n (.clear readerCaller) l).2 = r ∧
      Represents n (fifo n (.clear readerCaller) l).1 q' := by
  cases readerCaller with
  | true =>
    have hstore := Returns.next hc
      (show statement (.clear true) q = (q, .inl (.clearHead q.tailIndex)) from rfl)
    obtain ⟨rfl, rfl⟩ := hstore.last rfl
    exact ⟨rfl, h.clear h.tail_lt⟩
  | false =>
    have hstore := Returns.next hc
      (show statement (.clear false) q = (q, .inl (.clearTail q.headIndex)) from rfl)
    obtain ⟨rfl, rfl⟩ := hstore.last rfl
    exact ⟨rfl, h.clear h.head⟩

/-- Every function of the queue does what the sequence does. -/
theorem implements (n : Nat) :
    Implements (queueMpmc T) (fifo n) (Represents n) where
  call op l q q' r h hc := by
    cases op with
    | remove => exact remove_call h hc
    | insert x => exact insert_call h hc
    | peek => exact peek_call h hc
    | isEmpty => exact isEmpty_call h hc
    | clear readerCaller => exact clear_call h hc

end Laws

/-! ## Any number of threads -/

/-- Threads that use a new queue. -/
def mpmcSystem (buffer : Nat → T) (maxElements : Nat) :=
  system (queueMpmc T) (queueMpmcInit buffer maxElements)

/-- Under every schedule the calls have the results of a bounded FIFO queue that takes them in the
order of their `critlock_release`; one thread at most is in a function, the current one, and when
none is, the queue holds what the FIFO queue holds. -/
theorem queueMpmc_linear {buffer : Nat → T} {maxElements : Nat} (hpos : 0 < maxElements)
    {m : Machine (QueueMpmc T) (Operation T) (Label T) (Result T)}
    (h : (mpmcSystem buffer maxElements).Reachable m) :
    (∃ l q, Legal (fifo maxElements) [] m.history l ∧ Represents maxElements l q ∧
      ((∀ t, (m.pc t).Rests) → m.shared = q)) ∧
    ∀ t, ¬ (m.pc t).Rests → t = m.current ∧ m.flag = true := by
  refine ⟨(implements maxElements).linear (represents_init buffer hpos) h, ?_⟩
  intro t ht
  have hinv := atomic h
  have hcurrent : t = m.current := by
    by_contra hne
    exact ht (hinv.others t hne)
  refine ⟨hcurrent, ?_⟩
  rw [hcurrent] at ht
  by_contra hflag
  exact ht (hinv.flag.mp (Bool.eq_false_iff.mpr hflag))

/-- Threads in front of their first call. -/
def freshThreads : Machine (QueueMpmc Nat) (Operation Nat) (Label Nat) (Result Nat) :=
  ⟨queueMpmcInit (fun _ => 0) 2, false, 0, fun _ => .outside, []⟩

/-- Thread 0 inserts 7; thread 4 is interrupted in front of its `critlock_release`, having removed
it. -/
def removedSeven : Machine (QueueMpmc Nat) (Operation Nat) (Label Nat) (Result Nat) :=
  freshThreads.run (queueMpmc Nat)
    ([.call (.insert 7)] ++ List.replicate 8 .next ++ [.tick 4, .call .remove] ++
      List.replicate 5 .next ++ [.tick 0])

theorem removedSeven_reachable : (mpmcSystem (fun _ => 0) 2).Reachable removedSeven := by
  have hfresh : (mpmcSystem (fun _ => 0) 2).Reachable freshThreads :=
    .init ⟨rfl, rfl, fun _ => rfl, rfl⟩
  exact reachable_run hfresh _

theorem queueMpmc_linear_removedSeven :
    (∃ l q, Legal (fifo 2) [] removedSeven.history l ∧ Represents 2 l q ∧
      ((∀ t, (removedSeven.pc t).Rests) → removedSeven.shared = q)) ∧
    ∀ t, ¬ (removedSeven.pc t).Rests → t = removedSeven.current ∧ removedSeven.flag = true :=
  queueMpmc_linear (by decide) removedSeven_reachable

end MeOS.Mpmc
