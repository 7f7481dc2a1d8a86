import MeOS.Lib.Ring
import MeOS.Lib.Runs

/-! # `queue_spsc.h`

The queue between one producer and one consumer, cut at each read and write of
an index or of a cell. The operands of a comparison are read from left to
right; one of them is the side's own index, which only that side writes. The
indices stay below `max_count`, so adding one to them does not wrap.

An element carries the number of the insert it came from, which the code does
not look at: it tells two inserts of one value apart.
-/

namespace MeOS

open Ring Runs

/-- An element and the number of elements inserted before it. -/
structure Tagged (T : Type) where
  serial : Nat
  value : T
deriving Repr, DecidableEq

/-- `queue_spsc<T>`. -/
structure QueueSpsc (T : Type) where
  buffer : Nat → Tagged T
  maxCount : Nat
  headIndex : Nat
  tailIndex : Nat

/-- `queue_spsc_init`; the cells of the new buffer hold anything. -/
def queueSpscInit {T : Type} (buffer : Nat → Tagged T) (maxElements : Nat) : QueueSpsc T :=
  { buffer := buffer, maxCount := maxElements, headIndex := 0, tailIndex := 0 }

/-- Where the producer is. -/
inductive ProducerPc (T : Type) where
  | idle
  /-- `queue_spsc_insert`: before the read of `tail_index` in the condition. -/
  | insert (x : Tagged T)
  /-- Before the read of `head_index` in the condition. -/
  | insertHead (x : Tagged T) (tail : Nat)
  /-- Before the read of `tail_index` for the cell. -/
  | insertCell (x : Tagged T)
  /-- Before the write of the cell. -/
  | insertWrite (x : Tagged T) (tail : Nat)
  /-- Before the read of `tail_index` for its update. -/
  | insertAgain (x : Tagged T)
  /-- Before the write of `tail_index`. -/
  | insertStore (x : Tagged T) (tail : Nat)
  /-- `queue_spsc_insert` returns. -/
  | returned (success : Bool)
  /-- `queue_spsc_clear(q, false)`: before the read of `head_index`. -/
  | clear
  /-- Before the write of `tail_index`. -/
  | clearStore (head : Nat)
deriving Repr, DecidableEq

/-- Where the consumer is. -/
inductive ConsumerPc (T : Type) where
  | idle
  /-- `queue_spsc_remove`: before the read of `head_index` in the condition. -/
  | remove
  /-- Before the read of `tail_index` in the condition. -/
  | removeTail (head : Nat)
  /-- Before the read of `head_index` for its update. -/
  | removeAgain
  /-- Before the write of `head_index`. -/
  | removeStore (head : Nat)
  /-- `queue_spsc_remove` returns. -/
  | returned (success : Bool)
  /-- `queue_spsc_peek`: before the read of `tail_index`. -/
  | peek
  /-- Before the read of `head_index` in the condition. -/
  | peekHead (tail : Nat)
  /-- Before the read of `head_index` for the cell. -/
  | peekCell
  /-- Before the read of the cell. -/
  | peekRead (head : Nat)
  /-- `queue_spsc_peek` returns; `none` stands for `T()`. -/
  | peeked (x : Option (Tagged T))
  /-- `queue_spsc_is_empty`: before the read of `tail_index`. -/
  | isEmpty
  /-- Before its read of `head_index`. -/
  | isEmptyHead (tail : Nat)
  /-- `queue_spsc_is_empty` returns. -/
  | emptyIs (result : Bool)
  /-- `queue_spsc_clear(q, true)`: before the read of `tail_index`. -/
  | clear
  /-- Before the write of `head_index`; `upTo` elements had been inserted at the read. -/
  | clearStore (tail upTo : Nat)
deriving Repr, DecidableEq

/-- The queue with its two threads, the elements inserted and removed so far, and those that
were inserted and neither removed nor cleared. -/
structure SpscRun (T : Type) where
  q : QueueSpsc T
  producer : ProducerPc T
  consumer : ConsumerPc T
  inserted : List (Tagged T)
  removed : List (Tagged T)
  live : List (Tagged T)

/-! ## Steps -/

section Steps

variable {T : Type}

/-- The producer runs `queue_spsc_insert`. -/
inductive InsertStep : SpscRun T → SpscRun T → Prop where
  | call {s} (x : T) (hpc : s.producer = .idle) :
    InsertStep s { s with producer := .insert ⟨s.inserted.length, x⟩ }
  | readTail {s x} (hpc : s.producer = .insert x) :
    InsertStep s { s with producer := .insertHead x s.q.tailIndex }
  | readHead {s x t} (hpc : s.producer = .insertHead x t) :
    InsertStep s { s with
      producer := if (t + 1) % s.q.maxCount ≠ s.q.headIndex then .insertCell x
        else .returned false }
  | readCell {s x} (hpc : s.producer = .insertCell x) :
    InsertStep s { s with producer := .insertWrite x s.q.tailIndex }
  | write {s x t} (hpc : s.producer = .insertWrite x t) :
    InsertStep s { s with
      q := { s.q with buffer := Function.update s.q.buffer t x }, producer := .insertAgain x }
  | readAgain {s x} (hpc : s.producer = .insertAgain x) :
    InsertStep s { s with producer := .insertStore x s.q.tailIndex }
  | store {s x t} (hpc : s.producer = .insertStore x t) :
    InsertStep s { s with
      q := { s.q with tailIndex := (t + 1) % s.q.maxCount }
      producer := .returned true
      inserted := s.inserted ++ [x]
      live := s.live ++ [x] }
  | done {s b} (hpc : s.producer = .returned b) : InsertStep s { s with producer := .idle }

/-- The consumer runs `queue_spsc_remove`, `queue_spsc_peek` or `queue_spsc_is_empty`. -/
inductive RemoveStep : SpscRun T → SpscRun T → Prop where
  | callRemove {s} (hpc : s.consumer = .idle) : RemoveStep s { s with consumer := .remove }
  | removeHead {s} (hpc : s.consumer = .remove) :
    RemoveStep s { s with consumer := .removeTail s.q.headIndex }
  | removeTail {s h} (hpc : s.consumer = .removeTail h) :
    RemoveStep s { s with
      consumer := if h ≠ s.q.tailIndex then .removeAgain else .returned false }
  | removeAgain {s} (hpc : s.consumer = .removeAgain) :
    RemoveStep s { s with consumer := .removeStore s.q.headIndex }
  | removeStore {s h} (hpc : s.consumer = .removeStore h) :
    RemoveStep s { s with
      q := { s.q with headIndex := (h + 1) % s.q.maxCount }
      consumer := .returned true
      removed := s.removed ++ [s.q.buffer h]
      live := s.live.filter fun x => x.serial ≠ (s.q.buffer h).serial }
  | callPeek {s} (hpc : s.consumer = .idle) : RemoveStep s { s with consumer := .peek }
  | peekTail {s} (hpc : s.consumer = .peek) :
    RemoveStep s { s with consumer := .peekHead s.q.tailIndex }
  | peekHead {s t} (hpc : s.consumer = .peekHead t) :
    RemoveStep s { s with consumer := if t ≠ s.q.headIndex then .peekCell else .peeked none }
  | peekCell {s} (hpc : s.consumer = .peekCell) :
    RemoveStep s { s with consumer := .peekRead s.q.headIndex }
  | peekRead {s h} (hpc : s.consumer = .peekRead h) :
    RemoveStep s { s with consumer := .peeked (some (s.q.buffer h)) }
  | callIsEmpty {s} (hpc : s.consumer = .idle) : RemoveStep s { s with consumer := .isEmpty }
  | isEmptyTail {s} (hpc : s.consumer = .isEmpty) :
    RemoveStep s { s with consumer := .isEmptyHead s.q.tailIndex }
  | isEmptyHead {s t} (hpc : s.consumer = .isEmptyHead t) :
    RemoveStep s { s with consumer := .emptyIs (t == s.q.headIndex) }
  | done {s b} (hpc : s.consumer = .returned b) : RemoveStep s { s with consumer := .idle }
  | doneIsEmpty {s b} (hpc : s.consumer = .emptyIs b) : RemoveStep s { s with consumer := .idle }
  | donePeek {s x} (hpc : s.consumer = .peeked x) : RemoveStep s { s with consumer := .idle }

/-- The producer runs `queue_spsc_clear(q, false)`. -/
inductive ProducerClear : SpscRun T → SpscRun T → Prop where
  | call {s} (hpc : s.producer = .idle) : ProducerClear s { s with producer := .clear }
  | read {s} (hpc : s.producer = .clear) :
    ProducerClear s { s with producer := .clearStore s.q.headIndex }
  | store {s h} (hpc : s.producer = .clearStore h) :
    ProducerClear s { s with
      q := { s.q with tailIndex := h }, producer := .idle, live := [] }

/-- The consumer runs `queue_spsc_clear(q, true)`, which clears what was inserted before its
read of the tail. -/
inductive ConsumerClear : SpscRun T → SpscRun T → Prop where
  | call {s} (hpc : s.consumer = .idle) : ConsumerClear s { s with consumer := .clear }
  | read {s} (hpc : s.consumer = .clear) :
    ConsumerClear s { s with consumer := .clearStore s.q.tailIndex s.inserted.length }
  | store {s t upTo} (hpc : s.consumer = .clearStore t upTo) :
    ConsumerClear s { s with
      q := { s.q with headIndex := t }
      consumer := .idle
      live := s.live.filter fun x => upTo ≤ x.serial }

/-- The queue after `queue_spsc_init`, before any call. -/
def SpscRun.Fresh (maxElements : Nat) (s : SpscRun T) : Prop :=
  (∃ buffer, s.q = queueSpscInit buffer maxElements) ∧ s.producer = .idle ∧ s.consumer = .idle ∧
    s.inserted = [] ∧ s.removed = [] ∧ s.live = []

/-- The number of elements in the queue. -/
def SpscRun.count (s : SpscRun T) : Nat := dist s.q.maxCount s.q.headIndex s.q.tailIndex

/-- One producer that inserts and one consumer that removes. -/
def spscSystem (T : Type) (maxElements : Nat) : System (SpscRun T) where
  Init := SpscRun.Fresh maxElements
  Next s s' := InsertStep s s' ∨ RemoveStep s s'

/-! ## The ring -/

/-- What the producer knows. Its index is its own, and the room it found does not go away. -/
def ProducerKnows (s : SpscRun T) (queued : List (Tagged T)) : Prop :=
  match s.producer with
  | .idle | .returned _ | .clear | .clearStore _ => True
  | .insert x => x.serial = s.inserted.length
  | .insertHead x t => x.serial = s.inserted.length ∧ t = s.q.tailIndex
  | .insertCell x => x.serial = s.inserted.length ∧ queued.length + 1 < s.q.maxCount
  | .insertWrite x t => x.serial = s.inserted.length ∧ queued.length + 1 < s.q.maxCount ∧
    t = s.q.tailIndex
  | .insertAgain x => x.serial = s.inserted.length ∧ queued.length + 1 < s.q.maxCount ∧
    s.q.buffer s.q.tailIndex = x
  | .insertStore x t => x.serial = s.inserted.length ∧ queued.length + 1 < s.q.maxCount ∧
    s.q.buffer s.q.tailIndex = x ∧ t = s.q.tailIndex

/-- What the consumer knows of its index. -/
def OwnHead (s : SpscRun T) : Prop :=
  match s.consumer with
  | .removeTail h | .removeStore h | .peekRead h => h = s.q.headIndex
  | _ => True

/-- The cells from the head to the tail hold `queued`. -/
structure Queued (s : SpscRun T) (queued : List (Tagged T)) : Prop where
  head : s.q.headIndex < s.q.maxCount
  room : queued.length < s.q.maxCount
  tail : s.q.tailIndex = (s.q.headIndex + queued.length) % s.q.maxCount
  holds : Ring.Holds s.q.maxCount s.q.buffer s.q.headIndex queued
  producer : ProducerKnows s queued
  consumer : OwnHead s

/-- What a step does to the elements. -/
inductive Change (s s' : SpscRun T) : List (Tagged T) → List (Tagged T) → Prop where
  | keep {l} (hins : s'.inserted = s.inserted) (hrem : s'.removed = s.removed)
    (hlive : s'.live = s.live) : Change s s' l l
  | insert {l} (x : Tagged T) (hserial : x.serial = s.inserted.length)
    (hins : s'.inserted = s.inserted ++ [x]) (hrem : s'.removed = s.removed)
    (hlive : s'.live = s.live ++ [x]) : Change s s' l (l ++ [x])
  | remove {l} (x : Tagged T) (hins : s'.inserted = s.inserted)
    (hrem : s'.removed = s.removed ++ [x])
    (hlive : s'.live = s.live.filter fun y => y.serial ≠ x.serial) :
    Change s s' (x :: l) l

variable {s s' : SpscRun T} {queued : List (Tagged T)}

/-- The number of elements is the distance from head to tail. -/
theorem Queued.count (h : Queued s queued) : s.count = queued.length := by
  unfold SpscRun.count
  rw [h.tail]
  exact dist_pos h.head h.room

/-- The indices meet when the queue is empty. -/
theorem Queued.empty_iff (h : Queued s queued) :
    s.q.headIndex = s.q.tailIndex ↔ queued = [] := by
  constructor
  · intro heq
    have hcount := h.count
    unfold SpscRun.count at hcount
    rw [← heq] at hcount
    have hzero := dist_pos (i := 0) h.head (by have := h.head; omega)
    rw [Nat.add_zero, Nat.mod_eq_of_lt h.head] at hzero
    exact List.eq_nil_of_length_eq_zero (by omega)
  · intro hnil
    rw [h.tail, hnil, List.length_nil, Nat.add_zero, Nat.mod_eq_of_lt h.head]

/-- The tail is followed by the head when all but one cell are taken. -/
theorem Queued.full_iff (h : Queued s queued) :
    (s.q.tailIndex + 1) % s.q.maxCount = s.q.headIndex ↔
      queued.length + 1 = s.q.maxCount := by
  have hroom := h.room
  rw [h.tail, pos_add]
  constructor
  · intro heq
    by_contra hne
    have hself : (s.q.headIndex + 0) % s.q.maxCount = s.q.headIndex := by
      rw [Nat.add_zero, Nat.mod_eq_of_lt h.head]
    have hzero := pos_inj (i := queued.length + 1) (j := 0) (by omega) (by omega)
      (heq.trans hself.symm)
    omega
  · intro hfull
    rw [hfull, Nat.add_mod_right, Nat.mod_eq_of_lt h.head]

/-- The first element is in the cell at the head. -/
theorem Queued.first (h : Queued s queued) (hne : queued ≠ []) :
    ∃ rest, queued = s.q.buffer s.q.headIndex :: rest := by
  obtain ⟨x, rest, hcons⟩ := List.exists_cons_of_ne_nil hne
  have hholds := h.holds
  rw [hcons] at hholds
  exact ⟨rest, by rw [hholds.first h.head, hcons]⟩

/-- A step of the producer that leaves the queue alone. -/
theorem Queued.producerMoves (h : Queued s queued) {pc : ProducerPc T}
    (hpc : ProducerKnows { s with producer := pc } queued) :
    Queued { s with producer := pc } queued :=
  ⟨h.head, h.room, h.tail, h.holds, hpc, h.consumer⟩

/-- A step of the consumer that leaves the queue alone. -/
theorem Queued.consumerMoves (h : Queued s queued) {pc : ConsumerPc T}
    (hpc : OwnHead { s with consumer := pc }) : Queued { s with consumer := pc } queued :=
  ⟨h.head, h.room, h.tail, h.holds, h.producer, hpc⟩

/-- The producer keeps the ring: an insert adds its element behind the last one. -/
theorem Queued.insertStep (h : Queued s queued) (hstep : InsertStep s s') :
    ∃ queued', Queued s' queued' ∧ Change s s' queued queued' := by
  have hknows := h.producer
  unfold ProducerKnows at hknows
  cases hstep with
  | call x hpc => exact ⟨queued, h.producerMoves rfl, .keep rfl rfl rfl⟩
  | readTail hpc =>
    rw [hpc] at hknows
    exact ⟨queued, h.producerMoves ⟨hknows, rfl⟩, .keep rfl rfl rfl⟩
  | readHead hpc =>
    rw [hpc] at hknows
    rcases hknows with ⟨hserial, rfl⟩
    refine ⟨queued, h.producerMoves ?_, .keep rfl rfl rfl⟩
    unfold ProducerKnows
    -- the producer goes on only if one cell stays spare
    by_cases hfull : (s.q.tailIndex + 1) % s.q.maxCount ≠ s.q.headIndex
    · rw [if_pos hfull]
      have hroom := h.room
      have hne := mt h.full_iff.mpr hfull
      exact ⟨hserial, by dsimp only; omega⟩
    · rw [if_neg hfull]
      trivial
  | readCell hpc =>
    rw [hpc] at hknows
    exact ⟨queued, h.producerMoves ⟨hknows.1, hknows.2, rfl⟩, .keep rfl rfl rfl⟩
  | @write x t hpc =>
    rw [hpc] at hknows
    rcases hknows with ⟨hserial, hroom, rfl⟩
    refine ⟨queued, ⟨h.head, h.room, h.tail, ?_, ?_, h.consumer⟩, .keep rfl rfl rfl⟩
    · dsimp only
      rw [h.tail]
      exact h.holds.write h.room
    · exact ⟨hserial, hroom, Function.update_self _ _ _⟩
  | readAgain hpc =>
    rw [hpc] at hknows
    exact ⟨queued, h.producerMoves ⟨hknows.1, hknows.2.1, hknows.2.2, rfl⟩, .keep rfl rfl rfl⟩
  | @store x t hpc =>
    rw [hpc] at hknows
    rcases hknows with ⟨hserial, hroom, hcell, rfl⟩
    refine ⟨queued ++ [x], ⟨h.head, ?_, ?_, ?_, trivial, h.consumer⟩, .insert x hserial rfl rfl rfl⟩
    · rw [List.length_append, List.length_singleton]
      exact hroom
    · dsimp only
      rw [h.tail, pos_add, List.length_append, List.length_singleton]
    · apply h.holds.push
      rw [← h.tail]
      exact hcell
  | done hpc => exact ⟨queued, h.producerMoves trivial, .keep rfl rfl rfl⟩

/-- What the producer knows stays true when elements are taken away. -/
theorem ProducerKnows.fewer {queued' : List (Tagged T)} (h : ProducerKnows s queued)
    (hq : s'.q.maxCount = s.q.maxCount ∧ s'.q.tailIndex = s.q.tailIndex ∧
      s'.q.buffer = s.q.buffer)
    (hpc : s'.producer = s.producer) (hins : s'.inserted = s.inserted)
    (hlen : queued'.length ≤ queued.length) : ProducerKnows s' queued' := by
  rcases hq with ⟨hmax, htail, hbuffer⟩
  unfold ProducerKnows at h ⊢
  rw [hpc, hins, hmax, htail, hbuffer]
  cases hp : s.producer with
  | idle => trivial
  | returned b => trivial
  | clear => trivial
  | clearStore t => trivial
  | insert x =>
    rw [hp] at h
    exact h
  | insertHead x t =>
    rw [hp] at h
    exact h
  | insertCell x =>
    rw [hp] at h
    exact ⟨h.1, by have := h.2; omega⟩
  | insertWrite x t =>
    rw [hp] at h
    exact ⟨h.1, by have := h.2.1; omega, h.2.2⟩
  | insertAgain x =>
    rw [hp] at h
    exact ⟨h.1, by have := h.2.1; omega, h.2.2⟩
  | insertStore x t =>
    rw [hp] at h
    exact ⟨h.1, by have := h.2.1; omega, h.2.2⟩

/-- The consumer keeps the ring, as long as `queue_spsc_remove` finds an element to take when it
writes the head. -/
theorem Queued.removeStep (h : Queued s queued) (hstep : RemoveStep s s')
    (hne : ∀ i, s.consumer = .removeStore i → queued ≠ []) :
    ∃ queued', Queued s' queued' ∧ Change s s' queued queued' := by
  have hown := h.consumer
  unfold OwnHead at hown
  cases hstep with
  | callRemove hpc => exact ⟨queued, h.consumerMoves trivial, .keep rfl rfl rfl⟩
  | removeHead hpc => exact ⟨queued, h.consumerMoves rfl, .keep rfl rfl rfl⟩
  | removeTail hpc =>
    refine ⟨queued, h.consumerMoves ?_, .keep rfl rfl rfl⟩
    unfold OwnHead
    dsimp only
    split_ifs <;> trivial
  | removeAgain hpc => exact ⟨queued, h.consumerMoves rfl, .keep rfl rfl rfl⟩
  | @removeStore i hpc =>
    rw [hpc] at hown
    subst hown
    obtain ⟨rest, hcons⟩ := h.first (hne _ hpc)
    subst hcons
    have hroom := h.room
    rw [List.length_cons] at hroom
    refine ⟨rest, ⟨?_, ?_, ?_, h.holds.pop, ?_, trivial⟩, .remove _ rfl rfl rfl⟩
    · exact Nat.mod_lt _ (by omega)
    · dsimp only
      omega
    · dsimp only
      rw [h.tail, List.length_cons, pos_add, Nat.add_comm rest.length 1]
    · exact h.producer.fewer ⟨rfl, rfl, rfl⟩ rfl rfl (Nat.le_succ _)
  | callPeek hpc => exact ⟨queued, h.consumerMoves trivial, .keep rfl rfl rfl⟩
  | peekTail hpc => exact ⟨queued, h.consumerMoves trivial, .keep rfl rfl rfl⟩
  | peekHead hpc =>
    refine ⟨queued, h.consumerMoves ?_, .keep rfl rfl rfl⟩
    unfold OwnHead
    dsimp only
    split_ifs <;> trivial
  | peekCell hpc => exact ⟨queued, h.consumerMoves rfl, .keep rfl rfl rfl⟩
  | peekRead hpc => exact ⟨queued, h.consumerMoves trivial, .keep rfl rfl rfl⟩
  | callIsEmpty hpc => exact ⟨queued, h.consumerMoves trivial, .keep rfl rfl rfl⟩
  | isEmptyTail hpc => exact ⟨queued, h.consumerMoves trivial, .keep rfl rfl rfl⟩
  | isEmptyHead hpc => exact ⟨queued, h.consumerMoves trivial, .keep rfl rfl rfl⟩
  | done hpc => exact ⟨queued, h.consumerMoves trivial, .keep rfl rfl rfl⟩
  | doneIsEmpty hpc => exact ⟨queued, h.consumerMoves trivial, .keep rfl rfl rfl⟩
  | donePeek hpc => exact ⟨queued, h.consumerMoves trivial, .keep rfl rfl rfl⟩

/-- A fresh queue is an empty ring. -/
theorem Queued.init {maxElements : Nat} (hmax : 1 ≤ maxElements) (h : s.Fresh maxElements) :
    Queued s [] := by
  rcases h with ⟨⟨buffer, hq⟩, hproducer, hconsumer, _⟩
  refine ⟨?_, ?_, ?_, Holds.nil, ?_, ?_⟩
  · rw [hq]
    exact hmax
  · rw [hq]
    exact hmax
  · rw [hq]
    exact (Nat.zero_mod _).symm
  · unfold ProducerKnows
    rw [hproducer]
    trivial
  · unfold OwnHead
    rw [hconsumer]
    trivial

end Steps

end MeOS
