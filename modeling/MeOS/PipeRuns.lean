import MeOS.Pipe
import MeOS.Lib.Queue

/-! # What a pipe keeps

The units of the two semaphores are conserved in every run. As long as no two
threads of a kind are between the read of their position and its update, the
cells from `read_pos` on hold the bytes that are stored and not taken.
-/

namespace MeOS

open HandOff Ring Runs

section Units

variable {s s' : PipeRun} {v : Int} {i n : Nat} {pc pc' : PipePc}

/-! ## Conservation of units -/

/-- A thread in a waiting list is blocked. -/
theorem Units.not_waiting (h : Units v s) (hpc : s.pcs[i]? = some pc) (hfree : pc.blocked = false) :
    i ∉ s.pipe.lockSlots.waiting ∧ i ∉ s.pipe.lockMessages.waiting := by
  constructor
  · intro hmem
    rcases h.writers.2 i hmem with ⟨e, he⟩
    rw [hpc] at he
    cases he
    cases hfree
  · intro hmem
    have he := h.readers.2 i hmem
    rw [hpc] at he
    cases he
    cases hfree

/-- The threads that wait for a message stay blocked when another thread returns. -/
theorem Units.waiting_readers (h : Units v s) (hpc : s.pcs[i]? = some pc)
    (hfree : pc.blocked = false) : ∀ n ∈ s.pipe.lockMessages.waiting,
      ∃ q, (s.pcs.set i pc')[n]? = some q ∧ q.blocked = true := by
  intro n hn
  have hni : n ≠ i := fun heq => (h.not_waiting hpc hfree).2 (heq ▸ hn)
  exact ⟨.readBlocked, (set_other hni).trans (h.readers.2 n hn), rfl⟩

/-- So do the threads that wait for a slot. -/
theorem Units.waiting_writers (h : Units v s) (hpc : s.pcs[i]? = some pc)
    (hfree : pc.blocked = false) : ∀ n ∈ s.pipe.lockSlots.waiting,
      ∃ q, (s.pcs.set i pc')[n]? = some q ∧ q.blocked = true := by
  intro n hn
  have hni : n ≠ i := fun heq => (h.not_waiting hpc hfree).1 (heq ▸ hn)
  rcases h.writers.2 n hn with ⟨e, he⟩
  exact ⟨.writeBlocked e, (set_other hni).trans he, rfl⟩

/-- One thread moves on, and the units it gains are those that the rest loses. -/
theorem Units.moved (h : Units v s) (hpc : s.pcs[i]? = some pc) (hfree : pc.blocked = false)
    (hpcs : s'.pcs = s.pcs.set i pc')
    (hleast : min v 0 ≤ s'.pipe.lockSlots.lock)
    (hslots : s'.pipe.lockSlots.lock + unit PipePc.storing pc' + s'.inBuffer +
      unit PipePc.tookOne pc' = s.pipe.lockSlots.lock + unit PipePc.storing pc + s.inBuffer +
        unit PipePc.tookOne pc)
    (hmessages : s'.inBuffer - s'.pipe.lockMessages.lock - unit PipePc.storedOne pc' -
      unit PipePc.taking pc' = s.inBuffer - s.pipe.lockMessages.lock - unit PipePc.storedOne pc -
        unit PipePc.taking pc)
    (hnonneg : 0 ≤ s'.pipe.lockMessages.lock)
    (hwriters : s'.pipe.lockSlots.waiting = s.pipe.lockSlots.waiting ∨
      s'.pipe.lockSlots.waiting = s.pipe.lockSlots.waiting ++ [i] ∧ ∃ e, pc' = .writeBlocked e)
    (hreaders : s'.pipe.lockMessages.waiting = s.pipe.lockMessages.waiting ∨
      s'.pipe.lockMessages.waiting = s.pipe.lockMessages.waiting ++ [i] ∧ pc' = .readBlocked) :
    Units v s' := by
  -- the counts over all parties change by the moving party's own unit
  have hmove := fun p => countP_move hpc pc' p
  have hslots₀ := h.slots
  have hmessages₀ := h.messages
  rcases h.not_waiting hpc hfree with ⟨hnotw, hnotr⟩
  have hother : ∀ m, m ≠ i → s'.pcs[m]? = s.pcs[m]? := by
    intro m hm
    rw [hpcs]
    exact set_other hm
  have hself : s'.pcs[i]? = some pc' := by
    rw [hpcs]
    exact set_same hpc
  refine ⟨hleast, ?_, ?_, hnonneg, ?_, ?_⟩
  · rw [hpcs, hmove, hmove]
    omega
  · rw [hpcs, hmove, hmove]
    omega
  · -- who waits keeps waiting; at most the moving party joins the queue
    have hold : ∀ m ∈ s.pipe.lockSlots.waiting, ∃ e, s'.pcs[m]? = some (.writeBlocked e) := by
      intro m hm
      rw [hother m fun hmi => hnotw (hmi ▸ hm)]
      exact h.writers.2 m hm
    rcases hwriters with hsame | ⟨hnew, e, he⟩
    · rw [hsame]
      exact ⟨h.writers.1, hold⟩
    · rw [hnew]
      refine ⟨Queue.nodup_push h.writers.1 hnotw, ?_⟩
      intro m hm
      rcases List.mem_append.mp hm with hm | hm
      · exact hold m hm
      · rw [List.mem_singleton.mp hm, hself, he]
        exact ⟨e, rfl⟩
  · have hold : ∀ m ∈ s.pipe.lockMessages.waiting, s'.pcs[m]? = some .readBlocked := by
      intro m hm
      rw [hother m fun hmi => hnotr (hmi ▸ hm)]
      exact h.readers.2 m hm
    rcases hreaders with hsame | ⟨hnew, he⟩
    · rw [hsame]
      exact ⟨h.readers.1, hold⟩
    · rw [hnew]
      refine ⟨Queue.nodup_push h.readers.1 hnotr, ?_⟩
      intro m hm
      rcases List.mem_append.mp hm with hm | hm
      · exact hold m hm
      · rw [List.mem_singleton.mp hm, hself, he]

/-- A signalled slot goes from the counter to the first waiting writer. -/
theorem Units.slotHanded {rest : List Nat} (h : Units v s)
    (hw : s.pipe.lockSlots.waiting = n :: rest)
    (hlock : min v 0 < s.pipe.lockSlots.lock) :
    Units v { s with
      pipe := { s.pipe with lockSlots := ⟨s.pipe.lockSlots.lock - 1, rest⟩ }
      pcs := s.pcs.modify n PipePc.released } := by
  rcases h.writers with ⟨hnodup, hblocked⟩
  rw [hw, List.nodup_cons] at hnodup
  -- the first waiter is woken with the slot in its hand
  rcases hblocked n (by rw [hw]; exact List.mem_cons_self) with ⟨e, he⟩
  have hpcs : s.pcs.modify n PipePc.released = s.pcs.set n (.writePos e) := modify_eq_set he _
  have hmove := fun p => countP_move he (.writePos e) p
  have hslots := h.slots
  have hmessages := h.messages
  rw [hpcs]
  refine ⟨?_, ?_, ?_, h.nonneg, ⟨hnodup.2, ?_⟩, ⟨h.readers.1, ?_⟩⟩
  · dsimp only
    omega
  · dsimp only [PipeRun.inBuffer] at hslots ⊢
    rw [hmove, hmove]
    simp only [unit, PipePc.storing, PipePc.tookOne]
    simp only [Bool.false_eq_true, if_true, if_false]
    omega
  · dsimp only [PipeRun.inBuffer] at hmessages ⊢
    rw [hmove, hmove]
    simp only [unit, PipePc.storedOne, PipePc.taking]
    simp only [Bool.false_eq_true, if_false]
    omega
  · intro m hm
    have hmn : m ≠ n := fun heq => hnodup.1 (heq ▸ hm)
    dsimp only
    rw [set_other hmn]
    exact hblocked m (by rw [hw]; exact List.mem_cons_of_mem n hm)
  · intro m hm
    have hread := h.readers.2 m hm
    have hmn : m ≠ n := by
      intro heq
      rw [heq, he] at hread
      cases hread
    dsimp only
    rw [set_other hmn]
    exact hread

/-- A signalled message goes from the counter to the first waiting reader. -/
theorem Units.messageHanded {rest : List Nat} (h : Units v s)
    (hw : s.pipe.lockMessages.waiting = n :: rest) (hlock : 0 < s.pipe.lockMessages.lock) :
    Units v { s with
      pipe := { s.pipe with lockMessages := ⟨s.pipe.lockMessages.lock - 1, rest⟩ }
      pcs := s.pcs.modify n PipePc.released } := by
  rcases h.readers with ⟨hnodup, hblocked⟩
  rw [hw, List.nodup_cons] at hnodup
  have he := hblocked n (by rw [hw]; exact List.mem_cons_self)
  have hpcs : s.pcs.modify n PipePc.released = s.pcs.set n .readPos := modify_eq_set he _
  have hmove := fun p => countP_move he .readPos p
  have hslots := h.slots
  have hmessages := h.messages
  rw [hpcs]
  refine ⟨h.least, ?_, ?_, ?_, ⟨h.writers.1, ?_⟩, ⟨hnodup.2, ?_⟩⟩
  · dsimp only [PipeRun.inBuffer] at hslots ⊢
    rw [hmove, hmove]
    simp only [unit, PipePc.storing, PipePc.tookOne]
    simp only [Bool.false_eq_true, if_false]
    omega
  · dsimp only [PipeRun.inBuffer] at hmessages ⊢
    rw [hmove, hmove]
    simp only [unit, PipePc.storedOne, PipePc.taking]
    simp only [Bool.false_eq_true, if_true, if_false]
    omega
  · dsimp only
    omega
  · intro m hm
    rcases h.writers.2 m hm with ⟨e, hwrite⟩
    have hmn : m ≠ n := by
      intro heq
      rw [heq, he] at hwrite
      cases hwrite
    dsimp only
    rw [set_other hmn]
    exact ⟨e, hwrite⟩
  · intro m hm
    have hmn : m ≠ n := fun heq => hnodup.1 (heq ▸ hm)
    dsimp only
    rw [set_other hmn]
    exact hblocked m (by rw [hw]; exact List.mem_cons_of_mem n hm)

/-- A wait blocks the thread at the end of the list, or takes a unit. -/
theorem wait_cases (q : Sem Nat) (i : Nat) :
    (q.lock ≤ 0 ∧ (q.wait i).1 = ⟨q.lock, q.waiting ++ [i]⟩) ∨
      (0 < q.lock ∧ (q.wait i).1 = ⟨q.lock - 1, q.waiting⟩) := by
  unfold Sem.wait
  by_cases hlock : q.lock ≤ 0
  · left
    rw [if_pos hlock]
    exact ⟨hlock, rfl⟩
  · right
    rw [if_neg hlock]
    exact ⟨by omega, rfl⟩

/-- What moves a thread of a kind without a semaphore and without the buffer's contents. -/
theorem Units.walks (h : Units v s) (hpc : s.pcs[i]? = some pc) (hfree : pc.blocked = false)
    (hpcs : s'.pcs = s.pcs.set i pc') (hslots : s'.pipe.lockSlots = s.pipe.lockSlots)
    (hmessages : s'.pipe.lockMessages = s.pipe.lockMessages) (hbuffer : s'.inBuffer = s.inBuffer)
    (hsame : ∀ p, p = PipePc.storing ∨ p = PipePc.tookOne ∨ p = PipePc.storedOne ∨
      p = PipePc.taking → unit p pc' = unit p pc) : Units v s' := by
  apply h.moved hpc hfree hpcs
  · rw [hslots]
    exact h.least
  · rw [hslots, hbuffer, hsame _ (Or.inl rfl), hsame _ (Or.inr (Or.inl rfl))]
  · rw [hmessages, hbuffer, hsame _ (Or.inr (Or.inr (Or.inl rfl))),
      hsame _ (Or.inr (Or.inr (Or.inr rfl)))]
  · rw [hmessages]
    exact h.nonneg
  · exact Or.inl (by rw [hslots])
  · exact Or.inl (by rw [hmessages])

/-- Every step of a writer conserves the units. -/
theorem Units.write (h : Units v s) (hstep : PipeWrite i s s') : Units v s' := by
  have hleast := h.least
  have hnonneg := h.nonneg
  cases hstep with
  | call e hpc =>
    rcases wait_cases s.pipe.lockSlots i with ⟨hlock, hwait⟩ | ⟨hlock, hwait⟩
    · rw [hwait, if_pos hlock]
      exact h.moved hpc rfl rfl hleast rfl rfl hnonneg (Or.inr ⟨rfl, e, rfl⟩) (Or.inl rfl)
    · rw [hwait, if_neg (by omega)]
      refine h.moved hpc rfl rfl ?_ ?_ rfl hnonneg (Or.inl rfl) (Or.inl rfl)
      · dsimp only
        omega
      · dsimp only [unit, PipePc.storing, PipePc.tookOne, PipeRun.inBuffer]
        simp only [Bool.false_eq_true, if_true, if_false]
        omega
  | readPos hpc =>
    refine h.walks hpc rfl rfl rfl rfl rfl ?_
    rintro p (rfl | rfl | rfl | rfl) <;> rfl
  | cell hpc =>
    refine h.walks hpc rfl rfl rfl rfl rfl ?_
    rintro p (rfl | rfl | rfl | rfl) <;> rfl
  | readAgain hpc =>
    refine h.walks hpc rfl rfl rfl rfl rfl ?_
    rintro p (rfl | rfl | rfl | rfl) <;> rfl
  | store hpc =>
    refine h.moved hpc rfl rfl hleast ?_ ?_ hnonneg (Or.inl rfl) (Or.inl rfl)
    · dsimp only [unit, PipePc.storing, PipePc.tookOne, PipeRun.inBuffer]
      rw [List.length_append, List.length_singleton]
      simp only [Bool.false_eq_true, if_true, if_false]
      push_cast
      omega
    · dsimp only [unit, PipePc.storedOne, PipePc.taking, PipeRun.inBuffer]
      rw [List.length_append, List.length_singleton]
      simp only [Bool.false_eq_true, if_true, if_false]
      push_cast
      omega
  | signal hpc =>
    -- the message goes to the counter, and from there to a waiting reader
    have hcounted : Units v { s with
        pipe := { s.pipe with
          lockMessages := ⟨s.pipe.lockMessages.lock + 1, s.pipe.lockMessages.waiting⟩ }
        pcs := s.pcs.set i .idle } := by
      refine h.moved hpc rfl rfl hleast rfl ?_ ?_ (Or.inl rfl) (Or.inl rfl)
      · dsimp only [unit, PipePc.storedOne, PipePc.taking, PipeRun.inBuffer]
        simp only [Bool.false_eq_true, if_true, if_false]
        omega
      · dsimp only
        omega
    unfold Sem.signal release
    cases hw : s.pipe.lockMessages.waiting with
    | nil =>
      rw [hw] at hcounted
      exact hcounted
    | cons n rest =>
      have hhanded := hcounted.messageHanded hw (by dsimp only; omega)
      dsimp only at hhanded
      rw [Int.add_sub_cancel] at hhanded
      exact hhanded

/-- Every step of a reader conserves the units. -/
theorem Units.read (h : Units v s) (hstep : PipeRead i s s') : Units v s' := by
  have hleast := h.least
  have hnonneg := h.nonneg
  cases hstep with
  | call hpc =>
    rcases wait_cases s.pipe.lockMessages i with ⟨hlock, hwait⟩ | ⟨hlock, hwait⟩
    · rw [hwait, if_pos hlock]
      exact h.moved hpc rfl rfl hleast rfl rfl hnonneg (Or.inl rfl) (Or.inr ⟨rfl, rfl⟩)
    · rw [hwait, if_neg (by omega)]
      refine h.moved hpc rfl rfl hleast rfl ?_ ?_ (Or.inl rfl) (Or.inl rfl)
      · dsimp only [unit, PipePc.storedOne, PipePc.taking, PipeRun.inBuffer]
        simp only [Bool.false_eq_true, if_true, if_false]
        omega
      · dsimp only
        omega
  | readPos hpc =>
    refine h.walks hpc rfl rfl rfl rfl rfl ?_
    rintro p (rfl | rfl | rfl | rfl) <;> rfl
  | cell hpc =>
    refine h.walks hpc rfl rfl rfl rfl rfl ?_
    rintro p (rfl | rfl | rfl | rfl) <;> rfl
  | readAgain hpc =>
    refine h.walks hpc rfl rfl rfl rfl rfl ?_
    rintro p (rfl | rfl | rfl | rfl) <;> rfl
  | store hpc =>
    refine h.moved hpc rfl rfl hleast ?_ ?_ hnonneg (Or.inl rfl) (Or.inl rfl)
    · dsimp only [unit, PipePc.storing, PipePc.tookOne, PipeRun.inBuffer]
      rw [List.length_append, List.length_singleton]
      simp only [Bool.false_eq_true, if_true, if_false]
      push_cast
      omega
    · dsimp only [unit, PipePc.storedOne, PipePc.taking, PipeRun.inBuffer]
      rw [List.length_append, List.length_singleton]
      simp only [Bool.false_eq_true, if_true, if_false]
      push_cast
      omega
  | @signal e hpc =>
    -- the slot goes to the counter, and from there to a waiting writer
    have hcounted : Units v { s with
        pipe := { s.pipe with
          lockSlots := ⟨s.pipe.lockSlots.lock + 1, s.pipe.lockSlots.waiting⟩ }
        pcs := s.pcs.set i .idle
        returned := s.returned ++ [e] } := by
      refine h.moved hpc rfl rfl ?_ ?_ rfl hnonneg (Or.inl rfl) (Or.inl rfl)
      · dsimp only
        omega
      · dsimp only [unit, PipePc.storing, PipePc.tookOne, PipeRun.inBuffer]
        simp only [Bool.false_eq_true, if_true, if_false]
        omega
    unfold Sem.signal release
    cases hw : s.pipe.lockSlots.waiting with
    | nil =>
      rw [hw] at hcounted
      exact hcounted
    | cons n rest =>
      have hhanded := hcounted.slotHanded hw (by dsimp only; omega)
      dsimp only at hhanded
      rw [Int.add_sub_cancel] at hhanded
      exact hhanded

/-- The units at the start. -/
theorem Units.init {size threads : Nat} (h : s.Fresh size threads) : Units (wrapInt32 size) s := by
  rcases h with ⟨⟨buf, hpipe⟩, hpcs, _, hstored, htaken, _⟩
  have hnone : ∀ p : PipePc → Bool, p .idle = false → s.pcs.countP p = 0 := by
    intro p hp
    rw [hpcs, List.countP_eq_zero]
    intro pc hmem
    rw [List.eq_of_mem_replicate hmem, hp]
    exact Bool.false_ne_true
  have hempty : s.inBuffer = 0 := by
    unfold PipeRun.inBuffer
    rw [hstored, htaken]
    rfl
  have hslots : s.pipe.lockSlots = ⟨wrapInt32 size, []⟩ := by
    rw [hpipe]
    rfl
  have hmessages : s.pipe.lockMessages = ⟨0, []⟩ := by
    rw [hpipe]
    rfl
  generalize wrapInt32 size = v at hslots ⊢
  refine ⟨?_, ?_, ?_, ?_, ?_, ?_⟩
  · rw [hslots]
    exact Int.min_le_left _ _
  · rw [hslots, hempty, hnone _ rfl, hnone _ rfl]
    simp
  · rw [hmessages, hempty, hnone _ rfl, hnone _ rfl]
    rfl
  · rw [hmessages]
  · rw [hslots]
    exact ⟨List.nodup_nil, fun n hn => by cases hn⟩
  · rw [hmessages]
    exact ⟨List.nodup_nil, fun n hn => by cases hn⟩

end Units

/-! ## The bytes in the buffer -/

/-- What a thread between the read of `write_pos` and its update knows. -/
def WriterKnows (s : PipeRun) : PipePc → Prop
  | .writeCell _ p => p = s.pipe.writePos
  | .writeAgain e => s.pipe.buffer s.pipe.writePos = e
  | .writeStore e p => p = s.pipe.writePos ∧ s.pipe.buffer s.pipe.writePos = e
  | _ => True

/-- What a thread between the read of `read_pos` and its update knows. -/
def ReaderKnows (s : PipeRun) : PipePc → Prop
  | .readCell p => p = s.pipe.readPos
  | .readAgain e => s.pipe.buffer s.pipe.readPos = e
  | .readStore e p => p = s.pipe.readPos ∧ s.pipe.buffer s.pipe.readPos = e
  | _ => True

/-- At most one thread is in a part of the code. -/
def Alone (p : PipePc → Bool) (s : PipeRun) : Prop :=
  ∀ (i j : Nat) (pc pc' : PipePc), s.pcs[i]? = some pc → s.pcs[j]? = some pc' → p pc = true →
    p pc' = true → i = j

/-- The buffer holds `l`, which was stored and not taken. -/
structure Contents (s : PipeRun) (l : List UInt8) : Prop where
  readPos : s.pipe.readPos < s.pipe.size
  writePos : s.pipe.writePos = (s.pipe.readPos + l.length) % s.pipe.size
  ring : Ring.Holds s.pipe.size s.pipe.buffer s.pipe.readPos l
  logs : s.stored = s.taken ++ l
  storing : Alone PipePc.inStore s
  taking : Alone PipePc.inTake s
  knows : ∀ (i : Nat) (pc : PipePc), s.pcs[i]? = some pc → WriterKnows s pc ∧ ReaderKnows s pc

/-- Thread `i` reads `write_pos` for its cell when no other thread is between its read of
`write_pos` and its update. -/
def StoresAlone (i : Nat) (s : PipeRun) : Prop :=
  ∀ e, s.pcs[i]? = some (.writePos e) →
    ∀ (j : Nat) (pc : PipePc), s.pcs[j]? = some pc → pc.inStore = false

/-- Thread `i` reads `read_pos` for its cell when no other thread is between its read of
`read_pos` and its update. -/
def TakesAlone (i : Nat) (s : PipeRun) : Prop :=
  s.pcs[i]? = some .readPos →
    ∀ (j : Nat) (pc : PipePc), s.pcs[j]? = some pc → pc.inTake = false

/-- Any threads read and write, but stores do not overlap, and neither do takes. -/
def serialSystem (size threads : Nat) : System PipeRun where
  Init := PipeRun.Fresh size threads
  Next s s' := ∃ i, PipeWrite i s s' ∧ StoresAlone i s ∨ PipeRead i s s' ∧ TakesAlone i s

section Contents

variable {s s' : PipeRun} {v : Int} {i n : Nat} {pc pc' : PipePc} {l l' : List UInt8}

/-- Outside the stores and the takes there is nothing to know. -/
theorem WriterKnows.of_not (h : pc.inStore = false) : WriterKnows s pc := by
  cases pc <;> trivial

theorem ReaderKnows.of_not (h : pc.inTake = false) : ReaderKnows s pc := by
  cases pc <;> trivial

theorem WriterKnows.congr (h : WriterKnows s pc) (hpos : s'.pipe.writePos = s.pipe.writePos)
    (hcell : s'.pipe.buffer s.pipe.writePos = s.pipe.buffer s.pipe.writePos) :
    WriterKnows s' pc := by
  unfold WriterKnows at h ⊢
  rw [hpos, hcell]
  exact h

theorem ReaderKnows.congr (h : ReaderKnows s pc) (hpos : s'.pipe.readPos = s.pipe.readPos)
    (hcell : s'.pipe.buffer s.pipe.readPos = s.pipe.buffer s.pipe.readPos) :
    ReaderKnows s' pc := by
  unfold ReaderKnows at h ⊢
  rw [hpos, hcell]
  exact h

theorem Contents.inBuffer (h : Contents s l) : s.inBuffer = l.length := by
  unfold PipeRun.inBuffer
  rw [h.logs, List.length_append]
  push_cast
  omega

/-- A kind of threads with a member has a positive count. -/
theorem countP_pos {p : PipePc → Bool} (hpc : s.pcs[i]? = some pc) (hp : p pc = true) :
    0 < s.pcs.countP p :=
  List.countP_pos_iff.mpr ⟨pc, List.mem_of_getElem? hpc, hp⟩

/-- A writer with a slot has room in the buffer. -/
theorem Contents.room (h : Contents s l) (hu : Units v s) (hv : v ≤ s.pipe.size)
    (hpc : s.pcs[i]? = some pc) (hstoring : pc.storing = true) : l.length < s.pipe.size := by
  have hcount := countP_pos hpc hstoring
  have hslots := hu.slots
  have hleast := hu.least
  have hbuffer := h.inBuffer
  omega

/-- A reader with a message has a byte in the buffer. -/
theorem Contents.nonempty (h : Contents s l) (hu : Units v s) (hpc : s.pcs[i]? = some pc)
    (htaking : pc.taking = true) : l ≠ [] := by
  have hcount := countP_pos hpc htaking
  have hmessages := hu.messages
  have hnonneg := hu.nonneg
  have hbuffer := h.inBuffer
  intro hnil
  rw [hnil, List.length_nil] at hbuffer
  omega

/-- Thread `i` moves from `pc` to `pc'`. -/
theorem Contents.moved (h : Contents s l) (hpcs : s'.pcs = s.pcs.set i pc')
    (hpc : s.pcs[i]? = some pc) (hreadPos : s'.pipe.readPos < s'.pipe.size)
    (hwritePos : s'.pipe.writePos = (s'.pipe.readPos + l'.length) % s'.pipe.size)
    (hring : Ring.Holds s'.pipe.size s'.pipe.buffer s'.pipe.readPos l')
    (hlogs : s'.stored = s'.taken ++ l')
    (hstoring : pc'.inStore = true → ∀ (j : Nat) (q : PipePc), j ≠ i → s.pcs[j]? = some q →
      q.inStore = false)
    (htaking : pc'.inTake = true → ∀ (j : Nat) (q : PipePc), j ≠ i → s.pcs[j]? = some q →
      q.inTake = false)
    (hself : WriterKnows s' pc' ∧ ReaderKnows s' pc')
    (hothers : ∀ (j : Nat) (q : PipePc), j ≠ i → s.pcs[j]? = some q →
      WriterKnows s' q ∧ ReaderKnows s' q) : Contents s' l' := by
  have hi : s'.pcs[i]? = some pc' := by
    rw [hpcs]
    exact set_same hpc
  have hother : ∀ j, j ≠ i → s'.pcs[j]? = s.pcs[j]? := by
    intro j hj
    rw [hpcs]
    exact set_other hj
  -- one party moves, so a second one at the same place would have been there before
  have halone : ∀ p : PipePc → Bool, Alone p s →
      (p pc' = true → ∀ (j : Nat) (q : PipePc), j ≠ i → s.pcs[j]? = some q → p q = false) →
        Alone p s' := by
    intro p hp hnew j k q q' hq hq' hpq hpq'
    by_cases hj : j = i
    · by_cases hk : k = i
      · rw [hj, hk]
      · rw [hj, hi] at hq
        cases hq
        rw [hother k hk] at hq'
        rw [hnew hpq k q' hk hq'] at hpq'
        cases hpq'
    · rw [hother j hj] at hq
      by_cases hk : k = i
      · rw [hk, hi] at hq'
        cases hq'
        rw [hnew hpq' j q hj hq] at hpq
        cases hpq
      · rw [hother k hk] at hq'
        exact hp j k q q' hq hq' hpq hpq'
  refine ⟨hreadPos, hwritePos, hring, hlogs, halone _ h.storing hstoring,
    halone _ h.taking htaking, ?_⟩
  intro j q hq
  by_cases hj : j = i
  · rw [hj, hi] at hq
    cases hq
    exact hself
  · rw [hother j hj] at hq
    exact hothers j q hj hq

/-- Thread `i` moves and the buffer stays. -/
theorem Contents.walks (h : Contents s l) (hpcs : s'.pcs = s.pcs.set i pc')
    (hpc : s.pcs[i]? = some pc) (hsize : s'.pipe.size = s.pipe.size)
    (hbuffer : s'.pipe.buffer = s.pipe.buffer) (hread : s'.pipe.readPos = s.pipe.readPos)
    (hwrite : s'.pipe.writePos = s.pipe.writePos) (hstored : s'.stored = s.stored)
    (htaken : s'.taken = s.taken)
    (hstoring : pc'.inStore = true → pc.inStore = true ∨
      ∀ (j : Nat) (q : PipePc), s.pcs[j]? = some q → q.inStore = false)
    (htaking : pc'.inTake = true → pc.inTake = true ∨
      ∀ (j : Nat) (q : PipePc), s.pcs[j]? = some q → q.inTake = false)
    (hself : WriterKnows s pc' ∧ ReaderKnows s pc') : Contents s' l := by
  have hkeep : ∀ q, WriterKnows s q ∧ ReaderKnows s q → WriterKnows s' q ∧ ReaderKnows s' q := by
    intro q hq
    exact ⟨hq.1.congr hwrite (by rw [hbuffer]), hq.2.congr hread (by rw [hbuffer])⟩
  apply h.moved hpcs hpc
  · rw [hread, hsize]
    exact h.readPos
  · rw [hread, hwrite, hsize]
    exact h.writePos
  · rw [hread, hbuffer, hsize]
    exact h.ring
  · rw [hstored, htaken]
    exact h.logs
  · intro hnew j q hj hq
    rcases hstoring hnew with hold | hall
    · by_contra hin
      exact hj (h.storing j i q pc hq hpc (by simpa using hin) hold)
    · exact hall j q hq
  · intro hnew j q hj hq
    rcases htaking hnew with hold | hall
    · by_contra hin
      exact hj (h.taking j i q pc hq hpc (by simpa using hin) hold)
    · exact hall j q hq
  · exact hkeep pc' hself
  · intro j q _ hq
    exact hkeep q (h.knows j q hq)

/-- The other threads are outside the part that thread `i` is in. -/
theorem Alone.others {p : PipePc → Bool} (h : Alone p s) (hpc : s.pcs[i]? = some pc)
    (hp : p pc = true) : ∀ (j : Nat) (q : PipePc), j ≠ i → s.pcs[j]? = some q → p q = false := by
  intro j q hj hq
  by_contra hin
  exact hj (h j i q pc hq hpc (by simpa using hin) hp)

/-- A thread that a signal releases is in front of its store or take. -/
theorem Contents.released (h : Contents s l) (q : Sem Nat)
    (hblocked : ∀ n ∈ q.waiting, ∃ pc, s.pcs[n]? = some pc ∧ pc.blocked = true) :
    Contents { s with pcs := release s.pcs q } l := by
  unfold release
  cases hq : q.waiting with
  | nil => exact h
  | cons n rest =>
    rcases hblocked n (by rw [hq]; exact List.mem_cons_self) with ⟨pc, hpc, hb⟩
    have houtside : pc.released.inStore = false ∧ pc.released.inTake = false := by
      cases pc <;> first | exact ⟨rfl, rfl⟩ | cases hb
    refine h.walks (modify_eq_set hpc _) hpc rfl rfl rfl rfl rfl rfl ?_ ?_
      ⟨WriterKnows.of_not houtside.1, ReaderKnows.of_not houtside.2⟩
    · intro hin
      rw [houtside.1] at hin
      cases hin
    · intro hin
      rw [houtside.2] at hin
      cases hin

/-- Thread `i` moves outside of the stores and the takes. -/
theorem Contents.passes (h : Contents s l) (hpc : s.pcs[i]? = some pc)
    (hpcs : s'.pcs = s.pcs.set i pc') (hsize : s'.pipe.size = s.pipe.size)
    (hbuffer : s'.pipe.buffer = s.pipe.buffer) (hread : s'.pipe.readPos = s.pipe.readPos)
    (hwrite : s'.pipe.writePos = s.pipe.writePos) (hstored : s'.stored = s.stored)
    (htaken : s'.taken = s.taken) (hstore : pc'.inStore = false) (htake : pc'.inTake = false) :
    Contents s' l := by
  refine h.walks hpcs hpc hsize hbuffer hread hwrite hstored htaken ?_ ?_
    ⟨WriterKnows.of_not hstore, ReaderKnows.of_not htake⟩
  · intro hin
    rw [hstore] at hin
    cases hin
  · intro hin
    rw [htake] at hin
    cases hin

/-- A writer that reads `write_pos` when no other store is under way keeps the
contents; its update of `write_pos` adds the element. -/
theorem Contents.write (h : Contents s l) (hu : Units v s) (hv : v ≤ s.pipe.size)
    (hstep : PipeWrite i s s') (halone : StoresAlone i s) : ∃ l', Contents s' l' := by
  cases hstep with
  | call e hpc =>
    refine ⟨l, h.passes hpc rfl rfl rfl rfl rfl rfl rfl ?_ ?_⟩
    · split <;> rfl
    · split <;> rfl
  | @readPos e hpc =>
    refine ⟨l, h.walks rfl hpc rfl rfl rfl rfl rfl rfl ?_ ?_ ⟨rfl, trivial⟩⟩
    · intro _
      exact Or.inr (halone e hpc)
    · intro hin
      cases hin
  | @cell e p hpc =>
    have hp : p = s.pipe.writePos := (h.knows i _ hpc).1
    subst hp
    have hroom := h.room hu hv hpc rfl
    refine ⟨l, h.moved rfl hpc h.readPos h.writePos ?_ h.logs ?_ ?_ ⟨?_, trivial⟩ ?_⟩
    · dsimp only
      rw [h.writePos]
      exact h.ring.write hroom
    · intro _
      exact h.storing.others hpc rfl
    · intro hin
      cases hin
    · exact Function.update_self _ _ _
    · intro j q hj hq
      refine ⟨WriterKnows.of_not (h.storing.others hpc rfl j q hj hq), ?_⟩
      by_cases hin : q.inTake = true
      · -- a reader is at work, so `read_pos` is not the free cell
        refine (h.knows j q hq).2.congr rfl (Function.update_of_ne ?_ _ _)
        have htaking : q.taking = true := by
          cases q <;> first | rfl | cases hin
        have hpos : 0 < l.length := List.length_pos_of_ne_nil (h.nonempty hu hq htaking)
        have hspare :
            (s.pipe.readPos + l.length) % s.pipe.size ≠ (s.pipe.readPos + 0) % s.pipe.size :=
          Ring.spare hroom hpos
        rw [Nat.add_zero, Nat.mod_eq_of_lt h.readPos, ← h.writePos] at hspare
        exact Ne.symm hspare
      · exact ReaderKnows.of_not (by simpa using hin)
  | @readAgain e hpc =>
    refine ⟨l, h.walks rfl hpc rfl rfl rfl rfl rfl rfl ?_ ?_ ⟨⟨rfl, (h.knows i _ hpc).1⟩, trivial⟩⟩
    · intro _
      exact Or.inl rfl
    · intro hin
      cases hin
  | @store e p hpc =>
    rcases (h.knows i _ hpc).1 with ⟨rfl, hcell⟩
    refine ⟨l ++ [e], h.moved rfl hpc h.readPos ?_ ?_ ?_ ?_ ?_ ⟨trivial, trivial⟩ ?_⟩
    · dsimp only
      rw [h.writePos, Ring.pos_add, List.length_append, List.length_singleton]
    · rw [h.writePos] at hcell
      exact h.ring.push hcell
    · dsimp only
      rw [h.logs, List.append_assoc]
    · intro hin
      cases hin
    · intro hin
      cases hin
    · intro j q hj hq
      exact ⟨WriterKnows.of_not (h.storing.others hpc rfl j q hj hq),
        (h.knows j q hq).2.congr rfl rfl⟩
  | signal hpc =>
    have hidle : Contents { s with
        pipe := { s.pipe with lockMessages := (s.pipe.lockMessages.signal i).1 }
        pcs := s.pcs.set i .idle } l := h.passes hpc rfl rfl rfl rfl rfl rfl rfl rfl rfl
    exact ⟨l, hidle.released s.pipe.lockMessages (hu.waiting_readers hpc rfl)⟩

/-- A reader that reads `read_pos` when no other take is under way keeps the
contents; its update of `read_pos` removes the first byte. -/
theorem Contents.read (h : Contents s l) (hu : Units v s) (hstep : PipeRead i s s')
    (halone : TakesAlone i s) : ∃ l', Contents s' l' := by
  cases hstep with
  | call hpc =>
    refine ⟨l, h.passes hpc rfl rfl rfl rfl rfl rfl rfl ?_ ?_⟩
    · split <;> rfl
    · split <;> rfl
  | readPos hpc =>
    refine ⟨l, h.walks rfl hpc rfl rfl rfl rfl rfl rfl ?_ ?_ ⟨trivial, rfl⟩⟩
    · intro hin
      cases hin
    · intro _
      exact Or.inr (halone hpc)
  | @cell p hpc =>
    -- between the two reads of the position no other party takes
    have hp : p = s.pipe.readPos := (h.knows i _ hpc).2
    subst hp
    refine ⟨l, h.walks rfl hpc rfl rfl rfl rfl rfl rfl ?_ ?_ ⟨trivial, rfl⟩⟩
    · intro hin
      cases hin
    · intro _
      exact Or.inl rfl
  | @readAgain e hpc =>
    refine ⟨l, h.walks rfl hpc rfl rfl rfl rfl rfl rfl ?_ ?_ ⟨trivial, ⟨rfl, (h.knows i _ hpc).2⟩⟩⟩
    · intro hin
      cases hin
    · intro _
      exact Or.inl rfl
  | @store e p hpc =>
    rcases (h.knows i _ hpc).2 with ⟨rfl, hcell⟩
    -- the reader holds a unit of the messages, so the ring is not empty
    rcases List.exists_cons_of_ne_nil (h.nonempty hu hpc rfl) with ⟨x, rest, rfl⟩
    have hx : x = e := by
      rw [← h.ring.first h.readPos, hcell]
    subst hx
    refine ⟨rest, h.moved rfl hpc ?_ ?_ ?_ ?_ ?_ ?_ ⟨trivial, trivial⟩ ?_⟩
    · have hpos := h.readPos
      exact Nat.mod_lt _ (by omega)
    · dsimp only
      rw [h.writePos, Ring.pos_add, List.length_cons, Nat.add_comm rest.length 1]
    · exact h.ring.pop
    · dsimp only
      rw [h.logs, List.append_assoc]
      rfl
    · intro hin
      cases hin
    · intro hin
      cases hin
    · intro j q hj hq
      exact ⟨(h.knows j q hq).1.congr rfl rfl,
        ReaderKnows.of_not (h.taking.others hpc rfl j q hj hq)⟩
  | @signal e hpc =>
    have hidle : Contents { s with
        pipe := { s.pipe with lockSlots := (s.pipe.lockSlots.signal i).1 }
        pcs := s.pcs.set i .idle
        returned := s.returned ++ [e] } l := h.passes hpc rfl rfl rfl rfl rfl rfl rfl rfl rfl
    exact ⟨l, hidle.released s.pipe.lockSlots (hu.waiting_writers hpc rfl)⟩

/-- The empty pipe. -/
theorem Contents.init {size threads : Nat} (hsize : 0 < size) (h : s.Fresh size threads) :
    Contents s [] := by
  rcases h with ⟨⟨buf, hpipe⟩, hpcs, _, hstored, htaken, _⟩
  have hidle : ∀ (j : Nat) (q : PipePc), s.pcs[j]? = some q → q = .idle := by
    intro j q hq
    rw [hpcs] at hq
    exact List.eq_of_mem_replicate (List.mem_of_getElem? hq)
  refine ⟨?_, ?_, Ring.Holds.nil, ?_, ?_, ?_, ?_⟩
  · rw [hpipe]
    exact hsize
  · rw [hpipe]
    exact (Nat.zero_mod size).symm
  · rw [hstored, htaken]
    rfl
  · intro j k q q' hq _ hin
    rw [hidle j q hq] at hin
    cases hin
  · intro j k q q' hq _ hin
    rw [hidle j q hq] at hin
    cases hin
  · intro j q hq
    rw [hidle j q hq]
    exact ⟨trivial, trivial⟩

end Contents

end MeOS
