import MeOS.PipeRuns

/-! # What comes out of a pipe

With several writers the counting semaphore lets as many of them in as there are
slots, and two of them may store into the same cell. When no two stores and no
two takes overlap, nothing is lost. With one writer and one reader this is so by
itself, and the bytes come out in order; the slots are counted in an `int32`, so
the size must be one.
-/

namespace MeOS

open HandOff Ring Runs

/-! ## Bytes in hand -/

/-- The bytes passed to `pipe_write` are stored or in the hand of a writer, and the
bytes taken are returned or in the hand of a reader. -/
structure Accounts (s : PipeRun) : Prop where
  writes : s.passed.Perm (s.stored ++ s.pcs.filterMap PipePc.toStore)
  reads : s.taken.Perm (s.returned ++ s.pcs.filterMap PipePc.toReturn)

section Accounts

variable {s s' : PipeRun} {i : Nat} {pc pc' : PipePc}

/-- A log grows by what leaves the hand of the thread that moves. -/
theorem hands_moved {f : PipePc → Option UInt8} {whole part whole' part' : List UInt8}
    (h : whole.Perm (part ++ s.pcs.filterMap f)) (hpc : s.pcs[i]? = some pc)
    (hlogs : (whole' ++ part ++ (f pc).toList).Perm (whole ++ part' ++ (f pc').toList)) :
    whole'.Perm (part' ++ (s.pcs.set i pc').filterMap f) := by
  have hmove : ((f pc).toList ++ (s.pcs.set i pc').filterMap f).Perm _ := filterMap_move hpc f
  rw [List.perm_iff_count] at h hlogs hmove ⊢
  intro x
  have h₁ := h x
  have h₂ := hlogs x
  have h₃ := hmove x
  simp only [List.count_append] at h₁ h₂ h₃ ⊢
  omega

/-- Thread `i` moves, and the logs grow by what it gets and gives. -/
theorem Accounts.moved (h : Accounts s) (hpc : s.pcs[i]? = some pc)
    (hpcs : s'.pcs = s.pcs.set i pc')
    (hwrites : (s'.passed ++ s.stored ++ pc.toStore.toList).Perm
      (s.passed ++ s'.stored ++ pc'.toStore.toList))
    (hreads : (s'.taken ++ s.returned ++ pc.toReturn.toList).Perm
      (s.taken ++ s'.returned ++ pc'.toReturn.toList)) : Accounts s' := by
  constructor
  · rw [hpcs]
    exact hands_moved h.writes hpc hwrites
  · rw [hpcs]
    exact hands_moved h.reads hpc hreads

/-- A released thread has in hand what it had. -/
theorem Accounts.released (h : Accounts s) (q : Sem Nat)
    (hblocked : ∀ n ∈ q.waiting, ∃ pc, s.pcs[n]? = some pc ∧ pc.blocked = true) :
    Accounts { s with pcs := release s.pcs q } := by
  unfold release
  cases hq : q.waiting with
  | nil => exact h
  | cons n rest =>
    rcases hblocked n (by rw [hq]; exact List.mem_cons_self) with ⟨pc, hpc, _⟩
    have hsame : pc.released.toStore = pc.toStore ∧ pc.released.toReturn = pc.toReturn := by
      cases pc <;> exact ⟨rfl, rfl⟩
    refine h.moved hpc (modify_eq_set hpc _) ?_ ?_
    · rw [hsame.1]
    · rw [hsame.2]

/-- Every step of a writer. -/
theorem Accounts.write {v : Int} (h : Accounts s) (hu : Units v s) (hstep : PipeWrite i s s') :
    Accounts s' := by
  cases hstep with
  | call e hpc =>
    have hhand : ∀ c : Prop, [Decidable c] → (if c then PipePc.writeBlocked e
        else PipePc.writePos e).toStore = some e := by
      intro c _
      split <;> rfl
    have hnone : ∀ c : Prop, [Decidable c] → (if c then PipePc.writeBlocked e
        else PipePc.writePos e).toReturn = none := by
      intro c _
      split <;> rfl
    refine h.moved hpc rfl ?_ ?_
    · rw [hhand]
      show (s.passed ++ [e] ++ s.stored ++ []).Perm (s.passed ++ s.stored ++ [e])
      rw [List.append_nil, List.append_assoc, List.append_assoc]
      exact List.perm_append_comm.append_left s.passed
    · rw [hnone]
      exact List.Perm.refl _
  | readPos hpc => exact h.moved hpc rfl (List.Perm.refl _) (List.Perm.refl _)
  | cell hpc => exact h.moved hpc rfl (List.Perm.refl _) (List.Perm.refl _)
  | readAgain hpc => exact h.moved hpc rfl (List.Perm.refl _) (List.Perm.refl _)
  | @store e p hpc =>
    refine h.moved hpc rfl ?_ (List.Perm.refl _)
    show (s.passed ++ s.stored ++ [e]).Perm (s.passed ++ (s.stored ++ [e]) ++ [])
    rw [List.append_nil, List.append_assoc]
  | signal hpc =>
    have hidle : Accounts { s with
        pipe := { s.pipe with lockMessages := (s.pipe.lockMessages.signal i).1 }
        pcs := s.pcs.set i .idle } := h.moved hpc rfl (List.Perm.refl _) (List.Perm.refl _)
    exact hidle.released s.pipe.lockMessages (hu.waiting_readers hpc rfl)

/-- Every step of a reader. -/
theorem Accounts.read {v : Int} (h : Accounts s) (hu : Units v s) (hstep : PipeRead i s s') :
    Accounts s' := by
  cases hstep with
  | call hpc =>
    have hnone : ∀ c : Prop, [Decidable c] → (if c then PipePc.readBlocked
        else PipePc.readPos).toStore = none ∧ (if c then PipePc.readBlocked
        else PipePc.readPos).toReturn = none := by
      intro c _
      split <;> exact ⟨rfl, rfl⟩
    refine h.moved hpc rfl ?_ ?_
    · rw [(hnone _).1]
      exact List.Perm.refl _
    · rw [(hnone _).2]
      exact List.Perm.refl _
  | readPos hpc => exact h.moved hpc rfl (List.Perm.refl _) (List.Perm.refl _)
  | cell hpc => exact h.moved hpc rfl (List.Perm.refl _) (List.Perm.refl _)
  | readAgain hpc => exact h.moved hpc rfl (List.Perm.refl _) (List.Perm.refl _)
  | @store e p hpc =>
    refine h.moved hpc rfl (List.Perm.refl _) ?_
    show (s.taken ++ [e] ++ s.returned ++ []).Perm (s.taken ++ s.returned ++ [e])
    rw [List.append_nil, List.append_assoc, List.append_assoc]
    exact List.perm_append_comm.append_left s.taken
  | @signal e hpc =>
    have hidle : Accounts { s with
        pipe := { s.pipe with lockSlots := (s.pipe.lockSlots.signal i).1 }
        pcs := s.pcs.set i .idle
        returned := s.returned ++ [e] } := by
      refine h.moved hpc rfl (List.Perm.refl _) ?_
      show (s.taken ++ s.returned ++ [e]).Perm (s.taken ++ (s.returned ++ [e]) ++ [])
      rw [List.append_nil, List.append_assoc]
    exact hidle.released s.pipe.lockSlots (hu.waiting_writers hpc rfl)

theorem Accounts.init {size threads : Nat} (h : s.Fresh size threads) : Accounts s := by
  rcases h with ⟨_, hpcs, hpassed, hstored, htaken, hreturned⟩
  have hnone : ∀ f : PipePc → Option UInt8, f .idle = none → s.pcs.filterMap f = [] := by
    intro f hf
    rw [hpcs, List.filterMap_replicate_of_none hf]
  constructor
  · rw [hpassed, hstored, hnone _ rfl]
    rfl
  · rw [htaken, hreturned, hnone _ rfl]
    rfl

end Accounts

/-! ## Nothing is lost -/

/-- The slots that `create_pipe` counts. -/
theorem wrapInt32_size {size : Nat} (hword : size < 4294967296) :
    wrapInt32 size = if size < 2147483648 then (size : Int) else size - 4294967296 := by
  by_cases hsmall : size < 2147483648
  · rw [if_pos hsmall]
    exact wrapInt32_eq (by omega) (by omega)
  · rw [if_neg hsmall]
    unfold wrapInt32
    rw [Int.bmod_def]
    split <;> omega

/-- The size of a pipe stays. -/
theorem PipeWrite.size_eq {s s' : PipeRun} {i : Nat} (h : PipeWrite i s s') :
    s'.pipe.size = s.pipe.size := by
  cases h <;> rfl

theorem PipeRead.size_eq {s s' : PipeRun} {i : Nat} (h : PipeRead i s s') :
    s'.pipe.size = s.pipe.size := by
  cases h <;> rfl

/-- The bytes still in the buffer: one cell for each message, from `read_pos` on. -/
def PipeState.held (p : PipeState) : List UInt8 :=
  (List.range p.lockMessages.lock.toNat).map fun k => p.buffer ((p.readPos + k) % p.size)

/-- What holds in every run without overlapping stores or takes. -/
structure PipeInv (size : Nat) (s : PipeRun) : Prop where
  cells : s.pipe.size = size
  units : Units (wrapInt32 size) s
  contents : ∃ l, Contents s l
  accounts : Accounts s

section Serial

variable {s s' : PipeRun} {size threads i : Nat}

theorem PipeInv.init (hsize : 1 ≤ size) (h : s.Fresh size threads) : PipeInv size s where
  cells := by
    rcases h.1 with ⟨buf, hpipe⟩
    rw [hpipe]
    rfl
  units := Units.init h
  contents := ⟨[], Contents.init hsize h⟩
  accounts := Accounts.init h

/-- The slots are at most the cells. -/
theorem PipeInv.fits (h : PipeInv size s) (hword : size < 4294967296) :
    wrapInt32 size ≤ s.pipe.size := by
  rw [h.cells, wrapInt32_size hword]
  split <;> omega

theorem PipeInv.write (h : PipeInv size s) (hword : size < 4294967296)
    (hstep : PipeWrite i s s') (halone : StoresAlone i s) : PipeInv size s' where
  cells := hstep.size_eq.trans h.cells
  units := h.units.write hstep
  contents := by
    rcases h.contents with ⟨l, hl⟩
    exact hl.write h.units (h.fits hword) hstep halone
  accounts := h.accounts.write h.units hstep

theorem PipeInv.read (h : PipeInv size s) (hstep : PipeRead i s s')
    (halone : TakesAlone i s) : PipeInv size s' where
  cells := hstep.size_eq.trans h.cells
  units := h.units.read hstep
  contents := by
    rcases h.contents with ⟨l, hl⟩
    exact hl.read h.units hstep halone
  accounts := h.accounts.read h.units hstep

theorem serialSystem_inv (hsize : 1 ≤ size) (hword : size < 4294967296) :
    (serialSystem size threads).Inductive (PipeInv size) where
  init := fun s h => PipeInv.init hsize h
  next := by
    rintro s s' h ⟨i, ⟨hstep, halone⟩ | ⟨hstep, halone⟩⟩
    · exact h.write hword hstep halone
    · exact h.read hstep halone

/-- Without calls in progress the messages are the bytes in the buffer. -/
theorem PipeInv.held (h : PipeInv size s) (hidle : ∀ pc ∈ s.pcs, pc = .idle) :
    ∃ l, Contents s l ∧ s.pipe.held = l := by
  have hnone : ∀ p : PipePc → Bool, p .idle = false → s.pcs.countP p = 0 := by
    intro p hp
    rw [List.countP_eq_zero]
    intro pc hmem
    rw [hidle pc hmem, hp]
    exact Bool.false_ne_true
  rcases h.contents with ⟨l, hl⟩
  have hmessages := h.units.messages
  rw [hl.inBuffer, hnone _ rfl, hnone _ rfl] at hmessages
  have hlen : s.pipe.lockMessages.lock.toNat = l.length := by omega
  refine ⟨l, hl, ?_⟩
  unfold PipeState.held
  rw [hlen]
  apply List.ext_getElem
  · simp
  · intro k hk hk'
    rw [List.getElem_map, List.getElem_range]
    exact hl.ring k hk'

/-- In every run of any number of threads in which a thread reads its position only
when no other thread of its kind is between the read of the position and its
update: once all calls have returned, the bytes read and the bytes still in the
buffer are the bytes written. -/
theorem pipe_loses_nothing (hsize : 1 ≤ size) (hword : size < 4294967296)
    (h : (serialSystem size threads).Reachable s) (hidle : ∀ pc ∈ s.pcs, pc = .idle) :
    s.passed.Perm (s.returned ++ s.pipe.held) := by
  have hinv := (serialSystem_inv hsize hword).holds h
  rcases hinv.held hidle with ⟨l, hl, hheld⟩
  have hnone : ∀ f : PipePc → Option UInt8, f .idle = none → s.pcs.filterMap f = [] := by
    intro f hf
    rw [List.filterMap_eq_nil_iff]
    intro pc hmem
    rw [hidle pc hmem, hf]
  have hwrites := hinv.accounts.writes
  have hreads := hinv.accounts.reads
  rw [hnone _ rfl, List.append_nil] at hwrites hreads
  rw [hl.logs] at hwrites
  rw [hheld]
  exact hwrites.trans (hreads.append_right l)

end Serial

/-! ## Two cells and two threads -/

/-- A pipe of two cells, with the given state of the threads and of the writes. -/
def twoSlots (buffer : Nat → UInt8) (writePos : Nat) (slots messages : Int) (pcs : List PipePc)
    (passed stored : List UInt8) : PipeRun where
  pipe := ⟨buffer, 2, 0, writePos, ⟨slots, []⟩, ⟨messages, []⟩⟩
  pcs := pcs
  passed := passed
  stored := stored
  taken := []
  returned := []

theorem twoSlots_fresh : (twoSlots (fun _ => 0) 0 2 0 [.idle, .idle] [] []).Fresh 2 2 := by
  refine ⟨⟨fun _ => 0, ?_⟩, rfl, rfl, rfl, rfl, rfl⟩
  unfold twoSlots createPipe semaphoreFresh
  rw [wrapInt32_eq (by decide) (by decide)]
  rfl

/-- One call of `pipe_write` from its start to its return. -/
theorem pipe_loses_nothing_two : ∃ s : PipeRun, s.passed = [7] ∧
    s.passed.Perm (s.returned ++ s.pipe.held) := by
  have hinit : (serialSystem 2 2).Reachable _ := .init twoSlots_fresh
  have hcall := hinit.next ⟨0, Or.inl ⟨.call 7 rfl, fun e he => by cases he⟩⟩
  have hpos := hcall.next ⟨0, Or.inl ⟨.readPos rfl, fun e _ j pc hpc => by
    match j with
    | 0 => cases hpc; rfl
    | 1 => cases hpc; rfl⟩⟩
  have hcell := hpos.next ⟨0, Or.inl ⟨.cell rfl, fun e he => by cases he⟩⟩
  have hagain := hcell.next ⟨0, Or.inl ⟨.readAgain rfl, fun e he => by cases he⟩⟩
  have hstore := hagain.next ⟨0, Or.inl ⟨.store rfl, fun e he => by cases he⟩⟩
  have hsignal := hstore.next ⟨0, Or.inl ⟨.signal rfl, fun e he => by cases he⟩⟩
  refine ⟨_, rfl, pipe_loses_nothing (by decide) (by decide) hsignal ?_⟩
  intro pc hpc
  fin_cases hpc <;> rfl

/-- Two writers read `write_pos` before either updates it: both store into cell 0,
and one byte is lost. -/
theorem pipe_loses_byte : ∃ s, (pipeSystem 2 2).Reachable s ∧ (∀ pc ∈ s.pcs, pc = .idle) ∧
    ¬ s.passed.Perm (s.returned ++ s.pipe.held) := by
  have hinit : (pipeSystem 2 2).Reachable _ := .init twoSlots_fresh
  have hcalls := (hinit.next ⟨0, Or.inl (.call 7 rfl)⟩).next ⟨1, Or.inl (.call 9 rfl)⟩
  have hpos := (hcalls.next ⟨0, Or.inl (.readPos rfl)⟩).next ⟨1, Or.inl (.readPos rfl)⟩
  have hcells := (hpos.next ⟨0, Or.inl (.cell rfl)⟩).next ⟨1, Or.inl (.cell rfl)⟩
  have hfirst := (hcells.next ⟨0, Or.inl (.readAgain rfl)⟩).next ⟨0, Or.inl (.store rfl)⟩
  have hsecond := (hfirst.next ⟨1, Or.inl (.readAgain rfl)⟩).next ⟨1, Or.inl (.store rfl)⟩
  have hsignals := (hsecond.next ⟨0, Or.inl (.signal rfl)⟩).next ⟨1, Or.inl (.signal rfl)⟩
  refine ⟨_, hsignals, ?_, ?_⟩
  · intro pc hpc
    fin_cases hpc <;> rfl
  · intro hperm
    have hmem : (7 : UInt8) ∈ ([] ++ [9, 0] : List UInt8) := hperm.subset (by simp [twoSlots])
    simp at hmem

/-! ## One writer and one reader -/

/-- Thread 0 writes and thread 1 reads. -/
def duplexSystem (size : Nat) : System PipeRun where
  Init := PipeRun.Fresh size 2
  Next s s' := PipeWrite 0 s s' ∨ PipeRead 1 s s'

/-- A place in `pipe_write`, or in front of it. -/
def PipePc.ofWriter : PipePc → Bool
  | .readBlocked | .readPos | .readCell _ | .readAgain _ | .readStore _ _ | .readSignal _ => false
  | _ => true

/-- A place in `pipe_read`, or in front of it. -/
def PipePc.ofReader : PipePc → Bool
  | .writeBlocked _ | .writePos _ | .writeCell _ _ | .writeAgain _ | .writeStore _ _
  | .writeSignal => false
  | _ => true

/-- The writer is at `w` and the reader at `r`; the logs differ by what they have in
hand. -/
structure Duplex (s : PipeRun) (w r : PipePc) : Prop where
  pcs : s.pcs = [w, r]
  writer : w.ofWriter = true
  reader : r.ofReader = true
  passed : s.passed = s.stored ++ w.toStore.toList
  taken : s.taken = s.returned ++ r.toReturn.toList

/-- In order, unharmed and accounted for. -/
structure PipeOk (size : Nat) (s : PipeRun) : Prop where
  fifo : s.returned <+: s.passed
  /-- The bytes stored and not taken are in their cells. -/
  cells : ∀ k < s.stored.length - s.taken.length,
    s.stored[s.taken.length + k]? = some (s.pipe.buffer ((s.pipe.readPos + k) % s.pipe.size))
  /-- No write goes to one of these cells. -/
  unread : ∀ e p, s.pcs[0]? = some (.writeCell e p) →
    ∀ k < s.stored.length - s.taken.length, p ≠ (s.pipe.readPos + k) % s.pipe.size
  /-- Counted, held by a call in progress or handed to a waiter. -/
  units : s.pipe.lockSlots.lock + s.pipe.lockMessages.lock + s.pcs.countP PipePc.storing +
    s.pcs.countP PipePc.storedOne + s.pcs.countP PipePc.taking + s.pcs.countP PipePc.tookOne = size

section Duplex

variable {s s' : PipeRun} {w r pc : PipePc} {size : Nat} {v : Int}

/-- The writer is thread 0 and the reader thread 1. -/
theorem Duplex.at_zero (h : Duplex s w r) (hpc : s.pcs[0]? = some pc) : w = pc := by
  rw [h.pcs] at hpc
  exact Option.some.inj hpc

theorem Duplex.at_one (h : Duplex s w r) (hpc : s.pcs[1]? = some pc) : r = pc := by
  rw [h.pcs] at hpc
  exact Option.some.inj hpc

/-- There are no others. -/
theorem Duplex.cases (h : Duplex s w r) {j : Nat} (hpc : s.pcs[j]? = some pc) :
    j = 0 ∧ pc = w ∨ j = 1 ∧ pc = r := by
  rw [h.pcs] at hpc
  match j with
  | 0 => exact Or.inl ⟨rfl, (Option.some.inj hpc).symm⟩
  | 1 => exact Or.inr ⟨rfl, (Option.some.inj hpc).symm⟩

/-- The only writer stores alone. -/
theorem Duplex.storesAlone (h : Duplex s w r) : StoresAlone 0 s := by
  intro e he j pc hpc
  rcases h.cases hpc with ⟨rfl, rfl⟩ | ⟨rfl, rfl⟩
  · rw [h.at_zero he]
    rfl
  · have hreader := h.reader
    cases pc <;> first | rfl | cases hreader

/-- The only reader takes alone. -/
theorem Duplex.takesAlone (h : Duplex s w r) : TakesAlone 1 s := by
  intro he j pc hpc
  rcases h.cases hpc with ⟨rfl, rfl⟩ | ⟨rfl, rfl⟩
  · have hwriter := h.writer
    cases pc <;> first | rfl | cases hwriter
  · rw [h.at_one he]
    rfl

/-- The reader is released by the writer, or stays where it is. -/
theorem Duplex.released_reader (h : Duplex s w r) (hu : Units v s) (pc : PipePc) :
    ∃ r', release [pc, r] s.pipe.lockMessages = [pc, r'] ∧ r'.ofReader = true ∧
      r'.toReturn = r.toReturn := by
  unfold release
  cases hwait : s.pipe.lockMessages.waiting with
  | nil => exact ⟨r, rfl, h.reader, rfl⟩
  | cons n rest =>
    have hblocked := hu.readers.2 n (by rw [hwait]; exact List.mem_cons_self)
    rcases h.cases hblocked with ⟨_, hw⟩ | ⟨rfl, hr⟩
    · have hwriter := h.writer
      rw [← hw] at hwriter
      cases hwriter
    · subst hr
      exact ⟨.readPos, rfl, rfl, rfl⟩

/-- The writer is released by the reader, or stays where it is. -/
theorem Duplex.released_writer (h : Duplex s w r) (hu : Units v s) (pc : PipePc) :
    ∃ w', release [w, pc] s.pipe.lockSlots = [w', pc] ∧ w'.ofWriter = true ∧
      w'.toStore = w.toStore := by
  unfold release
  cases hwait : s.pipe.lockSlots.waiting with
  | nil => exact ⟨w, rfl, h.writer, rfl⟩
  | cons n rest =>
    rcases hu.writers.2 n (by rw [hwait]; exact List.mem_cons_self) with ⟨e, hblocked⟩
    rcases h.cases hblocked with ⟨rfl, hw⟩ | ⟨_, hr⟩
    · subst hw
      exact ⟨.writePos e, rfl, rfl, rfl⟩
    · have hreader := h.reader
      rw [← hr] at hreader
      cases hreader

/-- A step of the writer keeps the order. -/
theorem Duplex.write (h : Duplex s w r) (hu : Units v s) (hstep : PipeWrite 0 s s') :
    ∃ w' r', Duplex s' w' r' := by
  have hpcs := h.pcs
  have hpassed := h.passed
  cases hstep with
  | call e hpc =>
    obtain rfl := h.at_zero hpc
    refine ⟨if s.pipe.lockSlots.lock ≤ 0 then .writeBlocked e else .writePos e, r, ?_, ?_,
      h.reader, ?_, h.taken⟩
    · dsimp only
      rw [hpcs]
      rfl
    · split <;> rfl
    · dsimp only
      rw [hpassed]
      split <;> simp [PipePc.toStore]
  | @readPos e hpc =>
    obtain rfl := h.at_zero hpc
    refine ⟨.writeCell e s.pipe.writePos, r, ?_, rfl, h.reader, hpassed, h.taken⟩
    dsimp only
    rw [hpcs]
    rfl
  | @cell e p hpc =>
    obtain rfl := h.at_zero hpc
    refine ⟨.writeAgain e, r, ?_, rfl, h.reader, hpassed, h.taken⟩
    dsimp only
    rw [hpcs]
    rfl
  | @readAgain e hpc =>
    obtain rfl := h.at_zero hpc
    refine ⟨.writeStore e s.pipe.writePos, r, ?_, rfl, h.reader, hpassed, h.taken⟩
    dsimp only
    rw [hpcs]
    rfl
  | store hpc =>
    obtain rfl := h.at_zero hpc
    refine ⟨.writeSignal, r, ?_, rfl, h.reader, ?_, h.taken⟩
    · dsimp only
      rw [hpcs]
      rfl
    · dsimp only
      rw [hpassed]
      simp [PipePc.toStore]
  | signal hpc =>
    obtain rfl := h.at_zero hpc
    -- the message handed over may wake the reader
    rcases h.released_reader hu .idle with ⟨r', hrelease, hreader, hhand⟩
    refine ⟨.idle, r', ?_, rfl, hreader, hpassed, ?_⟩
    · dsimp only
      rw [hpcs]
      exact hrelease
    · rw [hhand]
      exact h.taken

/-- A step of the reader keeps the order. -/
theorem Duplex.read (h : Duplex s w r) (hu : Units v s) (hstep : PipeRead 1 s s') :
    ∃ w' r', Duplex s' w' r' := by
  have hpcs := h.pcs
  have htaken := h.taken
  cases hstep with
  | call hpc =>
    obtain rfl := h.at_one hpc
    refine ⟨w, if s.pipe.lockMessages.lock ≤ 0 then .readBlocked else .readPos, ?_, h.writer, ?_,
      h.passed, ?_⟩
    · dsimp only
      rw [hpcs]
      rfl
    · split <;> rfl
    · dsimp only
      rw [htaken]
      split <;> rfl
  | readPos hpc =>
    obtain rfl := h.at_one hpc
    refine ⟨w, .readCell s.pipe.readPos, ?_, h.writer, rfl, h.passed, htaken⟩
    dsimp only
    rw [hpcs]
    rfl
  | @cell p hpc =>
    obtain rfl := h.at_one hpc
    refine ⟨w, .readAgain (s.pipe.buffer p), ?_, h.writer, rfl, h.passed, htaken⟩
    dsimp only
    rw [hpcs]
    rfl
  | @readAgain e hpc =>
    obtain rfl := h.at_one hpc
    refine ⟨w, .readStore e s.pipe.readPos, ?_, h.writer, rfl, h.passed, htaken⟩
    dsimp only
    rw [hpcs]
    rfl
  | @store e p hpc =>
    obtain rfl := h.at_one hpc
    refine ⟨w, .readSignal e, ?_, h.writer, rfl, h.passed, ?_⟩
    · dsimp only
      rw [hpcs]
      rfl
    · dsimp only
      rw [htaken]
      simp [PipePc.toReturn]
  | @signal e hpc =>
    obtain rfl := h.at_one hpc
    -- the slot handed back may wake the writer
    rcases h.released_writer hu .idle with ⟨w', hrelease, hwriter, hhand⟩
    refine ⟨w', .idle, ?_, hwriter, rfl, ?_, ?_⟩
    · dsimp only
      rw [hpcs]
      exact hrelease
    · rw [hhand]
      exact h.passed
    · dsimp only
      rw [htaken]
      simp [PipePc.toReturn]

/-- What holds in every run of one writer and one reader. -/
theorem duplexSystem_inv (hsize : 1 ≤ size) (hword : size < 4294967296) :
    (duplexSystem size).Inductive fun s => PipeInv size s ∧ ∃ w r, Duplex s w r where
  init := by
    intro s h
    refine ⟨PipeInv.init hsize h, .idle, .idle, ?_⟩
    rcases h with ⟨_, hpcs, hpassed, hstored, htaken, hreturned⟩
    exact ⟨hpcs, rfl, rfl, by rw [hpassed, hstored]; rfl, by rw [htaken, hreturned]; rfl⟩
  next := by
    rintro s s' ⟨hinv, w, r, hduplex⟩ (hstep | hstep)
    · exact ⟨hinv.write hword hstep hduplex.storesAlone, hduplex.write hinv.units hstep⟩
    · exact ⟨hinv.read hstep hduplex.takesAlone, hduplex.read hinv.units hstep⟩

/-- With a size that is an `int32`, order, cells and units are as they should be. -/
theorem Duplex.pipeOk (h : Duplex s w r) (hinv : PipeInv size s) (hsmall : size < 2147483648) :
    PipeOk size s := by
  have hword : size < 4294967296 := by omega
  have hslots := hinv.units.slots
  have hmessages := hinv.units.messages
  have hfits := hinv.fits hword
  have hv := wrapInt32_size hword
  rw [if_pos hsmall] at hv
  rcases hinv.contents with ⟨l, hl⟩
  have hlen : s.stored.length - s.taken.length = l.length := by
    rw [hl.logs, List.length_append]
    omega
  constructor
  · rw [h.passed, hl.logs, h.taken, List.append_assoc, List.append_assoc]
    exact List.prefix_append _ _
  · intro k hk
    rw [hlen] at hk
    rw [hl.logs, List.getElem?_append_right (by omega), Nat.add_sub_cancel_left,
      List.getElem?_eq_getElem hk, hl.ring k hk]
  · intro e p hpc k hk
    rw [hlen] at hk
    have hp : p = s.pipe.writePos := (hl.knows 0 _ hpc).1
    rw [hp, hl.writePos]
    exact Ring.spare (hl.room hinv.units hfits hpc rfl) hk
  · rw [← hv]
    omega

/-- A fresh pipe with its threads. -/
def freshPipe (size threads : Nat) : PipeRun where
  pipe := createPipe (fun _ => 0) size
  pcs := List.replicate threads .idle
  passed := []
  stored := []
  taken := []
  returned := []

/-- From 2 GB on, `create_pipe` counts a negative number of slots. -/
theorem freshPipe_short (hbig : 2147483648 ≤ size) (hword : size < 4294967296) :
    ¬ PipeOk size (freshPipe size 2) := by
  intro hok
  have hunits := hok.units
  have hv := wrapInt32_size hword
  rw [if_neg (by omega)] at hv
  have hlock : (freshPipe size 2).pipe.lockSlots.lock = wrapInt32 size := by
    simp only [freshPipe, createPipe, semaphoreFresh]
  have hmessages : (freshPipe size 2).pipe.lockMessages.lock = 0 := rfl
  have hnone : (freshPipe size 2).pcs.countP PipePc.storing = 0 ∧
      (freshPipe size 2).pcs.countP PipePc.storedOne = 0 ∧
      (freshPipe size 2).pcs.countP PipePc.taking = 0 ∧
      (freshPipe size 2).pcs.countP PipePc.tookOne = 0 := ⟨rfl, rfl, rfl, rfl⟩
  rw [hlock, hmessages, hnone.1, hnone.2.1, hnone.2.2.1, hnone.2.2.2, hv] at hunits
  omega

theorem freshPipe_reachable (size : Nat) : (duplexSystem size).Reachable (freshPipe size 2) :=
  .init ⟨⟨_, rfl⟩, rfl, rfl, rfl, rfl, rfl⟩

/-- A pipe of one writer and one reader is in order in all its runs exactly when its
size is an `int32`. -/
theorem pipe_fifo_iff (hsize : 1 ≤ size) (hword : size < 4294967296) :
    (∀ s, (duplexSystem size).Reachable s → PipeOk size s) ↔ size < 2147483648 := by
  constructor
  · intro hall
    by_contra hbig
    exact freshPipe_short (by omega) hword (hall _ (freshPipe_reachable size))
  · intro hsmall s h
    rcases (duplexSystem_inv hsize hword).holds h with ⟨hinv, w, r, hduplex⟩
    exact hduplex.pipeOk hinv hsmall

theorem pipe_fifo_iff_four :
    (∀ s, (duplexSystem 4).Reachable s → PipeOk 4 s) ↔ 4 < 2147483648 :=
  pipe_fifo_iff (by decide) (by decide)

/-- A pipe of 2 GB has no slot to give. -/
theorem pipe_units_short :
    ¬ ∀ s, (duplexSystem 2147483648).Reachable s → PipeOk 2147483648 s := by
  intro hall
  exact freshPipe_short (by decide) (by decide) (hall _ (freshPipe_reachable 2147483648))

end Duplex

end MeOS
