import MeOS.FileTableRuns

/-! # `critlock.cpp` and `gft_insert_s` under the timer

The critical section is one flag, `in_critical_section`: `critlock_acquire` sets
it, `critlock_release` clears it, and `scheduler_thread_switch` does not change
threads while it is set. `gft_insert_s` is cut at the statements of the
functions it runs through, down to `realloc`, which takes and gives back the
same flag.
-/

namespace MeOS

open Runs

/-- Where a thread is in a call of `gft_insert_s`. -/
inductive InsertPc where
  /-- Before the call, or after its return. -/
  | idle
  /-- At `gft_get_n`. -/
  | lookup
  /-- At the condition of `gft_insert`. -/
  | choose
  /-- At the test of `vector_insert_back`. -/
  | back
  /-- In `vector_reserve`, before `realloc`. -/
  | reserve (numElements : Nat)
  /-- In `realloc`, before its `critlock_release`. -/
  | realloc (numElements : Nat)
  /-- In `vector_reserve`, after `realloc`. -/
  | reserved (numElements : Nat)
  /-- At the store of `vector_insert_back`. -/
  | append
  /-- At `_index = gft.count - 1`. -/
  | last
  /-- At `gft[_index] = entry`. -/
  | store (index : Nat)
  /-- At `gft[entry_index].open_count++`. -/
  | opening (index : Nat)
  /-- Before the last `critlock_release`. -/
  | release (index : Nat)
deriving Repr, DecidableEq

/-- The table, the flag and the threads. `calls` counts the calls that have returned. -/
structure InsertRun where
  gft : Vector Gfe
  inCriticalSection : Nat
  current : Nat
  pc : Nat → InsertPc
  calls : Nat

/-- The current thread goes on at `pc`. -/
def InsertRun.goto (c : InsertRun) (pc : InsertPc) : InsertRun :=
  { c with pc := Function.update c.pc c.current pc }

/-- The next statement of the current thread in `gft_insert_s(create_gfe(node))`. There is none
when `vector_reserve` calls `PANIC`, and none for a store outside the array. -/
def insertNext (node : Nat) (c : InsertRun) : Option InsertRun :=
  match c.pc c.current with
  | .idle => some ({ c with inCriticalSection := 1 }.goto .lookup)
  | .lookup =>
    let entryIndex := gftGetN c.gft node
    some (c.goto (if entryIndex = invalidFd then .choose else .opening entryIndex))
  | .choose =>
    let index := vectorFindFirst c.gft gfeIsInvalid
    some (c.goto (if c.gft.count < c.gft.rSize ∨ index ≥ c.gft.rSize then .back
      else .store index))
  | .back =>
    some (c.goto (if c.gft.count = c.gft.rSize then .reserve (mul32 2 c.gft.count) else .append))
  | .reserve n => some ({ c with inCriticalSection := 1 }.goto (.realloc n))
  | .realloc n => some ({ c with inCriticalSection := 0 }.goto (.reserved n))
  | .reserved n =>
    if n = 0 then none
    else some ({ c with gft := { c.gft with rSize := n } }.goto .append)
  | .append =>
    if c.gft.count < c.gft.rSize then
      some ({ c with gft := { c.gft with data := c.gft.data ++ [createGfe node] } }.goto .last)
    else none
  | .last => some (c.goto (.store (c.gft.count - 1)))
  | .store index =>
    some ({ c with gft := c.gft.put index (createGfe node) }.goto (.opening index))
  | .opening index => some ({ c with gft := gftOpen c.gft index }.goto (.release index))
  | .release _ => some ({ c with inCriticalSection := 0, calls := c.calls + 1 }.goto .idle)

/-- A tick: `scheduler_thread_switch` runs another thread unless the flag is set. -/
def InsertRun.schedulerThreadSwitch (c : InsertRun) (thread : Nat) : InsertRun :=
  if c.inCriticalSection ≠ 0 then c else { c with current := thread }

/-- One step: a statement of the current thread, or a tick. -/
def insertAct (node : Nat) (c : InsertRun) : Option Nat → Option InsertRun
  | none => insertNext node c
  | some thread => some (c.schedulerThreadSwitch thread)

/-- Threads that open one node, on the table `v`. -/
def insertSystem (v : Vector Gfe) (node : Nat) : System InsertRun where
  Init c := c.gft = v ∧ c.inCriticalSection = 0 ∧ (∀ t, c.pc t = .idle) ∧ c.calls = 0
  Next c c' := ∃ act, insertAct node c act = some c'

/-! ## Atomic calls -/

/-- The table has an entry of the node, or a place for one without a larger array. -/
def HasPlace (v : Vector Gfe) (node : Nat) : Prop :=
  (∃ (i : Nat) (e : Gfe), v.data[i]? = some e ∧ e.fileNode = node) ∨ v.count < v.rSize ∨
    ∃ (i : Nat) (e : Gfe), v.data[i]? = some e ∧ gfeIsInvalid e = true

/-- No entry has the node. -/
def Absent (v : Vector Gfe) (node : Nat) : Prop :=
  ∀ (i : Nat) (e : Gfe), v.data[i]? = some e → e.fileNode ≠ node

/-- The entry at `i` is the one of the node, and was opened `k` times. -/
def OpenedAt (v : Vector Gfe) (node i k : Nat) : Prop :=
  (∃ e, v.data[i]? = some e ∧ e.fileNode = node ∧ e.openCount = k) ∧
    ∀ (j : Nat) (e : Gfe), v.data[j]? = some e → e.fileNode = node → j = i

/-- The open count of the node in a table, 0 without an entry. -/
def openedBefore (v : Vector Gfe) (node : Nat) : Nat :=
  ((v.data.find? fun e => e.fileNode == node).map (·.openCount)).getD 0

/-- Calls of `gft_insert_s` are not interrupted, and the ones that returned opened one entry. -/
structure Atomic (v : Vector Gfe) (node : Nat) (c : InsertRun) : Prop where
  flag : ∀ t, c.pc t ≠ .idle → c.inCriticalSection = 1
  current : ∀ t, c.pc t ≠ .idle → t = c.current
  opened : (∀ t, c.pc t = .idle) → 0 < c.calls →
    ∃ i, OpenedAt c.gft node i ((openedBefore v node + c.calls) % 4294967296)

section Insert

variable {v : Vector Gfe} {node i k : Nat} {c c' : InsertRun}

@[simp] theorem goto_pc (pc : InsertPc) : (c.goto pc).pc c.current = pc :=
  Function.update_self _ _ _

theorem goto_other {t : Nat} (pc : InsertPc) (h : t ≠ c.current) : (c.goto pc).pc t = c.pc t :=
  Function.update_of_ne h _ _

/-- What the current thread knows of the table after `calls` calls, when the node had been opened
`base` times before. -/
def Phase (v : Vector Gfe) (node base calls : Nat) : InsertPc → Prop
  | .idle | .lookup =>
    (∃ i, OpenedAt v node i ((base + calls) % 4294967296)) ∨
      (Absent v node ∧ base + calls = 0 ∧ HasPlace v node)
  | .choose => Absent v node ∧ base + calls = 0 ∧ HasPlace v node
  | .back | .append => Absent v node ∧ base + calls = 0 ∧ v.count < v.rSize
  | .reserve _ | .realloc _ | .reserved _ => False
  | .last => base + calls = 0 ∧ 0 < v.count ∧
    ∀ (j : Nat) (e : Gfe), v.data[j]? = some e → e.fileNode = node → j = v.count - 1
  | .store i => base + calls = 0 ∧ i < v.count ∧
    ∀ (j : Nat) (e : Gfe), v.data[j]? = some e → e.fileNode = node → j = i
  | .opening i => OpenedAt v node i ((base + calls) % 4294967296)
  | .release i => OpenedAt v node i ((base + (calls + 1)) % 4294967296)

/-- One thread at a time is in a call, with the flag set. -/
structure InsertInv (node base : Nat) (c : InsertRun) : Prop where
  fits : c.gft.Fits
  others : ∀ t, t ≠ c.current → c.pc t = .idle
  flag : c.inCriticalSection = if c.pc c.current = .idle then 0 else 1
  phase : Phase c.gft node base c.calls (c.pc c.current)

/-- An entry of the node is found by `gft_get_n`. -/
theorem getN_of_openedAt (hv : v.Fits) (h : OpenedAt v node i k) :
    gftGetN v node = i ∧ i ≠ invalidFd := by
  rcases h with ⟨⟨e, he, hnode, _⟩, hone⟩
  rcases gftGetN_cases node hv with ⟨_, hall⟩ | ⟨e', he', hnode', hfound⟩
  · exact absurd hnode (hall i e he)
  · have hi := hone _ e' he' hnode'
    exact ⟨hi, hi ▸ hfound⟩

theorem getN_of_absent (hv : v.Fits) (h : Absent v node) : gftGetN v node = invalidFd := by
  rcases gftGetN_cases node hv with ⟨hnone, _⟩ | ⟨e, he, hnode, _⟩
  · exact hnone
  · exact absurd hnode (h _ e he)

/-- A table with a place in a full array has an invalid entry, which the search finds. -/
theorem findFirst_of_place (hplace : HasPlace v node) (habsent : Absent v node)
    (hfull : ¬v.count < v.rSize) :
    ∃ i, vectorFindFirst v gfeIsInvalid = i ∧ i < v.count := by
  rcases hplace with ⟨i, e, he, hnode⟩ | hroom | ⟨i, e, he, hinv⟩
  · exact absurd hnode (habsent i e he)
  · exact absurd hroom hfull
  · cases hfind : v.data.findIdx? gfeIsInvalid with
    | none =>
      have := findFirst_none hfind he
      rw [hinv] at this
      cases this
    | some j =>
      rcases findFirst_some hfind with ⟨_, _, _, hlt⟩
      refine ⟨j, ?_, hlt⟩
      unfold vectorFindFirst
      rw [hfind]
      rfl

/-- The invariant after a statement of the current thread. -/
theorem InsertInv.moved {base : Nat} {pc : InsertPc} (h : InsertInv node base c)
    (hcurrent : c'.current = c.current) (hpc : c'.pc = Function.update c.pc c.current pc)
    (hfits : c'.gft.Fits) (hflag : c'.inCriticalSection = if pc = .idle then 0 else 1)
    (hphase : Phase c'.gft node base c'.calls pc) :
    InsertInv node base c' := by
  have hself : c'.pc c'.current = pc := by
    rw [hpc, hcurrent]
    exact Function.update_self _ _ _
  refine ⟨hfits, ?_, ?_, ?_⟩
  · intro t ht
    rw [hcurrent] at ht
    rw [hpc, Function.update_of_ne ht]
    exact h.others t ht
  · rw [hself]
    exact hflag
  · rw [hself]
    exact hphase

/-- A statement of the current thread keeps the invariant. -/
theorem InsertInv.next {base : Nat} (h : InsertInv node base c)
    (hnext : insertNext node c = some c') : InsertInv node base c' := by
  have hfits := h.fits
  have hflag := h.flag
  have hphase := h.phase
  unfold insertNext at hnext
  -- at each label the invariant says what the call has found so far
  cases hpc : c.pc c.current with
  | idle =>
    rw [hpc] at hnext hphase
    cases hnext
    exact h.moved rfl rfl hfits rfl hphase
  | lookup =>
    rw [hpc] at hnext hphase hflag
    cases hnext
    rcases hphase with ⟨i, hopened⟩ | ⟨habsent, hk, hplace⟩
    · rcases getN_of_openedAt hfits hopened with ⟨hget, hfound⟩
      refine h.moved rfl rfl hfits ?_ ?_
      · rw [hget, if_neg hfound]
        exact hflag
      · rw [hget, if_neg hfound]
        exact hopened
    · have hget := getN_of_absent hfits habsent
      refine h.moved rfl rfl hfits ?_ ?_
      · rw [hget, if_pos rfl]
        exact hflag
      · rw [hget, if_pos rfl]
        exact ⟨habsent, hk, hplace⟩
  | choose =>
    rw [hpc] at hnext hphase hflag
    cases hnext
    rcases hphase with ⟨habsent, hk, hplace⟩
    by_cases hroom : c.gft.count < c.gft.rSize
    · refine h.moved rfl rfl hfits ?_ ?_
      · rw [if_pos (Or.inl hroom)]
        exact hflag
      · rw [if_pos (Or.inl hroom)]
        exact ⟨habsent, hk, hroom⟩
    · -- the array is full, so there is an invalid entry to take
      rcases findFirst_of_place hplace habsent hroom with ⟨i, hfind, hlt⟩
      have hle := hfits.le
      have hsome : ¬(c.gft.count < c.gft.rSize ∨
          vectorFindFirst c.gft gfeIsInvalid ≥ c.gft.rSize) := by
        rw [hfind]
        omega
      refine h.moved rfl rfl hfits ?_ ?_
      · rw [if_neg hsome]
        exact hflag
      · rw [if_neg hsome, hfind]
        refine ⟨hk, hlt, ?_⟩
        intro j e he heq
        exact absurd heq (habsent j e he)
  | back =>
    rw [hpc] at hnext hphase hflag
    cases hnext
    have hroom := hphase.2.2
    have hne : c.gft.count ≠ c.gft.rSize := Nat.ne_of_lt hroom
    refine h.moved rfl rfl hfits ?_ ?_
    · rw [if_neg hne]
      exact hflag
    · rw [if_neg hne]
      exact hphase
  -- there is a place, so the vector does not grow
  | reserve n =>
    rw [hpc] at hphase
    exact absurd hphase id
  | realloc n =>
    rw [hpc] at hphase
    exact absurd hphase id
  | reserved n =>
    rw [hpc] at hphase
    exact absurd hphase id
  | append =>
    rw [hpc] at hnext hphase hflag
    rcases hphase with ⟨habsent, hk, hroom⟩
    simp only [if_pos hroom] at hnext
    cases hnext
    have hcount : Vector.count { c.gft with data := c.gft.data ++ [createGfe node] } =
        c.gft.count + 1 := by
      unfold Vector.count
      rw [List.length_append, List.length_singleton]
    refine h.moved rfl rfl ⟨?_, hfits.word⟩ hflag ⟨hk, ?_, ?_⟩
    · dsimp only [InsertRun.goto]
      rw [hcount]
      exact hroom
    · dsimp only [InsertRun.goto]
      rw [hcount]
      exact Nat.succ_pos _
    · dsimp only [InsertRun.goto]
      intro j e he heq
      rw [hcount, Nat.add_sub_cancel]
      by_cases hj : j < c.gft.data.length
      · rw [List.getElem?_append_left hj] at he
        exact absurd heq (habsent j e he)
      · have hlt := (List.getElem?_eq_some_iff.mp he).1
        rw [List.length_append, List.length_singleton] at hlt
        unfold Vector.count
        omega
  | last =>
    rw [hpc] at hnext hphase hflag
    cases hnext
    rcases hphase with ⟨hk, hpos, hone⟩
    exact h.moved rfl rfl hfits hflag ⟨hk, Nat.sub_lt hpos Nat.one_pos, hone⟩
  | store i =>
    rw [hpc] at hnext hphase hflag
    cases hnext
    rcases hphase with ⟨hk, hlt, hone⟩
    refine h.moved rfl rfl ⟨?_, hfits.word⟩ hflag ⟨?_, ?_⟩
    · dsimp only [InsertRun.goto]
      rw [put_count]
      exact hfits.le
    · dsimp only [InsertRun.goto]
      rw [hk]
      exact ⟨createGfe node, List.getElem?_set_self hlt, rfl, rfl⟩
    · dsimp only [InsertRun.goto]
      intro j e he heq
      by_cases hj : j = i
      · exact hj
      · have he' : c.gft.data[j]? = some e := by
          rw [← he]
          exact (List.getElem?_set_ne (Ne.symm hj)).symm
        exact hone j e he' heq
  | opening i =>
    rw [hpc] at hnext hphase hflag
    cases hnext
    rcases hphase with ⟨⟨e, he, heq, hk⟩, hone⟩
    refine h.moved rfl rfl (hfits.modify _ _) hflag ⟨⟨_, gftOpen_same he, heq, ?_⟩, ?_⟩
    · dsimp only [InsertRun.goto]
      rw [hk]
      unfold add32
      omega
    · dsimp only [InsertRun.goto]
      intro j e' he' heq'
      by_cases hj : j = i
      · exact hj
      · rw [gftOpen_other (Ne.symm hj)] at he'
        exact hone j e' he' heq'
  | release i =>
    rw [hpc] at hnext hphase hflag
    cases hnext
    exact h.moved rfl rfl hfits rfl (Or.inl ⟨i, hphase⟩)

/-- A tick keeps the invariant: it does not change threads inside a call. -/
theorem InsertInv.tick {base : Nat} (h : InsertInv node base c) (thread : Nat) :
    InsertInv node base (c.schedulerThreadSwitch thread) := by
  unfold InsertRun.schedulerThreadSwitch
  by_cases hset : c.inCriticalSection ≠ 0
  · rw [if_pos hset]
    exact h
  · rw [if_neg hset]
    have hidle : c.pc c.current = .idle := by
      by_contra hne
      have hflag := h.flag
      rw [if_neg hne] at hflag
      omega
    have hall : ∀ t, c.pc t = .idle := by
      intro t
      by_cases ht : t = c.current
      · rw [ht]
        exact hidle
      · exact h.others t ht
    have hflag := h.flag
    have hphase := h.phase
    rw [hidle] at hflag hphase
    refine ⟨h.fits, fun t _ => hall t, ?_, ?_⟩
    · dsimp only
      rw [hall thread]
      exact hflag
    · dsimp only
      rw [hall thread]
      exact hphase

/-- The invariant at the start. -/
theorem InsertInv.init (hv : v.Fits) (hplace : HasPlace v node)
    (hunique : ∀ (i j : Nat) (e e' : Gfe), v.data[i]? = some e → v.data[j]? = some e' →
      e.fileNode = node → e'.fileNode = node → i = j)
    (hnode : node ≠ 0) (hcounts : ∀ (i : Nat) (e : Gfe), v.data[i]? = some e →
      e.fileNode ≠ 0 → e.openCount < 4294967296)
    (h : (insertSystem v node).Init c) : InsertInv node (openedBefore v node) c := by
  rcases h with ⟨hgft, hflag, hidle, hcalls⟩
  refine ⟨by rw [hgft]; exact hv, fun t _ => hidle t, by rw [hidle, hflag, if_pos rfl], ?_⟩
  rw [hgft, hcalls, hidle]
  unfold openedBefore
  cases hfind : v.data.find? fun e => e.fileNode == node with
  | none =>
    right
    refine ⟨?_, rfl, hplace⟩
    intro i e he
    have := List.find?_eq_none.mp hfind e (List.mem_of_getElem? he)
    simpa using this
  | some e =>
    left
    have heq : e.fileNode = node := by simpa using List.find?_some hfind
    rcases List.getElem?_of_mem (List.mem_of_find?_eq_some hfind) with ⟨i, hi⟩
    refine ⟨i, ⟨e, hi, heq, ?_⟩, ?_⟩
    · have hlt := hcounts i e hi (by rw [heq]; exact hnode)
      dsimp only [Option.map_some, Option.getD_some]
      rw [Nat.add_zero]
      exact (Nat.mod_eq_of_lt hlt).symm
    · intro j e' he' heq'
      exact hunique j i e' e he' hi heq' heq

/-- The invariant makes calls atomic. -/
theorem InsertInv.atomic (h : InsertInv node (openedBefore v node) c) : Atomic v node c := by
  have hcurrent : ∀ t, c.pc t ≠ .idle → t = c.current := by
    intro t ht
    by_contra hne
    exact ht (h.others t hne)
  refine ⟨?_, hcurrent, ?_⟩
  · intro t ht
    have hflag := h.flag
    rw [← hcurrent t ht, if_neg ht] at hflag
    exact hflag
  · intro hidle hcalls
    have hphase := h.phase
    rw [hidle] at hphase
    rcases hphase with hopened | ⟨_, hzero, _⟩
    · exact hopened
    · omega

/-! ## A table that must grow -/

/-- The steps of a list of statements and ticks. -/
theorem steps_reachable {acts : List (Option Nat)} (h : (insertSystem v node).Reachable c)
    (hrun : acts.foldlM (insertAct node) c = some c') : (insertSystem v node).Reachable c' := by
  induction acts generalizing c with
  | nil =>
    cases hrun
    exact h
  | cons act acts ih =>
    rw [List.foldlM_cons] at hrun
    rcases Option.bind_eq_some_iff.mp hrun with ⟨d, hact, hrest⟩
    exact ih (h.next ⟨act, hact⟩) hrest

/-- The threads before any call. -/
def beforeCalls (v : Vector Gfe) : InsertRun :=
  { gft := v, inCriticalSection := 0, current := 0, pc := fun _ => .idle, calls := 0 }

theorem beforeCalls_reachable : (insertSystem v node).Reachable (beforeCalls v) :=
  .init ⟨rfl, rfl, fun _ => rfl, rfl⟩

/-- The current thread can come to `pc` with the table as it was. -/
def ComesTo (v : Vector Gfe) (node : Nat) (pc : InsertPc) : Prop :=
  ∃ c, (insertSystem v node).Reachable c ∧ c.gft = v ∧ c.pc c.current = pc

theorem ComesTo.next {pc pc' : InsertPc} (h : ComesTo v node pc)
    (hnext : ∀ c : InsertRun, c.gft = v → c.pc c.current = pc →
      ∃ f, insertNext node c = some ({ c with inCriticalSection := f }.goto pc')) :
    ComesTo v node pc' := by
  rcases h with ⟨c, hreach, hgft, hpc⟩
  rcases hnext c hgft hpc with ⟨f, hf⟩
  exact ⟨_, hreach.next ⟨none, hf⟩, hgft, goto_pc (c := { c with inCriticalSection := f }) pc'⟩

/-- Without a place for the node, the first call comes to `realloc`. -/
theorem first_call_grows (hv : v.Fits) (hplace : ¬HasPlace v node) :
    ComesTo v node (.realloc (mul32 2 v.count)) := by
  have habsent : Absent v node := by
    intro i e he heq
    exact hplace (Or.inl ⟨i, e, he, heq⟩)
  have hfull : v.count = v.rSize := by
    have hle := hv.le
    by_contra hne
    exact hplace (Or.inr (Or.inl (by omega)))
  -- the search finds no invalid entry, and its failure value is no index
  have hsearch : vectorFindFirst v gfeIsInvalid ≥ v.rSize := by
    cases hfind : v.data.findIdx? gfeIsInvalid with
    | some i =>
      rcases findFirst_some hfind with ⟨e, he, hinv, _⟩
      exact absurd (Or.inr (Or.inr ⟨i, e, he, hinv⟩)) hplace
    | none =>
      have hnone : vectorFindFirst v gfeIsInvalid = 4294967295 := by
        unfold vectorFindFirst
        rw [hfind]
        rfl
      have hword := hv.word
      omega
  -- the labels the call passes on its way to the reallocation
  have hidle : ComesTo v node .idle := ⟨_, beforeCalls_reachable, rfl, rfl⟩
  have hlookup : ComesTo v node .lookup := by
    apply hidle.next
    intro c _ hpc
    unfold insertNext
    rw [hpc]
    exact ⟨1, rfl⟩
  have hchoose : ComesTo v node .choose := by
    apply hlookup.next
    intro c hgft hpc
    refine ⟨c.inCriticalSection, ?_⟩
    unfold insertNext
    rw [hpc]
    dsimp only
    rw [if_pos (by rw [hgft]; exact getN_of_absent hv habsent)]
  have hback : ComesTo v node .back := by
    apply hchoose.next
    intro c hgft hpc
    refine ⟨c.inCriticalSection, ?_⟩
    unfold insertNext
    rw [hpc]
    dsimp only
    rw [if_pos (by rw [hgft]; exact Or.inr hsearch)]
  have hreserve : ComesTo v node (.reserve (mul32 2 v.count)) := by
    apply hback.next
    intro c hgft hpc
    refine ⟨c.inCriticalSection, ?_⟩
    unfold insertNext
    rw [hpc]
    dsimp only
    rw [if_pos (by rw [hgft]; exact hfull), ← hgft]
  apply hreserve.next
  intro c _ hpc
  unfold insertNext
  rw [hpc]
  exact ⟨1, rfl⟩

/-- `realloc` clears the flag inside the call. -/
theorem growth_not_atomic {n : Nat} (h : ComesTo v node (.realloc n)) :
    ∃ c, (insertSystem v node).Reachable c ∧ ¬Atomic v node c := by
  rcases h with ⟨c, hreach, _, hpc⟩
  have hnext : insertNext node c =
      some ({ c with inCriticalSection := 0 }.goto (.reserved n)) := by
    unfold insertNext
    rw [hpc]
  refine ⟨_, hreach.next ⟨none, hnext⟩, ?_⟩
  intro hatomic
  have hinside : ({ c with inCriticalSection := 0 }.goto (.reserved n)).pc c.current =
      .reserved n := goto_pc (c := { c with inCriticalSection := 0 }) _
  have hflag := hatomic.flag c.current (by
    rw [hinside]
    intro heq
    cases heq)
  cases hflag

end Insert

/-! ## Opening a file is atomic when the table has a place for it -/

/-- For every table that the calls of `open_file_table.cpp` can make, calls of `gft_insert_s` for
one node are atomic under every schedule exactly when the table need not grow for it. -/
theorem gftInsertS_atomic {globalSize localSize node : Nat} {t : TableRun}
    (hg : globalSize < 4294967296) (hl : localSize < 4294967296) (hnode : node ≠ 0)
    (ht : (tableSystem globalSize localSize).Reachable t) :
    (∀ c, (insertSystem t.gft node).Reachable c → Atomic t.gft node c) ↔
      HasPlace t.gft node := by
  have hinv := tableInv_reachable hg hl ht
  constructor
  · intro hall
    by_contra hplace
    rcases growth_not_atomic (first_call_grows hinv.gft.1 hplace) with ⟨c, hreach, hnot⟩
    exact hnot (hall c hreach)
  · intro hplace c hc
    have hrun : InsertInv node (openedBefore t.gft node) c := by
      induction hc with
      | init hinit =>
        refine InsertInv.init hinv.gft.1 hplace ?_ hnode ?_ hinit
        · intro i j e e' he he' heq heq'
          exact hinv.unique i j node ((hinv.globals _ _).mpr ⟨hnode, e, he, heq⟩)
            ((hinv.globals _ _).mpr ⟨hnode, e', he', heq'⟩)
        · intro i e he hinvalid
          have hlive := (hinv.globals _ _).mpr ⟨hinvalid, e, he, rfl⟩
          have hcount := (hinv.counts i _ e hlive he).2
          omega
      | next _ hstep ih =>
        rcases hstep with ⟨act, hact⟩
        cases act with
        | none => exact ih.next hact
        | some thread =>
          cases hact
          exact ih.tick thread
    exact hrun.atomic

/-- A table of two places with two open files. -/
def fullTable : Vector Gfe :=
  { data := [{ fileNode := 1, openCount := 1, pages := [] },
      { fileNode := 2, openCount := 1, pages := [] }]
    rSize := 2 }

theorem fullTable_reachable : ∃ t, (tableSystem 2 1).Reachable t ∧ t.gft = fullTable := by
  have hinit : (tableSystem 2 1).Reachable
      ⟨vectorInit 2, vectorInit 1, fun _ => none, fun _ => none, fun _ => 0, fun _ => 0⟩ :=
    .init ⟨rfl, rfl, fun _ => rfl, fun _ => rfl⟩
  have hfirst : gftInsertS (vectorInit 2) (createGfe 1) =
      .ret (⟨[{ fileNode := 1, openCount := 1, pages := [] }], 2⟩, 0) := rfl
  have hone := hinit.next (.gftInsertS (by decide) hfirst)
  have hsecond : gftInsertS ⟨[{ fileNode := 1, openCount := 1, pages := [] }], 2⟩ (createGfe 2) =
      .ret (fullTable, 1) := rfl
  have htwo := hone.next (.gftInsertS (by decide) hsecond)
  refine ⟨_, htwo, ?_⟩
  unfold TableRun.opened
  split
  · rfl
  · rfl

/-- The first thread is in `vector_reserve` when a tick runs a second one, which opens the same
file; then the first thread goes on. -/
def growthSchedule : List (Option Nat) :=
  List.replicate 7 none ++ some 1 :: List.replicate 9 none ++ some 0 :: List.replicate 5 none

/-- A statement changes the place of the current thread only. -/
theorem insertNext_other {node t : Nat} {c c' : InsertRun} (h : insertNext node c = some c')
    (ht : t ≠ c.current) : c'.current = c.current ∧ c'.pc t = c.pc t := by
  have hgoto : ∀ (d : InsertRun) (pc : InsertPc), d.current = c.current → d.pc = c.pc →
      (d.goto pc).current = c.current ∧ (d.goto pc).pc t = c.pc t := by
    intro d pc hcurrent hpc
    refine ⟨hcurrent, ?_⟩
    rw [goto_other pc (by rw [hcurrent]; exact ht), hpc]
  unfold insertNext at h
  split at h
  all_goals try split at h
  all_goals cases h
  all_goals exact hgoto _ _ rfl rfl

/-- A thread that does not run stays where it is. -/
theorem steps_other {node t : Nat} {c c' : InsertRun} {acts : List (Option Nat)}
    (hrun : acts.foldlM (insertAct node) c = some c') (ht : t ≠ c.current)
    (hacts : some t ∉ acts) : c'.pc t = c.pc t := by
  induction acts generalizing c with
  | nil =>
    cases hrun
    rfl
  | cons act acts ih =>
    rw [List.foldlM_cons] at hrun
    rcases Option.bind_eq_some_iff.mp hrun with ⟨d, hact, hrest⟩
    rw [List.mem_cons, not_or] at hacts
    have hd : t ≠ d.current ∧ d.pc t = c.pc t := by
      cases act with
      | none =>
        rcases insertNext_other hact ht with ⟨hcurrent, hpc⟩
        exact ⟨by rw [hcurrent]; exact ht, hpc⟩
      | some thread =>
        cases hact
        unfold InsertRun.schedulerThreadSwitch
        by_cases hset : c.inCriticalSection ≠ 0
        · rw [if_pos hset]
          exact ⟨ht, rfl⟩
        · rw [if_neg hset]
          exact ⟨fun heq => hacts.1 (congrArg some heq), rfl⟩
    rw [ih hrest hd.1 hacts.2, hd.2]

/-- A table that grows ends with two entries for one node. -/
theorem growth_duplicates : ¬∀ t, (tableSystem 2 1).Reachable t →
    ∀ c, (insertSystem t.gft 3).Reachable c → Atomic t.gft 3 c := by
  intro hall
  rcases fullTable_reachable with ⟨t, ht, hgft⟩
  have hrun : (growthSchedule.foldlM (insertAct 3) (beforeCalls fullTable)).map
      (fun c => (c.gft.data, c.calls, c.pc 0, c.pc 1)) =
        some (fullTable.data ++ [{ fileNode := 3, openCount := 1, pages := [] },
          { fileNode := 3, openCount := 1, pages := [] }], 2, .idle, .idle) := rfl
  rcases Option.map_eq_some_iff.mp hrun with ⟨c, hc, hfinal⟩
  have hdata : c.gft.data = _ := congrArg (·.1) hfinal
  have hcalls : c.calls = 2 := congrArg (·.2.1) hfinal
  have hidle : ∀ t, c.pc t = .idle := by
    intro t
    by_cases hzero : t = 0
    · rw [hzero]
      exact congrArg (·.2.2.1) hfinal
    · by_cases hone : t = 1
      · rw [hone]
        exact congrArg (·.2.2.2) hfinal
      · apply steps_other hc hzero
        simp [growthSchedule, hzero, hone]
  have hreach : (insertSystem t.gft 3).Reachable c := by
    rw [hgft]
    exact steps_reachable beforeCalls_reachable hc
  rcases (hall t ht c hreach).opened hidle (by omega) with ⟨i, _, hone⟩
  rw [hdata] at hone
  have h₂ := hone 2 _ rfl rfl
  have h₃ := hone 3 _ rfl rfl
  omega

/-- With room for a third file the calls are atomic. -/
theorem gftInsertS_atomic_empty : HasPlace (vectorInit 1) 3 ∧
    ∀ c, (insertSystem (vectorInit 1) 3).Reachable c → Atomic (vectorInit 1) 3 c := by
  have hinit : (tableSystem 1 1).Reachable
      ⟨vectorInit 1, vectorInit 1, fun _ => none, fun _ => none, fun _ => 0, fun _ => 0⟩ :=
    .init ⟨rfl, rfl, fun _ => rfl, fun _ => rfl⟩
  have hplace : HasPlace (vectorInit 1) 3 := Or.inr (Or.inl (by decide))
  exact ⟨hplace, (gftInsertS_atomic (by decide) (by decide) (by decide) hinit).mpr hplace⟩

end MeOS
