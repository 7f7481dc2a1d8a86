import MeOS.FileAccess

/-! # `file.cpp`: an open that fails

`open_file_by_node` goes through the global table, the table of the process and the driver, in
this order. When the second step fails the first one is undone; when the driver fails nothing is.

Here `realloc` answers as it likes: `gftRoom` and `lftRoom` say whether it finds room for a
larger global and a larger local table. When it does not, `vector_reserve` calls `PANIC`.
-/

namespace MeOS.FileOpen

/-! ## The functions -/

section

variable {α : Type}

/-- `vector_reserve`, with the answer of `realloc`. -/
def vectorReserve (room : Bool) (v : Vector α) (numElements : Nat) : Outcome (Vector α) :=
  if numElements = 0 ∨ room = false then .panic else .ret { v with rSize := numElements }

/-- The first part of `vector_insert_back`. -/
def vectorGrow (room : Bool) (v : Vector α) : Outcome (Vector α) :=
  if v.count = v.rSize then vectorReserve room v (mul32 2 v.count) else .ret v

/-- `vector_insert_back`. -/
def vectorInsertBack (room : Bool) (v : Vector α) (x : α) : Outcome (Vector α) := do
  let v ← vectorGrow room v
  if v.count < v.rSize then .ret { v with data := v.data ++ [x] } else .undefined

/-- The body of `lft_insert` and of `gft_insert`. -/
def tableInsert (room : Bool) (v : Vector α) (isInvalid : α → Bool) (entry : α) :
    Outcome (Vector α × Nat) :=
  if v.count < v.rSize ∨ vectorFindFirst v isInvalid ≥ v.rSize then do
    let v ← vectorInsertBack room v entry
    let index := v.count - 1
    .ret (v.put index entry, index)
  else
    let index := vectorFindFirst v isInvalid
    .ret (v.put index entry, index)

end

/-- `lft_insert`. -/
def lftInsert (room : Bool) (gft : Vector Gfe) (lft : Vector Lfe) (entry : Lfe) :
    Outcome (Vector Lfe × Nat) :=
  if entry.gfd ≥ gft.count then .ret (lft, invalidFd) else tableInsert room lft lfeIsInvalid entry

/-- `gft_insert_s`. -/
def gftInsertS (room : Bool) (gft : Vector Gfe) (entry : Gfe) : Outcome (Vector Gfe × Nat) := do
  let entryIndex := gftGetN gft entry.fileNode
  let (gft, entryIndex) ←
    (if entryIndex = invalidFd then tableInsert room gft gfeIsInvalid entry
      else .ret (gft, entryIndex))
  .ret (gftOpen gft entryIndex, entryIndex)

/-- `open_file_by_node` on a node with the given `capabilities` field; `fsOpen` is what the
driver answers to `vfs_open_file`. -/
def openFileByNode (gftRoom lftRoom : Bool) (nodeCaps : Nat) (fsOpen : ErrorT) (gft : Vector Gfe)
    (lft : Vector Lfe) (node capabilities : Nat) : Outcome Opened :=
  if fileValidateCapabilities nodeCaps capabilities = false then
    .ret ⟨gft, lft, none, .occur⟩
  else do
    let (gft, gfd) ← gftInsertS gftRoom gft (createGfe node)
    if gfd = invalidFd then
      .ret ⟨gft, lft, none, .occur⟩
    else do
      let (lft, localFd) ← lftInsert lftRoom gft lft (createLfe gfd capabilities)
      if localFd = invalidFd then
        .ret ⟨(gfeDecrementOpenCount gft gfd).1, lft, some invalidFd, .occur⟩
      else
        .ret ⟨gft, lft, some localFd, fsOpen⟩

/-! ## Tables that must grow -/

/-- There is no place for one more entry. -/
def MustGrow {α : Type} (v : Vector α) (isInvalid : α → Bool) : Prop :=
  ¬ v.count < v.rSize ∧ vectorFindFirst v isInvalid ≥ v.rSize

/-- A table as the kernel keeps it: the array has room for what it holds, and its entries do not
fill half of the address space. -/
structure TableOk {α : Type} (v : Vector α) : Prop where
  fits : v.Fits
  pos : 0 < v.rSize
  small : v.count < 2147483648

section Grow

variable {α : Type} {v : Vector α} {room : Bool} {isInvalid : α → Bool} {entry : α}

/-- A table that cannot grow ends in `PANIC`. -/
theorem tableInsert_stuck (hv : v.Fits) (hgrow : MustGrow v isInvalid) (hroom : room = false) :
    tableInsert room v isInvalid entry = .panic := by
  have hfull : v.count = v.rSize := Nat.le_antisymm hv.le (Nat.le_of_not_lt hgrow.1)
  rw [tableInsert, if_pos (Or.inr hgrow.2), vectorInsertBack, vectorGrow, if_pos hfull,
    vectorReserve, if_pos (Or.inr hroom)]
  rfl

/-- Otherwise the answer of `realloc` is not asked for, or it is there. -/
theorem tableInsert_eq (h : ¬ (MustGrow v isInvalid ∧ room = false)) :
    tableInsert room v isInvalid entry = MeOS.tableInsert v isInvalid entry := by
  unfold tableInsert MeOS.tableInsert
  by_cases hback : v.count < v.rSize ∨ vectorFindFirst v isInvalid ≥ v.rSize
  · have hsame : vectorInsertBack room v entry = MeOS.vectorInsertBack v entry := by
      unfold vectorInsertBack MeOS.vectorInsertBack vectorGrow MeOS.vectorGrow
      by_cases hfull : v.count = v.rSize
      · have hasked : room = true := by
          by_contra hno
          exact h ⟨⟨by omega, by omega⟩, by simpa using hno⟩
        rw [if_pos hfull, if_pos hfull, vectorReserve, MeOS.vectorReserve, hasked]
        simp
      · rw [if_neg hfull, if_neg hfull]
    rw [if_pos hback, if_pos hback, hsame]
  · rw [if_neg hback, if_neg hback]

end Grow

/-- An entry is put in its place, unless the table cannot grow. -/
theorem tableInsert_cases {α : Type} {v : Vector α} (hv : TableOk v) (room : Bool)
    (isInvalid : α → Bool) (entry : α) :
    (tableInsert room v isInvalid entry = .panic ∧ MustGrow v isInvalid ∧ room = false) ∨
      (¬ (MustGrow v isInvalid ∧ room = false) ∧ ∃ v' i,
        tableInsert room v isInvalid entry = .ret (v', i) ∧
          MeOS.tableInsert v isInvalid entry = .ret (v', i)) := by
  by_cases h : MustGrow v isInvalid ∧ room = false
  · exact Or.inl ⟨tableInsert_stuck hv.fits h.1 h.2, h⟩
  · obtain ⟨v', i, hrun⟩ := tableInsert_returns entry isInvalid hv.fits hv.pos hv.small
    exact Or.inr ⟨h, v', i, (tableInsert_eq h).trans hrun, hrun⟩

/-! ## No trace -/

/-- What a failed open must leave: the entries that were in use keep their open counts, a new one
has none, and the descriptors of the process are the same. -/
structure NoTrace (gft : Vector Gfe) (lft : Vector Lfe) (o : Opened) : Prop where
  counts : ∀ (i : Nat) (e : Gfe), gft.data[i]? = some e → gfeIsInvalid e = false →
    ∃ e', o.gft.data[i]? = some e' ∧ e'.openCount = e.openCount
  fresh : ∀ (i : Nat) (e' : Gfe), o.gft.data[i]? = some e' → gfeIsInvalid e' = false →
    (∀ e, gft.data[i]? = some e → gfeIsInvalid e = true) → e'.openCount = 0
  locals : ∀ (i : Nat) (e : Lfe), lfeIsInvalid e = false →
    (o.lft.data[i]? = some e ↔ lft.data[i]? = some e)

/-- `open_file_by_node` leaves no trace when it reports a failure. -/
def LeavesNoTrace (gftRoom lftRoom : Bool) (nodeCaps : Nat) (fsOpen : ErrorT) (gft : Vector Gfe)
    (lft : Vector Lfe) (node capabilities : Nat) : Prop :=
  ∀ o, openFileByNode gftRoom lftRoom nodeCaps fsOpen gft lft node capabilities = .ret o →
    o.result = .occur → NoTrace gft lft o

theorem NoTrace.refl (gft : Vector Gfe) (lft : Vector Lfe) :
    NoTrace gft lft ⟨gft, lft, none, .occur⟩ where
  counts i e he _ := ⟨e, he, rfl⟩
  fresh i e' he' hused hfree := by
    rw [hfree e' he'] at hused
    cases hused
  locals i e _ := Iff.rfl

section Open

variable {gftRoom lftRoom : Bool} {nodeCaps node caps : Nat} {fsOpen : ErrorT} {gft : Vector Gfe}
  {lft : Vector Lfe}

/-- The node has no entry, and there is no place for one. -/
def GftMustGrow (gft : Vector Gfe) (node : Nat) : Prop :=
  gftGetN gft node = invalidFd ∧ MustGrow gft gfeIsInvalid

/-- The first step gives an entry of the table, unless the table cannot grow. -/
theorem gftInsertS_cases (hg : TableOk gft) (node : Nat) :
    (gftInsertS gftRoom gft (createGfe node) = .panic ∧ GftMustGrow gft node ∧
      gftRoom = false) ∨
      (¬ (GftMustGrow gft node ∧ gftRoom = false) ∧ ∃ v gfd,
        gftInsertS gftRoom gft (createGfe node) = .ret (v, gfd) ∧ gfd < v.count ∧
          gfd ≠ invalidFd) := by
  have hnode : (createGfe node).fileNode = node := rfl
  -- with an entry at hand both versions go the same way
  have hsome : ∀ v gfd, MeOS.gftInsertS gft (createGfe node) = .ret (v, gfd) →
      gfd < v.count ∧ gfd ≠ invalidFd := by
    intro v gfd hrun
    obtain ⟨⟨hv, _⟩, _, e, he, _⟩ := gftInsertS_kept hrun ⟨hg.fits, hg.pos⟩
    have hlt : gfd < v.count := lt_count_iff.mpr ⟨e, he⟩
    have hle := hv.le
    have hword := hv.word
    unfold invalidFd
    exact ⟨hlt, by omega⟩
  by_cases hnew : gftGetN gft node = invalidFd
  · rcases tableInsert_cases hg gftRoom gfeIsInvalid (createGfe node) with
      ⟨hpanic, hgrow, hroom⟩ | ⟨hplace, v, i, hrun, hrun'⟩
    · refine Or.inl ⟨?_, ⟨hnew, hgrow⟩, hroom⟩
      unfold gftInsertS
      dsimp only
      rw [hnode, if_pos hnew, hpanic]
      rfl
    · have hret : MeOS.gftInsertS gft (createGfe node) = .ret (gftOpen v i, i) := by
        unfold MeOS.gftInsertS MeOS.gftInsert
        dsimp only
        rw [hnode, if_pos hnew, hrun']
        rfl
      refine Or.inr ⟨fun h => hplace ⟨h.1.2, h.2⟩, gftOpen v i, i, ?_, hsome _ _ hret⟩
      unfold gftInsertS
      dsimp only
      rw [hnode, if_pos hnew, hrun]
      rfl
  · have hret : MeOS.gftInsertS gft (createGfe node) =
        .ret (gftOpen gft (gftGetN gft node), gftGetN gft node) := by
      unfold MeOS.gftInsertS
      dsimp only
      rw [hnode, if_neg hnew]
      rfl
    refine Or.inr ⟨fun h => hnew h.1.1, _, _, ?_, hsome _ _ hret⟩
    unfold gftInsertS
    dsimp only
    rw [hnode, if_neg hnew]
    rfl

/-- How an open ends that passes the check of the capabilities: a table cannot grow, or the
process has got a descriptor and the answer is the driver's. -/
theorem openFileByNode_cases (fsOpen : ErrorT) (hg : TableOk gft) (hl : TableOk lft)
    (hcaps : ¬ fileValidateCapabilities nodeCaps caps = false) :
    (openFileByNode gftRoom lftRoom nodeCaps fsOpen gft lft node caps = .panic ∧
      ((GftMustGrow gft node ∧ gftRoom = false) ∨
        (MustGrow lft lfeIsInvalid ∧ lftRoom = false))) ∨
      (¬ (GftMustGrow gft node ∧ gftRoom = false) ∧
        ¬ (MustGrow lft lfeIsInvalid ∧ lftRoom = false) ∧ ∃ o fd gfd,
          openFileByNode gftRoom lftRoom nodeCaps fsOpen gft lft node caps = .ret o ∧
            o.result = fsOpen ∧ gfd ≠ invalidFd ∧
            Inserted lft lfeIsInvalid (createLfe gfd caps) o.lft fd) := by
  unfold openFileByNode
  rw [if_neg hcaps]
  rcases gftInsertS_cases hg node with ⟨hpanic, hstuck⟩ |
    ⟨hfirst, v, gfd, hinsert, hlt, hgfd⟩
  · rw [hpanic]
    exact Or.inl ⟨rfl, Or.inl hstuck⟩
  · have hin : ¬ (createLfe gfd caps).gfd ≥ v.count := Nat.not_le.mpr hlt
    rw [hinsert, Outcome.ret_bind]
    dsimp only
    rw [if_neg hgfd, lftInsert, if_neg hin]
    rcases tableInsert_cases hl lftRoom lfeIsInvalid (createLfe gfd caps) with
      ⟨hpanic, hstuck⟩ | ⟨hsecond, u, fd, hrun, hrun'⟩
    · rw [hpanic]
      exact Or.inl ⟨rfl, Or.inr hstuck⟩
    · have hins := tableInsert_spec hrun' hl.fits
      have hle := hins.fits.le
      have hword := hins.fits.word
      have hfd : fd < u.count := lt_count_iff.mpr ⟨_, hins.same⟩
      have hvalid : fd ≠ invalidFd := by
        unfold invalidFd
        omega
      rw [hrun, Outcome.ret_bind]
      dsimp only
      rw [if_neg hvalid]
      exact Or.inr ⟨hfirst, hsecond, _, fd, gfd, rfl, rfl, hgfd, hins⟩

/-- A descriptor that has been handed out is a trace. -/
theorem Inserted.trace {gfd fd : Nat} {o : Opened} (hgfd : gfd ≠ invalidFd)
    (h : Inserted lft lfeIsInvalid (createLfe gfd caps) o.lft fd) : ¬ NoTrace gft lft o := by
  intro hno
  have hvalid : lfeIsInvalid (createLfe gfd caps) = false := by
    simpa [lfeIsInvalid, createLfe] using hgfd
  have hbefore := (hno.locals fd _ hvalid).mp h.same
  rcases h.fresh with hnone | ⟨e, he, hinvalid⟩
  · rw [hnone] at hbefore
    cases hbefore
  · rw [he] at hbefore
    cases hbefore
    rw [hvalid] at hinvalid
    cases hinvalid

/-- A failed open leaves no trace if and only if it does not come to fail in the driver. -/
theorem openFileByNode_noTrace_iff (hg : TableOk gft) (hl : TableOk lft) :
    LeavesNoTrace gftRoom lftRoom nodeCaps fsOpen gft lft node caps ↔
      fileValidateCapabilities nodeCaps caps = false ∨ fsOpen = .ok ∨
        (GftMustGrow gft node ∧ gftRoom = false) ∨
        (MustGrow lft lfeIsInvalid ∧ lftRoom = false) := by
  by_cases hcaps : fileValidateCapabilities nodeCaps caps = false
  · refine iff_of_true (fun o hrun _ => ?_) (Or.inl hcaps)
    rw [openFileByNode, if_pos hcaps] at hrun
    cases hrun
    exact .refl gft lft
  · rcases openFileByNode_cases fsOpen hg hl hcaps with
      ⟨hpanic, hstuck⟩ | ⟨hfirst, hsecond, o, fd, gfd, hrun, hres, hgfd, hins⟩
    · refine iff_of_true (fun o hrun _ => ?_) (Or.inr (Or.inr hstuck))
      rw [hpanic] at hrun
      cases hrun
    · constructor
      · intro hno
        refine Or.inr (Or.inl ?_)
        cases hfs : fsOpen with
        | ok => rfl
        | occur => exact absurd (hno o hrun (hres.trans hfs)) (Inserted.trace hgfd hins)
      · rintro (h | hok | h | h)
        · exact absurd h hcaps
        · intro o' hrun' hfailed
          rw [hrun] at hrun'
          cases hrun'
          rw [hres, hok] at hfailed
          cases hfailed
        · exact absurd h hfirst
        · exact absurd h hsecond

end Open

/-- A node with the capability to read, empty tables, and a driver that opens it. -/
theorem openFileByNode_noTrace_iff_empty :
    LeavesNoTrace true true 2 .ok (vectorInit 1) (vectorInit 1) 7 2 ↔
      fileValidateCapabilities 2 2 = false ∨ ErrorT.ok = .ok ∨
        (GftMustGrow (vectorInit 1) 7 ∧ true = false) ∨
        (MustGrow (vectorInit 1 : Vector Lfe) lfeIsInvalid ∧ true = false) :=
  openFileByNode_noTrace_iff ⟨⟨by decide, by decide⟩, by decide, by decide⟩
    ⟨⟨by decide, by decide⟩, by decide, by decide⟩

/-- The driver fails: the node stays open once, and the process keeps a descriptor for it. -/
theorem openFileByNode_trace :
    openFileByNode true true 2 .occur (vectorInit 1) (vectorInit 1) 7 2 =
        .ret ⟨⟨[⟨7, 1, []⟩], 1⟩, ⟨[⟨2, 0⟩], 1⟩, some 0, .occur⟩ ∧
      ¬ LeavesNoTrace true true 2 .occur (vectorInit 1) (vectorInit 1) 7 2 := by
  have hrun : openFileByNode true true 2 .occur (vectorInit 1) (vectorInit 1) 7 2 =
      .ret ⟨⟨[⟨7, 1, []⟩], 1⟩, ⟨[⟨2, 0⟩], 1⟩, some 0, .occur⟩ := by decide
  refine ⟨hrun, fun h => ?_⟩
  have hopen := (h _ hrun rfl).fresh 0 ⟨7, 1, []⟩ rfl rfl fun e he => by cases he
  cases hopen

end MeOS.FileOpen
