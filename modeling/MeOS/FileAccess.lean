import MeOS.File
import MeOS.FileTableRuns

/-! # `file.cpp`: opening files and descriptors

`open_file_by_node` checks the capabilities against those of the node and leaves
them in the local entry. `read_file` and `write_file` take them from there. No read
or write changes which node an entry of the global table is about.
-/

namespace MeOS

/-! ## The functions -/

/-- `VFS_CAP_MAX`. -/
abbrev vfsCapMax : Nat := 0xFFFF

/-- `MAX_IO`. -/
abbrev maxIO : Nat := 4294967294

/-- `file_validate_capabilities`. -/
def fileValidateCapabilities (baseCaps requiredCaps : Nat) : Bool :=
  baseCaps &&& (requiredCaps &&& vfsCapMax) == requiredCaps &&& vfsCapMax

/-- What `open_file_by_node` leaves: the tables, what it stores in `*local_fd`, and its result. -/
structure Opened where
  gft : Vector Gfe
  lft : Vector Lfe
  localFd : Option Nat
  result : ErrorT
deriving Repr, DecidableEq

/-- `open_file_by_node` on a node with the given `capabilities` field; `fsOpen` is what the
driver answers to `vfs_open_file`. -/
def FileInterface.openFileByNode (nodeCaps : Nat) (fsOpen : ErrorT) (gft : Vector Gfe)
    (lft : Vector Lfe) (node capabilities : Nat) : Outcome Opened :=
  if fileValidateCapabilities nodeCaps capabilities = false then
    .ret ⟨gft, lft, none, .occur⟩
  else do
    let (gft, gfd) ← gftInsertS gft (createGfe node)
    if gfd = invalidFd then
      .ret ⟨gft, lft, none, .occur⟩
    else do
      let (lft, localFd) ← lftInsert gft lft (createLfe gfd capabilities)
      if localFd = invalidFd then
        .ret ⟨(gfeDecrementOpenCount gft gfd).1, lft, some invalidFd, .occur⟩
      else
        .ret ⟨gft, lft, some localFd, fsOpen⟩

/-- The module error behind an `INVALID_IO` of `read_file` and `write_file`. -/
inductive DescriptorError where
  /-- `OPEN_FILE_OUT_OF_BOUNDS`, from `lft_get`. -/
  | outOfBounds
  | file (e : FileError)
deriving Repr, DecidableEq

/-- `read_file`. -/
def readFile (ops : FsOperations) (s : FileState) (lft : Vector Lfe) (fd start count buffer : Nat) :
    Outcome (FileState × Except DescriptorError Nat) :=
  if count > maxIO then
    .ret (s, .error (.file .bigRequest))
  else
    match lftGet lft fd with
    | none => .ret (s, .error .outOfBounds)
    | some localEntry => do
      let (s, res) ←
        readFileGlobal ops s localEntry.gfd start count buffer localEntry.flags
      .ret (s, res.mapError .file)

/-- `write_file`. -/
def writeFile (ops : FsOperations) (s : FileState) (lft : Vector Lfe)
    (fd start count buffer : Nat) : Outcome (FileState × Except DescriptorError Nat) :=
  if count > maxIO then
    .ret (s, .error (.file .bigRequest))
  else
    match lftGet lft fd with
    | none => .ret (s, .error .outOfBounds)
    | some localEntry => do
      let (s, res, _) ←
        writeFileGlobal ops s localEntry.gfd start count buffer localEntry.flags
      .ret (s, res.mapError .file)

/-! ## The nodes of the entries -/

/-- The nodes that the global file table is about. -/
def FileState.fileNodes (s : FileState) : List Nat := s.gft.map (·.fileNode)

/-- The entries in use stay with their nodes. -/
def EntriesKept (gft gft' : List Gfe) : Prop :=
  ∀ (i : Nat) (e : Gfe), gft[i]? = some e → e.fileNode ≠ 0 →
    ∃ e', gft'[i]? = some e' ∧ e'.fileNode = e.fileNode

section Nodes

variable {s s' : FileState} {ops : FsOperations} {gfd page start count buffer caps n i : Nat}

theorem modifyPages_fileNodes (f : List PageInfo → List PageInfo) :
    (s.modifyPages gfd f).fileNodes = s.fileNodes := by
  unfold FileState.fileNodes FileState.modifyPages
  apply List.ext_getElem?
  intro j
  rw [List.getElem?_map, List.getElem?_map, List.getElem?_modify]
  cases s.gft[j]? with
  | none => rfl
  | some e =>
    by_cases hj : gfd = j
    · simp [hj]
    · simp [hj]

theorem reserveAnonymous_fileNodes (s : FileState) :
    (pageCacheReserveAnonymous s).1.fileNodes = s.fileNodes := by
  unfold pageCacheReserveAnonymous
  by_cases hfull : pageCacheIndexFreeBuffer s ≥ pageCacheNumBuffers s
  · simp only [if_pos hfull]
  · simp only [if_neg hfull]
    unfold vmmngrAllocPage
    split <;> rename_i heq <;> split at heq <;> cases heq <;> rfl

theorem releaseAnonymous_fileNodes (a : Nat) :
    (pageCacheReleaseAnonymous s a).fileNodes = s.fileNodes := by
  unfold pageCacheReleaseAnonymous
  dsimp only
  split <;> rfl

theorem reserveBuffer_fileNodes {a : Nat} (h : pageCacheReserveBuffer s gfd page = .ret (s', a)) :
    s'.fileNodes = s.fileNodes := by
  have hkept := reserveAnonymous_fileNodes s
  unfold pageCacheReserveBuffer at h
  rcases hres : pageCacheReserveAnonymous s with ⟨t, address⟩
  rw [hres] at h hkept
  cases address with
  | zero =>
    cases h
    exact hkept
  | succ a' =>
    cases hentry : gftGet t gfd with
    | none =>
      simp only [hentry] at h
      cases h
    | some e =>
      simp only [hentry] at h
      cases h
      exact (modifyPages_fileNodes _).trans hkept

theorem releaseBuffer_fileNodes {r : Except PageCacheError Unit}
    (h : pageCacheReleaseBuffer s gfd page = .ret (s', r)) : s'.fileNodes = s.fileNodes := by
  unfold pageCacheReleaseBuffer at h
  cases hentry : s.gft[gfd]? with
  | none =>
    rw [hentry] at h
    cases h
  | some e =>
    rw [hentry] at h
    dsimp only at h
    by_cases hnil : e.pages = []
    · rw [if_pos hnil] at h
      cases h
      rfl
    · rw [if_neg hnil] at h
      cases hfind : e.pages.find? fun i => i.page == page with
      | none =>
        rw [hfind] at h
        cases h
        rfl
      | some i =>
        rw [hfind] at h
        cases h
        exact (releaseAnonymous_fileNodes _).trans (modifyPages_fileNodes _)

theorem makeDirty_fileNodes (s : FileState) (gfd page : Nat) (dirty : Bool) :
    (pageCacheMakeDirty s gfd page dirty).1.fileNodes = s.fileNodes := by
  unfold pageCacheMakeDirty
  cases pageCacheGetFinfo s gfd page with
  | error e => rfl
  | ok i => exact modifyPages_fileNodes _

theorem vfsReadFile_fileNodes (ops : FsOperations) (s : FileState)
    (fd file start count address : Nat) :
    (vfsReadFile ops s fd file start count address).1.fileNodes = s.fileNodes :=
  rfl

/-- The page loop of a read leaves the nodes as they are. -/
theorem readPages_fileNodes {k w : Nat}
    (h : readPages ops gfd start count buffer n i k s = .ret (s', w)) :
    s'.fileNodes = s.fileNodes := by
  induction n generalizing i k s with
  | zero =>
    cases h
    rfl
  | succ n ih =>
    unfold readPages at h
    cases hentry : gftGet s gfd with
    | none =>
      rw [hentry] at h
      cases h
    | some e =>
      rw [hentry] at h
      dsimp only at h
      split at h
      · cases h
        rfl
      split at h
      · -- the page is not cached
        cases hreserve : pageCacheReserveBuffer s gfd (add32 (start / pageCacheSize) i) with
        | ret r =>
          rcases r with ⟨t, cache⟩
          have hkept := reserveBuffer_fileNodes hreserve
          rw [hreserve] at h
          cases cache with
          | zero =>
            cases h
            exact hkept
          | succ a =>
            have hfill := vfsReadFile_fileNodes ops t gfd e.fileNode
              (add32 start (mul32 i pageCacheSize)) pageCacheSize (a + 1)
            rcases hread : vfsReadFile ops t gfd e.fileNode (add32 start (mul32 i pageCacheSize))
              pageCacheSize (a + 1) with ⟨u, res⟩
            rw [hread] at hfill
            simp only [hread] at h
            by_cases hfail : res = invalidIO
            · rw [if_pos hfail] at h
              rcases Outcome.bind_eq_ret.mp h with ⟨⟨v, r⟩, hrelease, hret⟩
              cases hret
              exact (releaseBuffer_fileNodes hrelease).trans (hfill.trans hkept)
            · rw [if_neg hfail] at h
              refine (ih h).trans (Eq.trans ?_ (hfill.trans hkept))
              split <;> split <;> rfl
        | panic =>
          rw [hreserve] at h
          cases h
        | undefined =>
          rw [hreserve] at h
          cases h
        | running =>
          rw [hreserve] at h
          cases h
      · refine (ih h).trans ?_
        split <;> split <;> rfl

/-- `read_file_global` reads only with `VFS_CAP_READ`, from an entry of the table. -/
theorem readFileGlobal_spec {r : Except FileError Nat}
    (h : readFileGlobal ops s gfd start count buffer caps = .ret (s', r)) :
    s'.fileNodes = s.fileNodes ∧ ∀ w, r = .ok w →
      (∃ e, s.gft[gfd]? = some e ∧ e.fileNode ≠ 0) ∧ chkBit caps vfsCapRead = true := by
  unfold readFileGlobal at h
  cases hentry : gftGet s gfd with
  | none =>
    rw [hentry] at h
    cases h
    exact ⟨rfl, fun w hw => by cases hw⟩
  | some e =>
    rw [hentry] at h
    dsimp only at h
    by_cases hinvalid : gfeIsInvalid e = true
    · rw [if_pos hinvalid] at h
      cases h
      exact ⟨rfl, fun w hw => by cases hw⟩
    rw [if_neg hinvalid] at h
    by_cases hread : chkBit caps vfsCapRead = false
    · rw [if_pos hread] at h
      cases h
      exact ⟨rfl, fun w hw => by cases hw⟩
    rw [if_neg hread] at h
    have hgranted : (∃ e, s.gft[gfd]? = some e ∧ e.fileNode ≠ 0) ∧
        chkBit caps vfsCapRead = true :=
      ⟨⟨e, hentry, by simpa [gfeIsInvalid] using hinvalid⟩, by simpa using hread⟩
    by_cases hcache : chkBit caps vfsCapCache = true
    · rw [if_pos hcache] at h
      by_cases haligned : start % pageCacheSize ≠ 0
      · rw [if_pos haligned] at h
        cases h
        exact ⟨rfl, fun w hw => by cases hw⟩
      · rw [if_neg haligned] at h
        rcases Outcome.bind_eq_ret.mp h with ⟨⟨t, w⟩, hpages, hret⟩
        cases hret
        exact ⟨readPages_fileNodes hpages, fun _ _ => hgranted⟩
    · rw [if_neg hcache] at h
      cases h
      exact ⟨rfl, fun _ _ => hgranted⟩

/-- A page with its cell, and the pages behind it. -/
theorem finishPage_fileNodes {k : Nat} {t : FileState} {cache : Nat} {read : List (Nat × Nat)}
    {w : Written}
    (hrest : ∀ {k read u}, writePages gfd start count buffer n (i + 1) k read u = .ret w →
      w.state.fileNodes = u.fileNodes)
    (hret : (match (if buffer ≠ noBuffer then
        ({ t with
            mem := memcpy t.mem cache (add32 buffer (mul32 i pageCacheSize)) pageCacheSize },
          read ++ [(add32 buffer (mul32 i pageCacheSize), pageCacheSize)])
        else (t, read)) with
      | (t, read) =>
        match pageCacheMakeDirty t gfd (add32 (start / pageCacheSize) i) true with
        | (t, .error _) =>
          .ret ⟨t, add32 k (minimum (sub32 count k) pageCacheSize), false, read⟩
        | (t, .ok ()) => writePages gfd start count buffer n (i + 1)
          (add32 k (minimum (sub32 count k) pageCacheSize)) read t) = Outcome.ret w) :
    w.state.fileNodes = t.fileNodes := by
  rcases hcopy : (if buffer ≠ noBuffer then
      ({ t with
          mem := memcpy t.mem cache (add32 buffer (mul32 i pageCacheSize)) pageCacheSize },
        read ++ [(add32 buffer (mul32 i pageCacheSize), pageCacheSize)])
      else (t, read)) with ⟨u, read'⟩
  have hsame : u.fileNodes = t.fileNodes := by
    split at hcopy <;> cases hcopy <;> rfl
  have hdirty := makeDirty_fileNodes u gfd (add32 (start / pageCacheSize) i) true
  rw [hcopy] at hret
  dsimp only at hret
  rcases hmake : pageCacheMakeDirty u gfd (add32 (start / pageCacheSize) i) true with ⟨v, r⟩
  rw [hmake] at hret hdirty
  cases r with
  | error e =>
    cases hret
    exact hdirty.trans hsame
  | ok a => exact (hrest hret).trans (hdirty.trans hsame)

/-- The page loop of a write leaves the nodes as they are. -/
theorem writePages_fileNodes {k : Nat} {read : List (Nat × Nat)} {w : Written}
    (h : writePages gfd start count buffer n i k read s = .ret w) :
    w.state.fileNodes = s.fileNodes := by
  induction n generalizing i k read s with
  | zero =>
    cases h
    rfl
  | succ n ih =>
    unfold writePages at h
    dsimp only at h
    by_cases hcached : pageCacheGetBuffer s gfd (add32 (start / pageCacheSize) i) = 0
    · rw [if_pos hcached] at h
      cases hreserve : pageCacheReserveBuffer s gfd (add32 (start / pageCacheSize) i) with
      | ret r =>
        rcases r with ⟨t, cache⟩
        have hkept := reserveBuffer_fileNodes hreserve
        rw [hreserve] at h
        cases cache with
        | zero =>
          cases h
          exact hkept
        | succ a =>
          by_cases hlast : sub32 count k < pageCacheSize
          · simp only [if_pos hlast] at h
            exact (finishPage_fileNodes ih h).trans hkept
          · simp only [if_neg hlast] at h
            exact (finishPage_fileNodes ih h).trans hkept
      | panic =>
        rw [hreserve] at h
        cases h
      | undefined =>
        rw [hreserve] at h
        cases h
      | running =>
        rw [hreserve] at h
        cases h
    · rw [if_neg hcached] at h
      exact finishPage_fileNodes ih h

/-- `write_file_global` writes only with `VFS_CAP_WRITE`, to an entry of the table. -/
theorem writeFileGlobal_spec {r : Except FileError Nat × List (Nat × Nat)}
    (h : writeFileGlobal ops s gfd start count buffer caps = .ret (s', r)) :
    s'.fileNodes = s.fileNodes ∧ ∀ w, r.1 = .ok w →
      (∃ e, s.gft[gfd]? = some e ∧ e.fileNode ≠ 0) ∧ chkBit caps vfsCapWrite = true := by
  -- each guard of the source that fails returns an error and leaves the nodes
  unfold writeFileGlobal at h
  cases hentry : gftGet s gfd with
  | none =>
    rw [hentry] at h
    cases h
    exact ⟨rfl, fun w hw => by cases hw⟩
  | some e =>
    rw [hentry] at h
    dsimp only at h
    by_cases hinvalid : gfeIsInvalid e = true
    · rw [if_pos hinvalid] at h
      cases h
      exact ⟨rfl, fun w hw => by cases hw⟩
    rw [if_neg hinvalid] at h
    by_cases hwrite : chkBit caps vfsCapWrite = false
    · rw [if_pos hwrite] at h
      cases h
      exact ⟨rfl, fun w hw => by cases hw⟩
    rw [if_neg hwrite] at h
    have hgranted : (∃ e, s.gft[gfd]? = some e ∧ e.fileNode ≠ 0) ∧
        chkBit caps vfsCapWrite = true :=
      ⟨⟨e, hentry, by simpa [gfeIsInvalid] using hinvalid⟩, by simpa using hwrite⟩
    by_cases hcache : chkBit caps vfsCapCache = true
    · rw [if_pos hcache] at h
      by_cases haligned : start % pageCacheSize ≠ 0
      · rw [if_pos haligned] at h
        cases h
        exact ⟨rfl, fun w hw => by cases hw⟩
      rw [if_neg haligned] at h
      by_cases hfar : start / pageCacheSize ≥
          add32 (ceilDivision (s.nodes e.fileNode).fileLength pageCacheSize) 2
      · rw [if_pos hfar] at h
        cases h
        exact ⟨rfl, fun w hw => by cases hw⟩
      · rw [if_neg hfar] at h
        rcases Outcome.bind_eq_ret.mp h with ⟨w, hpages, hret⟩
        refine ⟨Eq.trans ?_ (writePages_fileNodes hpages), fun _ _ => hgranted⟩
        split at hret
        · cases hret
          rfl
        · cases hret
          split <;> rfl
    · rw [if_neg hcache] at h
      cases h
      exact ⟨rfl, fun _ _ => hgranted⟩

/-- The entries of two tables about the same nodes. -/
theorem entriesKept_of_fileNodes (h : s'.fileNodes = s.fileNodes) : EntriesKept s.gft s'.gft := by
  intro i e he _
  have hsame : (s'.gft[i]?).map (·.fileNode) = some e.fileNode := by
    rw [← List.getElem?_map, show s'.gft.map (·.fileNode) = s.gft.map (·.fileNode) from h,
      List.getElem?_map, he]
    rfl
  rcases Option.map_eq_some_iff.mp hsame with ⟨e', he', hnode⟩
  exact ⟨e', he', hnode⟩

end Nodes

/-! ## Access through descriptors -/

section Descriptors

variable {s s' : FileState} {ops : FsOperations} {lft : Vector Lfe} {gft : Vector Gfe}
  {fd start count buffer node caps nodeCaps bit : Nat} {fsOpen : ErrorT} {o : Opened}

/-- What was validated is in the capabilities of the node. -/
theorem validate_bit (h : fileValidateCapabilities nodeCaps caps = true)
    (hbit : bit &&& vfsCapMax = bit) (hcaps : chkBit caps bit = true) :
    chkBit nodeCaps bit = true := by
  have hbase : nodeCaps &&& (caps &&& vfsCapMax) = caps &&& vfsCapMax := beq_iff_eq.mp h
  have hreq : caps &&& bit = bit := beq_iff_eq.mp hcaps
  have hmask : caps &&& vfsCapMax &&& bit = bit := by
    rw [Nat.and_assoc, Nat.and_comm vfsCapMax, hbit, hreq]
  apply beq_iff_eq.mpr
  calc nodeCaps &&& bit = nodeCaps &&& (caps &&& vfsCapMax &&& bit) := by rw [hmask]
    _ = nodeCaps &&& (caps &&& vfsCapMax) &&& bit := (Nat.and_assoc _ _ _).symm
    _ = bit := by rw [hbase, hmask]

/-- A read of a file goes through an entry with `VFS_CAP_READ`. -/
theorem readFile_spec {r : Except DescriptorError Nat}
    (h : readFile ops s lft fd start count buffer = .ret (s', r)) :
    s'.fileNodes = s.fileNodes ∧ ∀ w, r = .ok w → ∃ entry, lft.data[fd]? = some entry ∧
      (∃ e, s.gft[entry.gfd]? = some e ∧ e.fileNode ≠ 0) ∧
      chkBit entry.flags vfsCapRead = true := by
  unfold readFile at h
  by_cases hbig : count > maxIO
  · rw [if_pos hbig] at h
    cases h
    exact ⟨rfl, fun w hw => by cases hw⟩
  rw [if_neg hbig] at h
  cases hentry : lftGet lft fd with
  | none =>
    rw [hentry] at h
    cases h
    exact ⟨rfl, fun w hw => by cases hw⟩
  | some entry =>
    rw [hentry] at h
    rcases Outcome.bind_eq_ret.mp h with ⟨⟨t, res⟩, hglobal, hret⟩
    cases hret
    rcases readFileGlobal_spec hglobal with ⟨hkept, hread⟩
    refine ⟨hkept, fun w hw => ⟨entry, hentry, ?_⟩⟩
    cases res with
    | error e => cases hw
    | ok w' => exact hread w' rfl

/-- A write to a file goes through an entry with `VFS_CAP_WRITE`. -/
theorem writeFile_spec {r : Except DescriptorError Nat}
    (h : writeFile ops s lft fd start count buffer = .ret (s', r)) :
    s'.fileNodes = s.fileNodes ∧ ∀ w, r = .ok w → ∃ entry, lft.data[fd]? = some entry ∧
      (∃ e, s.gft[entry.gfd]? = some e ∧ e.fileNode ≠ 0) ∧
      chkBit entry.flags vfsCapWrite = true := by
  unfold writeFile at h
  by_cases hbig : count > maxIO
  · rw [if_pos hbig] at h
    cases h
    exact ⟨rfl, fun w hw => by cases hw⟩
  rw [if_neg hbig] at h
  cases hentry : lftGet lft fd with
  | none =>
    rw [hentry] at h
    cases h
    exact ⟨rfl, fun w hw => by cases hw⟩
  | some entry =>
    rw [hentry] at h
    rcases Outcome.bind_eq_ret.mp h with ⟨⟨t, res, ranges⟩, hglobal, hret⟩
    cases hret
    rcases writeFileGlobal_spec hglobal with ⟨hkept, hwrite⟩
    refine ⟨hkept, fun w hw => ⟨entry, hentry, ?_⟩⟩
    cases res with
    | error e => cases hw
    | ok w' => exact hwrite w' rfl

/-- An open that gets a descriptor puts the validated capabilities behind it, whatever
the driver answers. -/
structure GotDescriptor (nodeCaps : Nat) (fsOpen : ErrorT) (lft : Vector Lfe)
    (node caps fd : Nat) (o : Opened) : Prop where
  localFd : o.localFd = some fd
  result : o.result = fsOpen
  valid : fileValidateCapabilities nodeCaps caps = true
  entry : ∃ gfd e, o.lft.data[fd]? = some ⟨caps, gfd⟩ ∧ o.gft.data[gfd]? = some e ∧
    e.fileNode = node
  other : ∀ j, j ≠ fd → o.lft.data[j]? = lft.data[j]?

theorem gftInsertS_kept {v : Vector Gfe} {index : Nat}
    (hret : gftInsertS gft (createGfe node) = .ret (v, index)) (hg : gft.Fits ∧ 0 < gft.rSize) :
    (v.Fits ∧ 0 < v.rSize) ∧ EntriesKept gft.data v.data ∧
      ∃ e, v.data[index]? = some e ∧ e.fileNode = node := by
  rcases gftInsertS_spec hret hg.1 hg.2 with ⟨hv, hother, ⟨e, he, hnode, hnew⟩ | ⟨_, hfree, hnew⟩⟩
  · refine ⟨hv, ?_, _, hnew, hnode⟩
    intro i e' he' _
    by_cases hi : i = index
    · subst hi
      rw [he] at he'
      cases he'
      exact ⟨_, hnew, rfl⟩
    · exact ⟨e', (hother i hi).trans he', rfl⟩
  · refine ⟨hv, ?_, _, hnew, rfl⟩
    intro i e' he' hused
    by_cases hi : i = index
    · subst hi
      rcases hfree with hnone | ⟨e, he, hzero⟩
      · rw [hnone] at he'
        cases he'
      · rw [he] at he'
        cases he'
        exact absurd hzero hused
    · exact ⟨e', (hother i hi).trans he', rfl⟩

theorem EntriesKept.trans {l l' l'' : List Gfe} (h : EntriesKept l l') (h' : EntriesKept l' l'') :
    EntriesKept l l'' := by
  intro i e he hused
  rcases h i e he hused with ⟨e₁, he₁, hnode₁⟩
  rcases h' i e₁ he₁ (by rwa [hnode₁]) with ⟨e₂, he₂, hnode₂⟩
  exact ⟨e₂, he₂, hnode₂.trans hnode₁⟩

theorem EntriesKept.refl (l : List Gfe) : EntriesKept l l := fun _ e he _ => ⟨e, he, rfl⟩

/-- An open count does not change the node of an entry. -/
theorem gfeDecrementOpenCount_kept (hg : gft.Fits ∧ 0 < gft.rSize) (index : Nat) :
    ((gfeDecrementOpenCount gft index).1.Fits ∧ 0 < (gfeDecrementOpenCount gft index).1.rSize) ∧
      EntriesKept gft.data (gfeDecrementOpenCount gft index).1.data := by
  unfold gfeDecrementOpenCount
  cases gftAt gft index with
  | none => exact ⟨hg, EntriesKept.refl _⟩
  | some e =>
    dsimp only
    by_cases hinvalid : gfeIsInvalid e = true
    · rw [if_pos hinvalid]
      exact ⟨hg, EntriesKept.refl _⟩
    · rw [if_neg hinvalid]
      refine ⟨⟨hg.1.modify _ _, hg.2⟩, ?_⟩
      intro i e' he' _
      by_cases hi : index = i
      · subst hi
        exact ⟨_, modify_same he', rfl⟩
      · exact ⟨e', (modify_other hi).trans he', rfl⟩

/-- `open_file_by_node` keeps the tables, and fails without a new descriptor or gets one. -/
theorem FileInterface.openFileByNode_spec
    (h : openFileByNode nodeCaps fsOpen gft lft node caps = .ret o)
    (hg : gft.Fits ∧ 0 < gft.rSize) (hl : lft.Fits ∧ 0 < lft.rSize) :
    (o.gft.Fits ∧ 0 < o.gft.rSize) ∧ (o.lft.Fits ∧ 0 < o.lft.rSize) ∧
    EntriesKept gft.data o.gft.data ∧
    ((o.result = .occur ∧ o.lft = lft) ∨ ∃ fd, GotDescriptor nodeCaps fsOpen lft node caps fd o) := by
  unfold openFileByNode at h
  by_cases hvalid : fileValidateCapabilities nodeCaps caps = false
  · rw [if_pos hvalid] at h
    cases h
    exact ⟨hg, hl, EntriesKept.refl _, Or.inl ⟨rfl, rfl⟩⟩
  rw [if_neg hvalid] at h
  rcases Outcome.bind_eq_ret.mp h with ⟨⟨v, gfd⟩, hinsert, hrest⟩
  rcases gftInsertS_kept hinsert hg with ⟨hv, hkept, e, he, hnode⟩
  dsimp only at hrest
  by_cases hbad : gfd = invalidFd
  · rw [if_pos hbad] at hrest
    cases hrest
    exact ⟨hv, hl, hkept, Or.inl ⟨rfl, rfl⟩⟩
  rw [if_neg hbad] at hrest
  rcases Outcome.bind_eq_ret.mp hrest with ⟨⟨u, fd⟩, hlocal, hret⟩
  dsimp only at hret
  rcases lftInsert_spec hlocal hl.1 with ⟨_, hfd, hsame⟩ | ⟨_, hins⟩
  · -- the descriptor is not in the global table
    rw [if_pos hfd] at hret
    cases hret
    rcases gfeDecrementOpenCount_kept hv gfd with ⟨hdec, hdecKept⟩
    exact ⟨hdec, by rw [hsame]; exact hl, hkept.trans hdecKept, Or.inl ⟨rfl, hsame⟩⟩
  · have hle := hins.fits.le
    have hword := hins.fits.word
    have hlt : fd < u.count := lt_count_iff.mpr ⟨_, hins.same⟩
    have hfd : fd ≠ invalidFd := by
      unfold invalidFd
      omega
    rw [if_neg hfd] at hret
    cases hret
    refine ⟨hv, ⟨hins.fits, hins.rSize_pos⟩, hkept, Or.inr ⟨fd, rfl, rfl, ?_, ?_, hins.other⟩⟩
    · simpa using hvalid
    · exact ⟨gfd, e, hins.same, he, hnode⟩

end Descriptors

end MeOS
