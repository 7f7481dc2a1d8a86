import MeOS.CachedWrite

/-! # Cached reads

A cached read provides its pages one after another, from the cache or from the
driver, and copies them out. For whole pages that leaves every cached byte as
it is (`readPages_whole`). Behind the bytes of a last, partial page the read
clears as many bytes as it has copied: in the cell, and in the cell after it.
So a read is pure exactly when no such page is reached or the cleared bytes
are zero already.
-/

namespace MeOS

open Bytes

/-! ## What a read sees -/

/-- The entry `g` of the table refers to the node at `node`. -/
def EntryNode (s : FileState) (g node : Nat) : Prop :=
  ∃ e, s.gft[g]? = some e ∧ e.fileNode = node

/-- Byte `k` of page `p` as the driver delivers it. -/
def driverByte (ops : FsOperations) (g node p k : Nat) : UInt8 :=
  (ops.fsRead g node (mul32 p pageCacheSize) pageCacheSize).2 k

/-- The driver delivers page `p`. -/
def DriverOk (ops : FsOperations) (g node p : Nat) : Prop :=
  (ops.fsRead g node (mul32 p pageCacheSize) pageCacheSize).1 ≠ invalidIO

/-- Page `p` starts behind the end of the file. -/
def PastEnd (s : FileState) (node p : Nat) : Prop :=
  mul32 p pageCacheSize ≥ (s.nodes node).fileLength

/-- The byte a read is meant to return: the cached one, or the driver's. -/
def Serves (ops : FsOperations) (node : Nat) (s : FileState) (g off : Nat) (b : UInt8) : Prop :=
  FileByte s g off b ∨
    (¬ Cached s g (off / pageCacheSize) ∧
      b = driverByte ops g node (off / pageCacheSize) (off % pageCacheSize))

/-- Cached pages keep their bytes, and pages that were loaded hold the bytes of
the driver. -/
structure PureRead (ops : FsOperations) (node : Nat) (s s' : FileState) (g : Nat) : Prop where
  kept : ∀ g' off b, FileByte s g' off b → FileByte s' g' off b
  loaded : ∀ g' off b, ¬ Cached s g' (off / pageCacheSize) → FileByte s' g' off b →
    g' = g ∧ b = driverByte ops g node (off / pageCacheSize) (off % pageCacheSize)

section Serves

variable {ops : FsOperations} {node node' g g' off : Nat} {s s' : FileState} {b b' : UInt8}

theorem CacheInv.serves_unique (h : CacheInv s) (h₁ : Serves ops node s g off b)
    (h₂ : Serves ops node s g off b') : b = b' := by
  rcases h₁ with h₁ | ⟨hc₁, rfl⟩ <;> rcases h₂ with h₂ | ⟨hc₂, rfl⟩
  · exact h.fileByte_unique h₁ h₂
  · obtain ⟨i, hi, _⟩ := h₁
    exact absurd ⟨i, hi⟩ hc₂
  · obtain ⟨i, hi, _⟩ := h₂
    exact absurd ⟨i, hi⟩ hc₁
  · rfl

/-- After a pure read every file shows the bytes it showed before. -/
theorem PureRead.serves (hp : PureRead ops node s s' g) (h' : CacheInv s')
    (hnode : g' = g → node' = node) (hs : Serves ops node' s' g' off b) :
    Serves ops node' s g' off b := by
  rcases hs with hb | ⟨hc, rfl⟩
  · by_cases hcached : Cached s g' (off / pageCacheSize)
    · obtain ⟨b₀, hb₀⟩ := fileByte_of_cached hcached
      rw [h'.fileByte_unique hb (hp.kept _ _ _ hb₀)]
      exact Or.inl hb₀
    · obtain ⟨rfl, rfl⟩ := hp.loaded g' off b hcached hb
      obtain rfl := hnode rfl
      exact Or.inr ⟨hcached, rfl⟩
  · refine Or.inr ⟨fun hcached => hc ?_, rfl⟩
    obtain ⟨b₀, hb₀⟩ := fileByte_of_cached hcached
    obtain ⟨i, hi, _⟩ := hp.kept _ _ _ hb₀
    exact ⟨i, hi⟩

end Serves

/-! ## Where pages are loaded -/

/-- The pages among `p`, …, `p + n - 1` that are not cached. -/
def missingPages (s : FileState) (g p n : Nat) : List Nat :=
  (List.range' p n).filter fun q => pageCacheGetBuffer s g q == 0

/-- The pages that have to be loaded, with the cells they go to. -/
def loads (s : FileState) (g p n : Nat) : List (Nat × Nat) :=
  (missingPages s g p n).zip (freeCells s)

section Loads

variable {s s' : FileState} {g p n c : Nat} {rest : List Nat}

theorem missingPages_length : (missingPages s g p n).length = missing s g p n :=
  List.countP_eq_length_filter.symm

theorem mem_missingPages (h : CacheInv s) (hg : OpenFile s g) {q : Nat} :
    q ∈ missingPages s g p n ↔ (p ≤ q ∧ q < p + n) ∧ ¬ Cached s g q := by
  simp only [missingPages, List.mem_filter, List.mem_range'_1, beq_iff_eq, h.getBuffer_eq_zero hg]

theorem missingPages_congr {k : Nat} (hc : Consumed s s' g k p) (h : CacheInv s)
    (h' : CacheInv s') (hg : OpenFile s g) (hg' : OpenFile s' g) :
    missingPages s' g p n = missingPages s g p n := by
  refine List.filter_congr fun q hq => ?_
  have hle := (List.mem_range'_1.mp hq).1
  rw [Bool.eq_iff_iff, beq_iff_eq, beq_iff_eq, h'.getBuffer_eq_zero hg', h.getBuffer_eq_zero hg,
    hc.later q hle]

@[simp] theorem loads_zero : loads s g p 0 = [] := rfl

theorem loads_reserved (hzero : pageCacheGetBuffer s g p = 0) (hfree : freeCells s = c :: rest) :
    loads s g p (n + 1) = (p, c) :: (missingPages s g (p + 1) n).zip rest := by
  simp [loads, missingPages, List.range'_succ, hzero, hfree]

end Loads

/-! ## One turn of the loop -/

/-- What the page loop is given: a file, a request in pages, and a caller buffer
of `count` bytes or none. -/
structure ReadRequest (s : FileState) (g node start count buffer : Nat) : Prop where
  inv : CacheInv s
  entry : EntryNode s g node
  inUse : node ≠ 0
  aligned : start % pageCacheSize = 0
  startLt : start < 4294967296
  countLt : count < 4294967296
  target : buffer = noBuffer ∨ (buffer + count ≤ 4294967296 ∧ ClearOf s buffer count)

theorem ReadRequest.opened {s : FileState} {g node start count buffer : Nat}
    (h : ReadRequest s g node start count buffer) : OpenFile s g := by
  obtain ⟨e, he, rfl⟩ := h.entry
  exact ⟨e, he, h.inUse⟩

/-- The copy from the cell at `cache` to the caller buffer, and the clearing
behind a partial page. -/
def FileState.copyOut (s : FileState) (count buffer i bytesRead cache : Nat) : FileState :=
  let s :=
    if buffer ≠ noBuffer then
      { s with mem := memcpy s.mem (source buffer i) cache
                        (minimum (sub32 count bytesRead) pageCacheSize) }
    else s
  if sub32 count bytesRead < pageCacheSize then
    { s with mem := memset s.mem (sub32 (add32 cache count) bytesRead) 0 (sub32 count bytesRead) }
  else s

section Turn

variable {ops : FsOperations} {s : FileState} {g node start count buffer i w n p c : Nat}
  {rest : List Nat} {content : Mem}

theorem readPages_pastEnd (he : EntryNode s g node)
    (hp : add32 (start / pageCacheSize) i = p) (hend : PastEnd s node p) :
    readPages ops g start count buffer (n + 1) i w s = .ret (s, w) := by
  obtain ⟨e, he, rfl⟩ := he
  simp only [readPages, gftGet, he, hp]
  exact if_pos hend

theorem readPages_cached (h : CacheInv s) (he : EntryNode s g node) (hnode : node ≠ 0)
    (hp : add32 (start / pageCacheSize) i = p) (hend : ¬ PastEnd s node p) (hh : Holds s g p c) :
    readPages ops g start count buffer (n + 1) i w s =
      readPages ops g start count buffer n (i + 1) (advance count w)
        (s.copyOut count buffer i w (cellAddr s c)) := by
  obtain ⟨e, he, rfl⟩ := he
  have hget := h.getBuffer_of_holds ⟨e, he, hnode⟩ hh
  have hpos := (h.cell_bounds (i := c) (by have hlt := (h.cells hh).1; omega)).1
  have hne : ¬ cellAddr s c = 0 := by omega
  simp only [readPages, gftGet, he, hp, hget, if_neg hne]
  exact if_neg hend

theorem readPages_stopped (n count buffer w : Nat) (h : CacheInv s) (he : EntryNode s g node)
    (hp : add32 (start / pageCacheSize) i = p) (hend : ¬ PastEnd s node p) (hc : ¬ Cached s g p)
    (hstop : freeCells s = [] ∨ s.frames 0 = none) :
    ∃ frames, readPages ops g start count buffer (n + 1) i w s =
      .ret ({ s with frames := frames }, w) := by
  obtain ⟨e, he, rfl⟩ := he
  have hget := getBuffer_of_not_cached hc
  cases hfree : freeCells s with
  | nil =>
    refine ⟨s.frames, ?_⟩
    simp only [readPages, gftGet, he, hp, hget, if_pos, h.reserve_full hfree]
    exact if_neg hend
  | cons c rest =>
    have hframe : s.frames 0 = none := by simpa [hfree] using hstop
    refine ⟨fun k => s.frames (k + 1), ?_⟩
    simp only [readPages, gftGet, he, hp, hget, if_pos, h.reserve_refused hfree hframe]
    exact if_neg hend

/-- The state after page `p` has been loaded into the free cell `c`. -/
def FileState.load (s : FileState) (ops : FsOperations) (g node p c : Nat) (content : Mem) :
    FileState :=
  { s.assign g p c content with
    mem := blit (s.assign g p c content).mem (cellAddr s c)
      (fun k => driverByte ops g node p k) 0 pageCacheSize }

/-- The offset handed to the driver. -/
theorem readArg_eq (hstart : start % pageCacheSize = 0)
    (hp : start / pageCacheSize + i = p) :
    add32 start (mul32 i pageCacheSize) = mul32 p pageCacheSize := by
  subst hp
  simp only [add32, mul32, pageCacheSize] at *
  omega

theorem readPages_loaded (h : CacheInv s) (he : EntryNode s g node) (hnode : node ≠ 0)
    (hp : add32 (start / pageCacheSize) i = p)
    (harg : add32 start (mul32 i pageCacheSize) = mul32 p pageCacheSize)
    (hend : ¬ PastEnd s node p) (hc : ¬ Cached s g p)
    (hfree : freeCells s = c :: rest) (hframe : s.frames 0 = some content)
    (hok : DriverOk ops g node p) :
    readPages ops g start count buffer (n + 1) i w s =
      readPages ops g start count buffer n (i + 1) (advance count w)
        ((s.load ops g node p c content).copyOut count buffer i w (cellAddr s c)) := by
  obtain ⟨e, he, rfl⟩ := he
  have hci : c ∈ freeCells s := by simp [hfree]
  have hget := getBuffer_of_not_cached hc
  have hres := h.reserve_ok (p := p) ⟨e, he, hnode⟩ hfree hframe
  have hpos := (h.cell_bounds (mem_freeCells.mp hci).1).1
  obtain ⟨a, ha⟩ : ∃ a, cellAddr s c = a + 1 := ⟨cellAddr s c - 1, by omega⟩
  rw [ha] at hres
  simp only [readPages, gftGet, he, hp, hget, if_pos, hres, vfsReadFile, harg]
  refine (if_neg hend).trans ((if_neg hok).trans ?_)
  rw [← ha]
  rfl

/-- Undoing a change of an entry. -/
theorem modify_undo {gft : List Gfe} {f f' : Gfe → Gfe}
    (h : ∀ e, gft[g]? = some e → f' (f e) = e) : (gft.modify g f).modify g f' = gft := by
  refine List.ext_getElem? fun k => ?_
  by_cases hk : g = k
  · subst hk
    cases he : gft[g]? with
    | none => simp [he]
    | some e => simp [he, h e he]
  · simp [List.getElem?_modify_ne _ _ hk]

/-- The driver fails: the cell is given back, and nothing but its content has
changed. -/
theorem readPages_failed (n count buffer w : Nat) (h : CacheInv s) (he : EntryNode s g node)
    (hnode : node ≠ 0)
    (hp : add32 (start / pageCacheSize) i = p)
    (harg : add32 start (mul32 i pageCacheSize) = mul32 p pageCacheSize)
    (hend : ¬ PastEnd s node p) (hc : ¬ Cached s g p)
    (hfree : freeCells s = c :: rest) (hframe : s.frames 0 = some content)
    (hok : ¬ DriverOk ops g node p) :
    ∃ m frames, readPages ops g start count buffer (n + 1) i w s =
        .ret ({ s with mem := m, frames := frames }, w) ∧
      ∀ x, x < cellAddr s c ∨ cellAddr s c + pageCacheSize ≤ x → m x = s.mem x := by
  obtain ⟨e, he, rfl⟩ := he
  have hci : c ∈ freeCells s := by simp [hfree]
  have hlt := h.free_lt hci
  have hget := getBuffer_of_not_cached hc
  have hres := h.reserve_ok (p := p) ⟨e, he, hnode⟩ hfree hframe
  have hpos := (h.cell_bounds (mem_freeCells.mp hci).1).1
  obtain ⟨a, ha⟩ : ∃ a, cellAddr s c = a + 1 := ⟨cellAddr s c - 1, by omega⟩
  have hbad : (ops.fsRead g e.fileNode (mul32 p pageCacheSize) pageCacheSize).1 = invalidIO :=
    not_not.mp hok
  rw [ha] at hres
  -- the page just inserted is the one that is taken out
  have hno : ∀ j ∈ e.pages, ¬ (j.page == p) = true := by
    intro j hj hjp
    obtain ⟨q, k, d⟩ := j
    have hq : q = p := by simpa using hjp
    subst hq
    exact hc ⟨k, e, d, he, hj⟩
  have hfind : (e.pages ++ [(⟨p, c, false⟩ : PageInfo)]).find? (fun j => j.page == p) =
      some ⟨p, c, false⟩ := by
    rw [List.find?_append, List.find?_eq_none.mpr hno]
    simp
  have herase : (e.pages ++ [(⟨p, c, false⟩ : PageInfo)]).eraseP (fun j => j.page == p) =
      e.pages := by
    rw [List.eraseP_append_right _ hno]
    simp
  have hgft : (s.gft.modify g fun e => { e with pages := e.pages ++ [⟨p, c, false⟩] }).modify g
      (fun e => { e with pages := e.pages.eraseP fun j => j.page == p }) = s.gft := by
    refine modify_undo fun e' he' => ?_
    obtain rfl : e = e' := Option.some.inj (he.symm.trans he')
    simp [herase]
  have hidx := h.indexByAddr (i := c) (by omega)
  have haddr := h.addrByIndex (i := c) (by omega)
  have hbit := h.bitmap_eq
  let t : FileState := s.load ops g e.fileNode p c content
  let m : Mem := store8 t.mem (bitmapAddr s + c) 0
  have hentry : t.gft[g]? = some { e with pages := e.pages ++ [⟨p, c, false⟩] } := by
    simp [t, FileState.load, FileState.assign, he]
  have hrelease : pageCacheReleaseBuffer t g p =
      .ret ({ s with mem := m, frames := fun k => s.frames (k + 1) }, .ok ()) := by
    have hnil : ¬ e.pages ++ [(⟨p, c, false⟩ : PageInfo)] = [] := by simp
    simp only [pageCacheReleaseBuffer, hentry, if_neg hnil, hfind]
    have hmod : t.modifyPages g (fun pages => pages.eraseP fun j => j.page == p) =
        { t with gft := s.gft } := congrArg (fun gft => { t with gft := gft }) hgft
    have haddr' : pageCacheAddrByIndex { t with gft := s.gft } c = cellAddr s c := haddr
    have hidx' : pageCacheIndexByAddr { t with gft := s.gft } (cellAddr s c) = c := hidx
    have hbit' : allocedBitmap { t with gft := s.gft } = bitmapAddr s := hbit
    have hge : ¬ c ≥ pageCacheNumBuffers { t with gft := s.gft } :=
      not_le.mpr (show c < pageCacheNumBuffers s by omega)
    rw [hmod, haddr', pageCacheReleaseAnonymous, hidx', if_neg hge, pageCacheIndexReleaseBuffer,
      hbit']
    rfl
  refine ⟨m, fun k => s.frames (k + 1), ?_, ?_⟩
  · simp only [readPages, gftGet, he, hp, hget, if_pos, hres, vfsReadFile, harg]
    refine (if_neg hend).trans ((if_pos hbad).trans ?_)
    rw [← ha]
    have hbind := congrArg (fun o => o >>= fun r => pure (r.1, w)) hrelease
    exact hbind
  · intro x hx
    show store8 _ _ _ x = _
    by_cases hxb : x = bitmapAddr s + c
    · rw [hxb, store8_same, (mem_freeCells.mp hci).2]
    · rw [store8_ne _ _ hxb]
      show blit _ _ _ _ _ x = _
      rw [blit_frame _ _ _ hx, assign_mem hx hxb]

end Turn

/-! ## The copy to the caller -/

section Copy

variable {s : FileState} {g node start count buffer i c : Nat}

/-- The bytes of page `i` the caller asked for. -/
abbrev chunk (count i : Nat) : Nat := min (count - pageCacheSize * i) pageCacheSize

/-- The copy puts the bytes of the cell into the caller buffer; a partial page
is cleared behind them. -/
theorem copyOut_eq (h : ReadRequest s g node start count buffer)
    (hi : pageCacheSize * i < count) (hc : c + 1 < pageCacheNumBuffers s) :
    ∃ m : Mem, (s.copyOut count buffer i (pageCacheSize * i) (cellAddr s c) =
        if count - pageCacheSize * i < pageCacheSize then
          { s with mem := fill m (cellAddr s c + (count - pageCacheSize * i))
                            (count - pageCacheSize * i) 0 }
        else { s with mem := m }) ∧
      (∀ x, (buffer = noBuffer ∨ x < buffer + pageCacheSize * i ∨
          buffer + pageCacheSize * i + chunk count i ≤ x) → m x = s.mem x) ∧
      (buffer ≠ noBuffer → ∀ k, k < chunk count i →
        m (buffer + pageCacheSize * i + k) = s.mem (cellAddr s c + k)) := by
  -- the offsets of the page stay below 2^32, so no operation wraps
  have hcount := h.countLt
  have hb := h.inv.cell_bounds (i := c) (by omega)
  have hcache := cache_le_cellAddr (s := s) (i := c)
  have hleft : sub32 count (pageCacheSize * i) = count - pageCacheSize * i :=
    sub32_eq hcount (by omega)
  have hmin : minimum (count - pageCacheSize * i) pageCacheSize = chunk count i := minimum_eq _ _
  have hzero : count - pageCacheSize * i < pageCacheSize →
      sub32 (add32 (cellAddr s c) count) (pageCacheSize * i) =
        cellAddr s c + (count - pageCacheSize * i) := by
    intro hpart
    simp only [add32, sub32, pageCacheSize] at *
    omega
  by_cases hbuf : buffer = noBuffer
  · refine ⟨s.mem, ?_, fun _ _ => rfl, fun hne => absurd hbuf hne⟩
    have hno : ¬ buffer ≠ noBuffer := not_not.mpr hbuf
    simp only [FileState.copyOut, if_neg hno, hleft, memset_eq]
    split
    · rename_i hpart
      rw [hzero hpart]
    · rfl
  · obtain ⟨hroom, hclear⟩ := h.target.resolve_left hbuf
    have hsource : source buffer i = buffer + pageCacheSize * i := by
      simp only [source, pageCacheSize] at *
      rw [mul32_eq (by omega), add32_eq (by omega)]
      omega
    have hcopy : memcpy s.mem (buffer + pageCacheSize * i) (cellAddr s c) (chunk count i) =
        blit s.mem (buffer + pageCacheSize * i) s.mem (cellAddr s c) (chunk count i) := by
      refine memcpy_eq _ _ _ _ ?_
      simp only [ClearOf, chunk, pageCacheSize] at *
      omega
    refine ⟨blit s.mem (buffer + pageCacheSize * i) s.mem (cellAddr s c) (chunk count i),
      ?_, ?_, ?_⟩
    · simp only [FileState.copyOut, if_pos (show buffer ≠ noBuffer from hbuf), hleft, hmin, hsource,
        hcopy, memset_eq]
      split
      · rename_i hpart
        rw [hzero hpart]
      · rfl
    · intro x hx
      exact blit_frame _ _ _ (hx.resolve_left hbuf)
    · intro _ k hk
      rw [blit_at _ _ _ _ (by omega)]

end Copy

/-! ## What a stretch of pages does to the cache -/

/-- From `s` to `s'` the pages in `ls` were loaded into their cells. -/
structure Fetched (ops : FsOperations) (node : Nat) (s s' : FileState) (g : Nat)
    (ls : List (Nat × Nat)) : Prop where
  inv : CacheInv s'
  same : s'.cache = s.cache ∧ s'.cacheSize = s.cacheSize ∧ s'.nodes = s.nodes
  entry : ∀ g' node', EntryNode s' g' node' ↔ EntryNode s g' node'
  holds : ∀ {g' p c}, Holds s' g' p c ↔ Holds s g' p c ∨ (g' = g ∧ (p, c) ∈ ls)
  kept : ∀ g' off b, FileByte s g' off b → FileByte s' g' off b
  loaded : ∀ off c, (off / pageCacheSize, c) ∈ ls →
    FileByte s' g off (driverByte ops g node (off / pageCacheSize) (off % pageCacheSize))
  driven : ∀ p c, (p, c) ∈ ls → DriverOk ops g node p

/-- The bytes `lo`, …, `hi - 1` of the request are in the caller buffer, and
outside of the cache nothing else was written. -/
structure Delivered (ops : FsOperations) (node : Nat) (s s' : FileState)
    (g start buffer lo hi : Nat) : Prop where
  bytes : buffer ≠ noBuffer → ∀ k, lo ≤ k → k < hi →
    Serves ops node s g (start + k) (s'.mem (buffer + k))
  outside : ∀ x, x < s.cache ∨ s.cache + s.cacheSize ≤ x →
    buffer = noBuffer ∨ x < buffer + lo ∨ buffer + hi ≤ x → s'.mem x = s.mem x

section Fetched

variable {ops : FsOperations} {node g p c : Nat} {s s₁ s' : FileState}
  {ls ls₁ ls₂ : List (Nat × Nat)}

theorem Fetched.trans (h₁ : Fetched ops node s s₁ g ls₁) (h₂ : Fetched ops node s₁ s' g ls₂) :
    Fetched ops node s s' g (ls₁ ++ ls₂) where
  inv := h₂.inv
  same := ⟨h₂.same.1.trans h₁.same.1, h₂.same.2.1.trans h₁.same.2.1,
    h₂.same.2.2.trans h₁.same.2.2⟩
  entry g' node' := (h₂.entry g' node').trans (h₁.entry g' node')
  holds := by
    intro g' p c
    rw [h₂.holds, h₁.holds, List.mem_append, or_assoc, ← and_or_left]
  kept g' off b hb := h₂.kept g' off b (h₁.kept g' off b hb)
  loaded := by
    intro off c hmem
    rcases List.mem_append.mp hmem with hmem | hmem
    · exact h₂.kept g off _ (h₁.loaded off c hmem)
    · exact h₂.loaded off c hmem
  driven := by
    intro p c hmem
    rcases List.mem_append.mp hmem with hmem | hmem
    · exact h₁.driven p c hmem
    · exact h₂.driven p c hmem

/-- Changes outside the cells that hold pages load nothing. -/
theorem Fetched.idle {m : Mem} {frames : Nat → Option Mem}
    (hinv : CacheInv { s with mem := m, frames := frames })
    (hsame : ∀ {g' p c}, Holds s g' p c → ∀ x, cellAddr s c ≤ x →
      x < cellAddr s c + pageCacheSize → m x = s.mem x) :
    Fetched ops node s { s with mem := m, frames := frames } g [] where
  inv := hinv
  same := ⟨rfl, rfl, rfl⟩
  entry _ _ := Iff.rfl
  holds := by
    intro g' p c
    simp only [List.not_mem_nil, and_false, or_false]
    exact Iff.rfl
  kept g' off b hb := by
    refine hb.congr ?_ (fun _ => rfl) fun i hi x hlo hhi => hsame hi x hlo hhi
    exact fun hh => hh
  loaded off c hmem := absurd hmem List.not_mem_nil
  driven p c hmem := absurd hmem List.not_mem_nil

theorem entryNode_modify {f : Gfe → Gfe} (hf : ∀ e, (f e).fileNode = e.fileNode)
    {mem : Mem} {frames : Nat → Option Mem} {g' node' : Nat} :
    EntryNode { s with gft := s.gft.modify g f, mem := mem, frames := frames } g' node' ↔
      EntryNode s g' node' := by
  unfold EntryNode
  by_cases hg : g = g'
  · subst hg
    cases he : s.gft[g]? with
    | none => simp [he]
    | some e => simp [he, hf]
  · simp [List.getElem?_modify_ne _ _ hg]

/-- Loading a page into a free cell. -/
theorem Fetched.load (h : CacheInv s) (hg : OpenFile s g) (hc : c ∈ freeCells s)
    (hp : ¬ Cached s g p) (hok : DriverOk ops g node p) (content : Mem) :
    Fetched ops node s (s.load ops g node p c content) g [(p, c)] := by
  have hlt := h.free_lt hc
  have hbelow := CacheInv.cell_below_bitmap (s := s) hlt
  have hinv : CacheInv (s.assign g p c content) := h.assign hg hc hp
  have hheld : Holds (s.assign g p c content) g p c :=
    (holds_assign hg).mpr (Or.inr ⟨rfl, rfl, rfl⟩)
  refine
    { inv := hinv.of_mem ?_, same := ⟨rfl, rfl, rfl⟩,
      entry := fun g' node' => entryNode_modify
        (f := fun e => { e with pages := e.pages ++ [⟨p, c, false⟩] }) fun _ => rfl,
      holds := ?_, kept := ?_, loaded := ?_, driven := ?_ }
  · intro x hlo hhi
    exact blit_frame _ _ _ (Or.inr (hbelow.trans hlo))
  · intro g' q i
    have hload : Holds (s.load ops g node p c content) g' q i ↔
      Holds (s.assign g p c content) g' q i := Iff.rfl
    rw [hload, holds_assign hg, List.mem_singleton, Prod.mk.injEq]
  · intro g' off b hb
    refine hinv.fileByte_frame hheld (fun x hx => blit_frame _ _ _ hx)
      (h.fileByte_assign hg hc hb) ?_
    rintro ⟨rfl, rfl⟩
    obtain ⟨i, hi, _⟩ := hb
    exact hp ⟨i, hi⟩
  · intro off i hmem
    have hoff : off / pageCacheSize = p := (Prod.mk.inj (List.mem_singleton.mp hmem)).1
    have hb := fileByte_blit hheld (fun k => driverByte ops g node p k) 0 hoff
    rw [Nat.zero_add, ← hoff] at hb
    rw [hoff] at hb ⊢
    exact hb
  · intro q i hmem
    rw [(Prod.mk.inj (List.mem_singleton.mp hmem)).1]
    exact hok

theorem Fetched.pureRead (h : Fetched ops node s s' g ls) : PureRead ops node s s' g where
  kept := h.kept
  loaded := by
    rintro g' off b hno ⟨c, hc, hb⟩
    rcases h.holds.mp hc with hold | ⟨rfl, hmem⟩
    · exact absurd ⟨c, hold⟩ hno
    · exact ⟨rfl, h.inv.fileByte_unique ⟨c, hc, hb⟩ (h.loaded off c hmem)⟩

theorem Fetched.cached (h : Fetched ops node s s' g ls) {g' q : Nat} :
    Cached s' g' q ↔ Cached s g' q ∨ (g' = g ∧ ∃ c, (q, c) ∈ ls) := by
  simp only [Cached, h.holds, exists_or, exists_and_left]

/-- A later state of the cache serves the same requests. -/
theorem Fetched.request (h : Fetched ops node s s' g ls) {g' node' start count buffer : Nat}
    (hr : ReadRequest s g' node' start count buffer) :
    ReadRequest s' g' node' start count buffer where
  inv := h.inv
  entry := (h.entry g' node').mpr hr.entry
  inUse := hr.inUse
  aligned := hr.aligned
  startLt := hr.startLt
  countLt := hr.countLt
  target := by
    have htarget := hr.target
    simp only [ClearOf, h.same.1, h.same.2.1] at htarget ⊢
    exact htarget

theorem Delivered.trans {node g start count buffer lo mid hi : Nat}
    (hr : ReadRequest s g node start count buffer) (hhi : hi ≤ count)
    (hf : Fetched ops node s s₁ g ls)
    (h₁ : Delivered ops node s s₁ g start buffer lo mid)
    (h₂ : Delivered ops node s₁ s' g start buffer mid hi) (hmid : mid ≤ hi) (hlo : lo ≤ mid) :
    Delivered ops node s s' g start buffer lo hi where
  bytes := by
    intro hbuf k hk₁ hk₂
    obtain ⟨_, hclear⟩ := hr.target.resolve_left hbuf
    by_cases hk : k < mid
    · have hout : s'.mem (buffer + k) = s₁.mem (buffer + k) := by
        refine h₂.outside _ ?_ (Or.inr (Or.inl (by omega)))
        simp only [ClearOf] at hclear
        rw [hf.same.1, hf.same.2.1]
        omega
      rw [hout]
      exact h₁.bytes hbuf k hk₁ hk
    · exact hf.pureRead.serves hf.inv (fun _ => rfl) (h₂.bytes hbuf k (by omega) hk₂)
  outside := by
    intro x hx hbuf
    rw [h₂.outside x (by rw [hf.same.1, hf.same.2.1]; exact hx) (by omega),
      h₁.outside x hx (by omega)]

end Fetched

/-! ## The pages of a request -/

/-- The loop gets through the pages `p`, …, `p + n - 1`: none starts behind the
end of the file, and those that are missing can be reserved and loaded. -/
structure Passes (ops : FsOperations) (s : FileState) (g node p n : Nat) : Prop where
  inFile : ∀ q, p ≤ q → q < p + n → ¬ PastEnd s node q
  supply : ¬ Shortage s (missing s g p n)
  driver : ∀ q ∈ missingPages s g p n, DriverOk ops g node q

section Passes

variable {ops : FsOperations} {node g p n start count buffer i : Nat} {s s₁ s' : FileState}
  {ls : List (Nat × Nat)}

theorem missingPages_add (a b : Nat) : missingPages s g p (a + b) =
    missingPages s g p a ++ missingPages s g (p + a) b := by
  rw [missingPages, ← List.range'_append_1, List.filter_append]
  rfl

theorem passes_zero : Passes ops s g node p 0 where
  inFile q hlo hhi := by omega
  supply := shortage_zero
  driver q hq := absurd hq List.not_mem_nil

theorem Passes.mono {m : Nat} (h : Passes ops s g node p n) (hmn : m ≤ n) :
    Passes ops s g node p m := by
  obtain ⟨r, rfl⟩ := Nat.exists_eq_add_of_le hmn
  have hmiss := missing_add (s := s) (g := g) (p := p) m r
  refine ⟨fun q hlo hhi => h.inFile q hlo (by omega), fun hs => h.supply ?_,
    fun q hq => h.driver q ?_⟩
  · exact hs.mono (by omega)
  · rw [missingPages_add]
    exact List.mem_append_left _ hq

/-- What the first `a` pages leave decides about the rest. -/
theorem Passes.add {a b : Nat} (h : CacheInv s) (hg : OpenFile s g)
    (hf : Fetched ops node s s₁ g ls) (hg₁ : OpenFile s₁ g)
    (hc : Consumed s s₁ g (missing s g p a) (p + a)) (ha : Passes ops s g node p a) :
    Passes ops s g node p (a + b) ↔ Passes ops s₁ g node (p + a) b := by
  have hlist := missingPages_congr (n := b) hc h hf.inv hg hg₁
  have hmissing := hc.missing_eq (n := b) h hf.inv hg hg₁
  have hshort := hc.shortage (b := missing s g (p + a) b) ha.supply
  rw [← missing_add] at hshort
  have hend : ∀ q, PastEnd s₁ node q ↔ PastEnd s node q := by
    intro q
    rw [PastEnd, hf.same.2.2, PastEnd]
  constructor
  · intro hab
    refine ⟨fun q hlo hhi => ?_, ?_, fun q hq => hab.driver q ?_⟩
    · rw [hend]
      exact hab.inFile q (by omega) (by omega)
    · rw [hmissing, ← hshort]
      exact hab.supply
    · rw [missingPages_add]
      exact List.mem_append_right _ (hlist ▸ hq)
  · intro hb
    refine ⟨fun q hlo hhi => ?_, ?_, fun q hq => ?_⟩
    · by_cases hq : q < p + a
      · exact ha.inFile q hlo hq
      · rw [← hend]
        exact hb.inFile q (by omega) (by omega)
    · rw [hshort, ← hmissing]
      exact hb.supply
    · rw [missingPages_add] at hq
      rcases List.mem_append.mp hq with hq | hq
      · exact ha.driver q hq
      · exact hb.driver q (hlist ▸ hq)

theorem loads_add {a b : Nat} (h : CacheInv s) (hg : OpenFile s g) (h₁ : CacheInv s₁)
    (hg₁ : OpenFile s₁ g) (hc : Consumed s s₁ g (missing s g p a) (p + a))
    (ha : ¬ Shortage s (missing s g p a)) :
    loads s g p (a + b) = loads s g p a ++ loads s₁ g (p + a) b := by
  have hroom : missing s g p a ≤ (freeCells s).length := by
    by_contra hlt
    exact ha ⟨(freeCells s).length, by omega, Or.inl (le_refl _)⟩
  have hsplit := List.take_append_drop (missing s g p a) (freeCells s)
  have hlen : (missingPages s g p a).length = ((freeCells s).take (missing s g p a)).length := by
    rw [missingPages_length, List.length_take, Nat.min_eq_left hroom]
  have hfirst : loads s g p a =
      (missingPages s g p a).zip ((freeCells s).take (missing s g p a)) := by
    rw [loads, List.zip_eq_zip_take_min, missingPages_length, Nat.min_eq_left hroom,
      ← missingPages_length, List.take_length]
  rw [hfirst, loads, loads, missingPages_add, hc.cells, missingPages_congr hc h h₁ hg hg₁]
  conv_lhs => rw [← hsplit]
  exact List.zip_append hlen

/-- Nothing outside of the cache was written. -/
def SameOutside (s s' : FileState) : Prop :=
  ∀ x, x < s.cache ∨ s.cache + s.cacheSize ≤ x → s'.mem x = s.mem x

theorem ReadRequest.page_eq (h : ReadRequest s g node start count buffer)
    (hi : pageCacheSize * i < count) :
    add32 (start / pageCacheSize) i = start / pageCacheSize + i := by
  have h₁ := h.startLt
  have h₂ := h.countLt
  simp only [pageCacheSize] at *
  exact add32_eq (by omega)

theorem shortage_one : Shortage s 1 ↔ freeCells s = [] ∨ s.frames 0 = none := by
  constructor
  · rintro ⟨k, hk, hfail⟩
    obtain rfl : k = 0 := by omega
    exact hfail.imp_left fun hlen => List.length_eq_zero_iff.mp (by omega)
  · intro hfail
    exact ⟨0, by omega, hfail.imp_left fun hnil => by simp [hnil]⟩

/-- A cell and its byte of the bitmap lie in the cache. -/
theorem CacheInv.outside_cell (h : CacheInv s) {c : Nat} (hc : c + 1 < pageCacheNumBuffers s)
    {x : Nat} (hx : x < s.cache ∨ s.cache + s.cacheSize ≤ x) :
    (x < cellAddr s c ∨ cellAddr s c + pageCacheSize ≤ x) ∧ x ≠ bitmapAddr s + c := by
  have hb := h.cell_bounds (i := c) (by omega)
  have hlast := h.cell_bounds (i := pageCacheNumBuffers s - 1) (by omega)
  have hcache := cache_le_cellAddr (s := s) (i := c)
  have hbelow := CacheInv.cell_below_bitmap (s := s) hc
  have hfew := h.few
  simp only [bitmapAddr] at *
  omega

/-- One page of the request: the loop is left with nothing loaded, or the page
is in a cell, and copied out. -/
theorem readPages_turn (ops : FsOperations) (h : ReadRequest s g node start count buffer)
    (hi : pageCacheSize * i < count) (n w : Nat) :
    (¬ Passes ops s g node (start / pageCacheSize + i) 1 ∧
      ∃ s', readPages ops g start count buffer (n + 1) i w s = .ret (s', w) ∧
        Fetched ops node s s' g [] ∧ SameOutside s s') ∨
    (Passes ops s g node (start / pageCacheSize + i) 1 ∧
      ∃ t c, readPages ops g start count buffer (n + 1) i w s =
          readPages ops g start count buffer n (i + 1) (advance count w)
            (t.copyOut count buffer i w (cellAddr t c)) ∧
        Fetched ops node s t g (loads s g (start / pageCacheSize + i) 1) ∧
        Consumed s t g (missing s g (start / pageCacheSize + i) 1)
          (start / pageCacheSize + (i + 1)) ∧
        Holds t g (start / pageCacheSize + i) c ∧ SameOutside s t) := by
  have hp := h.page_eq hi
  have harg := readArg_eq (i := i) h.aligned rfl
  have hidle : ∀ frames, Fetched ops node s { s with frames := frames } g [] := fun frames =>
    Fetched.idle (h.inv.of_frames frames) fun _ _ _ _ => rfl
  generalize hpq : start / pageCacheSize + i = p at *
  have hnext : start / pageCacheSize + (i + 1) = p + 1 := by omega
  rw [hnext]
  by_cases hend : PastEnd s node p
  · refine Or.inl ⟨fun hpass => hpass.inFile p (le_refl p) (by omega) hend, s,
      readPages_pastEnd h.entry hp hend, hidle s.frames, fun x hx => rfl⟩
  have hfile : ∀ q, p ≤ q → q < p + 1 → ¬ PastEnd s node q := by
    intro q hlo hhi
    obtain rfl : q = p := by omega
    exact hend
  by_cases hcached : Cached s g p
  · -- the page is found
    obtain ⟨c, hh⟩ := id hcached
    have hpos : pageCacheGetBuffer s g p ≠ 0 := by
      rw [ne_eq, h.inv.getBuffer_eq_zero h.opened]
      exact not_not.mpr hcached
    have hmiss : missing s g p 1 = 0 := by
      rw [missing_succ, if_neg hpos, missing_zero]
    have hlist : missingPages s g p 1 = [] := List.length_eq_zero_iff.mp
      (missingPages_length.trans hmiss)
    have hloads : loads s g p 1 = [] := by rw [loads, hlist, List.zip_nil_left]
    rw [hmiss, hloads]
    refine Or.inr ⟨⟨hfile, ?_, ?_⟩, s, c, ?_, hidle s.frames, ?_, hh, fun x hx => rfl⟩
    · rw [hmiss]
      exact shortage_zero
    · rw [hlist]
      exact fun q hq => absurd hq List.not_mem_nil
    · exact readPages_cached h.inv h.entry h.inUse hp hend hh
    · exact ⟨rfl, fun a => by rw [Nat.zero_add], fun q hq => Iff.rfl⟩
  · have hzero := (h.inv.getBuffer_eq_zero h.opened).mpr hcached
    have hmiss : missing s g p 1 = 1 := by
      rw [missing_succ, if_pos hzero, missing_zero]
    have hmem : p ∈ missingPages s g p 1 :=
      (mem_missingPages h.inv h.opened).mpr ⟨⟨le_refl p, by omega⟩, hcached⟩
    rw [hmiss]
    by_cases hshort : Shortage s 1
    · -- no cell or no frame
      obtain ⟨frames, hrun⟩ := readPages_stopped n count buffer w
        h.inv h.entry hp hend hcached (shortage_one.mp hshort)
      exact Or.inl ⟨fun hpass => hpass.supply (by rw [hmiss]; exact hshort), _, hrun,
        hidle frames, fun x hx => rfl⟩
    have hsupply := hshort
    rw [shortage_one, not_or] at hsupply
    obtain ⟨c, rest, hfree⟩ := List.exists_cons_of_ne_nil hsupply.1
    obtain ⟨content, hframe⟩ := Option.ne_none_iff_exists'.mp hsupply.2
    have hci : c ∈ freeCells s := by simp [hfree]
    have hlt := h.inv.free_lt hci
    have hbelow := CacheInv.cell_below_bitmap (s := s) hlt
    by_cases hok : DriverOk ops g node p
    · -- the page is loaded
      have hloads : loads s g p 1 = [(p, c)] := loads_reserved (n := 0) hzero hfree
      have hlist : missingPages s g p 1 = [p] := by
        simp [missingPages, hzero]
      have hload := Fetched.load h.inv h.opened hci hcached hok content
      rw [hloads]
      refine Or.inr ⟨⟨hfile, by rw [hmiss]; exact hshort, ?_⟩, s.load ops g node p c content, c,
        ?_, hload, ?_, ?_, ?_⟩
      · rw [hlist]
        rintro q hq
        rw [List.mem_singleton.mp hq]
        exact hok
      · exact readPages_loaded h.inv h.entry h.inUse hp harg hend hcached hfree hframe hok
      · refine ⟨?_, fun a => by rw [Nat.add_comm]; rfl, fun q hq => ?_⟩
        · have hcells : freeCells (s.assign g p c content) = rest := h.inv.freeCells_assign hfree
          rw [hfree]
          refine (freeCells_of_mem (s := s.assign g p c content) fun x h₁ h₂ => ?_).trans hcells
          exact blit_frame _ _ _ (Or.inr (hbelow.trans h₁))
        · rw [hload.cached]
          refine ⟨fun hq' => hq'.resolve_right ?_, Or.inl⟩
          rintro ⟨_, i, hqi⟩
          have hqp := (Prod.mk.inj (List.mem_singleton.mp hqi)).1
          omega
      · exact hload.holds.mpr (Or.inr ⟨rfl, List.mem_singleton_self _⟩)
      · intro x hx
        obtain ⟨hcell, hbit⟩ := h.inv.outside_cell hlt hx
        exact (blit_frame _ _ _ hcell).trans (assign_mem hcell hbit)
    · -- the driver fails
      obtain ⟨m, frames, hrun, hsame⟩ := readPages_failed n count buffer w h.inv h.entry
        h.inUse hp harg hend hcached hfree hframe hok
      refine Or.inl ⟨fun hpass => hok (hpass.driver p hmem), _, hrun, ?_, fun x hx =>
        hsame x (h.inv.outside_cell hlt hx).1⟩
      refine Fetched.idle
        ((h.inv.of_mem fun x h₁ h₂ => hsame x (Or.inr (by omega))).of_frames frames)
        fun {g' p' j} hj x hlo hhi => hsame x ?_
      have hjc : j ≠ c := by
        rintro rfl
        exact h.inv.free_not_held hci hj
      have happ := cell_apart (s := s) hjc
      omega

end Passes

end MeOS
