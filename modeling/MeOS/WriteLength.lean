import MeOS.CachedWrite

/-! # `file.cpp`: the length behind a cached write

`write_file_global` adjusts the length behind its page loop only. A loop that is
left early, because no cell or no frame is to be had for a page, reports the
pages it has filled and leaves the length alone.

Nothing here depends on the bytes that are written, so the caller buffer may be
any, and may lie in the cache.
-/

namespace MeOS

open Bytes

/-! ## One page -/

/-- What a page of a write leaves of the cache, `k` reservations later: the page
`p` is cached, whatever it holds. -/
structure PageTaken (s s₁ : FileState) (g k p : Nat) : Prop where
  inv : CacheInv s₁
  opened : OpenFile s₁ g
  nodes : s₁.nodes = s.nodes
  holds : ∀ {q c}, Holds s g q c → Holds s₁ g q c
  cached : Cached s₁ g p
  consumed : Consumed s s₁ g k (p + 1)

section Page

variable {s : FileState} {g p c start count buffer i n w : Nat} {m content : Mem}
  {read : List (Nat × Nat)} {rest : List Nat}

/-- Writing to the cell of a cached page, and marking it. -/
theorem pageTaken_of_holds (h : CacheInv s) (hg : OpenFile s g) (hh : Holds s g p c)
    (hm : ∀ x, x < cellAddr s c ∨ cellAddr s c + pageCacheSize ≤ x → m x = s.mem x) :
    PageTaken s (FileState.modifyPages { s with mem := m } g (setDirty p true)) g 0 p := by
  have hbelow := CacheInv.cell_below_bitmap (s := s) (h.cells hh).1
  have hbitmap : ∀ x, bitmapAddr s ≤ x → x < bitmapAddr s + pageCacheNumBuffers s →
      m x = s.mem x := fun x h₁ h₂ => hm x (Or.inr (by omega))
  have hinv : CacheInv { s with mem := m } := h.of_mem hbitmap
  exact
    { inv := hinv.of_holds fun g' p' i => holds_setDirty hg
      opened := openFile_modifyPages.mpr hg
      nodes := rfl
      holds := fun hq => (holds_setDirty hg).mpr hq
      cached := ⟨c, (holds_setDirty hg).mpr hh⟩
      consumed :=
        { cells := freeCells_of_mem hbitmap
          frames := fun a => by
            rw [Nat.zero_add]
            rfl
          later := fun q _ => exists_congr fun c => holds_setDirty hg } }

/-- A page that gets a cell, and is then written to. -/
theorem PageTaken.of_assign {s₁ : FileState} (h : CacheInv s) (hg : OpenFile s g)
    (hfree : freeCells s = c :: rest) (hstep : PageTaken (s.assign g p c content) s₁ g 0 p) :
    PageTaken s s₁ g 1 p where
  inv := hstep.inv
  opened := hstep.opened
  nodes := hstep.nodes
  holds := by
    intro q c' hq
    exact hstep.holds ((holds_assign hg).mpr (Or.inl hq))
  cached := hstep.cached
  consumed :=
    { cells := by
        rw [hstep.consumed.cells, h.freeCells_assign hfree, List.drop_zero, hfree]
        rfl
      frames := fun a => by
        rw [hstep.consumed.frames, Nat.zero_add, Nat.add_comm 1 a]
        rfl
      later := fun q hq => by
        refine (hstep.consumed.later q hq).trans (exists_congr fun c' => ?_)
        rw [holds_assign hg]
        refine ⟨fun hh => hh.resolve_right ?_, Or.inl⟩
        rintro ⟨_, hp, _⟩
        omega }

/-- The loop goes on behind a cached page. -/
theorem writePages_on_cached (h : CacheInv s) (hg : OpenFile s g) (hh : Holds s g p c)
    (hp : add32 (start / pageCacheSize) i = p) :
    ∃ s₁ read', writePages g start count buffer (n + 1) i w read s =
        writePages g start count buffer n (i + 1) (advance count w) read' s₁ ∧
      PageTaken s s₁ g 0 p := by
  by_cases hbuf : buffer ≠ noBuffer
  · exact ⟨_, _, writePages_cached h hg hh hp hbuf,
      pageTaken_of_holds h hg hh fun x hx => memcpy_frame hx⟩
  · have hget := h.getBuffer_of_holds hg hh
    have hpos := (h.cell_bounds (i := c) (by have hlt := (h.cells hh).1; omega)).1
    have hne : ¬ cellAddr s c = 0 := by omega
    have hdirty := (makeDirty_holds (d := true) hg hh).1
    refine ⟨_, read, ?_, pageTaken_of_holds h hg hh fun x hx => rfl⟩
    simp only [writePages, hp, hget, if_neg hne, if_neg hbuf, hdirty]

/-- The loop goes on behind a page that gets a cell. -/
theorem writePages_on_reserved (h : CacheInv s) (hg : OpenFile s g) (hc : ¬ Cached s g p)
    (hfree : freeCells s = c :: rest) (hframe : s.frames 0 = some content)
    (hp : add32 (start / pageCacheSize) i = p) :
    ∃ s₁ read', writePages g start count buffer (n + 1) i w read s =
        writePages g start count buffer n (i + 1) (advance count w) read' s₁ ∧
      PageTaken s s₁ g 1 p := by
  have hci : c ∈ freeCells s := by simp [hfree]
  have hget := getBuffer_of_not_cached hc
  have hres := h.reserve_ok (p := p) hg hfree hframe
  have hpos := (h.cell_bounds (mem_freeCells.mp hci).1).1
  obtain ⟨a, ha⟩ : ∃ a, cellAddr s c = a + 1 := ⟨cellAddr s c - 1, by omega⟩
  have hinv : CacheInv (s.assign g p c content) := h.assign hg hci hc
  have hopen : OpenFile (s.assign g p c content) g := openFile_assign.mpr hg
  have hholds : Holds (s.assign g p c content) g p c :=
    (holds_assign hg).mpr (Or.inr ⟨rfl, rfl, rfl⟩)
  have hdirty := fun m => (makeDirty_holds (d := true)
    (s := { s.assign g p c content with mem := m }) hopen (holds_mem.mpr hholds)).1
  -- whatever has been written to the cell, marking it ends the turn
  have htaken : ∀ {m : Mem}, (∀ x, x < cellAddr s c ∨ cellAddr s c + pageCacheSize ≤ x →
      m x = (s.assign g p c content).mem x) →
      PageTaken s (FileState.modifyPages { s.assign g p c content with mem := m } g
        (setDirty p true)) g 1 p := by
    intro m hm
    exact PageTaken.of_assign h hg hfree (pageTaken_of_holds hinv hopen hholds hm)
  by_cases hbuf : buffer ≠ noBuffer
  · obtain ⟨m, hrun, _, hm⟩ := writePages_reserved read h hg hc hfree hframe hp hbuf n count w
    exact ⟨_, _, hrun, htaken fun x hx => (memcpy_frame hx).trans (hm x hx)⟩
  · rw [ha] at hres
    by_cases hpart : sub32 count w < pageCacheSize
    · refine ⟨_, read, ?_, htaken fun x hx => clearedEnd_frame _ _ count hx⟩
      simp only [writePages, hp, hget, if_pos, hres, if_pos hpart, if_neg hbuf]
      rw [← ha, hdirty]
    · refine ⟨_, read, ?_, htaken fun x _ => rfl⟩
      simp only [writePages, hp, hget, if_pos, hres, if_neg hpart, if_neg hbuf]
      have hd := hdirty (s.assign g p c content).mem
      rw [hd]

end Page

/-! ## The loop -/

section Loop

variable {s s₁ : FileState} {g p start count buffer i n : Nat} {read : List (Nat × Nat)}

variable (buffer n read) in
/-- One page of the loop: it is taken, or there is a shortage. -/
theorem writePages_step (h : CacheInv s) (hg : OpenFile s g) (hstart : start < 4294967296)
    (hcount : count < 4294967296) (hi : pageCacheSize * i < count) :
    (Shortage s (missing s g (start / pageCacheSize + i) 1) ∧
      ∃ frames, writePages g start count buffer (n + 1) i (pageCacheSize * i) read s =
        .ret ⟨{ s with frames := frames }, pageCacheSize * i, false, read⟩) ∨
    (¬ Shortage s (missing s g (start / pageCacheSize + i) 1) ∧
      ∃ s₁ read', writePages g start count buffer (n + 1) i (pageCacheSize * i) read s =
          writePages g start count buffer n (i + 1) (min (pageCacheSize * (i + 1)) count) read' s₁ ∧
        PageTaken s s₁ g (missing s g (start / pageCacheSize + i) 1)
          (start / pageCacheSize + i)) := by
  have hpage : add32 (start / pageCacheSize) i = start / pageCacheSize + i := by
    simp only [pageCacheSize] at *
    exact add32_eq (by omega)
  -- the last page may be a part of one, so the count bounds the progress
  have hadvance : advance count (pageCacheSize * i) = min (pageCacheSize * (i + 1)) count := by
    simp only [advance, pageCacheSize] at *
    rw [sub32_eq hcount (by omega), minimum_eq, add32_eq (by omega)]
    omega
  by_cases hcached : Cached s g (start / pageCacheSize + i)
  · obtain ⟨c, hh⟩ := id hcached
    have hpos : ¬ pageCacheGetBuffer s g (start / pageCacheSize + i) = 0 := by
      rw [h.getBuffer_eq_zero hg]
      exact not_not.mpr hcached
    rw [missing_succ, if_neg hpos, missing_zero, ← hadvance]
    exact Or.inr ⟨shortage_zero, writePages_on_cached h hg hh hpage⟩
  · have hzero := (h.getBuffer_eq_zero hg).mpr hcached
    rw [missing_succ, if_pos hzero, missing_zero, ← hadvance]
    -- a missing page needs a free cell and a frame for it
    by_cases hstop : freeCells s = [] ∨ s.frames 0 = none
    · exact Or.inl ⟨⟨0, by omega, hstop.imp_left fun hnil => by simp [hnil]⟩,
        writePages_stopped h hcached hpage hstop⟩
    · rw [not_or] at hstop
      obtain ⟨c, rest, hfree⟩ := List.exists_cons_of_ne_nil hstop.1
      obtain ⟨content, hframe⟩ := Option.ne_none_iff_exists'.mp hstop.2
      refine Or.inr ⟨?_, writePages_on_reserved h hg hcached hfree hframe hpage⟩
      rintro ⟨k, hk, hfail⟩
      obtain rfl : k = 0 := by omega
      rcases hfail with hlen | hnone
      · simp [hfree] at hlen
      · exact hstop.2 hnone

/-- What a page takes from the supply of the pages behind it. -/
theorem PageTaken.shortage (h : CacheInv s) (hg : OpenFile s g)
    (ht : PageTaken s s₁ g (missing s g p 1) p) (hshort : ¬ Shortage s (missing s g p 1)) :
    Shortage s₁ (missing s₁ g (p + 1) n) ↔ Shortage s (missing s g p (n + 1)) := by
  rw [ht.consumed.missing_eq h ht.inv hg ht.opened, ← ht.consumed.shortage hshort, Nat.add_comm n 1,
    missing_add]

/-- The loop is left in front of page `k` of the `n` that are left. -/
def StopsAt (s : FileState) (g p k : Nat) : Prop :=
  ¬ Shortage s (missing s g p k) ∧ Shortage s (missing s g p (k + 1))

variable (buffer read) in
/-- How the page loop ends: in front of a page there is nothing for, or with the
whole request. The length is the same. -/
theorem writePages_progress (h : CacheInv s) (hg : OpenFile s g) (hstart : start < 4294967296)
    (hcount : count < 4294967296) (htotal : ceilDivision count pageCacheSize = i + n) :
    (∃ k < n, StopsAt s g (start / pageCacheSize + i) k ∧
      ∃ s' read', writePages g start count buffer n i (min (pageCacheSize * i) count) read s =
          .ret ⟨s', pageCacheSize * (i + k), false, read'⟩ ∧
        s'.nodes = s.nodes ∧ (∀ {q c}, Holds s g q c → Holds s' g q c) ∧
        ∀ a < k, Cached s' g (start / pageCacheSize + i + a)) ∨
    (¬ Shortage s (missing s g (start / pageCacheSize + i) n) ∧
      ∃ s' read', writePages g start count buffer n i (min (pageCacheSize * i) count) read s =
          .ret ⟨s', count, true, read'⟩ ∧
        s'.nodes = s.nodes ∧ (∀ {q c}, Holds s g q c → Holds s' g q c) ∧
        ∀ a < n, Cached s' g (start / pageCacheSize + i + a)) := by
  have hpages := totalPages_eq hcount
  rw [htotal] at hpages
  induction n generalizing i s read with
  | zero =>
    refine Or.inr ⟨shortage_zero, s, read, ?_, rfl, id, fun a ha => by omega⟩
    have hall : min (pageCacheSize * i) count = count := by
      simp only [pageCacheSize] at *
      split at hpages <;> omega
    rw [hall]
    rfl
  | succ n ih =>
    have hlt : pageCacheSize * i < count := by
      simp only [pageCacheSize] at *
      split at hpages <;> omega
    rw [Nat.min_eq_left (Nat.le_of_lt hlt)]
    rcases writePages_step buffer n read h hg hstart hcount hlt with
      ⟨hshort, frames, hrun⟩ | ⟨hshort, s₁, read₁, hrun, htaken⟩
    · exact Or.inl ⟨0, by omega, ⟨shortage_zero, hshort⟩, _, read, hrun, rfl, id,
        fun a ha => by omega⟩
    · have hnext := ih (i := i + 1) read₁ htaken.inv htaken.opened (by omega) (by omega)
      -- the pages behind the first one, seen from the state before it
      have hcached : ∀ {s' : FileState} {b : Nat}, (∀ {q c}, Holds s₁ g q c → Holds s' g q c) →
          (∀ a < b, Cached s' g (start / pageCacheSize + (i + 1) + a)) →
          ∀ a < b + 1, Cached s' g (start / pageCacheSize + i + a) := by
        intro s' b hkeep hrest a ha
        by_cases hzero : a = 0
        · obtain ⟨c, hc⟩ := htaken.cached
          exact ⟨c, by rw [hzero]; exact hkeep hc⟩
        · have hsum : start / pageCacheSize + i + a =
              start / pageCacheSize + (i + 1) + (a - 1) := by omega
          rw [hsum]
          exact hrest (a - 1) (by omega)
      rcases hnext with ⟨k, hk, hstop, s', read', hrest, hnodes, hkeep, hpre⟩ |
        ⟨henough, s', read', hrest, hnodes, hkeep, hpre⟩
      · refine Or.inl ⟨k + 1, by omega, ⟨fun hs => hstop.1 ?_, ?_⟩, s', read', ?_,
          hnodes.trans htaken.nodes, fun hq => hkeep (htaken.holds hq), hcached hkeep hpre⟩
        · exact (htaken.shortage h hg hshort).mpr hs
        · exact (htaken.shortage h hg hshort).mp hstop.2
        · have hsum : i + 1 + k = i + (k + 1) := by omega
          rw [hsum] at hrest
          exact hrun.trans hrest
      · refine Or.inr ⟨fun hs => henough ?_, s', read', hrun.trans hrest,
          hnodes.trans htaken.nodes, fun hq => hkeep (htaken.holds hq), hcached hkeep hpre⟩
        exact (htaken.shortage h hg hshort).mpr hs

end Loop

/-! ## The call -/

/-- The `n` bytes from `start` on, reported as written, are inside the file, and
the file has not become shorter or longer than they need. -/
structure LengthLaw (s s' : FileState) (node start n : Nat) : Prop where
  inside : 0 < n → start + n ≤ (s'.nodes node).fileLength
  kept : 0 < n → start + n < (s.nodes node).fileLength →
    (s'.nodes node).fileLength = (s.nodes node).fileLength

/-- The condition on the cache and the file: a loop that is left early has filled
no page, or pages the file had before; a loop that is not left early ends below
4 GB. -/
def LengthCovers (s : FileState) (g node start count : Nat) : Prop :=
  (∀ k < ceilDivision count pageCacheSize, StopsAt s g (start / pageCacheSize) k →
    k = 0 ∨ start + pageCacheSize * k ≤ (s.nodes node).fileLength) ∧
  (¬ Shortage s (missing s g (start / pageCacheSize) (ceilDivision count pageCacheSize)) →
    count = 0 ∨ start + count < 4294967296)

/-- A loop stops in front of one page at most, and then it is short of pages. -/
theorem StopsAt.unique {s : FileState} {g p a b : Nat} (ha : StopsAt s g p a)
    (hb : StopsAt s g p b) : a = b := by
  have hmono : ∀ {a b : Nat}, StopsAt s g p a → StopsAt s g p b → ¬ a < b := by
    intro a b ha hb hlt
    obtain ⟨d, rfl⟩ : ∃ d, b = a + 1 + d := ⟨b - (a + 1), by omega⟩
    refine hb.1 (ha.2.mono ?_)
    rw [missing_add (a + 1) d]
    exact Nat.le_add_right _ _
  have h₁ := hmono ha hb
  have h₂ := hmono hb ha
  omega

theorem StopsAt.shortage {s : FileState} {g p k n : Nat} (h : StopsAt s g p k) (hk : k < n) :
    Shortage s (missing s g p n) := by
  obtain ⟨d, rfl⟩ : ∃ d, n = k + 1 + d := ⟨n - (k + 1), by omega⟩
  refine h.2.mono ?_
  rw [missing_add (k + 1) d]
  exact Nat.le_add_right _ _

section Call

variable {s : FileState} {g start count buffer caps n : Nat} {e : Gfe} {ops : FsOperations}

theorem extended_length {node stop : Nat} :
    ((s.extended node stop).nodes node).fileLength = max (s.nodes node).fileLength stop := by
  unfold FileState.extended
  by_cases hgrow : stop > (s.nodes node).fileLength
  · rw [if_pos hgrow, Nat.max_eq_right (Nat.le_of_lt hgrow)]
    simp [FileState.setLength]
  · rw [if_neg hgrow, Nat.max_eq_left (Nat.le_of_not_gt hgrow)]

theorem extended_gft {node stop : Nat} : (s.extended node stop).gft = s.gft := by
  unfold FileState.extended
  split
  · rfl
  · rfl

theorem cached_extended {node stop p : Nat} :
    Cached (s.extended node stop) g p ↔ Cached s g p := by
  unfold Cached Holds
  rw [extended_gft]

/-- What a cached call is checked for. -/
def Accepted (s : FileState) (e : Gfe) (start caps : Nat) : Prop :=
  e.fileNode ≠ 0 ∧ chkBit caps vfsCapWrite = true ∧ start % pageCacheSize = 0 ∧
    start / pageCacheSize < add32 (ceilDivision (s.nodes e.fileNode).fileLength pageCacheSize) 2

/-- A cached call that fails a check changes nothing. -/
theorem writeFileGlobal_refused (he : s.gft[g]? = some e)
    (hcache : chkBit caps vfsCapCache = true) (hno : ¬ Accepted s e start caps) :
    ∃ err, writeFileGlobal ops s g start count buffer caps = .ret (s, .error err, []) := by
  simp only [writeFileGlobal, gftGet, he, hcache, if_true]
  by_cases hinvalid : gfeIsInvalid e = true
  · exact ⟨_, by simp [hinvalid]; rfl⟩
  · by_cases hwrite : chkBit caps vfsCapWrite = false
    · exact ⟨_, by simp [hinvalid, hwrite]; rfl⟩
    · by_cases hstart : start % pageCacheSize = 0
      · have hfar : start / pageCacheSize ≥
            add32 (ceilDivision (s.nodes e.fileNode).fileLength pageCacheSize) 2 := by
          refine Nat.le_of_not_lt fun hnear => hno ⟨?_, by simpa using hwrite, hstart, hnear⟩
          intro hzero
          exact hinvalid (by simp [gfeIsInvalid, hzero])
        refine ⟨.farStart, ?_⟩
        simp only [hinvalid, hwrite, hstart, if_pos hfar]
        simp
      · exact ⟨_, by simp [hinvalid, hwrite, hstart]; rfl⟩

/-- The page behind a byte of the request. -/
theorem page_of_byte {k : Nat} (hstart : start % pageCacheSize = 0) :
    (start + k) / pageCacheSize = start / pageCacheSize + k / pageCacheSize := by
  simp only [pageCacheSize] at *
  omega

/-- The small cache has a page for the first half of 8192 bytes. -/
theorem smallCache_stopsAt : StopsAt smallCache 0 0 1 := by
  have hone : missing smallCache 0 0 1 = 1 := by decide
  have htwo : missing smallCache 0 0 2 = 2 := by decide
  have hcells : (freeCells smallCache).length = 1 := by decide
  rw [StopsAt, hone, htwo]
  refine ⟨?_, 1, by decide, Or.inl (by omega)⟩
  rintro ⟨k, hk, hfail⟩
  rw [hcells] at hfail
  rcases hfail with hlen | hnone
  · omega
  · cases hnone

/-- 4096 of 8192 bytes are reported as written to a file that stays empty. -/
theorem writeCached_beyond_length : ∃ s' read,
    writeFileGlobal zeroOps smallCache 0 0 8192 65536 12 = .ret (s', .ok 4096, read) ∧
      (s'.nodes 1).fileLength = 0 ∧ ¬ LengthLaw smallCache s' 1 0 4096 := by
  have htotal : ceilDivision 8192 pageCacheSize = 0 + 2 := rfl
  have hstart : 0 < 4294967296 := by decide
  have hrun := writePages_progress 65536 [] smallCache_request.inv smallCache_request.opened hstart
    (by decide) htotal
  rcases hrun with ⟨k, _, hstop, s', read, hloop, hnodes, _⟩ | ⟨henough, _⟩
  · obtain rfl : k = 1 := hstop.unique smallCache_stopsAt
    have hwrite : chkBit 12 vfsCapWrite = true := by decide
    have hcall := writeFileGlobal_loop zeroOps (s := smallCache) (g := 0) (e := ⟨1, 1, []⟩)
      rfl (by decide) hwrite (by decide) (by decide) (by decide) hloop
    have hlength : (s'.nodes 1).fileLength = 0 := by
      rw [hnodes]
      rfl
    refine ⟨s', read, hcall, hlength, fun hlaw => ?_⟩
    have hinside := hlaw.inside (by decide)
    omega
  · exact absurd (smallCache_stopsAt.shortage (by decide)) henough

/-- A cached write is refused, or its bytes are in cached pages; they are inside
the file exactly when the length covers the pages a shortage leaves. -/
theorem writeCached_length_iff (ops : FsOperations) (buffer : Nat) (h : CacheInv s)
    (hs : start < 4294967296) (hc : count < 4294967296) (he : s.gft[g]? = some e)
    (hlength : (s.nodes e.fileNode).fileLength < 4294967296)
    (hcache : chkBit caps vfsCapCache = true) :
    (∃ err, writeFileGlobal ops s g start count buffer caps = .ret (s, .error err, [])) ∨
    ∃ s' n read, writeFileGlobal ops s g start count buffer caps = .ret (s', .ok n, read) ∧
      (∀ k < n, Cached s' g ((start + k) / pageCacheSize)) ∧
      (LengthLaw s s' e.fileNode start n ↔ LengthCovers s g e.fileNode start count) := by
  by_cases hok : Accepted s e start caps
  · obtain ⟨hnode, hwrite, hstart, hnear⟩ := hok
    have hloop := writePages_progress (i := 0) buffer [] h ⟨e, he, hnode⟩ hs hc
      (Nat.zero_add _).symm
    rw [Nat.mul_zero, Nat.zero_min, Nat.add_zero] at hloop
    have hpages := totalPages_eq hc
    refine Or.inr ?_
    rcases hloop with ⟨k, hk, hstop, s', read, hrun, hnodes, _, hpre⟩ |
      ⟨henough, s', read, hrun, hnodes, _, hpre⟩
    · -- the loop is left early, the length is the old one
      rw [Nat.zero_add] at hrun
      refine ⟨_, _, _, writeFileGlobal_loop ops he hnode hwrite hcache hstart hnear hrun, ?_, ?_⟩
      · intro a ha
        rw [page_of_byte hstart]
        exact hpre _ (Nat.div_lt_of_lt_mul ha)
      · simp only [if_true]
        constructor
        · intro hlaw
          refine ⟨fun j hj hstop' => ?_, fun hno => absurd (hstop.shortage hk) hno⟩
          obtain rfl := hstop.unique hstop'
          rcases Nat.eq_zero_or_pos k with hzero | hpos
          · exact Or.inl hzero
          · have hinside := hlaw.inside (Nat.mul_pos (by decide) hpos)
            rw [hnodes] at hinside
            exact Or.inr hinside
        · intro hcovers
          refine ⟨fun hpos => ?_, fun _ _ => by rw [hnodes]⟩
          rw [hnodes]
          rcases hcovers.1 k hk hstop with hzero | hle
          · simp [hzero] at hpos
          · exact hle
    · -- all pages have been taken, the length is adjusted to the wrapped end
      refine ⟨_, _, _, writeFileGlobal_loop ops he hnode hwrite hcache hstart hnear hrun, ?_, ?_⟩
      · intro a ha
        simp only [Bool.true_eq_false, if_false]
        rw [page_of_byte hstart]
        refine cached_extended.mpr (hpre _ ?_)
        rw [hpages]
        simp only [pageCacheSize] at *
        split <;> omega
      · simp only [Bool.true_eq_false, if_false]
        have hmax := @extended_length s' e.fileNode (add32 start count)
        rw [hnodes] at hmax
        constructor
        · intro hlaw
          refine ⟨fun j hj hstop' => absurd (hstop'.shortage hj) henough, fun _ => ?_⟩
          rcases Nat.eq_zero_or_pos count with hzero | hpos
          · exact Or.inl hzero
          · have hinside := hlaw.inside hpos
            have hwrap := add32_lt start count
            rw [hmax] at hinside
            exact Or.inr (by omega)
        · intro hcovers
          have hend := hcovers.2 henough
          refine ⟨fun hpos => ?_, fun hpos hlt => ?_⟩
          · rw [hmax, add32_eq (by omega)]
            omega
          · rw [hmax, add32_eq (by omega)]
            omega
  · exact Or.inl (writeFileGlobal_refused he hcache hok)

theorem writeCached_length_iff_small :
    (∃ err, writeFileGlobal zeroOps smallCache 0 0 8192 65536 12 =
        .ret (smallCache, .error err, [])) ∨
    ∃ s' n read, writeFileGlobal zeroOps smallCache 0 0 8192 65536 12 = .ret (s', .ok n, read) ∧
      (∀ k < n, Cached s' 0 ((0 + k) / pageCacheSize)) ∧
      (LengthLaw smallCache s' 1 0 n ↔ LengthCovers smallCache 0 1 0 8192) :=
  writeCached_length_iff zeroOps 65536 smallCache_request.inv (by decide) (by decide)
    (e := ⟨1, 1, []⟩) rfl (by decide) (by decide)

end Call

end MeOS
