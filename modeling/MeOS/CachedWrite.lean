import MeOS.PageCacheInv
import MeOS.File

/-! # Cached writes

A cached write takes its pages one after another. As long as whole pages are
left, a page is found or reserved, filled from the caller buffer and marked
(`writePages_whole`). A last page of fewer bytes is filled like a whole one:
the copy runs past the end of the caller buffer. So the write does what it is
meant to do exactly when no such page is reached.
-/

namespace MeOS

open Bytes

/-! ## Supply -/

/-- How many of the pages `p`, …, `p + n - 1` are not cached. -/
def missing (s : FileState) (g p n : Nat) : Nat :=
  (List.range' p n).countP fun q => pageCacheGetBuffer s g q == 0

/-- One of the next `n` reservations fails: the cells or the frames run out. -/
def Shortage (s : FileState) (n : Nat) : Prop :=
  ∃ k < n, (freeCells s).length ≤ k ∨ s.frames k = none

section Supply

variable {s : FileState} {g p n : Nat}

@[simp] theorem missing_zero : missing s g p 0 = 0 := rfl

theorem missing_succ : missing s g p (n + 1) =
    (if pageCacheGetBuffer s g p = 0 then 1 else 0) + missing s g (p + 1) n := by
  by_cases h : pageCacheGetBuffer s g p = 0
  · simp [missing, List.range'_succ, h, Nat.add_comm]
  · simp [missing, List.range'_succ, h]

theorem missing_add (a b : Nat) :
    missing s g p (a + b) = missing s g p a + missing s g (p + a) b := by
  induction a generalizing p with
  | zero => simp
  | succ a ih =>
    have hlen : a + 1 + b = (a + b) + 1 := by omega
    have hstart : p + 1 + a = p + (a + 1) := by omega
    rw [hlen, missing_succ, missing_succ, ih, hstart, Nat.add_assoc]

/-- `missing` looks at the pages of its range only. -/
theorem missing_congr {s' : FileState}
    (h : ∀ q, p ≤ q → q < p + n → (pageCacheGetBuffer s' g q = 0 ↔ pageCacheGetBuffer s g q = 0)) :
    missing s' g p n = missing s g p n := by
  refine List.countP_congr fun q hq => ?_
  obtain ⟨h₁, h₂⟩ := List.mem_range'_1.mp hq
  simpa using h q h₁ h₂

theorem shortage_zero : ¬ Shortage s 0 := by
  rintro ⟨k, hk, _⟩
  omega

theorem shortage_add (a b : Nat) (h : ¬ Shortage s a) :
    Shortage s (a + b) ↔
      ∃ k < b, (freeCells s).length ≤ a + k ∨ s.frames (a + k) = none := by
  constructor
  · rintro ⟨k, hk, hfail⟩
    have hak : a ≤ k := by
      by_contra hlt
      exact h ⟨k, by omega, hfail⟩
    refine ⟨k - a, by omega, ?_⟩
    have hsum : a + (k - a) = k := by omega
    rwa [hsum]
  · rintro ⟨k, hk, hfail⟩
    exact ⟨a + k, by omega, hfail⟩

/-- Enough for some reservations is enough for fewer. -/
theorem Shortage.mono {a b : Nat} (h : Shortage s a) (hab : a ≤ b) : Shortage s b := by
  obtain ⟨k, hk, hfail⟩ := h
  exact ⟨k, by omega, hfail⟩

end Supply

/-! ## One page -/

/-- The state after page `p` in cell `c` has been filled from address `a` and
marked dirty. -/
def FileState.store (s : FileState) (g p c a : Nat) : FileState :=
  FileState.modifyPages { s with mem := memcpy s.mem (cellAddr s c) a pageCacheSize } g
    (setDirty p true)

section Page

variable {s : FileState} {g p c a : Nat}

/-- The caller buffer `[a, a + n)` is no cache memory. -/
def ClearOf (s : FileState) (a n : Nat) : Prop :=
  a + n ≤ s.cache ∨ s.cache + s.cacheSize ≤ a

theorem CacheInv.memcpy_cell (h : CacheInv s) (hc : c < pageCacheNumBuffers s)
    (ha : ClearOf s a pageCacheSize) :
    memcpy s.mem (cellAddr s c) a pageCacheSize =
      blit s.mem (cellAddr s c) s.mem a pageCacheSize := by
  refine memcpy_eq _ _ _ _ ?_
  have hb := h.cell_bounds hc
  have hcache := cache_le_cellAddr (s := s) (i := c)
  simp only [ClearOf] at ha
  omega

theorem holds_setDirty (hg : OpenFile s g) {m : Mem} {g' p' i' : Nat} :
    Holds (FileState.modifyPages { s with mem := m } g (setDirty p true)) g' p' i' ↔
      Holds s g' p' i' := by
  obtain ⟨e, he, _⟩ := hg
  rw [holds_modifyPages (s := { s with mem := m }) he]
  split
  · rename_i hgg
    subst hgg
    rw [mem_setDirty, holds_iff he]
  · exact holds_mem

/-- What filling a page with a whole page of the caller buffer does. -/
structure Stored (s s' : FileState) (g p a : Nat) : Prop where
  inv : CacheInv s'
  opened : ∀ g', OpenFile s' g' ↔ OpenFile s g'
  same : s'.cache = s.cache ∧ s'.cacheSize = s.cacheSize
  holds : ∀ {g' p' i}, Holds s g' p' i → Holds s' g' p' i
  fresh : ∀ {g' p' i}, Holds s' g' p' i → Holds s g' p' i ∨ (g' = g ∧ p' = p)
  bytes : ∀ off, off / pageCacheSize = p → FileByte s' g off (s.mem (a + off % pageCacheSize))
  kept : ∀ g' off b, FileByte s g' off b → ¬ (g' = g ∧ off / pageCacheSize = p) →
    FileByte s' g' off b
  outside : ∀ x, x < s.cache ∨ s.cache + s.cacheSize ≤ x → s'.mem x = s.mem x

/-- Filling the cell of a page with the bytes from `a` on, and marking it. -/
theorem stored_of_write {m : Mem} (h : CacheInv s) (hg : OpenFile s g) (hh : Holds s g p c)
    (hin : ∀ k, k < pageCacheSize → m (cellAddr s c + k) = s.mem (a + k))
    (hout : ∀ x, x < cellAddr s c ∨ cellAddr s c + pageCacheSize ≤ x → m x = s.mem x) :
    Stored s (FileState.modifyPages { s with mem := m } g (setDirty p true)) g p a := by
  have hlt := (h.cells hh).1
  have hbelow := CacheInv.cell_below_bitmap (s := s) hlt
  have hbounds := h.cell_bounds (i := c) (by omega)
  have hcache := cache_le_cellAddr (s := s) (i := c)
  have hholds : ∀ {g' p' i}, Holds s g' p' i →
      Holds (FileState.modifyPages { s with mem := m } g (setDirty p true)) g' p' i :=
    fun hh => (holds_setDirty hg).mpr hh
  refine
    { inv := ?_, opened := fun g' => openFile_modifyPages, same := ⟨rfl, rfl⟩, holds := hholds,
      fresh := fun hh => Or.inl ((holds_setDirty hg).mp hh), bytes := ?_, kept := ?_,
      outside := fun x hx => hout x (by omega) }
  · have hinv : CacheInv { s with mem := m } := h.of_mem fun x h₁ h₂ => hout x (Or.inr (by omega))
    exact hinv.of_holds fun g' p' i => holds_setDirty hg
  · intro off hoff
    exact ⟨c, hoff ▸ hholds hh, hin _ (Nat.mod_lt _ (by decide))⟩
  · intro g' off b hb hne
    exact (h.fileByte_frame hh hout hb hne).congr (fun hi => hholds hi) (fun _ => rfl)
      fun i _ x _ _ => rfl

theorem stored_of_holds (h : CacheInv s) (hg : OpenFile s g) (hh : Holds s g p c)
    (ha : ClearOf s a pageCacheSize) : Stored s (s.store g p c a) g p a := by
  have hlt := (h.cells hh).1
  rw [FileState.store, h.memcpy_cell (by omega) ha]
  refine stored_of_write h hg hh (fun k hk => ?_) fun x hx => blit_frame _ _ _ hx
  rw [blit_at _ _ _ _ (by omega)]

theorem stored_of_assign (h : CacheInv s) (hg : OpenFile s g) (hc : c ∈ freeCells s)
    (hp : ¬ Cached s g p) (ha : ClearOf s a pageCacheSize) (content : Mem) :
    Stored s ((s.assign g p c content).store g p c a) g p a := by
  have hlt := h.free_lt hc
  have hbelow := CacheInv.cell_below_bitmap (s := s) hlt
  have hbounds := h.cell_bounds (i := c) (by omega)
  have hcache := cache_le_cellAddr (s := s) (i := c)
  have hbit := h.cell_bounds (i := pageCacheNumBuffers s - 1) (by omega)
  have hfew := h.few
  have hinv : CacheInv (s.assign g p c content) := h.assign hg hc hp
  have hopen : ∀ g', OpenFile (s.assign g p c content) g' ↔ OpenFile s g' :=
    fun g' => openFile_assign
  have hout : ∀ x, x < s.cache ∨ s.cache + s.cacheSize ≤ x →
      (s.assign g p c content).mem x = s.mem x := by
    intro x hx
    refine assign_mem (by omega) ?_
    simp only [bitmapAddr] at *
    omega
  -- with the cell assigned, the page is one that the cache already had
  have hstep := stored_of_holds (a := a) hinv ((hopen g).mpr hg)
    ((holds_assign hg).mpr (Or.inr ⟨rfl, rfl, rfl⟩)) ha
  refine
    { inv := hstep.inv, opened := fun g' => (hstep.opened g').trans (hopen g'),
      same := hstep.same,
      holds := fun hh => hstep.holds ((holds_assign hg).mpr (Or.inl hh)),
      fresh := ?_, bytes := ?_, kept := ?_, outside := ?_ }
  · intro g' p' i hh
    rcases hstep.fresh hh with hh | hnew
    · exact ((holds_assign hg).mp hh).imp_right fun hnew => ⟨hnew.1, hnew.2.1⟩
    · exact Or.inr hnew
  · intro off hoff
    have hmod : off % pageCacheSize < pageCacheSize := Nat.mod_lt _ (by decide)
    have hb := hstep.bytes off hoff
    rw [hout _ ?_] at hb
    · exact hb
    · simp only [ClearOf] at ha
      omega
  · intro g' off b hb hne
    exact hstep.kept g' off b (h.fileByte_assign hg hc hb) hne
  · intro x hx
    exact (hstep.outside x hx).trans (hout x hx)

end Page

/-! ## One turn of the loop -/

section Turn

variable {s : FileState} {g start count buffer n i w p c : Nat} {read : List (Nat × Nat)}
  {rest : List Nat} {content : Mem}

/-- The address in the caller buffer of page `i` of the request. -/
abbrev source (buffer i : Nat) : Nat := add32 buffer (mul32 i pageCacheSize)

/-- The count after one more page. -/
abbrev advance (count w : Nat) : Nat := add32 w (minimum (sub32 count w) pageCacheSize)

/-- A cached page is filled and the loop goes on. -/
theorem writePages_cached (h : CacheInv s) (hg : OpenFile s g) (hh : Holds s g p c)
    (hp : add32 (start / pageCacheSize) i = p) (hbuf : buffer ≠ noBuffer) :
    writePages g start count buffer (n + 1) i w read s =
      writePages g start count buffer n (i + 1) (advance count w)
        (read ++ [(source buffer i, pageCacheSize)]) (s.store g p c (source buffer i)) := by
  have hget := h.getBuffer_of_holds hg hh
  have hpos := (h.cell_bounds (i := c) (by have hlt := (h.cells hh).1; omega)).1
  have hne : ¬ cellAddr s c = 0 := by omega
  have hdirty := (makeDirty_holds (d := true)
    (s := { s with mem := memcpy s.mem (cellAddr s c) (source buffer i) pageCacheSize }) hg
    (holds_mem.mpr hh)).1
  simp only [writePages, hp, hget, if_neg hne, if_pos hbuf, hdirty]
  rfl

/-- Clearing the end of a page leaves what is outside of it. -/
theorem clearedEnd_frame (m : Mem) (a count : Nat) {x : Nat}
    (hx : x < a ∨ a + pageCacheSize ≤ x) :
    memset m a 0 (sub32 pageCacheSize (count % pageCacheSize)) x = m x := by
  have hle : sub32 pageCacheSize (count % pageCacheSize) ≤ pageCacheSize := by
    simp only [sub32, pageCacheSize]
    omega
  rw [memset_eq, fill_frame _ _ (by omega)]

/-- A page that is not cached is reserved, filled, and the loop goes on. -/
theorem writePages_reserved (read : List (Nat × Nat)) (h : CacheInv s) (hg : OpenFile s g)
    (hc : ¬ Cached s g p) (hfree : freeCells s = c :: rest) (hframe : s.frames 0 = some content)
    (hp : add32 (start / pageCacheSize) i = p) (hbuf : buffer ≠ noBuffer) (n count w : Nat) :
    ∃ m, writePages g start count buffer (n + 1) i w read s =
      writePages g start count buffer n (i + 1) (advance count w)
        (read ++ [(source buffer i, pageCacheSize)])
        (FileState.store { s.assign g p c content with mem := m } g p c (source buffer i)) ∧
      (pageCacheSize ≤ sub32 count w → m = (s.assign g p c content).mem) ∧
      ∀ x, x < cellAddr s c ∨ cellAddr s c + pageCacheSize ≤ x →
        m x = (s.assign g p c content).mem x := by
  have hci : c ∈ freeCells s := by simp [hfree]
  have hget := getBuffer_of_not_cached hc
  have hres := h.reserve_ok (p := p) hg hfree hframe
  have hpos := (h.cell_bounds (mem_freeCells.mp hci).1).1
  obtain ⟨a, ha⟩ : ∃ a, cellAddr s c = a + 1 := ⟨cellAddr s c - 1, by omega⟩
  have hholds : Holds (s.assign g p c content) g p c :=
    (holds_assign hg).mpr (Or.inr ⟨rfl, rfl, rfl⟩)
  have hopen : OpenFile (s.assign g p c content) g := openFile_assign.mpr hg
  have hdirty := fun m => (makeDirty_holds (d := true)
    (s := { s.assign g p c content with mem := m }) hopen (holds_mem.mpr hholds)).1
  by_cases hpart : sub32 count w < pageCacheSize
  · refine ⟨memset (s.assign g p c content).mem (cellAddr s c) 0
      (sub32 pageCacheSize (count % pageCacheSize)), ?_, fun hle => by omega, fun x hx => ?_⟩
    · rw [ha] at hres
      simp only [writePages, hp, hget, if_pos, hres, if_pos hpart, if_pos hbuf]
      rw [← ha, hdirty]
      rfl
    · exact clearedEnd_frame _ _ count hx
  · refine ⟨(s.assign g p c content).mem, ?_, fun _ => rfl, fun _ _ => rfl⟩
    rw [ha] at hres
    simp only [writePages, hp, hget, if_pos, hres, if_neg hpart, if_pos hbuf]
    rw [← ha]
    have hd := hdirty (memcpy (s.assign g p c content).mem (cellAddr s c) (source buffer i)
      pageCacheSize)
    rw [hd]
    rfl

/-- No cell or no frame for a page that is not cached: the loop is left. -/
theorem writePages_stopped (h : CacheInv s) (hc : ¬ Cached s g p)
    (hp : add32 (start / pageCacheSize) i = p)
    (hstop : freeCells s = [] ∨ s.frames 0 = none) :
    ∃ frames, writePages g start count buffer (n + 1) i w read s =
      .ret ⟨{ s with frames := frames }, w, false, read⟩ := by
  have hget := getBuffer_of_not_cached hc
  cases hfree : freeCells s with
  | nil =>
    refine ⟨s.frames, ?_⟩
    simp only [writePages, hp, hget, if_pos, h.reserve_full hfree]
  | cons c rest =>
    have hframe : s.frames 0 = none := by simpa [hfree] using hstop
    refine ⟨fun k => s.frames (k + 1), ?_⟩
    simp only [writePages, hp, hget, if_pos, h.reserve_refused hfree hframe]

end Turn

/-! ## Whole pages -/

/-- Pages `i`, …, `j - 1` of the request have been filled. -/
structure Filled (s s' : FileState) (g start buffer i j : Nat) : Prop where
  inv : CacheInv s'
  opened : ∀ g', OpenFile s' g' ↔ OpenFile s g'
  same : s'.cache = s.cache ∧ s'.cacheSize = s.cacheSize
  holds : ∀ {g' p c}, Holds s g' p c → Holds s' g' p c
  fresh : ∀ {g' p c}, Holds s' g' p c → Holds s g' p c ∨
    (g' = g ∧ start / pageCacheSize + i ≤ p ∧ p < start / pageCacheSize + j)
  bytes : ∀ k, pageCacheSize * i ≤ k → k < pageCacheSize * j →
    FileByte s' g (start + k) (s.mem (buffer + k))
  kept : ∀ g' off b, FileByte s g' off b →
    (g' = g → off < start + pageCacheSize * i ∨ start + pageCacheSize * j ≤ off) →
    FileByte s' g' off b
  outside : ∀ x, x < s.cache ∨ s.cache + s.cacheSize ≤ x → s'.mem x = s.mem x

section Whole

variable {s s' s₁ : FileState} {g start count buffer i j n r : Nat}

theorem Filled.refl (h : CacheInv s) (frames : Nat → Option Mem) :
    Filled s { s with frames := frames } g start buffer i i where
  inv := h.of_frames frames
  opened := fun _ => Iff.rfl
  same := ⟨rfl, rfl⟩
  holds := id
  fresh := Or.inl
  bytes := fun k h₁ h₂ => by omega
  kept := fun _ _ _ hb _ => hb
  outside := fun _ _ => rfl

/-- One page more in front. -/
theorem Filled.cons (hstart : start % pageCacheSize = 0) (hij : i + 1 ≤ j)
    (hclear : ClearOf s buffer (pageCacheSize * j))
    (h₁ : Stored s s₁ g (start / pageCacheSize + i) (buffer + pageCacheSize * i))
    (h₂ : Filled s₁ s' g start buffer (i + 1) j) : Filled s s' g start buffer i j where
  inv := h₂.inv
  opened := fun g' => (h₂.opened g').trans (h₁.opened g')
  same := ⟨h₂.same.1.trans h₁.same.1, h₂.same.2.trans h₁.same.2⟩
  holds := fun hh => h₂.holds (h₁.holds hh)
  fresh := by
    intro g' p c hh
    rcases h₂.fresh hh with hh | ⟨hg, hlo, hhi⟩
    · rcases h₁.fresh hh with hh | ⟨hg, hp⟩
      · exact Or.inl hh
      · exact Or.inr ⟨hg, by omega, by omega⟩
    · exact Or.inr ⟨hg, by omega, hhi⟩
  bytes := by
    intro k hlo hhi
    simp only [pageCacheSize] at *
    -- a byte of the first page is kept by the later pages; the others are theirs
    by_cases hk : k < 4096 * (i + 1)
    · have hb := h₁.bytes (start + k) (by simp only [pageCacheSize]; omega)
      have haddr : buffer + 4096 * i + (start + k) % 4096 = buffer + k := by omega
      simp only [pageCacheSize, haddr] at hb
      exact h₂.kept g _ _ hb fun _ => Or.inl (by simp only [pageCacheSize]; omega)
    · have hb := h₂.bytes k (by simp only [pageCacheSize]; omega) hhi
      rw [h₁.outside (buffer + k) ?_] at hb
      · exact hb
      · simp only [ClearOf] at hclear
        omega
  kept := by
    intro g' off b hb hout
    simp only [pageCacheSize] at *
    refine h₂.kept g' off b (h₁.kept g' off b hb ?_) fun hg => ?_
    · rintro ⟨hg, hoff⟩
      have hrange := hout hg
      simp only [pageCacheSize] at hoff
      omega
    · have hrange := hout hg
      simp only [pageCacheSize]
      omega
  outside := by
    intro x hx
    rw [h₂.outside x (by rw [h₁.same.1, h₁.same.2]; exact hx), h₁.outside x hx]

/-- A range of the caller buffer. -/
def InBuffer (buffer count : Nat) (r : Nat × Nat) : Prop :=
  buffer ≤ r.1 ∧ r.1 + r.2 ≤ buffer + count

/-- What the page loop is given: a file, a request in pages and a caller buffer
of `count` bytes. -/
structure Request (s : FileState) (g start count buffer : Nat) : Prop where
  inv : CacheInv s
  opened : OpenFile s g
  aligned : start % pageCacheSize = 0
  startLt : start < 4294967296
  countLt : count < 4294967296
  buffered : buffer ≠ noBuffer
  room : buffer + count ≤ 4294967296
  clear : ClearOf s buffer count

/-- A later state of the cache serves the same request. -/
theorem Request.step (h : Request s g start count buffer) (hinv : CacheInv s')
    (hopen : ∀ g', OpenFile s' g' ↔ OpenFile s g')
    (hsame : s'.cache = s.cache ∧ s'.cacheSize = s.cacheSize) :
    Request s' g start count buffer where
  inv := hinv
  opened := (hopen g).mpr h.opened
  aligned := h.aligned
  startLt := h.startLt
  countLt := h.countLt
  buffered := h.buffered
  room := h.room
  clear := by
    have hclear := h.clear
    simp only [ClearOf, hsame.1, hsame.2] at hclear ⊢
    exact hclear

/-- The arithmetic of a whole page of the request does not wrap. -/
theorem Request.whole (h : Request s g start count buffer) (hi : pageCacheSize * (i + 1) ≤ count) :
    add32 (start / pageCacheSize) i = start / pageCacheSize + i ∧
      source buffer i = buffer + pageCacheSize * i ∧
      advance count (pageCacheSize * i) = pageCacheSize * (i + 1) ∧
      sub32 count (pageCacheSize * i) = count - pageCacheSize * i := by
  have h₁ := h.startLt
  have h₂ := h.countLt
  have h₃ := h.room
  simp only [source, advance, pageCacheSize] at *
  have hsub : sub32 count (4096 * i) = count - 4096 * i := sub32_eq h₂ (by omega)
  have hmul : mul32 i 4096 = i * 4096 := mul32_eq (by omega)
  refine ⟨add32_eq (by omega), ?_, ?_, hsub⟩
  · rw [hmul, add32_eq (by omega)]
    omega
  · rw [hsub, minimum_eq, Nat.min_eq_right (by omega), add32_eq (by omega)]
    omega

theorem freeCells_store {p c a : Nat} (h : CacheInv s) (hc : c + 1 < pageCacheNumBuffers s)
    (ha : ClearOf s a pageCacheSize) : freeCells (s.store g p c a) = freeCells s := by
  have hbelow := CacheInv.cell_below_bitmap (s := s) hc
  rw [FileState.store, h.memcpy_cell (by omega) ha]
  exact freeCells_of_mem (m := blit s.mem (cellAddr s c) s.mem a pageCacheSize) fun x h₁ h₂ =>
    blit_frame _ _ _ (Or.inr (by omega))

/-- Which cells and answers are left, and which later pages are cached, after
`k` reservations in front of page `p`. -/
structure Consumed (s s' : FileState) (g k p : Nat) : Prop where
  cells : freeCells s' = (freeCells s).drop k
  frames : ∀ a, s'.frames a = s.frames (k + a)
  later : ∀ q, p ≤ q → (Cached s' g q ↔ Cached s g q)

/-- Filling one whole page: the page, or a shortage. -/
theorem writePages_turn (read : List (Nat × Nat)) (h : Request s g start count buffer)
    (hi : pageCacheSize * (i + 1) ≤ count) :
    (Shortage s (missing s g (start / pageCacheSize + i) 1) ∧
      ∃ frames, writePages g start count buffer (n + 1) i (pageCacheSize * i) read s =
        .ret ⟨{ s with frames := frames }, pageCacheSize * i, false, read⟩) ∨
    (¬ Shortage s (missing s g (start / pageCacheSize + i) 1) ∧
      ∃ s₁, writePages g start count buffer (n + 1) i (pageCacheSize * i) read s =
          writePages g start count buffer n (i + 1) (pageCacheSize * (i + 1))
            (read ++ [(buffer + pageCacheSize * i, pageCacheSize)]) s₁ ∧
        Stored s s₁ g (start / pageCacheSize + i) (buffer + pageCacheSize * i) ∧
        Consumed s s₁ g (missing s g (start / pageCacheSize + i) 1)
          (start / pageCacheSize + (i + 1))) := by
  obtain ⟨hpage, hsource, hadvance, hleft⟩ := h.whole hi
  have hclear : ClearOf s (buffer + pageCacheSize * i) pageCacheSize := by
    have hc := h.clear
    simp only [ClearOf, pageCacheSize] at hc hi ⊢
    omega
  by_cases hcached : Cached s g (start / pageCacheSize + i)
  · obtain ⟨c, hh⟩ := id hcached
    have hpos : ¬ pageCacheGetBuffer s g (start / pageCacheSize + i) = 0 := by
      rw [h.inv.getBuffer_eq_zero h.opened]
      exact not_not.mpr hcached
    -- the page is in the cache: no cell is taken
    have hmiss : missing s g (start / pageCacheSize + i) 1 = 0 := by
      rw [missing_succ, if_neg hpos, missing_zero]
    rw [hmiss]
    refine Or.inr ⟨shortage_zero, s.store g (start / pageCacheSize + i) c
      (buffer + pageCacheSize * i), ?_, stored_of_holds h.inv h.opened hh hclear, ?_⟩
    · rw [writePages_cached h.inv h.opened hh hpage h.buffered, hsource, hadvance]
    · refine ⟨freeCells_store h.inv (h.inv.cells hh).1 hclear, fun a => by rw [Nat.zero_add]; rfl,
        fun q hq => ?_⟩
      exact exists_congr fun c => holds_setDirty h.opened
  · have hzero := (h.inv.getBuffer_eq_zero h.opened).mpr hcached
    have hmiss : missing s g (start / pageCacheSize + i) 1 = 1 := by
      rw [missing_succ, if_pos hzero, missing_zero]
    rw [hmiss]
    -- a missing page needs one free cell and one frame
    have hone : Shortage s 1 ↔ freeCells s = [] ∨ s.frames 0 = none := by
      constructor
      · rintro ⟨k, hk, hfail⟩
        obtain rfl : k = 0 := by omega
        exact hfail.imp_left fun hlen => List.length_eq_zero_iff.mp (by omega)
      · intro hfail
        exact ⟨0, by omega, hfail.imp_left fun hnil => by simp [hnil]⟩
    by_cases hshort : Shortage s 1
    · exact Or.inl ⟨hshort, writePages_stopped h.inv hcached hpage (hone.mp hshort)⟩
    · refine Or.inr ⟨hshort, ?_⟩
      rw [hone, not_or] at hshort
      obtain ⟨c, rest, hfree⟩ := List.exists_cons_of_ne_nil hshort.1
      obtain ⟨content, hframe⟩ := Option.ne_none_iff_exists'.mp hshort.2
      have hci : c ∈ freeCells s := by simp [hfree]
      obtain ⟨m, hrun, hm, _⟩ := writePages_reserved read h.inv h.opened hcached hfree hframe hpage
        h.buffered n count (pageCacheSize * i)
      have hm' := hm (by simp only [pageCacheSize] at *; omega)
      subst hm'
      have hinv : CacheInv (s.assign g (start / pageCacheSize + i) c content) :=
        h.inv.assign h.opened hci hcached
      refine ⟨(s.assign g (start / pageCacheSize + i) c content).store g
        (start / pageCacheSize + i) c (buffer + pageCacheSize * i), ?_,
        stored_of_assign h.inv h.opened hci hcached hclear content, ?_⟩
      · rw [hrun, hsource, hadvance]
      · refine ⟨?_, fun a => by rw [Nat.add_comm 1 a]; rfl, fun q hq => ?_⟩
        · rw [freeCells_store hinv (h.inv.free_lt hci) hclear, h.inv.freeCells_assign hfree, hfree]
          rfl
        · refine (exists_congr fun c => holds_setDirty (openFile_assign.mpr h.opened)).trans ?_
          refine exists_congr fun c' => ?_
          rw [holds_assign h.opened]
          refine ⟨fun hh => hh.resolve_right ?_, Or.inl⟩
          rintro ⟨_, hq', _⟩
          omega

theorem Consumed.shortage {k p b : Nat} (hc : Consumed s s' g k p) (h : ¬ Shortage s k) :
    Shortage s (k + b) ↔ Shortage s' b := by
  rw [shortage_add k b h]
  refine exists_congr fun a => and_congr_right fun _ => ?_
  rw [hc.cells, hc.frames, List.length_drop]
  refine or_congr_left ?_
  omega

theorem Consumed.missing_eq {k p : Nat} (hc : Consumed s s' g k p) (h : CacheInv s)
    (h' : CacheInv s') (hg : OpenFile s g) (hg' : OpenFile s' g) :
    missing s' g p n = missing s g p n := by
  refine missing_congr fun q hq _ => ?_
  rw [h'.getBuffer_eq_zero hg', h.getBuffer_eq_zero hg, hc.later q hq]

theorem Consumed.trans {k₁ k₂ p₁ p₂ : Nat} (h₁ : Consumed s s₁ g k₁ p₁)
    (h₂ : Consumed s₁ s' g k₂ p₂) (hp : p₁ ≤ p₂) : Consumed s s' g (k₁ + k₂) p₂ where
  cells := by rw [h₂.cells, h₁.cells, List.drop_drop]
  frames a := by rw [h₂.frames, h₁.frames, Nat.add_assoc]
  later q hq := (h₂.later q hq).trans (h₁.later q (hp.trans hq))

/-- The whole pages of a request: all of them are filled, or there is a
shortage and the loop is left behind the pages that could be filled. -/
theorem writePages_whole (read : List (Nat × Nat)) (h : Request s g start count buffer)
    (hn : pageCacheSize * (i + n) ≤ count) :
    (Shortage s (missing s g (start / pageCacheSize + i) n) ∧
      ∃ s' j read', i ≤ j ∧ j ≤ i + n ∧
        writePages g start count buffer (n + r) i (pageCacheSize * i) read s =
          .ret ⟨s', pageCacheSize * j, false, read'⟩ ∧
        Filled s s' g start buffer i j ∧ ∀ x ∈ read', x ∈ read ∨ InBuffer buffer count x) ∨
    (¬ Shortage s (missing s g (start / pageCacheSize + i) n) ∧
      ∃ s' read', writePages g start count buffer (n + r) i (pageCacheSize * i) read s =
          writePages g start count buffer r (i + n) (pageCacheSize * (i + n)) read' s' ∧
        Filled s s' g start buffer i (i + n) ∧
        Consumed s s' g (missing s g (start / pageCacheSize + i) n)
          (start / pageCacheSize + (i + n)) ∧
        ∀ x ∈ read', x ∈ read ∨ InBuffer buffer count x) := by
  induction n generalizing i s read with
  | zero =>
    refine Or.inr ⟨shortage_zero, s, read, by simp, Filled.refl h.inv s.frames, ?_,
      fun x hx => Or.inl hx⟩
    exact ⟨rfl, fun a => by simp, fun _ _ => Iff.rfl⟩
  | succ n ih =>
    have hi : pageCacheSize * (i + 1) ≤ count :=
      (Nat.mul_le_mul_left _ (by omega)).trans hn
    have hlen : n + 1 + r = (n + r) + 1 := by omega
    have hmiss := missing_add (s := s) (g := g) (p := start / pageCacheSize + i) 1 n
    rw [Nat.add_comm 1 n, Nat.add_assoc _ i 1] at hmiss
    rw [hlen, hmiss]
    -- one turn either stops for want of a cell or hands its state to the other pages
    rcases writePages_turn read (n := n + r) h hi with
      ⟨hshort, frames, hrun⟩ | ⟨hshort, s₁, hrun, hstored, hconsumed⟩
    · exact Or.inl ⟨hshort.mono (Nat.le_add_right _ _), _, i, read, le_refl i, by omega, hrun,
        Filled.refl h.inv frames, fun x hx => Or.inl hx⟩
    · have h₁ := h.step hstored.inv hstored.opened hstored.same
      have hmissing := hconsumed.missing_eq (n := n) h.inv h₁.inv h.opened h₁.opened
      have hsum : i + 1 + n = i + (n + 1) := by omega
      have hreads : ∀ x ∈ read ++ [(buffer + pageCacheSize * i, pageCacheSize)],
          x ∈ read ∨ InBuffer buffer count x := by
        intro x hx
        rcases List.mem_append.mp hx with hx | hx
        · exact Or.inl hx
        · obtain rfl := List.mem_singleton.mp hx
          refine Or.inr ⟨Nat.le_add_right _ _, ?_⟩
          simp only [pageCacheSize] at hi ⊢
          omega
      have hclear : ∀ j, pageCacheSize * j ≤ count → ClearOf s buffer (pageCacheSize * j) := by
        intro j hj
        have hc := h.clear
        simp only [ClearOf] at hc ⊢
        omega
      -- the other pages, with the turn's page put before them
      rcases ih (read ++ [(buffer + pageCacheSize * i, pageCacheSize)]) h₁
          (by rw [hsum]; exact hn) with
        ⟨hs, s', j, read', hlo, hhi, hrest, hfilled, hread⟩ |
          ⟨hs, s', read', hrest, hfilled, hcons, hread⟩
      · rw [hmissing, ← hconsumed.shortage hshort] at hs
        have hj : pageCacheSize * j ≤ count := (Nat.mul_le_mul_left _ (by omega)).trans hn
        exact Or.inl ⟨hs, s', j, read', by omega, by omega, hrun.trans hrest,
          Filled.cons h.aligned hlo (hclear j hj) hstored hfilled,
          fun x hx => (hread x hx).elim (hreads x) Or.inr⟩
      · rw [hmissing, ← hconsumed.shortage hshort] at hs
        rw [hmissing] at hcons
        rw [hsum] at hrest hfilled hcons
        exact Or.inr ⟨hs, s', read', hrun.trans hrest,
          Filled.cons h.aligned (by omega) (hclear _ hn) hstored hfilled,
          hconsumed.trans hcons (by omega), fun x hx => (hread x hx).elim (hreads x) Or.inr⟩

end Whole

/-! ## The write -/

/-- What a cached write that returned `n` is meant to have done, and to have
read of the caller buffer. -/
structure WriteLaw (s s' : FileState) (g start count buffer n : Nat) (read : List (Nat × Nat)) :
    Prop where
  written : ∀ k, k < n → FileByte s' g (start + k) (s.mem (buffer + k))
  kept : ∀ g' off b, FileByte s g' off b → (g' = g → off < start ∨ start + n ≤ off) →
    FileByte s' g' off b
  padded : ∀ g' off b, ¬ Cached s g' (off / pageCacheSize) → FileByte s' g' off b →
    (g' = g → off < start ∨ start + n ≤ off) → b = 0
  inBuffer : ∀ r ∈ read, InBuffer buffer count r

section Write

variable {s s' : FileState} {g start count buffer caps : Nat} {e : Gfe} {ops : FsOperations}

/-- Filling whole pages is what is meant. -/
theorem Filled.writeLaw {j : Nat} {read : List (Nat × Nat)}
    (hstart : start % pageCacheSize = 0) (h : Filled s s' g start buffer 0 j)
    (hread : ∀ x ∈ read, InBuffer buffer count x) :
    WriteLaw s s' g start count buffer (pageCacheSize * j) read where
  written k hk := h.bytes k (by omega) hk
  kept g' off b hb hout := h.kept g' off b hb fun hg => by
    have hrange := hout hg
    omega
  padded := by
    rintro g' off b hno ⟨c, hh, _⟩ hout
    rcases h.fresh hh with hh | ⟨hg, hlo, hhi⟩
    · exact absurd ⟨c, hh⟩ hno
    · have hrange := hout hg
      simp only [pageCacheSize] at *
      omega
  inBuffer := hread

/-- The law does not look at the nodes. -/
theorem WriteLaw.of_nodes {n : Nat} {read : List (Nat × Nat)} {nodes : Nat → FileNode} :
    WriteLaw s { s' with nodes := nodes } g start count buffer n read ↔
      WriteLaw s s' g start count buffer n read := by
  constructor <;> exact fun h => ⟨h.written, h.kept, h.padded, h.inBuffer⟩

/-- The condition under which a cached write stays inside its pages and its
buffer: there are whole pages only, or a shortage ends the write before. -/
def WritesWhole (s : FileState) (g start count : Nat) : Prop :=
  count % pageCacheSize = 0 ∨
    Shortage s (missing s g (start / pageCacheSize) (ceilDivision count pageCacheSize))

/-- The length update of a call whose page loop has ended. -/
def FileState.extended (s : FileState) (node stop : Nat) : FileState :=
  if stop > (s.nodes node).fileLength then s.setLength node stop else s

/-- An accepted call is its page loop, and an update of the length behind a loop
that was not left early. -/
theorem writeFileGlobal_loop (ops : FsOperations) (he : s.gft[g]? = some e)
    (hnode : e.fileNode ≠ 0) (hwrite : chkBit caps vfsCapWrite = true)
    (hcache : chkBit caps vfsCapCache = true) (hstart : start % pageCacheSize = 0)
    (hnear : start / pageCacheSize <
      add32 (ceilDivision (s.nodes e.fileNode).fileLength pageCacheSize) 2)
    {w : Written}
    (hloop : writePages g start count buffer (ceilDivision count pageCacheSize) 0 0 [] s =
      .ret w) :
    writeFileGlobal ops s g start count buffer caps =
      .ret (if w.done = false then w.state
          else w.state.extended e.fileNode (add32 start w.bytesWritten),
        .ok w.bytesWritten, w.read) := by
  have hinvalid : gfeIsInvalid e = false := by simpa [gfeIsInvalid] using hnode
  have hfar : ¬ start / pageCacheSize ≥
      add32 (ceilDivision (s.nodes e.fileNode).fileLength pageCacheSize) 2 := by omega
  simp only [writeFileGlobal, gftGet, he, hinvalid, hwrite, hcache, hstart, if_neg hfar, hloop]
  by_cases hdone : w.done = false
  · simp [hdone]
  · simp [hdone, FileState.extended]

/-- But for the length, an accepted call leaves what its page loop leaves. -/
theorem writeFileGlobal_accepted (ops : FsOperations) (he : s.gft[g]? = some e)
    (hnode : e.fileNode ≠ 0) (hwrite : chkBit caps vfsCapWrite = true)
    (hcache : chkBit caps vfsCapCache = true) (hstart : start % pageCacheSize = 0)
    (hnear : start / pageCacheSize <
      add32 (ceilDivision (s.nodes e.fileNode).fileLength pageCacheSize) 2)
    {w : Written}
    (hloop : writePages g start count buffer (ceilDivision count pageCacheSize) 0 0 [] s =
      .ret w) :
    ∃ nodes, writeFileGlobal ops s g start count buffer caps =
      .ret ({ w.state with nodes := nodes }, .ok w.bytesWritten, w.read) := by
  rw [writeFileGlobal_loop ops he hnode hwrite hcache hstart hnear hloop]
  by_cases hdone : w.done = false
  · exact ⟨w.state.nodes, by rw [if_pos hdone]⟩
  · rw [if_neg hdone]
    unfold FileState.extended
    by_cases hgrow : add32 start w.bytesWritten > (w.state.nodes e.fileNode).fileLength
    · rw [if_pos hgrow]
      exact ⟨_, rfl⟩
    · exact ⟨w.state.nodes, by rw [if_neg hgrow]⟩

/-- The number of pages of a request. -/
theorem totalPages_eq (hcount : count < 4294967296) :
    ceilDivision count pageCacheSize =
      count / pageCacheSize + if count % pageCacheSize = 0 then 0 else 1 := by
  unfold ceilDivision
  by_cases hrem : count % pageCacheSize = 0
  · simp [hrem]
  · simp only [pageCacheSize] at *
    rw [if_pos hrem, if_neg hrem, add32_eq (by omega)]

/-- The page behind the whole ones: there is a shortage, or the copy runs over
the end of the caller buffer. -/
theorem writePages_last {i : Nat} (read : List (Nat × Nat)) (h : Request s g start count buffer)
    (hi : i = count / pageCacheSize) (hrem : count % pageCacheSize ≠ 0) :
    (Shortage s (missing s g (start / pageCacheSize + i) 1) ∧
      ∃ frames, writePages g start count buffer 1 i (pageCacheSize * i) read s =
        .ret ⟨{ s with frames := frames }, pageCacheSize * i, false, read⟩) ∨
    (¬ Shortage s (missing s g (start / pageCacheSize + i) 1) ∧
      ∃ w, writePages g start count buffer 1 i (pageCacheSize * i) read s = .ret w ∧
        ∃ r ∈ w.read, ¬ InBuffer buffer count r) := by
  have h₁ := h.startLt
  have h₂ := h.countLt
  have h₃ := h.room
  have hpage : add32 (start / pageCacheSize) i = start / pageCacheSize + i := by
    simp only [pageCacheSize] at *
    exact add32_eq (by omega)
  -- a whole page is copied from the buffer, which ends before it does
  have hover : ¬ InBuffer buffer count (source buffer i, pageCacheSize) := by
    simp only [InBuffer, source, pageCacheSize] at *
    rw [mul32_eq (by omega), add32_eq (by omega)]
    omega
  by_cases hcached : Cached s g (start / pageCacheSize + i)
  · obtain ⟨c, hh⟩ := id hcached
    have hpos : ¬ pageCacheGetBuffer s g (start / pageCacheSize + i) = 0 := by
      rw [h.inv.getBuffer_eq_zero h.opened]
      exact not_not.mpr hcached
    rw [missing_succ, if_neg hpos, missing_zero]
    refine Or.inr ⟨shortage_zero, _,
      writePages_cached h.inv h.opened hh hpage h.buffered, ?_⟩
    exact ⟨_, List.mem_append_right _ (List.mem_singleton_self _), hover⟩
  · have hzero := (h.inv.getBuffer_eq_zero h.opened).mpr hcached
    rw [missing_succ, if_pos hzero, missing_zero]
    by_cases hstop : freeCells s = [] ∨ s.frames 0 = none
    · refine Or.inl ⟨⟨0, by omega, hstop.imp_left fun hnil => by simp [hnil]⟩,
        writePages_stopped h.inv hcached hpage hstop⟩
    · rw [not_or] at hstop
      obtain ⟨c, rest, hfree⟩ := List.exists_cons_of_ne_nil hstop.1
      obtain ⟨content, hframe⟩ := Option.ne_none_iff_exists'.mp hstop.2
      obtain ⟨m, hrun, _⟩ := writePages_reserved read h.inv h.opened hcached hfree hframe hpage
        h.buffered 0 count (pageCacheSize * i)
      refine Or.inr ⟨?_, _, hrun, _, List.mem_append_right _ (List.mem_singleton_self _), hover⟩
      rintro ⟨k, hk, hfail⟩
      obtain rfl : k = 0 := by omega
      rcases hfail with hlen | hnone
      · simp [hfree] at hlen
      · exact hstop.2 hnone

/-- The page loop of a cached write ends, and obeys the law exactly when it
writes whole pages. -/
theorem writePages_law (h : Request s g start count buffer) :
    ∃ w, writePages g start count buffer (ceilDivision count pageCacheSize) 0 0 [] s = .ret w ∧
      (WriteLaw s w.state g start count buffer w.bytesWritten w.read ↔
        WritesWhole s g start count) := by
  have htotal := totalPages_eq h.countLt
  have hfull : pageCacheSize * (0 + count / pageCacheSize) ≤ count := by
    rw [Nat.zero_add]
    exact Nat.mul_div_le _ _
  have hnil : ∀ {read' : List (Nat × Nat)},
      (∀ x ∈ read', x ∈ ([] : List (Nat × Nat)) ∨ InBuffer buffer count x) →
      ∀ x ∈ read', InBuffer buffer count x := fun hread x hx =>
    (hread x hx).resolve_left List.not_mem_nil
  have hsplit := missing_add (s := s) (g := g) (p := start / pageCacheSize)
    (count / pageCacheSize) (if count % pageCacheSize = 0 then 0 else 1)
  rw [← htotal] at hsplit
  rw [WritesWhole, hsplit, htotal]
  have hwhole := writePages_whole [] (n := count / pageCacheSize)
    (r := if count % pageCacheSize = 0 then 0 else 1) h hfull
  rw [Nat.mul_zero, Nat.zero_add, Nat.add_zero] at hwhole
  rcases hwhole with
    ⟨hshort, s', j, read', _, _, hrun, hfilled, hread⟩ |
    ⟨hshort, s', read', hrun, hfilled, hcons, hread⟩
  · -- the loop is left inside the whole pages
    refine ⟨_, hrun, ?_⟩
    exact iff_of_true (hfilled.writeLaw h.aligned (hnil hread))
      (Or.inr (hshort.mono (Nat.le_add_right _ _)))
  · by_cases hrem : count % pageCacheSize = 0
    · -- there are whole pages only
      refine ⟨⟨s', pageCacheSize * (count / pageCacheSize), true, read'⟩, ?_, ?_⟩
      · rw [hrun, if_pos hrem]
        rfl
      · exact iff_of_true (hfilled.writeLaw h.aligned (hnil hread)) (Or.inl hrem)
    · rw [if_neg hrem] at hrun ⊢
      have h' := h.step hfilled.inv hfilled.opened hfilled.same
      have hmissing := hcons.missing_eq (n := 1) h.inv h'.inv h.opened h'.opened
      rcases writePages_last read' h' rfl hrem with
        ⟨hs, frames, hlast⟩ | ⟨hs, w, hlast, r, hr, hover⟩
      · rw [hmissing, ← hcons.shortage hshort] at hs
        refine ⟨_, hrun.trans hlast, ?_⟩
        have hlaw := hfilled.writeLaw h.aligned (hnil hread)
        exact iff_of_true ⟨hlaw.written, hlaw.kept, hlaw.padded, hlaw.inBuffer⟩ (Or.inr hs)
      · rw [hmissing, ← hcons.shortage hshort] at hs
        refine ⟨w, hrun.trans hlast, ?_⟩
        exact iff_of_false (fun hlaw => hover (hlaw.inBuffer r hr)) (not_or.mpr ⟨hrem, hs⟩)

/-- A cache of one data cell at address 4096, and an empty open file. -/
def smallCache : FileState where
  mem := fun x => if x = 8193 then 1 else 0
  cache := 4096
  cacheSize := 8192
  gft := [⟨1, 1, []⟩]
  nodes := fun _ => ⟨0⟩
  frames := fun _ => some fun _ => 0

/-- A driver that reads zeros and takes everything. -/
def zeroOps : FsOperations := ⟨fun _ _ _ count => (count, fun _ => 0), fun _ _ _ count _ => count⟩

/-- 512 bytes at address 65536 are to be written at the start of the file. -/
theorem smallCache_request : Request smallCache 0 0 512 65536 := by
  have hnone : ∀ {g p i}, ¬ Holds smallCache g p i := by
    rintro g p i ⟨e, d, he, hmem⟩
    rcases g with _ | g
    · obtain rfl : (⟨1, 1, []⟩ : Gfe) = e := Option.some.inj he
      exact absurd hmem List.not_mem_nil
    · simp [smallCache] at he
  have hinv : CacheInv smallCache :=
    { base := by decide, size := by decide, nonempty := by decide, few := by decide,
      top := by decide, self := by decide, cells := fun hh => absurd hh hnone,
      inj := fun hh => absurd hh hnone, fn := fun hh => absurd hh hnone }
  exact ⟨hinv, ⟨⟨1, 1, []⟩, rfl, by decide⟩, by decide, by decide, by decide, by decide,
    by decide, Or.inr (by decide)⟩

/-- Writing 512 bytes reads behind the caller buffer. -/
theorem writeCached_law_fails : ∃ s' n read,
    writeFileGlobal zeroOps smallCache 0 0 512 65536 12 = .ret (s', .ok n, read) ∧
      ¬ WriteLaw smallCache s' 0 0 512 65536 n read := by
  obtain ⟨w, hloop, hlaw⟩ := writePages_law smallCache_request
  obtain ⟨nodes, hrun⟩ := writeFileGlobal_accepted zeroOps (e := ⟨1, 1, []⟩) rfl (by decide)
    (show chkBit 12 vfsCapWrite = true by decide) (by decide) (by decide) (by decide) hloop
  refine ⟨_, _, _, hrun, fun h => ?_⟩
  rcases hlaw.mp (WriteLaw.of_nodes.mp h) with hrem | ⟨k, hk, hfail⟩
  · exact absurd hrem (by decide)
  · -- one page is missing, one cell is free and there is a frame
    have hone : missing smallCache 0 (0 / pageCacheSize) (ceilDivision 512 pageCacheSize) = 1 := by
      decide
    have hcells : (freeCells smallCache).length = 1 := by decide
    rw [hone] at hk
    rw [hcells] at hfail
    rcases hfail with hlen | hnone
    · omega
    · cases hnone

/-- An accepted cached write does what it is meant to do exactly when it ends
with whole pages. -/
theorem writeCached_law_iff (h : Request s g start count buffer) (he : s.gft[g]? = some e)
    (hwrite : chkBit caps vfsCapWrite = true) (hcache : chkBit caps vfsCapCache = true)
    (hnear : start / pageCacheSize <
      add32 (ceilDivision (s.nodes e.fileNode).fileLength pageCacheSize) 2) :
    ∃ s' n read, writeFileGlobal ops s g start count buffer caps = .ret (s', .ok n, read) ∧
      (WriteLaw s s' g start count buffer n read ↔ WritesWhole s g start count) := by
  obtain ⟨w, hloop, hlaw⟩ := writePages_law h
  obtain ⟨e', he', hnode⟩ := h.opened
  obtain rfl : e = e' := Option.some.inj (he.symm.trans he')
  obtain ⟨nodes, hrun⟩ :=
    writeFileGlobal_accepted ops he hnode hwrite hcache h.aligned hnear hloop
  exact ⟨_, _, _, hrun, WriteLaw.of_nodes.trans hlaw⟩

theorem writeCached_law_iff_small : ∃ s' n read,
    writeFileGlobal zeroOps smallCache 0 0 512 65536 12 = .ret (s', .ok n, read) ∧
      (WriteLaw smallCache s' 0 0 512 65536 n read ↔ WritesWhole smallCache 0 0 512) :=
  writeCached_law_iff smallCache_request (e := ⟨1, 1, []⟩) rfl (by decide) (by decide) (by decide)

end Write

end MeOS
