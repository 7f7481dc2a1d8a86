import MeOS.PageCache

/-! # The invariant of the page cache

`Holds s gfd page i` says that cell `i` holds page `page` of the file behind
`gfd`. The invariant asks that this be one to one in both directions and that
the cells in use be marked allocated. Cells come from the list of free ones in
ascending order; what reserving and releasing do to it is said here once.
-/

namespace MeOS

open Bytes

/-! ## Views -/

/-- The address of a cell. -/
def cellAddr (s : FileState) (i : Nat) : Nat := s.cache + i * pageCacheSize

/-- The address of the bitmap. -/
def bitmapAddr (s : FileState) : Nat := cellAddr s (pageCacheNumBuffers s - 1)

/-- Cell `i` holds page `page` of the file behind `gfd`. -/
def Holds (s : FileState) (gfd page i : Nat) : Prop :=
  ∃ e d, s.gft[gfd]? = some e ∧ (⟨page, i, d⟩ : PageInfo) ∈ e.pages

/-- The page is cached. -/
def Cached (s : FileState) (gfd page : Nat) : Prop := ∃ i, Holds s gfd page i

/-- The cells that are not allocated, in ascending order. -/
def freeCells (s : FileState) : List Nat :=
  (List.range (pageCacheNumBuffers s)).filter fun i => s.mem (bitmapAddr s + i) == 0

/-- The entry `gfd` of the table is in use. -/
def OpenFile (s : FileState) (gfd : Nat) : Prop := ∃ e, s.gft[gfd]? = some e ∧ e.fileNode ≠ 0

/-- A well-formed page cache. -/
structure CacheInv (s : FileState) : Prop where
  base : 0 < s.cache
  size : s.cacheSize = pageCacheNumBuffers s * pageCacheSize
  nonempty : 0 < pageCacheNumBuffers s
  few : pageCacheNumBuffers s ≤ pageCacheSize
  top : s.cache + s.cacheSize ≤ 4294967296
  self : s.mem (bitmapAddr s + (pageCacheNumBuffers s - 1)) ≠ 0
  cells : ∀ {g p i}, Holds s g p i → i + 1 < pageCacheNumBuffers s ∧ s.mem (bitmapAddr s + i) ≠ 0
  inj : ∀ {g p g' p' i}, Holds s g p i → Holds s g' p' i → g = g' ∧ p = p'
  fn : ∀ {g p i i'}, Holds s g p i → Holds s g p i' → i = i'

section Basic

variable {s : FileState} {g p i : Nat}

/-- A cell of the cache lies in the 32-bit address space. -/
theorem CacheInv.cell_bounds (h : CacheInv s) (hi : i < pageCacheNumBuffers s) :
    0 < cellAddr s i ∧ cellAddr s i + pageCacheSize ≤ s.cache + s.cacheSize ∧
      cellAddr s i + pageCacheSize ≤ 4294967296 := by
  have hsize := h.size
  have htop := h.top
  have hbase := h.base
  simp only [cellAddr, pageCacheSize] at *
  omega

theorem CacheInv.addrByIndex (h : CacheInv s) (hi : i < pageCacheNumBuffers s) :
    add32 s.cache (mul32 i pageCacheSize) = cellAddr s i := by
  have hb := h.cell_bounds hi
  simp only [cellAddr, pageCacheSize] at hb ⊢
  rw [mul32_eq (by omega), add32_eq (by omega)]

theorem CacheInv.indexByAddr (h : CacheInv s) (hi : i < pageCacheNumBuffers s) :
    pageCacheIndexByAddr s (cellAddr s i) = i := by
  have hb := h.cell_bounds hi
  simp only [cellAddr, pageCacheSize] at hb
  simp only [pageCacheIndexByAddr, cellAddr, pageCacheSize]
  rw [sub32_eq (by omega) (by omega)]
  omega

theorem CacheInv.bitmap_eq (h : CacheInv s) : allocedBitmap s = bitmapAddr s := by
  have hsome := h.nonempty
  have hfew := h.few
  have hsub : sub32 (pageCacheNumBuffers s) 1 = pageCacheNumBuffers s - 1 :=
    sub32_eq (by simp only [pageCacheSize] at hfew; omega) hsome
  rw [allocedBitmap, hsub]
  exact h.addrByIndex (by omega)

/-- The bitmap is the last cell: no other cell reaches into it. -/
theorem CacheInv.cell_below_bitmap (hi : i + 1 < pageCacheNumBuffers s) :
    cellAddr s i + pageCacheSize ≤ bitmapAddr s := by
  simp only [bitmapAddr, cellAddr, pageCacheSize]
  omega

theorem cache_le_cellAddr : s.cache ≤ cellAddr s i := Nat.le_add_right _ _

/-- Different cells are apart. -/
theorem cell_apart {j : Nat} (hij : i ≠ j) :
    cellAddr s i + pageCacheSize ≤ cellAddr s j ∨ cellAddr s j + pageCacheSize ≤ cellAddr s i := by
  simp only [cellAddr, pageCacheSize]
  omega

theorem mem_freeCells :
    i ∈ freeCells s ↔ i < pageCacheNumBuffers s ∧ s.mem (bitmapAddr s + i) = 0 := by
  simp [freeCells]

/-- A free cell is not the bitmap cell. -/
theorem CacheInv.free_lt (h : CacheInv s) (hi : i ∈ freeCells s) :
    i + 1 < pageCacheNumBuffers s := by
  obtain ⟨hlt, hzero⟩ := mem_freeCells.mp hi
  by_contra hlast
  have hself := h.self
  have : i = pageCacheNumBuffers s - 1 := by omega
  rw [← this] at hself
  exact hself hzero

/-- A free cell holds no page. -/
theorem CacheInv.free_not_held (h : CacheInv s) (hi : i ∈ freeCells s) : ¬ Holds s g p i :=
  fun hh => (h.cells hh).2 (mem_freeCells.mp hi).2

/-- Memory writes that spare the bitmap keep the invariant. -/
theorem CacheInv.of_mem (h : CacheInv s) {m : Mem}
    (hsame : ∀ x, bitmapAddr s ≤ x → x < bitmapAddr s + pageCacheNumBuffers s → m x = s.mem x) :
    CacheInv { s with mem := m } where
  base := h.base
  size := h.size
  nonempty := h.nonempty
  few := h.few
  top := h.top
  self := by
    have hsome := h.nonempty
    have heq := hsame (bitmapAddr s + (pageCacheNumBuffers s - 1)) (by omega) (by omega)
    have hself := h.self
    rw [← heq] at hself
    exact hself
  cells := by
    intro g p i hh
    obtain ⟨hlt, hbit⟩ := h.cells (g := g) (p := p) hh
    have heq := hsame (bitmapAddr s + i) (by omega) (by omega)
    rw [← heq] at hbit
    exact ⟨hlt, hbit⟩
  inj := fun h₁ h₂ => h.inj h₁ h₂
  fn := fun h₁ h₂ => h.fn h₁ h₂

/-- Such writes do not change which cells are free. -/
theorem freeCells_of_mem {m : Mem}
    (hsame : ∀ x, bitmapAddr s ≤ x → x < bitmapAddr s + pageCacheNumBuffers s → m x = s.mem x) :
    freeCells { s with mem := m } = freeCells s := by
  refine List.filter_congr fun i hi => ?_
  have hlt : i < pageCacheNumBuffers s := List.mem_range.mp hi
  have heq := hsame (bitmapAddr s + i) (by omega) (by omega)
  show (m (bitmapAddr s + i) == 0) = _
  rw [heq]

end Basic

/-! ## Looking up a page -/

section Lookup

variable {s : FileState} {g p i : Nat}

/-- The cell of a cached page of an open file. -/
theorem CacheInv.getBuffer_of_holds (h : CacheInv s) (hopen : OpenFile s g) (hh : Holds s g p i) :
    pageCacheGetBuffer s g p = cellAddr s i := by
  obtain ⟨e, he, hnode⟩ := hopen
  obtain ⟨e', d, he', hmem⟩ := id hh
  obtain rfl : e = e' := Option.some.inj (he.symm.trans he')
  cases hfind : e.pages.find? fun j => j.page == p with
  | none =>
    have hno := List.find?_eq_none.mp hfind _ hmem
    simp at hno
  | some j =>
    obtain ⟨page, idx, dj⟩ := j
    have hpage : page = p := by simpa using List.find?_some hfind
    subst hpage
    have hj : Holds s g page idx := ⟨e, dj, he, List.mem_of_find?_eq_some hfind⟩
    have hidx := h.fn hj hh
    subst hidx
    have hlt := (h.cells hh).1
    have hget : pageCacheGetFinfo s g page = .ok ⟨page, idx, dj⟩ := by
      simp [pageCacheGetFinfo, he, hnode, hfind]
    simp only [pageCacheGetBuffer, hget]
    exact h.addrByIndex (by omega)

/-- A page that is not cached has no buffer. -/
theorem getBuffer_of_not_cached (hc : ¬ Cached s g p) : pageCacheGetBuffer s g p = 0 := by
  have hget : ∀ j, pageCacheGetFinfo s g p ≠ .ok j := by
    intro j hj
    unfold pageCacheGetFinfo at hj
    split at hj
    · cases hj
    · rename_i e he
      split at hj
      · cases hj
      · split at hj
        · cases hj
        · rename_i j' hfind
          obtain ⟨page, idx, d⟩ := j'
          have hpage : page = p := by simpa using List.find?_some hfind
          subst hpage
          exact hc ⟨idx, e, d, he, List.mem_of_find?_eq_some hfind⟩
  unfold pageCacheGetBuffer
  cases hfin : pageCacheGetFinfo s g p with
  | error e => rfl
  | ok j => exact absurd hfin (hget j)

theorem CacheInv.getBuffer_eq_zero (h : CacheInv s) (hopen : OpenFile s g) :
    pageCacheGetBuffer s g p = 0 ↔ ¬ Cached s g p := by
  refine ⟨fun hget ⟨i, hh⟩ => ?_, getBuffer_of_not_cached⟩
  have hlt := (h.cells hh).1
  have hpos := (h.cell_bounds (i := i) (by omega)).1
  rw [h.getBuffer_of_holds hopen hh] at hget
  omega

/-- A cached page of an open file can be marked. -/
theorem getFinfo_of_holds (hopen : OpenFile s g) (hh : Holds s g p i) :
    ∃ j, pageCacheGetFinfo s g p = .ok j := by
  obtain ⟨e, he, hnode⟩ := hopen
  obtain ⟨e', d, he', hmem⟩ := hh
  obtain rfl : e = e' := Option.some.inj (he.symm.trans he')
  cases hfind : e.pages.find? fun j => j.page == p with
  | none =>
    have hno := List.find?_eq_none.mp hfind _ hmem
    simp at hno
  | some j => exact ⟨j, by simp [pageCacheGetFinfo, he, hnode, hfind]⟩

end Lookup

/-! ## Changing a page list -/

section Modify

variable {s : FileState} {g : Nat} {f : List PageInfo → List PageInfo}

@[simp] theorem modifyPages_mem : (s.modifyPages g f).mem = s.mem := rfl

@[simp] theorem holds_mem {m : Mem} {g' p i : Nat} :
    Holds { s with mem := m } g' p i ↔ Holds s g' p i := Iff.rfl

theorem modifyPages_same {e : Gfe} (he : s.gft[g]? = some e) :
    (s.modifyPages g f).gft[g]? = some { e with pages := f e.pages } := by
  simp [FileState.modifyPages, he]

theorem modifyPages_other {g' : Nat} (hg : g ≠ g') :
    (s.modifyPages g f).gft[g']? = s.gft[g']? := by
  simp [FileState.modifyPages, List.getElem?_modify_ne _ _ hg]

/-- Which pages the changed list holds. -/
theorem holds_modifyPages {e : Gfe} (he : s.gft[g]? = some e) (g' p i : Nat) :
    Holds (s.modifyPages g f) g' p i ↔
      if g' = g then ∃ d, (⟨p, i, d⟩ : PageInfo) ∈ f e.pages else Holds s g' p i := by
  by_cases hg : g' = g
  · subst hg
    rw [if_pos rfl]
    constructor
    · rintro ⟨e', d, he', hmem⟩
      rw [modifyPages_same he] at he'
      cases he'
      exact ⟨d, hmem⟩
    · rintro ⟨d, hmem⟩
      exact ⟨_, d, modifyPages_same he, hmem⟩
  · rw [if_neg hg]
    unfold Holds
    rw [modifyPages_other (Ne.symm hg)]

theorem holds_iff {e : Gfe} (he : s.gft[g]? = some e) {p i : Nat} :
    Holds s g p i ↔ ∃ d, (⟨p, i, d⟩ : PageInfo) ∈ e.pages := by
  constructor
  · rintro ⟨e', d, he', hmem⟩
    obtain rfl : e = e' := Option.some.inj (he.symm.trans he')
    exact ⟨d, hmem⟩
  · rintro ⟨d, hmem⟩
    exact ⟨e, d, he, hmem⟩

/-- The list with a dirty flag changed holds the same pages. -/
theorem mem_setDirty {pages : List PageInfo} {page p i : Nat} {dirty : Bool} :
    (∃ d, (⟨p, i, d⟩ : PageInfo) ∈ setDirty page dirty pages) ↔
      ∃ d, (⟨p, i, d⟩ : PageInfo) ∈ pages := by
  induction pages with
  | nil => simp [setDirty]
  | cons j rest ih =>
    obtain ⟨q, k, dj⟩ := j
    unfold setDirty
    split
    · simp only [List.mem_cons, PageInfo.mk.injEq, exists_or]
      constructor
      · rintro (⟨d, hp, hi, _⟩ | hrest)
        · exact Or.inl ⟨dj, hp, hi, rfl⟩
        · exact Or.inr hrest
      · rintro (⟨d, hp, hi, _⟩ | hrest)
        · exact Or.inl ⟨dirty, hp, hi, rfl⟩
        · exact Or.inr hrest
    · simp only [List.mem_cons, exists_or, ih]

theorem openFile_modifyPages {g' : Nat} : OpenFile (s.modifyPages g f) g' ↔ OpenFile s g' := by
  unfold OpenFile
  by_cases hg : g = g'
  · subst hg
    cases he : s.gft[g]? with
    | none => simp [FileState.modifyPages, he]
    | some e => simp [FileState.modifyPages, he]
  · rw [modifyPages_other hg]

end Modify

/-- `page_cache_make_dirty` on a cached page: no page moves. -/
theorem makeDirty_holds {s : FileState} {g p i : Nat} {d : Bool} (hopen : OpenFile s g)
    (hh : Holds s g p i) :
    pageCacheMakeDirty s g p d = (s.modifyPages g (setDirty p d), .ok ()) ∧
      ∀ g' p' i', Holds (s.modifyPages g (setDirty p d)) g' p' i' ↔ Holds s g' p' i' := by
  obtain ⟨j, hj⟩ := getFinfo_of_holds hopen hh
  obtain ⟨e, he, _⟩ := hopen
  refine ⟨by simp [pageCacheMakeDirty, hj], fun g' p' i' => ?_⟩
  rw [holds_modifyPages he]
  split
  · rename_i hg
    subst hg
    rw [mem_setDirty, holds_iff he]
  · rfl

/-- The invariant depends on what is held only. -/
theorem CacheInv.of_holds {s : FileState} {gft : List Gfe} (h : CacheInv s)
    (hsame : ∀ g p i, Holds { s with gft := gft } g p i ↔ Holds s g p i) :
    CacheInv { s with gft := gft } where
  base := h.base
  size := h.size
  nonempty := h.nonempty
  few := h.few
  top := h.top
  self := h.self
  cells := fun hh => h.cells ((hsame _ _ _).mp hh)
  inj := fun h₁ h₂ => h.inj ((hsame _ _ _).mp h₁) ((hsame _ _ _).mp h₂)
  fn := fun h₁ h₂ => h.fn ((hsame _ _ _).mp h₁) ((hsame _ _ _).mp h₂)

/-- The answers still to come are no part of the invariant. -/
theorem CacheInv.of_frames {s : FileState} (h : CacheInv s) (frames : Nat → Option Mem) :
    CacheInv { s with frames := frames } :=
  ⟨h.base, h.size, h.nonempty, h.few, h.top, h.self, h.cells, h.inj, h.fn⟩

/-! ## Reserving a cell -/

/-- The state after cell `i` has been given to page `p` of `g`. -/
def FileState.assign (s : FileState) (g p i : Nat) (content : Mem) : FileState :=
  { s with
    mem := blit (store8 s.mem (bitmapAddr s + i) 1) (cellAddr s i) content 0 pageCacheSize
    gft := s.gft.modify g fun e => { e with pages := e.pages ++ [⟨p, i, false⟩] }
    frames := fun k => s.frames (k + 1) }

section Reserve

variable {s : FileState} {g p i : Nat} {rest : List Nat} {content : Mem}

theorem CacheInv.indexFreeBuffer (h : CacheInv s) :
    pageCacheIndexFreeBuffer s = (freeCells s).headD (pageCacheNumBuffers s) := by
  rw [pageCacheIndexFreeBuffer, h.bitmap_eq, freeCells, List.headD_eq_head?_getD,
    List.head?_filter]

/-- No free cell: nothing happens. -/
theorem CacheInv.reserve_full (h : CacheInv s) (hfree : freeCells s = []) :
    pageCacheReserveBuffer s g p = .ret (s, 0) := by
  have hidx : pageCacheIndexFreeBuffer s = pageCacheNumBuffers s := by
    rw [h.indexFreeBuffer, hfree]
    rfl
  simp [pageCacheReserveBuffer, pageCacheReserveAnonymous, hidx]

/-- No frame: the cell is given back. -/
theorem CacheInv.reserve_refused (h : CacheInv s) (hfree : freeCells s = i :: rest)
    (hframe : s.frames 0 = none) :
    pageCacheReserveBuffer s g p = .ret ({ s with frames := fun k => s.frames (k + 1) }, 0) := by
  have hi : i ∈ freeCells s := by simp [hfree]
  obtain ⟨hlt, hzero⟩ := mem_freeCells.mp hi
  have hidx : pageCacheIndexFreeBuffer s = i := by
    rw [h.indexFreeBuffer, hfree]
    rfl
  have hback : store8 (store8 s.mem (bitmapAddr s + i) 1) (bitmapAddr s + i) 0 = s.mem := by
    funext x
    by_cases hx : x = bitmapAddr s + i
    · rw [hx, store8_same, hzero]
    · rw [store8_ne _ _ hx, store8_ne _ _ hx]
  have hb := h.bitmap_eq
  have hanon : pageCacheReserveAnonymous s =
      ({ s with frames := fun k => s.frames (k + 1) }, 0) := by
    have hge : ¬ i ≥ pageCacheNumBuffers s := by omega
    simp only [pageCacheReserveAnonymous, hidx, if_neg hge, pageCacheIndexReserveBuffer, hb,
      vmmngrAllocPage, hframe, pageCacheIndexReleaseBuffer]
    have hb' : ∀ m frames, allocedBitmap { s with mem := m, frames := frames } = bitmapAddr s :=
      fun _ _ => hb
    rw [hb', hback]
  simp [pageCacheReserveBuffer, hanon]

/-- The first free cell is given to the page. -/
theorem CacheInv.reserve_ok (h : CacheInv s) (hg : OpenFile s g) (hfree : freeCells s = i :: rest)
    (hframe : s.frames 0 = some content) :
    pageCacheReserveBuffer s g p = .ret (s.assign g p i content, cellAddr s i) := by
  have hi : i ∈ freeCells s := by simp [hfree]
  obtain ⟨hlt, hzero⟩ := mem_freeCells.mp hi
  have hidx : pageCacheIndexFreeBuffer s = i := by
    rw [h.indexFreeBuffer, hfree]
    rfl
  have hpos := (h.cell_bounds hlt).1
  obtain ⟨a, ha⟩ : ∃ a, cellAddr s i = a + 1 := ⟨cellAddr s i - 1, by omega⟩
  obtain ⟨e, he, _⟩ := hg
  have haddr := h.addrByIndex hlt
  have hanon : pageCacheReserveAnonymous s =
      ({ s with
          mem := blit (store8 s.mem (bitmapAddr s + i) 1) (cellAddr s i) content 0 pageCacheSize
          frames := fun k => s.frames (k + 1) }, cellAddr s i) := by
    have hge : ¬ i ≥ pageCacheNumBuffers s := by omega
    simp only [pageCacheReserveAnonymous, hidx, if_neg hge, pageCacheIndexReserveBuffer,
      h.bitmap_eq, vmmngrAllocPage, hframe, pageCacheAddrByIndex, haddr]
  have hback : ∀ m frames, pageCacheIndexByAddr
      { s with mem := m, frames := frames } (cellAddr s i) = i :=
    fun m frames => h.indexByAddr hlt
  simp only [pageCacheReserveBuffer, hanon, ha, gftGet, he]
  rw [← ha, hback]
  rfl

/-- Which pages are held after a cell has been given away. -/
theorem holds_assign (hg : OpenFile s g) {g' p' i' : Nat} :
    Holds (s.assign g p i content) g' p' i' ↔
      Holds s g' p' i' ∨ (g' = g ∧ p' = p ∧ i' = i) := by
  obtain ⟨e, he, _⟩ := hg
  have hmod := holds_modifyPages (f := fun pages => pages ++ [⟨p, i, false⟩]) he g' p' i'
  have hsame : Holds (s.assign g p i content) g' p' i' ↔
      Holds (s.modifyPages g fun pages => pages ++ [⟨p, i, false⟩]) g' p' i' := Iff.rfl
  rw [hsame, hmod]
  by_cases hgg : g' = g
  · subst hgg
    simp only [if_true, List.mem_append, List.mem_singleton, PageInfo.mk.injEq, exists_or,
      true_and, holds_iff he, exists_and_left, exists_eq, and_true]
  · simp [hgg]

theorem openFile_assign {g' : Nat} : OpenFile (s.assign g p i content) g' ↔ OpenFile s g' := by
  have hsame : OpenFile (s.assign g p i content) g' ↔
      OpenFile (s.modifyPages g fun pages => pages ++ [⟨p, i, false⟩]) g' := Iff.rfl
  rw [hsame, openFile_modifyPages]

/-- Outside its cell and its byte of the bitmap, nothing changes. -/
theorem assign_mem {x : Nat} (hcell : x < cellAddr s i ∨ cellAddr s i + pageCacheSize ≤ x)
    (hbit : x ≠ bitmapAddr s + i) : (s.assign g p i content).mem x = s.mem x := by
  show blit _ _ _ _ _ x = _
  rw [blit_frame _ _ _ hcell, store8_ne _ _ hbit]

/-- The bytes of the bitmap after a cell has been given away. -/
theorem CacheInv.assign_bit (h : CacheInv s) (g p : Nat) (content : Mem)
    (hfree : i ∈ freeCells s) (j : Nat) :
    (s.assign g p i content).mem (bitmapAddr s + j) =
      if j = i then 1 else s.mem (bitmapAddr s + j) := by
  have hbelow := CacheInv.cell_below_bitmap (h.free_lt hfree)
  show blit _ _ _ _ _ _ = _
  rw [blit_frame _ _ _ (Or.inr (by omega))]
  split
  · rename_i hj
    rw [hj, store8_same]
  · rename_i hj
    rw [store8_ne _ _ (by omega)]

theorem CacheInv.freeCells_assign (h : CacheInv s) (hfree : freeCells s = i :: rest) :
    freeCells (s.assign g p i content) = rest := by
  have hi : i ∈ freeCells s := by simp [hfree]
  have hfilter : freeCells (s.assign g p i content) = (freeCells s).filter (· ≠ i) := by
    rw [freeCells, freeCells, List.filter_filter]
    refine List.filter_congr fun j hj => ?_
    have hbit := h.assign_bit g p content hi j
    show ((s.assign g p i content).mem (bitmapAddr s + j) == 0) = _
    rw [hbit]
    by_cases hji : j = i <;> simp [hji]
  have hnodup : (freeCells s).Nodup := List.nodup_range.filter _
  rw [hfree, List.nodup_cons] at hnodup
  rw [hfilter, hfree]
  simp only [ne_eq, decide_not, List.filter_cons, decide_true, Bool.not_true, Bool.false_eq_true,
    if_false]
  refine List.filter_eq_self.mpr fun j hj => ?_
  have hne : j ≠ i := by
    rintro rfl
    exact hnodup.1 hj
  simp [hne]

/-- Giving a free cell to a page that is not cached keeps the invariant. -/
theorem CacheInv.assign (h : CacheInv s) (hg : OpenFile s g) (hi : i ∈ freeCells s)
    (hp : ¬ Cached s g p) : CacheInv (s.assign g p i content) := by
  have hbit := fun j => h.assign_bit g p content hi j
  have hlt := h.free_lt hi
  refine
    { base := h.base, size := h.size, nonempty := h.nonempty, few := h.few, top := h.top,
      self := ?_, cells := ?_, inj := ?_, fn := ?_ }
  · show (s.assign g p i content).mem (bitmapAddr s + (pageCacheNumBuffers s - 1)) ≠ 0
    rw [hbit]
    split
    · decide
    · exact h.self
  · intro g' p' j hh
    show _ ∧ (s.assign g p i content).mem (bitmapAddr s + j) ≠ 0
    rw [hbit]
    rcases (holds_assign hg).mp hh with hold | ⟨_, _, rfl⟩
    · refine ⟨(h.cells hold).1, ?_⟩
      split
      · decide
      · exact (h.cells hold).2
    · exact ⟨hlt, by rw [if_pos rfl]; decide⟩
  · intro g₁ p₁ g₂ p₂ j h₁ h₂
    rcases (holds_assign hg).mp h₁ with hold₁ | ⟨hg₁, hp₁, hj₁⟩ <;>
      rcases (holds_assign hg).mp h₂ with hold₂ | ⟨hg₂, hp₂, hj₂⟩
    · exact h.inj hold₁ hold₂
    · exact absurd (hj₂ ▸ hold₁) (h.free_not_held hi)
    · exact absurd (hj₁ ▸ hold₂) (h.free_not_held hi)
    · exact ⟨hg₁.trans hg₂.symm, hp₁.trans hp₂.symm⟩
  · intro g₁ p₁ j j' h₁ h₂
    rcases (holds_assign hg).mp h₁ with hold₁ | ⟨hg₁, hp₁, hj₁⟩ <;>
      rcases (holds_assign hg).mp h₂ with hold₂ | ⟨hg₂, hp₂, hj₂⟩
    · exact h.fn hold₁ hold₂
    · exact absurd ⟨j, hg₂ ▸ hp₂ ▸ hold₁⟩ hp
    · exact absurd ⟨j', hg₁ ▸ hp₁ ▸ hold₂⟩ hp
    · exact hj₁.trans hj₂.symm

end Reserve

/-! ## The bytes of cached files -/

/-- The cached byte at offset `off` of the file behind `g`. -/
def FileByte (s : FileState) (g off : Nat) (b : UInt8) : Prop :=
  ∃ i, Holds s g (off / pageCacheSize) i ∧ s.mem (cellAddr s i + off % pageCacheSize) = b

/-- A file has one cached byte at an offset. -/
theorem CacheInv.fileByte_unique {s : FileState} (h : CacheInv s) {g off : Nat} {b b' : UInt8}
    (h₁ : FileByte s g off b) (h₂ : FileByte s g off b') : b = b' := by
  obtain ⟨i, hi, rfl⟩ := h₁
  obtain ⟨j, hj, rfl⟩ := h₂
  rw [h.fn hi hj]

/-- A cached page has a byte at each of its offsets. -/
theorem fileByte_of_cached {s : FileState} {g off : Nat} (h : Cached s g (off / pageCacheSize)) :
    ∃ b, FileByte s g off b := by
  obtain ⟨i, hi⟩ := h
  exact ⟨_, i, hi, rfl⟩

section FileBytes

variable {s s' : FileState} {g p c : Nat}

/-- Bytes of cached files depend on what is held and on the memory. -/
theorem FileByte.congr {off : Nat} {b : UInt8} (h : FileByte s g off b)
    (hholds : ∀ {i}, Holds s g (off / pageCacheSize) i → Holds s' g (off / pageCacheSize) i)
    (hcell : ∀ i, cellAddr s' i = cellAddr s i)
    (hmem : ∀ i, Holds s g (off / pageCacheSize) i → ∀ x, cellAddr s i ≤ x →
      x < cellAddr s i + pageCacheSize → s'.mem x = s.mem x) : FileByte s' g off b := by
  obtain ⟨i, hi, rfl⟩ := h
  refine ⟨i, hholds hi, ?_⟩
  rw [hcell]
  refine hmem i hi _ (by omega) ?_
  have hmod : off % pageCacheSize < pageCacheSize := Nat.mod_lt _ (by decide)
  omega

/-- A write to the cell of one page spares the bytes of all others. -/
theorem CacheInv.fileByte_frame (h : CacheInv s) (hh : Holds s g p c) {m : Mem}
    (hsame : ∀ x, x < cellAddr s c ∨ cellAddr s c + pageCacheSize ≤ x → m x = s.mem x)
    {g' off : Nat} {b : UInt8} (hb : FileByte s g' off b)
    (hne : ¬ (g' = g ∧ off / pageCacheSize = p)) : FileByte { s with mem := m } g' off b := by
  refine hb.congr id (fun _ => rfl) fun i hi x h₁ h₂ => ?_
  have hic : i ≠ c := by
    rintro rfl
    exact hne (h.inj hi hh)
  have happ := cell_apart (s := s) hic
  exact hsame x (by omega)

/-- Reserving a cell spares the bytes of all cached pages. -/
theorem CacheInv.fileByte_assign (h : CacheInv s) (hg : OpenFile s g) (hc : c ∈ freeCells s)
    {content : Mem} {g' off : Nat} {b : UInt8} (hb : FileByte s g' off b) :
    FileByte (s.assign g p c content) g' off b := by
  refine FileByte.congr hb (fun hi => (holds_assign hg).mpr (Or.inl hi)) (fun _ => rfl)
    fun i hi x h₁ h₂ => assign_mem ?_ ?_
  · have hic : i ≠ c := by
      rintro rfl
      exact h.free_not_held hc hi
    have happ := cell_apart (s := s) hic
    omega
  · have hbelow := CacheInv.cell_below_bitmap (h.cells hi).1
    omega

/-- The bytes of a page after its cell has been overwritten from `a` of `src`. -/
theorem fileByte_blit (hh : Holds s g p c) (src : Mem) (a : Nat) {off : Nat}
    (hoff : off / pageCacheSize = p) :
    FileByte { s with mem := blit s.mem (cellAddr s c) src a pageCacheSize } g off
      (src (a + off % pageCacheSize)) := by
  have hmod : off % pageCacheSize < pageCacheSize := Nat.mod_lt _ (by decide)
  refine ⟨c, hoff ▸ hh, ?_⟩
  show blit _ (cellAddr s c) _ _ _ (cellAddr s c + _) = _
  rw [blit_at _ _ _ _ (by omega)]

end FileBytes

end MeOS
