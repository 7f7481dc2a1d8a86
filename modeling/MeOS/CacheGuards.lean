import MeOS.SyncFile

/-! # The page cache and descriptors that are not open

`page_cache_get_finfo` checks the descriptor it is given, and the calls that start with it do
nothing for one that is out of range or closed. `page_cache_reserve_buffer` and
`page_cache_release_buffer` do not go through it: the first has taken a cell before it looks at
the table, and the second trusts the descriptor.
-/

namespace MeOS

open Bytes

/-- The calls of the page cache that take a descriptor. -/
inductive CacheCall where
  | getBuffer
  | reserveBuffer
  | releaseBuffer
  | makeDirty (dirty : Bool)
  | isPageDirty
deriving Repr, DecidableEq

/-- What a call answers: an address, an `error_t` or a flag. -/
inductive CacheAnswer where
  | address (a : Nat)
  | error (e : ErrorT)
  | flag (b : Bool)
deriving Repr, DecidableEq

/-- The answer that reports a failure. -/
def CacheAnswer.failed : CacheAnswer → Bool
  | .address a => a == 0
  | .error e => e == .occur
  | .flag b => !b

/-- `ERROR_OK`, or `ERROR_OCCUR` with the last error set. -/
def errorOf : Except PageCacheError Unit → ErrorT
  | .ok _ => .ok
  | .error _ => .occur

def CacheCall.run (s : FileState) (gfd page : Nat) : CacheCall → Outcome (FileState × CacheAnswer)
  | .getBuffer => .ret (s, .address (pageCacheGetBuffer s gfd page))
  | .reserveBuffer => do
    let (s, a) ← pageCacheReserveBuffer s gfd page
    .ret (s, .address a)
  | .releaseBuffer => do
    let (s, e) ← pageCacheReleaseBuffer s gfd page
    .ret (s, .error (errorOf e))
  | .makeDirty dirty =>
    let (s, e) := pageCacheMakeDirty s gfd page dirty
    .ret (s, .error (errorOf e))
  | .isPageDirty => .ret (s, .flag (pageCacheIsPageDirty s gfd page))

/-- The descriptor is out of range, or its entry is not in use. -/
def BadDescriptor (s : FileState) (gfd : Nat) : Prop :=
  ∀ e, s.gft[gfd]? = some e → gfeIsInvalid e = true

/-- The bitmap of the cells and the page lists are the same. -/
structure Undamaged (s s' : FileState) : Prop where
  bitmap : ∀ i, i < pageCacheNumBuffers s →
    s'.mem (allocedBitmap s + i) = s.mem (allocedBitmap s + i)
  pages : s'.gft.map Gfe.pages = s.gft.map Gfe.pages

theorem Undamaged.refl (s : FileState) : Undamaged s s := ⟨fun _ _ => rfl, rfl⟩

/-- The call reports a failure and has changed nothing. -/
def CacheCall.Harmless (s : FileState) (gfd page : Nat) (c : CacheCall) : Prop :=
  ∃ s' a, c.run s gfd page = .ret (s', a) ∧ a.failed = true ∧ Undamaged s s'

/-- The cache is one that `page_cache_init` has set up: the cell of the bitmap is reserved. -/
structure BitmapReserved (s : FileState) : Prop where
  size : s.cacheSize < 4294967296
  self : 0 < pageCacheNumBuffers s → s.mem (allocedBitmap s + (pageCacheNumBuffers s - 1)) ≠ 0

/-- When a call spares the cache although the descriptor is bad. -/
def CacheCall.Spares (s : FileState) (gfd page : Nat) : CacheCall → Prop
  | .reserveBuffer =>
    pageCacheNumBuffers s ≤ pageCacheIndexFreeBuffer s ∨ s.frames 0 = none
  | .releaseBuffer => ∃ e, s.gft[gfd]? = some e ∧ ∀ i ∈ e.pages, i.page ≠ page
  | _ => True

section Guards

variable {s : FileState} {gfd page : Nat}

/-- The lookup fails. -/
theorem BadDescriptor.finfo (h : BadDescriptor s gfd) (page : Nat) :
    ∃ e, pageCacheGetFinfo s gfd page = .error e := by
  unfold pageCacheGetFinfo
  cases he : s.gft[gfd]? with
  | none => exact ⟨_, rfl⟩
  | some e =>
    have hclosed : e.fileNode = 0 := by simpa [gfeIsInvalid] using h e he
    simp only [if_pos hclosed]
    exact ⟨_, rfl⟩

theorem BadDescriptor.getBuffer (h : BadDescriptor s gfd) :
    CacheCall.Harmless s gfd page .getBuffer := by
  obtain ⟨e, he⟩ := h.finfo page
  refine ⟨s, .address 0, ?_, rfl, .refl s⟩
  simp only [CacheCall.run, pageCacheGetBuffer, he]

theorem BadDescriptor.makeDirty (h : BadDescriptor s gfd) (dirty : Bool) :
    CacheCall.Harmless s gfd page (.makeDirty dirty) := by
  obtain ⟨e, he⟩ := h.finfo page
  refine ⟨s, .error .occur, ?_, rfl, .refl s⟩
  simp only [CacheCall.run, pageCacheMakeDirty, he, errorOf]

theorem BadDescriptor.isPageDirty (h : BadDescriptor s gfd) :
    CacheCall.Harmless s gfd page .isPageDirty := by
  obtain ⟨e, he⟩ := h.finfo page
  refine ⟨s, .flag false, ?_, rfl, .refl s⟩
  simp only [CacheCall.run, pageCacheIsPageDirty, he]

/-- The entry is used as if it were open. -/
theorem releaseBuffer_harmless_iff :
    CacheCall.Harmless s gfd page .releaseBuffer ↔
      CacheCall.Spares s gfd page .releaseBuffer := by
  simp only [CacheCall.Harmless, CacheCall.Spares, CacheCall.run]
  constructor
  · rintro ⟨s', a, hrun, hfailed, -⟩
    unfold pageCacheReleaseBuffer at hrun
    cases he : s.gft[gfd]? with
    | none => simp [he] at hrun
    | some e =>
      refine ⟨e, rfl, ?_⟩
      cases hfind : e.pages.find? fun i => i.page == page with
      | none => simpa using hfind
      | some i =>
        -- the page is released, and `ERROR_OK` is returned
        have hne : e.pages ≠ [] := by
          rintro hnil
          simp [hnil] at hfind
        simp only [he, if_neg hne, hfind, Outcome.ret_bind, Outcome.ret.injEq,
          Prod.mk.injEq] at hrun
        rw [← hrun.2] at hfailed
        cases hfailed
  · rintro ⟨e, he, hpages⟩
    have hfind : e.pages.find? (fun i => i.page == page) = none := by simpa using hpages
    refine ⟨s, .error .occur, ?_, rfl, .refl s⟩
    simp only [pageCacheReleaseBuffer, he]
    by_cases hnil : e.pages = []
    · rw [if_pos hnil]
      rfl
    · simp only [if_neg hnil, hfind]
      rfl

theorem indexFreeBuffer_free (h : pageCacheIndexFreeBuffer s < pageCacheNumBuffers s) :
    s.mem (allocedBitmap s + pageCacheIndexFreeBuffer s) = 0 := by
  unfold pageCacheIndexFreeBuffer at h ⊢
  cases hfind : (List.range (pageCacheNumBuffers s)).find? fun i =>
      s.mem (allocedBitmap s + i) == 0 with
  | none =>
    rw [hfind, Option.getD_none] at h
    omega
  | some i => simpa using List.find?_some hfind

/-- The bitmap does not reach into a cell at address 0 that is free. -/
theorem BitmapReserved.above (hcache : BitmapReserved s)
    (hfree : pageCacheIndexFreeBuffer s < pageCacheNumBuffers s)
    (hzero : pageCacheAddrByIndex s (pageCacheIndexFreeBuffer s) = 0) :
    pageCacheSize ≤ allocedBitmap s := by
  have hsize := hcache.size
  have hbit := indexFreeBuffer_free hfree
  have hself := hcache.self (by omega)
  -- the cell of the bitmap is another one
  have hne : pageCacheIndexFreeBuffer s ≠ pageCacheNumBuffers s - 1 := by
    intro heq
    rw [heq] at hbit
    exact hself hbit
  have hcells : pageCacheNumBuffers s * 4096 ≤ s.cacheSize := Nat.div_mul_le_self _ _
  rw [pageCacheAddrByIndex, mul32_eq (by simp only [pageCacheSize]; omega)] at hzero
  rw [allocedBitmap, sub32_eq (by omega) (by omega),
    mul32_eq (by simp only [pageCacheSize]; omega)]
  simp only [add32, pageCacheSize] at hzero ⊢
  omega

/-- A reservation that takes a cell answers its address; when that is 0 the cell stays taken. -/
theorem reserveAnonymous_damage (hcache : BitmapReserved s) {content : Mem}
    (hfree : pageCacheIndexFreeBuffer s < pageCacheNumBuffers s)
    (hframe : s.frames 0 = some content) {s' : FileState} {a : Nat}
    (hrun : pageCacheReserveAnonymous s = (s', a)) (hzero : a = 0) : ¬ Undamaged s s' := by
  intro hsame
  have hfull : ¬ pageCacheIndexFreeBuffer s ≥ pageCacheNumBuffers s := by omega
  simp only [pageCacheReserveAnonymous, if_neg hfull, pageCacheIndexReserveBuffer, vmmngrAllocPage,
    hframe] at hrun
  obtain ⟨hs', ha⟩ := Prod.mk.inj hrun
  have haddr : pageCacheAddrByIndex s (pageCacheIndexFreeBuffer s) = 0 := ha.trans hzero
  have habove := hcache.above hfree haddr
  have hkept := hsame.bitmap _ hfree
  rw [indexFreeBuffer_free hfree, ← hs'] at hkept
  have htaken : blit (store8 s.mem (allocedBitmap s + pageCacheIndexFreeBuffer s) 1)
      (pageCacheAddrByIndex s (pageCacheIndexFreeBuffer s)) content 0 pageCacheSize
      (allocedBitmap s + pageCacheIndexFreeBuffer s) = 1 := by
    rw [haddr, blit_frame _ _ _ (by omega), store8_same]
  exact absurd (htaken.symm.trans hkept) (by decide)

/-- A reservation that finds no cell or no frame gives back what it has taken. -/
theorem reserveAnonymous_refused
    (h : pageCacheNumBuffers s ≤ pageCacheIndexFreeBuffer s ∨ s.frames 0 = none) :
    ∃ s', pageCacheReserveAnonymous s = (s', 0) ∧ Undamaged s s' := by
  by_cases hfull : pageCacheIndexFreeBuffer s ≥ pageCacheNumBuffers s
  · exact ⟨s, by rw [pageCacheReserveAnonymous, if_pos hfull], .refl s⟩
  · have hframe := h.resolve_left hfull
    have hbit := indexFreeBuffer_free (Nat.lt_of_not_le hfull)
    simp only [pageCacheReserveAnonymous, if_neg hfull, pageCacheIndexReserveBuffer,
      vmmngrAllocPage, hframe, pageCacheIndexReleaseBuffer]
    refine ⟨_, rfl, fun i hi => ?_, rfl⟩
    show store8 (store8 s.mem (allocedBitmap s + pageCacheIndexFreeBuffer s) 1)
      (allocedBitmap s + pageCacheIndexFreeBuffer s) 0 (allocedBitmap s + i) = _
    by_cases hx : allocedBitmap s + i = allocedBitmap s + pageCacheIndexFreeBuffer s
    · rw [hx, store8_same, hbit]
    · rw [store8_ne _ _ hx, store8_ne _ _ hx]

/-- The cell is taken before the table is looked at. -/
theorem reserveBuffer_harmless_iff (hcache : BitmapReserved s) :
    CacheCall.Harmless s gfd page .reserveBuffer ↔
      CacheCall.Spares s gfd page .reserveBuffer := by
  constructor
  · rintro ⟨s', answer, hrun, hfailed, hsame⟩
    show pageCacheNumBuffers s ≤ pageCacheIndexFreeBuffer s ∨ s.frames 0 = none
    by_contra hnot
    obtain ⟨hfree, hframe⟩ := not_or.mp hnot
    obtain ⟨content, hcontent⟩ := Option.ne_none_iff_exists'.mp hframe
    simp only [CacheCall.run, pageCacheReserveBuffer] at hrun
    cases hanon : pageCacheReserveAnonymous s with
    | mk s₁ a =>
      have hdamage := reserveAnonymous_damage hcache (by omega) hcontent hanon
      rw [hanon] at hrun
      cases a with
      | zero =>
        cases hrun
        exact hdamage rfl hsame
      | succ a =>
        -- the entry is used, or there is none
        cases he : gftGet s₁ gfd with
        | none => simp [he] at hrun
        | some e =>
          simp only [he, Outcome.ret_bind, Outcome.ret.injEq, Prod.mk.injEq] at hrun
          rw [← hrun.2] at hfailed
          cases hfailed
  · intro h
    obtain ⟨s', hanon, hsame⟩ := reserveAnonymous_refused h
    refine ⟨s', .address 0, ?_, rfl, hsame⟩
    simp only [CacheCall.run, pageCacheReserveBuffer, hanon]
    rfl

/-- A call with a bad descriptor spares the cache if and only if it does not come to use the
descriptor. -/
theorem cacheCall_harmless_iff (hcache : BitmapReserved s) (hbad : BadDescriptor s gfd)
    (c : CacheCall) : c.Harmless s gfd page ↔ c.Spares s gfd page := by
  cases c with
  | getBuffer => exact iff_of_true hbad.getBuffer trivial
  | reserveBuffer => exact reserveBuffer_harmless_iff hcache
  | releaseBuffer => exact releaseBuffer_harmless_iff
  | makeDirty dirty => exact iff_of_true (hbad.makeDirty dirty) trivial
  | isPageDirty => exact iff_of_true hbad.isPageDirty trivial

end Guards

/-- A cache of two cells, the second with the bitmap, with frames for its cells. -/
def twoFreeCells (gft : List Gfe) : FileState where
  mem x := if x = 8193 then 1 else 0
  cache := 4096
  cacheSize := 8192
  gft := gft
  nodes _ := ⟨0⟩
  frames _ := some fun _ => 0

theorem twoFreeCells_reserved (gft : List Gfe) : BitmapReserved (twoFreeCells gft) := by
  constructor
  · simp [twoFreeCells]
  · simp [twoFreeCells, allocedBitmap, pageCacheNumBuffers, pageCacheSize, add32, mul32, sub32]

theorem cacheCall_harmless_iff_empty :
    CacheCall.Harmless (twoFreeCells []) 7 0 (.makeDirty true) ↔
      CacheCall.Spares (twoFreeCells []) 7 0 (.makeDirty true) :=
  cacheCall_harmless_iff (twoFreeCells_reserved []) (fun _ he => by cases he) (.makeDirty true)

/-- `page_cache_reserve_buffer` takes a cell for a descriptor out of range and for a closed entry;
`page_cache_release_buffer` reads behind the table, and works on the closed entry. -/
theorem bad_descriptor_damages :
    BadDescriptor (twoFreeCells []) 7 ∧
      ¬ CacheCall.Harmless (twoFreeCells []) 7 0 .reserveBuffer ∧
      ¬ CacheCall.Harmless (twoFreeCells []) 7 0 .releaseBuffer ∧
    BadDescriptor (twoFreeCells [⟨0, 0, [⟨3, 0, false⟩]⟩]) 0 ∧
      ¬ CacheCall.Harmless (twoFreeCells [⟨0, 0, [⟨3, 0, false⟩]⟩]) 0 0 .reserveBuffer ∧
      ¬ CacheCall.Harmless (twoFreeCells [⟨0, 0, [⟨3, 0, false⟩]⟩]) 0 3 .releaseBuffer := by
  have hreserve : ∀ gft gfd page,
      ¬ CacheCall.Harmless (twoFreeCells gft) gfd page .reserveBuffer := by
    intro gft gfd page
    rw [reserveBuffer_harmless_iff (twoFreeCells_reserved gft)]
    rintro (hfull | hframe)
    · -- the first cell is free
      simp [twoFreeCells, pageCacheIndexFreeBuffer, allocedBitmap, pageCacheNumBuffers,
        pageCacheSize, add32, mul32, sub32, List.range, List.range.loop] at hfull
    · cases hframe
  refine ⟨?_, hreserve _ _ _, ?_, ?_, hreserve _ _ _, ?_⟩
  · intro e he
    cases he
  · rw [releaseBuffer_harmless_iff]
    rintro ⟨e, he, -⟩
    cases he
  · intro e he
    obtain rfl : (⟨0, 0, [⟨3, 0, false⟩]⟩ : Gfe) = e := Option.some.inj he
    rfl
  · rw [releaseBuffer_harmless_iff]
    rintro ⟨e, he, hpages⟩
    obtain rfl : (⟨0, 0, [⟨3, 0, false⟩]⟩ : Gfe) = e := Option.some.inj he
    exact hpages _ (List.mem_singleton.mpr rfl) rfl

end MeOS
