import MeOS.CacheLists
import Mathlib.Data.Finset.Card

/-! # The ledger of the page cache

Every cell that is marked allocated, apart from the one the bitmap is in, is on
one page list or was handed out without a page; `Ledger s anon` says so, with
the cells of the second kind in `anon`. A reserve adds one cell to the ledger,
a release strikes one off.
-/

namespace MeOS

open Bytes

/-- The place of the cache. -/
structure CacheShape (s : FileState) : Prop where
  base : 0 < s.cache
  size : s.cacheSize = pageCacheNumBuffers s * pageCacheSize
  nonempty : 0 < pageCacheNumBuffers s
  few : pageCacheNumBuffers s ≤ pageCacheSize
  top : s.cache + s.cacheSize ≤ 4294967296
  self : s.mem (bitmapAddr s + (pageCacheNumBuffers s - 1)) ≠ 0

/-- The cells on the page lists. -/
def listed (s : FileState) : List Nat := s.gft.flatMap fun e => e.pages.map (·.bufferIndex)

/-- The cells on the page lists and those in `anon` are the allocated ones, each once. -/
structure Ledger (s : FileState) (anon : List Nat) : Prop extends CacheShape s where
  nodup : (listed s ++ anon).Nodup
  below : ∀ i ∈ listed s ++ anon, i + 1 < pageCacheNumBuffers s
  marked : ∀ i, i + 1 < pageCacheNumBuffers s →
    (s.mem (bitmapAddr s + i) ≠ 0 ↔ i ∈ listed s ++ anon)

/-- The state after cell `i` was taken and mapped. -/
def FileState.taken (s : FileState) (i : Nat) (content : Mem) : FileState :=
  { s with
    mem := blit (store8 s.mem (bitmapAddr s + i) 1) (cellAddr s i) content 0 pageCacheSize
    frames := fun k => s.frames (k + 1) }

/-- The state after cell `i` was given back. -/
def FileState.freed (s : FileState) (i : Nat) : FileState :=
  { s with mem := store8 s.mem (bitmapAddr s + i) 0 }

section Shape

variable {s s' : FileState} {anon : List Nat} {i j g p : Nat} {content : Mem}

/-- The cache without files. -/
theorem CacheShape.bare (h : CacheShape s) : CacheInv { s with gft := [] } where
  base := h.base
  size := h.size
  nonempty := h.nonempty
  few := h.few
  top := h.top
  self := h.self
  cells := by
    intro g p i ⟨e, d, he, _⟩
    cases he
  inj := by
    intro g p g' p' i ⟨e, d, he, _⟩
    cases he
  fn := by
    intro g p i i' ⟨e, d, he, _⟩
    cases he

/-- A state with the same cache and the same bits has its shape. -/
theorem CacheShape.congr (h : CacheShape s) (hcache : s'.cache = s.cache)
    (hsize : s'.cacheSize = s.cacheSize)
    (hself : s'.mem (bitmapAddr s + (pageCacheNumBuffers s - 1)) ≠ 0) : CacheShape s' := by
  have hnum : pageCacheNumBuffers s' = pageCacheNumBuffers s := by
    unfold pageCacheNumBuffers
    rw [hsize]
  have haddr : bitmapAddr s' = bitmapAddr s := by
    unfold bitmapAddr cellAddr
    rw [hnum, hcache]
  constructor
  · rw [hcache]
    exact h.base
  · rw [hsize, hnum]
    exact h.size
  · rw [hnum]
    exact h.nonempty
  · rw [hnum]
    exact h.few
  · rw [hcache, hsize]
    exact h.top
  · rw [haddr, hnum]
    exact hself

theorem CacheShape.addrOfIndex (h : CacheShape s) (hi : i < pageCacheNumBuffers s) :
    pageCacheAddrByIndex s i = cellAddr s i := h.bare.addrByIndex hi

theorem CacheShape.indexOfAddr (h : CacheShape s) (hi : i < pageCacheNumBuffers s) :
    pageCacheIndexByAddr s (cellAddr s i) = i := h.bare.indexByAddr hi

theorem CacheShape.bitmap_eq (h : CacheShape s) : allocedBitmap s = bitmapAddr s :=
  h.bare.bitmap_eq

theorem CacheShape.cell_pos (h : CacheShape s) (hi : i < pageCacheNumBuffers s) :
    0 < cellAddr s i := (h.bare.cell_bounds hi).1

/-- A cell that is not the last one is free when its bit is off. -/
theorem CacheShape.free_lt (h : CacheShape s) (hi : i ∈ freeCells s) :
    i + 1 < pageCacheNumBuffers s := h.bare.free_lt hi

theorem cellAddr_inj (h : cellAddr s i = cellAddr s j) : i = j := by
  unfold cellAddr at h
  simp only [pageCacheSize] at h
  omega

/-- The bits after a cell was taken. -/
theorem CacheShape.taken_bit (h : CacheShape s) (content : Mem) (hfree : i ∈ freeCells s)
    (j : Nat) :
    (s.taken i content).mem (bitmapAddr s + j) =
      if j = i then 1 else s.mem (bitmapAddr s + j) :=
  h.bare.assign_bit 0 0 content hfree j

/-- The bits after a cell was given back. -/
theorem freed_bit : (s.freed i).mem (bitmapAddr s + j) =
    if j = i then 0 else s.mem (bitmapAddr s + j) := by
  unfold FileState.freed
  dsimp only
  by_cases hj : j = i
  · rw [if_pos hj, hj, store8_same]
  · rw [if_neg hj, store8_ne _ _ (by omega)]

/-- `page_cache_reserve_anonymous` fails and changes nothing, or takes the first free cell. -/
theorem CacheShape.reserveAnonymous_cases (h : CacheShape s) {a : Nat}
    (hret : pageCacheReserveAnonymous s = (s', a)) :
    (a = 0 ∧ s' = { s with frames := s'.frames }) ∨
      ∃ i content, i ∈ freeCells s ∧ a = cellAddr s i ∧ s' = s.taken i content := by
  have hidx : pageCacheIndexFreeBuffer s = (freeCells s).headD (pageCacheNumBuffers s) :=
    h.bare.indexFreeBuffer
  cases hfree : freeCells s with
  | nil =>
    rw [hfree] at hidx
    have hfull : pageCacheIndexFreeBuffer s = pageCacheNumBuffers s := hidx
    left
    unfold pageCacheReserveAnonymous at hret
    rw [hfull, if_pos (Nat.le_refl _)] at hret
    cases hret
    exact ⟨rfl, rfl⟩
  | cons i rest =>
    have hi : i ∈ freeCells s := by
      rw [hfree]
      exact List.mem_cons_self
    rcases mem_freeCells.mp hi with ⟨hlt, hzero⟩
    rw [hfree] at hidx
    have hidx' : pageCacheIndexFreeBuffer s = i := hidx
    unfold pageCacheReserveAnonymous vmmngrAllocPage pageCacheIndexReserveBuffer
      pageCacheIndexReleaseBuffer at hret
    rw [hidx', if_neg (by omega)] at hret
    cases hframe : s.frames 0 with
    | none =>
      left
      simp only [hframe, allocedBitmap_with, h.bitmap_eq] at hret
      -- no frame for the cell: its mark is set and cleared again
      have hback : store8 (store8 s.mem (bitmapAddr s + i) 1) (bitmapAddr s + i) 0 = s.mem := by
        funext x
        by_cases hx : x = bitmapAddr s + i
        · rw [hx, store8_same, hzero]
        · rw [store8_ne _ _ hx, store8_ne _ _ hx]
      rw [hback] at hret
      cases hret
      exact ⟨rfl, rfl⟩
    | some content =>
      right
      simp only [hframe, addrByIndex_with, h.bitmap_eq, h.addrOfIndex hlt] at hret
      cases hret
      exact ⟨i, content, List.mem_cons_self, rfl, rfl⟩

/-- `page_cache_release_anonymous` of the address of a cell. -/
theorem CacheShape.releaseAnonymous_eq (h : CacheShape s) (hi : i < pageCacheNumBuffers s) :
    pageCacheReleaseAnonymous s (cellAddr s i) = s.freed i := by
  unfold pageCacheReleaseAnonymous pageCacheIndexReleaseBuffer FileState.freed
  rw [h.indexOfAddr hi, if_neg (by omega), h.bitmap_eq]

end Shape

/-! ## What the operations do to the ledger -/

section Steps

variable {s s' : FileState} {anon anon' : List Nat} {i g p : Nat} {content : Mem} {e : Gfe}

/-- The ledger does not depend on where a cell is listed. -/
theorem Ledger.perm (h : Ledger s anon) (hmem : s'.mem = s.mem) (hcache : s'.cache = s.cache)
    (hsize : s'.cacheSize = s.cacheSize)
    (hperm : (listed s' ++ anon').Perm (listed s ++ anon)) : Ledger s' anon' := by
  have hshape : CacheShape s' := h.toCacheShape.congr hcache hsize (by rw [hmem]; exact h.self)
  have hnum : pageCacheNumBuffers s' = pageCacheNumBuffers s := by
    unfold pageCacheNumBuffers
    rw [hsize]
  have haddr : bitmapAddr s' = bitmapAddr s := by
    unfold bitmapAddr cellAddr
    rw [hnum, hcache]
  refine ⟨hshape, hperm.nodup_iff.mpr h.nodup, ?_, ?_⟩
  · intro i hi
    rw [hnum]
    exact h.below i (hperm.mem_iff.mp hi)
  · intro i hi
    rw [hnum] at hi
    rw [haddr, hmem, hperm.mem_iff]
    exact h.marked i hi

/-- The bits that count: `i` is on the ledger. -/
theorem Ledger.free_iff (h : Ledger s anon) (hi : i + 1 < pageCacheNumBuffers s) :
    i ∈ freeCells s ↔ i ∉ listed s ++ anon := by
  rw [mem_freeCells, ← h.marked i hi]
  constructor
  · intro ⟨_, hzero⟩ hne
    exact hne hzero
  · intro hne
    exact ⟨by omega, not_not.mp hne⟩

/-- Taking a cell enters it. -/
theorem Ledger.take (h : Ledger s anon) (hi : i ∈ freeCells s) :
    Ledger (s.taken i content) (i :: anon) := by
  have hlt := h.free_lt hi
  have hout := (h.free_iff hlt).mp hi
  have hbit := fun j => h.toCacheShape.taken_bit content hi j
  have hshape : CacheShape (s.taken i content) := by
    apply h.toCacheShape.congr
    · rfl
    · rfl
    · rw [hbit, if_neg (by omega)]
      exact h.self
  have hperm : (listed (s.taken i content) ++ i :: anon).Perm (i :: (listed s ++ anon)) :=
    List.perm_middle
  refine ⟨hshape, hperm.nodup_iff.mpr (List.nodup_cons.mpr ⟨hout, h.nodup⟩), ?_, ?_⟩
  · intro j hj
    rcases List.mem_cons.mp (hperm.mem_iff.mp hj) with rfl | hj
    · exact hlt
    · exact h.below j hj
  · intro j hj
    have hj' := hbit j
    rw [hperm.mem_iff, List.mem_cons]
    change (s.taken i content).mem (bitmapAddr s + j) ≠ 0 ↔ _
    rw [hj']
    by_cases hji : j = i
    · subst hji
      simp
    · rw [if_neg hji, h.marked j hj]
      simp [hji]

/-- Giving a cell back strikes it off. -/
theorem Ledger.free (h : Ledger s (i :: anon)) : Ledger (s.freed i) anon := by
  have hperm : (listed s ++ i :: anon).Perm (i :: (listed s ++ anon)) := List.perm_middle
  rcases List.nodup_cons.mp (hperm.nodup_iff.mp h.nodup) with ⟨hout, hnodup⟩
  have hlt := h.below i (hperm.mem_iff.mpr List.mem_cons_self)
  have hshape : CacheShape (s.freed i) := by
    apply h.toCacheShape.congr
    · rfl
    · rfl
    · rw [freed_bit, if_neg (by omega)]
      exact h.self
  refine ⟨hshape, hnodup, ?_, ?_⟩
  · intro j hj
    exact h.below j (hperm.mem_iff.mpr (List.mem_cons_of_mem i hj))
  · intro j hj
    have hlisted : listed (s.freed i) = listed s := rfl
    change (s.freed i).mem (bitmapAddr s + j) ≠ 0 ↔ _
    rw [freed_bit, hlisted]
    by_cases hji : j = i
    · subst hji
      simp [hout]
    · rw [if_neg hji, h.marked j hj, hperm.mem_iff, List.mem_cons]
      simp [hji]

/-- A list of the table changes by one cell. -/
theorem listed_modify {f : List PageInfo → List PageInfo} {l : List Gfe} (he : l[g]? = some e)
    (hf : ((f e.pages).map (·.bufferIndex)).Perm (i :: e.pages.map (·.bufferIndex))) :
    ((l.modify g fun e => { e with pages := f e.pages }).flatMap fun e =>
      e.pages.map (·.bufferIndex)).Perm (i :: l.flatMap fun e => e.pages.map (·.bufferIndex)) := by
  induction l generalizing g with
  | nil => cases he
  | cons e' l ih =>
    cases g with
    | zero =>
      cases he
      rw [List.modify_zero_cons, List.flatMap_cons, List.flatMap_cons, ← List.cons_append]
      exact hf.append_right _
    | succ g =>
      rw [List.modify_succ_cons, List.flatMap_cons, List.flatMap_cons]
      exact ((ih he).append_left _).trans List.perm_middle

/-- A cell goes from hand to the page list of a file. -/
theorem Ledger.enlist (h : Ledger s (i :: anon)) (he : s.gft[g]? = some e) (p : Nat) (d : Bool) :
    Ledger (s.modifyPages g fun pages => pages ++ [⟨p, i, d⟩]) anon := by
  refine h.perm rfl rfl rfl ?_
  have hlist : (listed (s.modifyPages g fun pages => pages ++ [⟨p, i, d⟩])).Perm
      (i :: listed s) := by
    have hgrow : ((e.pages ++ [(⟨p, i, d⟩ : PageInfo)]).map (·.bufferIndex)).Perm
        (i :: e.pages.map (·.bufferIndex)) := by
      rw [List.map_append]
      exact List.perm_append_singleton i _
    exact listed_modify (f := fun pages => pages ++ [(⟨p, i, d⟩ : PageInfo)]) he hgrow
  exact (hlist.append_right anon).trans List.perm_middle.symm

/-- The first element for a page splits the list, and is what is erased. -/
theorem split_at_page {pages : List PageInfo} {x : PageInfo}
    (hx : pages.find? (fun i => i.page == p) = some x) :
    ∃ u v, pages = u ++ x :: v ∧ x.page = p ∧ pages.eraseP (fun i => i.page == p) = u ++ v := by
  rcases List.find?_eq_some_iff_append.mp hx with ⟨hpage, u, v, hsplit, hbefore⟩
  have hu : ∀ i ∈ u, ¬(i.page == p) = true := by
    intro i hi
    simpa using hbefore i hi
  refine ⟨u, v, hsplit, by simpa using hpage, ?_⟩
  rw [hsplit, List.eraseP_append_right _ hu, List.eraseP_cons, hpage]
  rfl

/-- A cell goes from the page list of a file to hand. -/
theorem Ledger.unlist (h : Ledger s anon) (he : s.gft[g]? = some e) {x : PageInfo}
    (hx : e.pages.find? (fun i => i.page == p) = some x) :
    Ledger (s.modifyPages g fun pages => pages.eraseP fun i => i.page == p)
      (x.bufferIndex :: anon) := by
  refine h.perm rfl rfl rfl ?_
  rcases split_at_page hx with ⟨u, v, hsplit, -, herase⟩
  have hpages : (e.pages.map (·.bufferIndex)).Perm
      (x.bufferIndex :: (u ++ v).map (·.bufferIndex)) := by
    rw [hsplit, List.map_append, List.map_append, List.map_cons]
    exact List.perm_middle
  -- read backwards, the list grows by the cell
  have hback : (listed s).Perm (x.bufferIndex ::
      listed (s.modifyPages g fun pages => pages.eraseP fun i => i.page == p)) := by
    have he' : (s.modifyPages g fun pages => pages.eraseP fun i => i.page == p).gft[g]? =
        some { e with pages := e.pages.eraseP fun i => i.page == p } := modifyPages_same he
    have hgrow := listed_modify (i := x.bufferIndex) (f := fun _ => e.pages) he' (by
      dsimp only
      rw [herase]
      exact hpages)
    have hself : ((s.modifyPages g fun pages => pages.eraseP fun i => i.page == p).gft.modify g
        fun e' => { e' with pages := e.pages }) = s.gft := by
      apply List.ext_getElem?
      intro j
      by_cases hj : j = g
      · subst hj
        rw [List.getElem?_modify_eq, he', he]
        rfl
      · rw [List.getElem?_modify_ne _ _ (Ne.symm hj), modifyPages_other (Ne.symm hj)]
    rw [hself] at hgrow
    exact hgrow
  exact List.perm_middle.trans (hback.append_right anon).symm

/-- The number of allocated cells. -/
theorem Ledger.count (h : Ledger s anon) :
    ((Finset.range (pageCacheNumBuffers s)).filter fun i =>
      s.mem (bitmapAddr s + i) ≠ 0).card = 1 + (listed s).length + anon.length := by
  have hn := h.nonempty
  have hset : (Finset.range (pageCacheNumBuffers s)).filter (fun i =>
      s.mem (bitmapAddr s + i) ≠ 0) =
        insert (pageCacheNumBuffers s - 1) (listed s ++ anon).toFinset := by
    ext i
    rw [Finset.mem_filter, Finset.mem_range, Finset.mem_insert, List.mem_toFinset]
    constructor
    · intro ⟨hlt, hbit⟩
      by_cases hlast : i + 1 < pageCacheNumBuffers s
      · exact Or.inr ((h.marked i hlast).mp hbit)
      · exact Or.inl (by omega)
    · intro hi
      rcases hi with rfl | hi
      · exact ⟨by omega, h.self⟩
      · have hlt := h.below i hi
        exact ⟨by omega, (h.marked i hlt).mpr hi⟩
  have hout : pageCacheNumBuffers s - 1 ∉ (listed s ++ anon).toFinset := by
    rw [List.mem_toFinset]
    intro hmem
    have := h.below _ hmem
    omega
  rw [hset, Finset.card_insert_of_notMem hout, List.toFinset_card_of_nodup h.nodup,
    List.length_append]
  omega

end Steps

end MeOS
