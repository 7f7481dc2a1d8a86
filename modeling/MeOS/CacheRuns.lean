import MeOS.CacheLedger
import MeOS.Lib.Queue
import MeOS.Lib.Runs

/-! # The page cache as a finite map

The runs of the page cache, with what its answers have promised so far: the
address reserved for each page of a file and not yet released, and the
addresses reserved without a page.
-/

namespace MeOS

open Bytes Runs

/-! ## The files behind the cells -/

/-- The page lists hold the addresses of `files`, and `cells` are in hand. -/
structure FileMap (s : FileState) (files : Nat → Nat → Option Nat) (cells : List Nat) : Prop
    extends Ledger s cells where
  unique : ∀ (g : Nat) (e : Gfe), s.gft[g]? = some e → (e.pages.map (·.page)).Nodup
  opened : ∀ (g : Nat) (e : Gfe), s.gft[g]? = some e → e.pages ≠ [] → e.fileNode ≠ 0
  addresses : ∀ g p a, files g p = some a ↔ ∃ i, Holds s g p i ∧ a = cellAddr s i

section FileMap

variable {s s' : FileState} {files : Nat → Nat → Option Nat} {cells : List Nat}
  {g p i a : Nat} {content : Mem} {e : Gfe}

/-- A cell is on one list, once. -/
theorem listed_inj (hn : (listed s).Nodup) {g' : Nat} {e' : Gfe} {x x' : PageInfo}
    (he : s.gft[g]? = some e) (he' : s.gft[g']? = some e') (hx : x ∈ e.pages)
    (hx' : x' ∈ e'.pages) (hidx : x.bufferIndex = x'.bufferIndex) : g = g' ∧ x = x' := by
  rcases List.nodup_flatMap.mp hn with ⟨heach, hpair⟩
  rcases List.getElem?_eq_some_iff.mp he with ⟨hlt, hget⟩
  rcases List.getElem?_eq_some_iff.mp he' with ⟨hlt', hget'⟩
  have happart : ∀ {a b : Nat} {ea eb : Gfe} {xa xb : PageInfo} (ha : a < s.gft.length)
      (hb : b < s.gft.length), s.gft[a] = ea → s.gft[b] = eb → xa ∈ ea.pages → xb ∈ eb.pages →
      xa.bufferIndex = xb.bufferIndex → ¬a < b := by
    intro a b ea eb xa xb ha hb hea heb hxa hxb hab hltab
    have hdis := List.pairwise_iff_getElem.mp hpair a b ha hb hltab
    rw [hea, heb] at hdis
    exact hdis (List.mem_map_of_mem hxa) (by rw [hab]; exact List.mem_map_of_mem hxb)
  have hgg : g = g' := by
    have h₁ := happart hlt hlt' hget hget' hx hx' hidx
    have h₂ := happart hlt' hlt hget' hget hx' hx hidx.symm
    omega
  subst hgg
  obtain rfl : e = e' := Option.some.inj (he.symm.trans he')
  have hinj := List.inj_on_of_nodup_map (heach e (List.mem_of_getElem? he))
  exact ⟨rfl, hinj hx hx' hidx⟩

theorem mem_listed (he : s.gft[g]? = some e) {x : PageInfo} (hx : x ∈ e.pages) :
    x.bufferIndex ∈ listed s :=
  List.mem_flatMap.mpr ⟨e, List.mem_of_getElem? he, List.mem_map_of_mem hx⟩

theorem Holds.mem_listed (h : Holds s g p i) : i ∈ listed s := by
  rcases h with ⟨e, d, he, hx⟩
  exact MeOS.mem_listed he hx

/-- The lists of the map are those of a well-formed cache. -/
theorem FileMap.cacheInv (h : FileMap s files cells) : CacheInv s where
  base := h.base
  size := h.size
  nonempty := h.nonempty
  few := h.few
  top := h.top
  self := h.self
  cells := by
    intro g p i hh
    have hmem : i ∈ listed s ++ cells := List.mem_append_left _ hh.mem_listed
    have hlt := h.below i hmem
    exact ⟨hlt, (h.marked i hlt).mpr hmem⟩
  inj := by
    intro g p g' p' i ⟨e, d, he, hx⟩ ⟨e', d', he', hx'⟩
    have hsame := listed_inj (List.nodup_append.mp h.nodup).1 he he' hx hx' rfl
    exact ⟨hsame.1, congrArg PageInfo.page hsame.2⟩
  fn := by
    intro g p i i' ⟨e, d, he, hx⟩ ⟨e', d', he', hx'⟩
    obtain rfl : e = e' := Option.some.inj (he.symm.trans he')
    have hsame := List.inj_on_of_nodup_map (h.unique g e he) hx hx' rfl
    exact congrArg PageInfo.bufferIndex hsame

theorem FileMap.openFile (h : FileMap s files cells) (hh : Holds s g p i) : OpenFile s g := by
  rcases hh with ⟨e, d, he, hx⟩
  refine ⟨e, he, h.opened g e he ?_⟩
  intro hnil
  rw [hnil] at hx
  cases hx

/-- `page_cache_get_buffer` is the lookup in the map. -/
theorem FileMap.getBuffer (h : FileMap s files cells) :
    pageCacheGetBuffer s g p = (files g p).getD 0 := by
  cases hfile : files g p with
  | none =>
    apply getBuffer_of_not_cached
    intro ⟨i, hh⟩
    have := (h.addresses g p _).mpr ⟨i, hh, rfl⟩
    rw [hfile] at this
    cases this
  | some a =>
    rcases (h.addresses g p a).mp hfile with ⟨i, hh, rfl⟩
    exact h.cacheInv.getBuffer_of_holds (h.openFile hh) hh

/-- Taking a cell without a page. -/
theorem FileMap.take (h : FileMap s files cells) (hi : i ∈ freeCells s) :
    FileMap (s.taken i content) files (i :: cells) :=
  ⟨h.toLedger.take hi, h.unique, h.opened, h.addresses⟩

/-- Giving back a cell that has no page. -/
theorem FileMap.free (h : FileMap s files (i :: cells)) : FileMap (s.freed i) files cells :=
  ⟨h.toLedger.free, h.unique, h.opened, h.addresses⟩

/-- The order of the cells in hand does not matter. -/
theorem FileMap.reorder {cells' : List Nat} (h : FileMap s files cells)
    (hperm : cells'.Perm cells) : FileMap s files cells' :=
  ⟨h.toLedger.perm rfl rfl rfl (hperm.append_left _), h.unique, h.opened, h.addresses⟩

/-- The map with one page set. -/
def setFile (files : Nat → Nat → Option Nat) (g p : Nat) (a : Option Nat) :
    Nat → Nat → Option Nat := fun g' p' => if g' = g ∧ p' = p then a else files g' p'

/-- A cell in hand goes to a page that has none. -/
theorem FileMap.enlist (h : FileMap s files (i :: cells)) (hopen : OpenFile s g)
    (hnone : files g p = none) :
    FileMap (s.modifyPages g fun pages => pages ++ [⟨p, i, false⟩])
      (setFile files g p (some (cellAddr s i))) cells := by
  rcases hopen with ⟨e, he, hnode⟩
  -- the file has no node for the page, so the new one is its only one
  have hno : ∀ x ∈ e.pages, x.page ≠ p := by
    intro x hx hxp
    have := (h.addresses g p _).mpr ⟨x.bufferIndex, ⟨e, x.dirty, he, by rw [← hxp]; exact hx⟩, rfl⟩
    rw [hnone] at this
    cases this
  refine ⟨h.toLedger.enlist he p false, ?_, ?_, ?_⟩
  · intro g' e' he'
    by_cases hg : g' = g
    · subst hg
      rw [modifyPages_same he] at he'
      cases he'
      rw [List.map_append, List.map_singleton]
      refine Queue.nodup_push (h.unique _ e he) fun hmem => ?_
      rcases List.mem_map.mp hmem with ⟨x, hx, hpage⟩
      exact hno x hx hpage
    · rw [modifyPages_other (Ne.symm hg)] at he'
      exact h.unique g' e' he'
  · intro g' e' he' hne
    by_cases hg : g' = g
    · subst hg
      rw [modifyPages_same he] at he'
      cases he'
      exact hnode
    · rw [modifyPages_other (Ne.symm hg)] at he'
      exact h.opened g' e' he' hne
  · intro g' p' a
    -- apart from the new node, the lists hold what they held
    have hholds : ∀ j, Holds (s.modifyPages g fun pages => pages ++ [⟨p, i, false⟩]) g' p' j ↔
        Holds s g' p' j ∨ (g' = g ∧ p' = p ∧ j = i) := by
      intro j
      have hassign : Holds (s.assign g p i fun _ => 0) g' p' j ↔
        Holds s g' p' j ∨ (g' = g ∧ p' = p ∧ j = i) := holds_assign ⟨e, he, hnode⟩
      exact hassign
    unfold setFile
    by_cases hgp : g' = g ∧ p' = p
    · rw [if_pos hgp, Option.some.injEq]
      constructor
      · intro ha
        exact ⟨i, (hholds i).mpr (Or.inr ⟨hgp.1, hgp.2, rfl⟩), ha.symm⟩
      · intro ⟨j, hj, ha⟩
        rcases (hholds j).mp hj with hold | ⟨_, _, rfl⟩
        · rw [hgp.1, hgp.2] at hold
          have := (h.addresses g p _).mpr ⟨j, hold, rfl⟩
          rw [hnone] at this
          cases this
        · exact ha.symm
    · rw [if_neg hgp, h.addresses]
      constructor
      · intro ⟨j, hj, ha⟩
        exact ⟨j, (hholds j).mpr (Or.inl hj), ha⟩
      · intro ⟨j, hj, ha⟩
        rcases (hholds j).mp hj with hold | ⟨hg, hp, _⟩
        · exact ⟨j, hold, ha⟩
        · exact absurd ⟨hg, hp⟩ hgp

/-- The cell of a page comes to hand. -/
theorem FileMap.unlist (h : FileMap s files cells) (he : s.gft[g]? = some e) {x : PageInfo}
    (hx : e.pages.find? (fun i => i.page == p) = some x) :
    FileMap (s.modifyPages g fun pages => pages.eraseP fun i => i.page == p)
      (setFile files g p none) (x.bufferIndex :: cells) := by
  have hunique := h.unique g e he
  -- the page is on the list once
  have hmem : ∀ y, y ∈ e.pages.eraseP (fun i => i.page == p) ↔ y ∈ e.pages ∧ y.page ≠ p := by
    rcases split_at_page hx with ⟨u, v, hsplit, hxp, herase⟩
    have hout : ∀ y ∈ u ++ v, y.page ≠ p := by
      intro y hy hyp
      rw [hsplit, List.map_append, List.map_cons] at hunique
      have hnot := (List.nodup_cons.mp (List.perm_middle.nodup_iff.mp hunique)).1
      apply hnot
      rw [← List.map_append, hxp, ← hyp]
      exact List.mem_map_of_mem hy
    intro y
    rw [herase, hsplit]
    constructor
    · intro hy
      refine ⟨?_, hout y hy⟩
      rcases List.mem_append.mp hy with hyu | hyv
      · exact List.mem_append_left _ hyu
      · exact List.mem_append_right _ (List.mem_cons_of_mem x hyv)
    · intro ⟨hy, hne⟩
      rcases List.mem_append.mp hy with hyu | hyv
      · exact List.mem_append_left _ hyu
      · rcases List.mem_cons.mp hyv with rfl | hyv
        · exact absurd hxp hne
        · exact List.mem_append_right _ hyv
  refine ⟨h.toLedger.unlist he hx, ?_, ?_, ?_⟩
  · intro g' e' he'
    by_cases hg : g' = g
    · subst hg
      rw [modifyPages_same he] at he'
      cases he'
      exact hunique.sublist (List.eraseP_sublist.map _)
    · rw [modifyPages_other (Ne.symm hg)] at he'
      exact h.unique g' e' he'
  · intro g' e' he' hne
    by_cases hg : g' = g
    · subst hg
      rw [modifyPages_same he] at he'
      cases he'
      apply h.opened _ e he
      intro hnil
      rw [hnil] at hx
      cases hx
    · rw [modifyPages_other (Ne.symm hg)] at he'
      exact h.opened g' e' he' hne
  · intro g' p' a
    have hholds : ∀ j, Holds (s.modifyPages g fun pages => pages.eraseP fun i => i.page == p)
        g' p' j ↔ Holds s g' p' j ∧ ¬(g' = g ∧ p' = p) := by
      intro j
      rw [holds_modifyPages he]
      by_cases hg : g' = g
      · subst hg
        rw [if_pos rfl, holds_iff he]
        constructor
        · intro ⟨d, hd⟩
          have hm := (hmem _).mp hd
          exact ⟨⟨d, hm.1⟩, fun hgp => hm.2 hgp.2⟩
        · intro ⟨⟨d, hd⟩, hne⟩
          exact ⟨d, (hmem _).mpr ⟨hd, fun hp => hne ⟨rfl, hp⟩⟩⟩
      · rw [if_neg hg]
        constructor
        · intro hh
          exact ⟨hh, fun hgp => hg hgp.1⟩
        · intro hh
          exact hh.1
    unfold setFile
    by_cases hgp : g' = g ∧ p' = p
    · rw [if_pos hgp]
      constructor
      · intro ha
        cases ha
      · intro ⟨j, hj, _⟩
        exact absurd hgp ((hholds j).mp hj).2
    · rw [if_neg hgp, h.addresses]
      constructor
      · intro ⟨j, hj, ha⟩
        exact ⟨j, (hholds j).mpr ⟨hj, hgp⟩, ha⟩
      · intro ⟨j, hj, ha⟩
        exact ⟨j, ((hholds j).mp hj).1, ha⟩

/-- What `page_cache_reserve_anonymous` does to the map. -/
theorem FileMap.reserveAnonymous (h : FileMap s files cells)
    (hret : pageCacheReserveAnonymous s = (s', a)) :
    (a = 0 ∧ s' = { s with frames := s'.frames }) ∨
      ∃ i, i ∈ freeCells s ∧ a = cellAddr s i ∧ 0 < a ∧ FileMap s' files (i :: cells) ∧
        s'.gft = s.gft ∧ s'.cache = s.cache ∧ s'.cacheSize = s.cacheSize := by
  rcases h.reserveAnonymous_cases hret with hfail | ⟨i, content, hi, rfl, rfl⟩
  · exact Or.inl hfail
  · have hlt := h.free_lt hi
    exact Or.inr ⟨i, hi, rfl, h.cell_pos (by omega), h.take hi, rfl, rfl, rfl⟩

/-- What `page_cache_reserve_buffer` does to the map. -/
theorem FileMap.reserveBuffer (h : FileMap s files cells) (hopen : OpenFile s g)
    (hnone : files g p = none) (hret : pageCacheReserveBuffer s g p = .ret (s', a)) :
    (a = 0 ∧ s' = { s with frames := s'.frames }) ∨
      (0 < a ∧ FileMap s' (setFile files g p (some a)) cells ∧ s'.cache = s.cache ∧
        s'.cacheSize = s.cacheSize) := by
  unfold pageCacheReserveBuffer at hret
  obtain ⟨t, b, hanon⟩ : ∃ t b, pageCacheReserveAnonymous s = (t, b) := ⟨_, _, rfl⟩
  rw [hanon] at hret
  rcases h.reserveAnonymous hanon with ⟨rfl, ht⟩ | ⟨i, hi, hb, hpos, hmap, hgft, hcache, hsize⟩
  · cases hret
    exact Or.inl ⟨rfl, ht⟩
  · right
    obtain ⟨k, rfl⟩ : ∃ k, b = k + 1 := ⟨b - 1, by omega⟩
    have hopen' : OpenFile t g := by
      rcases hopen with ⟨e, he, hnode⟩
      exact ⟨e, by rw [hgft]; exact he, hnode⟩
    rcases id hopen' with ⟨e, he, _⟩
    have hget : gftGet t g = some e := he
    have haddr : cellAddr t i = k + 1 := by
      unfold cellAddr
      rw [hcache, hb]
      rfl
    have hlt : i < pageCacheNumBuffers t := by
      have := hmap.below i (List.mem_append_right _ List.mem_cons_self)
      omega
    have hindex : pageCacheIndexByAddr t (k + 1) = i := by
      rw [← haddr]
      exact hmap.indexOfAddr hlt
    simp only [hget, hindex] at hret
    cases hret
    have hnew := hmap.enlist hopen' hnone
    rw [haddr] at hnew
    exact ⟨hpos, hnew, hcache, hsize⟩

/-- What `page_cache_release_buffer` does to the map. -/
theorem FileMap.releaseBuffer (h : FileMap s files cells) {r : Except PageCacheError Unit}
    (hret : pageCacheReleaseBuffer s g p = .ret (s', r)) :
    (∃ err, r = .error err ∧ s' = s ∧ files g p = none) ∨
      ∃ i, r = .ok () ∧ files g p = some (cellAddr s i) ∧
        s' = (s.modifyPages g fun pages => pages.eraseP fun i => i.page == p).freed i ∧
        FileMap s' (setFile files g p none) cells := by
  unfold pageCacheReleaseBuffer at hret
  cases he : s.gft[g]? with
  | none =>
    rw [he] at hret
    cases hret
  | some e =>
    simp only [he] at hret
    cases hfind : e.pages.find? fun i => i.page == p with
    | none =>
      left
      have hnone : files g p = none := by
        by_contra hne
        rcases Option.ne_none_iff_exists'.mp hne with ⟨b, hb⟩
        rcases (h.addresses g p b).mp hb with ⟨i, hh, _⟩
        rcases (holds_iff he).mp hh with ⟨d, hd⟩
        have := List.find?_eq_none.mp hfind _ hd
        simp at this
      -- an empty list and a list without the page are refused alike
      by_cases hnil : e.pages = []
      · rw [if_pos hnil] at hret
        cases hret
        exact ⟨_, rfl, rfl, hnone⟩
      · rw [if_neg hnil, hfind] at hret
        cases hret
        exact ⟨_, rfl, rfl, hnone⟩
    | some x =>
      right
      have hnil : e.pages ≠ [] := by
        intro hnil
        rw [hnil] at hfind
        cases hfind
      rw [if_neg hnil, hfind] at hret
      have hmem := List.mem_of_find?_eq_some hfind
      have hxp : x.page = p := by simpa using List.find?_some hfind
      -- unlisted first, its cell is still marked; clearing the mark makes it free
      have hun := h.unlist he hfind
      have hlt := hun.below x.bufferIndex (List.mem_append_right _ List.mem_cons_self)
      dsimp only at hret
      rw [hun.addrOfIndex (by omega), hun.releaseAnonymous_eq (by omega)] at hret
      cases hret
      have hh : Holds s g p x.bufferIndex := ⟨e, x.dirty, he, by rw [← hxp]; exact hmem⟩
      exact ⟨x.bufferIndex, rfl, (h.addresses g p _).mpr ⟨_, hh, rfl⟩, rfl, hun.free⟩

/-- The free cells, as `page_cache_index_free_buffer` reads them. -/
def cellFree (s : FileState) (i : Nat) : Prop := s.mem (allocedBitmap s + i) = 0

/-- A cell that is not the last one is free when neither a page nor a caller has it. -/
theorem FileMap.cellFree_iff (h : FileMap s files cells) (hi : i < pageCacheNumBuffers s) :
    cellFree s i ↔ i + 1 ≠ pageCacheNumBuffers s ∧ ¬(cellAddr s i ∈ cells.map (cellAddr s) ∨
      ∃ g p, files g p = some (cellAddr s i)) := by
  unfold cellFree
  rw [h.bitmap_eq]
  have hlisted : i ∈ listed s ↔ ∃ g p, files g p = some (cellAddr s i) := by
    constructor
    · intro hmem
      rcases List.mem_flatMap.mp hmem with ⟨e, he, hindex⟩
      rcases List.mem_map.mp hindex with ⟨x, hx, rfl⟩
      rcases List.getElem?_of_mem he with ⟨g, hg⟩
      exact ⟨g, x.page, (h.addresses _ _ _).mpr ⟨_, ⟨e, x.dirty, hg, hx⟩, rfl⟩⟩
    · intro ⟨g, p, hfile⟩
      rcases (h.addresses g p _).mp hfile with ⟨j, hh, haddr⟩
      rw [cellAddr_inj haddr]
      exact hh.mem_listed
  have hcells : i ∈ cells ↔ cellAddr s i ∈ cells.map (cellAddr s) := by
    constructor
    · exact List.mem_map_of_mem
    · intro hmem
      rcases List.mem_map.mp hmem with ⟨j, hj, haddr⟩
      rw [← cellAddr_inj haddr]
      exact hj
  by_cases hlast : i + 1 = pageCacheNumBuffers s
  · have hself := h.self
    rw [show pageCacheNumBuffers s - 1 = i by omega] at hself
    constructor
    · intro hzero
      exact absurd hzero hself
    · intro hne
      exact absurd hlast hne.1
  · have hmark := h.marked i (by omega)
    rw [List.mem_append, hlisted, hcells] at hmark
    constructor
    · intro hzero
      refine ⟨hlast, ?_⟩
      intro hout
      exact hmark.mpr hout.symm hzero
    · intro hne
      by_contra hbit
      exact hne.2 (hmark.mp hbit).symm

end FileMap

/-! ## Runs -/

/-- The cache, the addresses reserved for pages and those reserved without one, as far as
they have not been released. -/
structure CacheRun where
  cache : LinkedCache
  files : Nat → Nat → Option Nat
  anon : List Nat

/-- Where a new list node may be put. -/
def LinkedCache.NodeFree (c : LinkedCache) (node : Nat) : Prop :=
  (0 < node ∧ node < 4294967296) ∧ ∀ g, node ∉ listNodes c.nodes (c.lists g)

/-- A call of the page cache. A page is reserved for a file of the table when it is not
cached, and only what was reserved without a page is released without one. -/
inductive CacheStep : CacheRun → CacheRun → Prop where
  | reserveAnonymous {c d a} (hret : c.cache.reserveAnonymous = (d, a)) :
    CacheStep c { c with cache := d, anon := if a = 0 then c.anon else a :: c.anon }
  | releaseAnonymous {c a} (hout : a ∈ c.anon) :
    CacheStep c { c with cache := c.cache.releaseAnonymous a, anon := c.anon.erase a }
  | reserveBuffer {c d gfd page node a} (hopen : OpenFile c.cache.file gfd)
    (hnone : c.cache.getBuffer gfd page = 0) (hnode : c.cache.NodeFree node)
    (hret : c.cache.reserveBuffer gfd page node = .ret (d, a)) :
    CacheStep c { c with
      cache := d, files := if a = 0 then c.files else setFile c.files gfd page (some a) }
  | releaseOk {c d gfd page} (hret : c.cache.releaseBuffer gfd page = .ret (d, .ok ())) :
    CacheStep c { c with cache := d, files := setFile c.files gfd page none }
  | releaseError {c d gfd page err}
    (hret : c.cache.releaseBuffer gfd page = .ret (d, .error err)) :
    CacheStep c { c with cache := d }

/-- The runs after `page_cache_init` with a table whose page lists are empty. -/
def cacheSystem (start noBuffers : Nat) : System CacheRun where
  Init c := (∃ s, c.cache.file = pageCacheInit s start noBuffers) ∧
    (∀ g, c.cache.lists g = listInit) ∧ (∀ g p, c.files g p = none) ∧ c.anon = []
  Next := CacheStep

/-- An address that was reserved and not yet released. -/
def CacheRun.Outstanding (c : CacheRun) (a : Nat) : Prop :=
  a ∈ c.anon ∨ ∃ g p, c.files g p = some a

/-- The nodes show a map of the files, and the cells in hand are those of `anon`. -/
structure RunInv (start noBuffers : Nat) (c : CacheRun) (xs : Nat → List Nat)
    (cells : List Nat) : Prop where
  linked : LinkedOk c.cache xs
  map : FileMap (c.cache.shown xs) c.files cells
  anon : c.anon = cells.map (cellAddr (c.cache.shown xs))
  cache : c.cache.file.cache = start
  size : pageCacheNumBuffers c.cache.file = noBuffers

section Runs

variable {start noBuffers : Nat} {c c' : CacheRun} {xs : Nat → List Nat} {cells : List Nat}

theorem openFile_shown {d : LinkedCache} {g : Nat} :
    OpenFile (d.shown xs) g ↔ OpenFile d.file g := by
  unfold OpenFile
  rw [shown_getElem]
  cases he : d.file.gft[g]? with
  | none => simp
  | some e => simp

/-- Where the bitmap is. -/
theorem allocedBitmap_of_place {s : FileState} (hcache : s.cache = start)
    (hnum : pageCacheNumBuffers s = noBuffers) (hpos : 0 < noBuffers)
    (htop : start + noBuffers * pageCacheSize ≤ 4294967296) :
    allocedBitmap s = start + (noBuffers - 1) * pageCacheSize := by
  simp only [pageCacheSize] at htop ⊢
  unfold allocedBitmap
  rw [hnum, hcache, sub32_eq (by omega) (by omega), mul32_eq (by simp only [pageCacheSize]; omega),
    add32_eq (by simp only [pageCacheSize]; omega)]

theorem mul32_page (hpos : 0 < start) (htop : start + noBuffers * pageCacheSize ≤ 4294967296) :
    mul32 noBuffers pageCacheSize = noBuffers * pageCacheSize := mul32_eq (by omega)

/-- After `page_cache_init` the cache is in place and only the bitmap's own cell is taken. -/
theorem pageCacheInit_spec {s t : FileState} (ht : t = pageCacheInit s start noBuffers)
    (hpos : 0 < noBuffers) (hfew : noBuffers ≤ pageCacheSize) (hstart : 0 < start)
    (htop : start + noBuffers * pageCacheSize ≤ 4294967296) :
    t.cache = start ∧ pageCacheNumBuffers t = noBuffers ∧ CacheShape t ∧
      ∀ j, j < noBuffers → (t.mem (bitmapAddr t + j) ≠ 0 ↔ j + 1 = noBuffers) := by
  have hcache : t.cache = start := by
    rw [ht]
    rfl
  have hsize : t.cacheSize = noBuffers * pageCacheSize := by
    rw [← mul32_page hstart htop, ht]
    rfl
  have hnum : pageCacheNumBuffers t = noBuffers := by
    unfold pageCacheNumBuffers
    rw [hsize]
    simp only [pageCacheSize]
    omega
  have haddr : bitmapAddr t = start + (noBuffers - 1) * pageCacheSize := by
    unfold bitmapAddr cellAddr
    rw [hnum, hcache]
  -- the bitmap is cleared, then the cell that holds it is marked
  have hbits : ∀ j, j < noBuffers → t.mem (bitmapAddr t + j) =
      if j + 1 = noBuffers then 1 else 0 := by
    intro j hj
    -- the initial stores move neither the bitmap nor its index
    have hplace : ∀ m fr, allocedBitmap { s with
        mem := m, cacheSize := mul32 noBuffers pageCacheSize, cache := start, frames := fr } =
          start + (noBuffers - 1) * pageCacheSize := by
      intro m fr
      apply allocedBitmap_of_place rfl _ hpos htop
      unfold pageCacheNumBuffers
      dsimp only
      rw [mul32_page hstart htop]
      simp only [pageCacheSize]
      omega
    have hindex : ∀ m fr, pageCacheIndexByAddr { s with
        mem := m, cacheSize := mul32 noBuffers pageCacheSize, cache := start, frames := fr }
          (start + (noBuffers - 1) * pageCacheSize) = noBuffers - 1 := by
      intro m fr
      unfold pageCacheIndexByAddr
      simp only [pageCacheSize] at htop ⊢
      rw [sub32_eq (by omega) (by omega)]
      omega
    rw [haddr, ht]
    unfold pageCacheInit pageCacheIndexReserveBuffer
    dsimp only
    rw [hplace, hplace, hindex, memset_eq]
    by_cases hlast : j + 1 = noBuffers
    · rw [if_pos hlast, show noBuffers - 1 = j by omega, store8_same]
    · have hfour : j < pageCacheSize := hj.trans_le hfew
      rw [if_neg hlast, store8_ne _ _ (by omega),
        fill_inside _ _ (Nat.le_add_right _ _) (Nat.add_lt_add_left hfour _)]
  have hself : t.mem (bitmapAddr t + (pageCacheNumBuffers t - 1)) ≠ 0 := by
    rw [hnum, hbits _ (by omega), if_pos (by omega)]
    decide
  refine ⟨hcache, hnum, ⟨?_, ?_, ?_, ?_, ?_, hself⟩, ?_⟩
  · rw [hcache]
    exact hstart
  · rw [hsize, hnum]
  · rw [hnum]
    exact hpos
  · rw [hnum]
    exact hfew
  · rw [hcache, hsize]
    exact htop
  · intro j hj
    rw [hbits j hj]
    by_cases hlast : j + 1 = noBuffers
    · rw [if_pos hlast]
      simp [hlast]
    · rw [if_neg hlast]
      simp [hlast]

/-- The invariant holds after `page_cache_init`. -/
theorem RunInv.init (hpos : 0 < noBuffers) (hfew : noBuffers ≤ pageCacheSize) (hstart : 0 < start)
    (htop : start + noBuffers * pageCacheSize ≤ 4294967296)
    (h : (cacheSystem start noBuffers).Init c) :
    RunInv start noBuffers c (fun _ => []) [] := by
  rcases h with ⟨⟨s, hfile⟩, hlists, hfiles, hanon⟩
  rcases pageCacheInit_spec hfile hpos hfew hstart htop with ⟨hcache, hnum, hshape, hbits⟩
  -- no file has a page yet, so only the cell of the bitmap itself is marked
  have hpages : ∀ (g : Nat) (e : Gfe), (c.cache.shown fun _ => []).gft[g]? = some e →
      e.pages = [] := by
    intro g e he
    rw [shown_getElem] at he
    rcases Option.map_eq_some_iff.mp he with ⟨e', _, rfl⟩
    rfl
  have hlisted : listed (c.cache.shown fun _ => []) = [] := by
    unfold listed
    rw [List.flatMap_eq_nil_iff]
    intro e he
    rcases List.getElem?_of_mem he with ⟨g, hg⟩
    rw [hpages g e hg]
    rfl
  have hledger : Ledger (c.cache.shown fun _ => []) [] := by
    refine ⟨⟨hshape.base, hshape.size, hshape.nonempty, hshape.few, hshape.top, hshape.self⟩,
      ?_, ?_, ?_⟩
    · rw [hlisted]
      exact List.nodup_nil
    · rw [hlisted]
      intro i hi
      cases hi
    · intro i hi
      rw [hlisted]
      have hi' : i + 1 < noBuffers := by
        rw [← hnum]
        exact hi
      have hbit := hbits i (by omega)
      constructor
      · intro hne
        have := hbit.mp hne
        omega
      · intro hmem
        cases hmem
  refine ⟨⟨?_, ?_⟩, ⟨hledger, ?_, ?_, ?_⟩, hanon, hcache, hnum⟩
  · intro g
    rw [hlists]
    exact SlHolds.init
  · intro g g' _ a ha
    cases ha
  · intro g e he
    rw [hpages g e he]
    exact List.nodup_nil
  · intro g e he hne
    exact absurd (hpages g e he) hne
  · intro g p a
    rw [hfiles]
    constructor
    · intro ha
      cases ha
    · intro ⟨i, ⟨e, d, he, hx⟩, _⟩
      rw [hpages g e he] at hx
      cases hx

/-- A change besides the lists shows the same cells. -/
theorem shown_file {d : LinkedCache} {t : FileState} (h : d.shown xs = t) :
    d.file.mem = t.mem ∧ d.file.cache = t.cache ∧ d.file.cacheSize = t.cacheSize := by
  rw [← h]
  exact ⟨rfl, rfl, rfl⟩

/-- Other answers of the page allocator to come. -/
theorem FileMap.frames {s : FileState} {files : Nat → Nat → Option Nat} (h : FileMap s files cells)
    (fr : Nat → Option Mem) : FileMap { s with frames := fr } files cells :=
  ⟨h.toLedger.perm rfl rfl rfl (List.Perm.refl _), h.unique, h.opened, h.addresses⟩

/-- What `page_cache_release_buffer` does in a run. -/
theorem RunInv.releaseBuffer (h : RunInv start noBuffers c xs cells) {d : LinkedCache} {g p : Nat}
    {r : Except PageCacheError Unit} (hret : c.cache.releaseBuffer g p = .ret (d, r)) :
    ∃ xs', LinkedOk d xs' ∧
      ((∃ err, r = .error err ∧ d.shown xs' = c.cache.shown xs ∧ c.files g p = none) ∨
        ∃ i, r = .ok () ∧ c.files g p = some (cellAddr (c.cache.shown xs) i) ∧
          (∀ j, (d.shown xs').mem (bitmapAddr (c.cache.shown xs) + j) =
            if j = i then 0 else (c.cache.shown xs).mem (bitmapAddr (c.cache.shown xs) + j)) ∧
          FileMap (d.shown xs') (setFile c.files g p none) cells ∧
          d.file.cache = c.cache.file.cache ∧ d.file.cacheSize = c.cache.file.cacheSize) := by
  have hindex : ∀ x ∈ (xs g).map c.cache.nodes.data, x.bufferIndex ≠ 4294967295 := by
    cases he : c.cache.file.gft[g]? with
    | none =>
      unfold LinkedCache.releaseBuffer at hret
      rw [he] at hret
      cases hret
    | some e =>
      intro x hx
      have hshown : (c.cache.shown xs).gft[g]? =
          some { e with pages := (xs g).map c.cache.nodes.data } := by
        rw [shown_getElem, he]
        rfl
      have hlt := h.map.below _ (List.mem_append_left _ (mem_listed hshown hx))
      have hfew := h.map.few
      simp only [pageCacheSize] at hfew
      omega
  rcases releaseBuffer_shown h.linked hindex hret with ⟨xs', hlinked, hshown⟩
  refine ⟨xs', hlinked, ?_⟩
  rcases h.map.releaseBuffer hshown with ⟨err, hr, hsame, hnone⟩ | ⟨i, hr, hfile, hs, hmap⟩
  · exact Or.inl ⟨err, hr, hsame, hnone⟩
  · right
    refine ⟨i, hr, hfile, ?_, hmap, ?_, ?_⟩
    · intro j
      rw [hs]
      exact freed_bit
    · exact (shown_file hs).2.1
    · exact (shown_file hs).2.2

/-- Every call keeps the invariant. -/
theorem RunInv.step (h : RunInv start noBuffers c xs cells) (hstep : CacheStep c c') :
    ∃ xs' cells', RunInv start noBuffers c' xs' cells' := by
  have hsize : ∀ d : LinkedCache, d.file.cacheSize = (c.cache.shown xs).cacheSize →
      pageCacheNumBuffers d.file = noBuffers := by
    intro d hd
    rw [← h.size]
    unfold pageCacheNumBuffers
    rw [hd]
    rfl
  cases hstep with
  | @reserveAnonymous d a hret =>
    have hshown : pageCacheReserveAnonymous (c.cache.shown xs) = (d.shown xs, a) := by
      rw [reserveAnonymous_shown, hret]
    have hlinked : LinkedOk d xs := by
      have heq : d = c.cache.reserveAnonymous.1 := by rw [hret]
      rw [heq]
      exact h.linked.file _
    rcases h.map.reserveAnonymous hshown with ⟨rfl, ht⟩ | ⟨i, _, ha, hpos, hmap, _, hcache, hsz⟩
    · rcases shown_file ht with ⟨_, hcache, hsz⟩
      refine ⟨xs, cells, hlinked, ?_, ?_, hcache.trans h.cache, hsize d hsz⟩
      · dsimp only
        rw [ht]
        exact h.map.frames _
      · dsimp only
        rw [if_pos rfl, ht]
        exact h.anon
    · refine ⟨xs, i :: cells, hlinked, hmap, ?_, hcache.trans h.cache, hsize d hsz⟩
      have haddr : cellAddr (d.shown xs) = cellAddr (c.cache.shown xs) := by
        funext j
        unfold cellAddr
        rw [hcache]
      dsimp only
      rw [if_neg (by omega), List.map_cons, haddr, ← ha, h.anon]
  | @releaseAnonymous a hout =>
    rw [h.anon] at hout
    -- the ledger lists the cells in some order; the one released comes to its front
    rcases List.mem_map.mp hout with ⟨i, hi, rfl⟩
    have hperm := List.perm_cons_erase hi
    have hmap := h.map.reorder hperm.symm
    have hlt := hmap.below i (List.mem_append_right _ List.mem_cons_self)
    have hshown : (c.cache.releaseAnonymous (cellAddr (c.cache.shown xs) i)).shown xs = _ :=
      (releaseAnonymous_shown _).symm
    rw [h.map.releaseAnonymous_eq (by omega)] at hshown
    rcases shown_file hshown with ⟨_, hcache, hsz⟩
    refine ⟨xs, cells.erase i, h.linked.file _, ?_, ?_, hcache.trans h.cache, hsize _ hsz⟩
    · dsimp only
      rw [hshown]
      exact hmap.free
    · dsimp only
      rw [hshown, h.anon]
      exact (List.map_erase (fun _ _ heq => cellAddr_inj heq) cells).symm
  | @reserveBuffer d g p node a hopen hnone hnode hret =>
    have hfree : ∀ g', node ∉ xs g' := by
      intro g' hmem
      apply hnode.2 g'
      rw [(h.linked.holds g').nodes_eq]
      exact hmem
    -- the caller has asked for the page and got 0, so no file has it
    have hget : c.files g p = none := by
      rw [getBuffer_shown h.linked, h.map.getBuffer] at hnone
      cases hfile : c.files g p with
      | none => rfl
      | some b =>
        rw [hfile] at hnone
        rcases (h.map.addresses g p b).mp hfile with ⟨i, hh, hb⟩
        have hlt := (h.map.cacheInv.cells hh).1
        have hpos := h.map.cell_pos (i := i) (by omega)
        rw [Option.getD_some] at hnone
        omega
    rcases reserveBuffer_shown h.linked hfree hnode.1 hret with ⟨xs', hlinked, hshown⟩
    rcases h.map.reserveBuffer (openFile_shown.mpr hopen) hget hshown with
      ⟨rfl, ht⟩ | ⟨hpos, hmap, hcache, hsz⟩
    · rcases shown_file ht with ⟨_, hcache, hsz⟩
      refine ⟨xs', cells, hlinked, ?_, ?_, hcache.trans h.cache, hsize d hsz⟩
      · dsimp only
        rw [if_pos rfl, ht]
        exact h.map.frames _
      · dsimp only
        rw [ht]
        exact h.anon
    · refine ⟨xs', cells, hlinked, ?_, ?_, hcache.trans h.cache, hsize d hsz⟩
      · dsimp only
        rwa [if_neg (by omega)]
      · have haddr : cellAddr (d.shown xs') = cellAddr (c.cache.shown xs) := by
          funext j
          unfold cellAddr
          rw [hcache]
        dsimp only
        rw [haddr]
        exact h.anon
  | @releaseOk d g p hret =>
    rcases h.releaseBuffer hret with ⟨xs', hlinked, hcases⟩
    rcases hcases with ⟨err, herr, _⟩ | ⟨i, _, _, _, hmap, hcache, hsz⟩
    · cases herr
    · refine ⟨xs', cells, hlinked, hmap, ?_, hcache.trans h.cache, hsize d hsz⟩
      have haddr : cellAddr (d.shown xs') = cellAddr (c.cache.shown xs) := by
        funext j
        unfold cellAddr
        rw [show (d.shown xs').cache = (c.cache.shown xs).cache from hcache]
      dsimp only
      rw [haddr]
      exact h.anon
  | @releaseError d g p err hret =>
    rcases h.releaseBuffer hret with ⟨xs', hlinked, hcases⟩
    rcases hcases with ⟨_, _, hsame, _⟩ | ⟨i, herr, _⟩
    · rcases shown_file hsame with ⟨_, hcache, hsz⟩
      refine ⟨xs', cells, hlinked, ?_, ?_, hcache.trans h.cache, hsize d hsz⟩
      · dsimp only
        rw [hsame]
        exact h.map
      · dsimp only
        rw [hsame]
        exact h.anon
    · cases herr

/-- A release that fails leaves the cache as it was. -/
theorem RunInv.releaseError (h : RunInv start noBuffers c xs cells) {d : LinkedCache} {g p : Nat}
    {err : PageCacheError} (hret : c.cache.releaseBuffer g p = .ret (d, .error err)) :
    d = c.cache := by
  unfold LinkedCache.releaseBuffer at hret
  cases he : c.cache.file.gft[g]? with
  | none =>
    rw [he] at hret
    cases hret
  | some e =>
    rw [he] at hret
    dsimp only at hret
    by_cases hhead : (c.cache.lists g).head = 0
    · rw [if_pos hhead] at hret
      cases hret
      rfl
    · rw [if_neg hhead] at hret
      cases hxs : xs g with
      | nil =>
        have hold := h.linked.holds g
        rw [hxs] at hold
        exact absurd hold.seg hhead
      | cons x as =>
        rcases unlinkPage_spec p h.linked hxs with
          ⟨heq, _⟩ | ⟨c', xs', i, heq, hfind, _⟩
        · simp only [heq, if_true] at hret
          cases hret
          rfl
        · -- a page that was found has a cell of the cache
          have hshown : (c.cache.shown xs).gft[g]? =
              some { e with pages := (xs g).map c.cache.nodes.data } := by
            rw [shown_getElem, he]
            rfl
          have hlt := h.map.below _ (List.mem_append_left _
            (mem_listed hshown (List.mem_of_find?_eq_some hfind)))
          have hfew := h.map.few
          simp only [pageCacheSize] at hfew
          simp only [heq, if_neg (show i.bufferIndex ≠ 4294967295 by omega)] at hret
          cases hret

/-- A page that was reserved can be released. -/
theorem RunInv.releaseOk (h : RunInv start noBuffers c xs cells) {g p a : Nat}
    (hfile : c.files g p = some a) :
    ∃ d, c.cache.releaseBuffer g p = .ret (d, .ok ()) := by
  rcases (h.map.addresses g p a).mp hfile with ⟨i, ⟨e, x, he, _⟩, _⟩
  obtain ⟨e', he'⟩ : ∃ e', c.cache.file.gft[g]? = some e' := by
    rw [shown_getElem] at he
    rcases Option.map_eq_some_iff.mp he with ⟨e', he', _⟩
    exact ⟨e', he'⟩
  obtain ⟨d, r, hret⟩ : ∃ d r, c.cache.releaseBuffer g p = .ret (d, r) := by
    unfold LinkedCache.releaseBuffer
    rw [he']
    dsimp only
    split
    · exact ⟨_, _, rfl⟩
    · split
      · exact ⟨_, _, rfl⟩
      · exact ⟨_, _, rfl⟩
  rcases h.releaseBuffer hret with ⟨xs', _, ⟨err, _, _, hnone⟩ | ⟨i, rfl, _⟩⟩
  · rw [hfile] at hnone
    cases hnone
  · exact ⟨d, hret⟩

/-- What was reserved and not released is the address of a cell before the last. -/
theorem RunInv.outstanding (h : RunInv start noBuffers c xs cells) {a : Nat}
    (hout : c.Outstanding a) : ∃ i, i + 1 < noBuffers ∧ a = start + i * pageCacheSize := by
  have hnum : pageCacheNumBuffers (c.cache.shown xs) = noBuffers := h.size
  have haddr : ∀ i, cellAddr (c.cache.shown xs) i = start + i * pageCacheSize := by
    intro i
    rw [← h.cache]
    rfl
  rcases hout with hanon | ⟨g, p, hfile⟩
  · rw [h.anon] at hanon
    rcases List.mem_map.mp hanon with ⟨i, hi, rfl⟩
    have hlt := h.map.below i (List.mem_append_right _ hi)
    exact ⟨i, hnum ▸ hlt, haddr i⟩
  · rcases (h.map.addresses g p a).mp hfile with ⟨i, hh, rfl⟩
    have hlt := h.map.below i (List.mem_append_left _ hh.mem_listed)
    exact ⟨i, hnum ▸ hlt, haddr i⟩

/-- The free cells are those that are not in use. -/
theorem RunInv.cellFree_iff (h : RunInv start noBuffers c xs cells) {i : Nat}
    (hi : i < noBuffers) : cellFree c.cache.file i ↔
      i + 1 ≠ noBuffers ∧ ¬c.Outstanding (start + i * pageCacheSize) := by
  have hnum : pageCacheNumBuffers (c.cache.shown xs) = noBuffers := h.size
  have haddr : cellAddr (c.cache.shown xs) i = start + i * pageCacheSize := by
    rw [← h.cache]
    rfl
  have hfree := h.map.cellFree_iff (i := i) (by rw [hnum]; exact hi)
  rw [hnum, haddr, ← h.anon] at hfree
  exact hfree

/-- Every run has the invariant. -/
theorem reachable_inv (hpos : 1 ≤ noBuffers) (hfew : noBuffers ≤ pageCacheSize)
    (hstart : 0 < start) (htop : start + noBuffers * pageCacheSize ≤ 4294967296)
    (h : (cacheSystem start noBuffers).Reachable c) :
    ∃ xs cells, RunInv start noBuffers c xs cells := by
  induction h with
  | init hinit => exact ⟨_, _, RunInv.init hpos hfew hstart htop hinit⟩
  | next _ hstep ih =>
    rcases ih with ⟨xs, cells, hinv⟩
    exact hinv.step hstep

/-- A step after which one address is no longer outstanding makes its cell free and no other. -/
theorem RunInv.released {xs' : Nat → List Nat} {cells' : List Nat}
    (h : RunInv start noBuffers c xs cells) (h' : RunInv start noBuffers c' xs' cells') {a i : Nat}
    (hout : c.Outstanding a) (hless : ∀ b, c'.Outstanding b ↔ c.Outstanding b ∧ b ≠ a)
    (hi : i < noBuffers) :
    cellFree c'.cache.file i ↔ cellFree c.cache.file i ∨ start + i * pageCacheSize = a := by
  rw [h.cellFree_iff hi, h'.cellFree_iff hi, hless]
  constructor
  · intro ⟨hlast, hnot⟩
    by_cases ha : start + i * pageCacheSize = a
    · exact Or.inr ha
    · exact Or.inl ⟨hlast, fun hold => hnot ⟨hold, ha⟩⟩
  · rintro (⟨hlast, hnot⟩ | ha)
    · exact ⟨hlast, fun hold => hnot hold.1⟩
    · rcases h.outstanding hout with ⟨j, hj, haj⟩
      simp only [pageCacheSize] at ha haj
      exact ⟨by omega, fun hold => hold.2 ha⟩

end Runs

/-! ## The map -/

section Map

variable {start noBuffers : Nat} {c : CacheRun} {xs : Nat → List Nat} {cells : List Nat}

/-- A table with one open file, before `page_cache_init`. -/
def oneFileCache : FileState where
  mem := fun _ => 0
  cache := 0
  cacheSize := 0
  gft := [{ fileNode := 1, openCount := 1, pages := [] }]
  nodes := fun _ => { fileLength := 0 }
  frames := fun _ => some fun _ => 0

end Map

end MeOS
