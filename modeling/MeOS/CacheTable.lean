import MeOS.CacheRuns
import MeOS.FileTableRuns

/-! # The page cache and the global file table together

`gft_insert_s` and `gft_remove` work on the entries whose page lists the page
cache keeps. `gft_remove` leaves the list of its entry alone, and a later
`gft_insert` may put an entry with an empty list in its place.
-/

namespace MeOS

open Bytes Runs

/-- The page cache with the file table, the reserved size of the table's array and the
outstanding anonymous buffers. -/
structure SharedRun where
  file : FileState
  rSize : Nat
  anon : List Nat

/-- The global file table as a vector. -/
def SharedRun.table (c : SharedRun) : Vector Gfe := { data := c.file.gft, rSize := c.rSize }

/-- The run with another table. -/
def SharedRun.withTable (c : SharedRun) (v : Vector Gfe) : SharedRun :=
  { c with file := { c.file with gft := v.data }, rSize := v.rSize }

/-- A call of the file table or of the page cache. As `page_cache_reserve_buffer` assumes, the
entry exists and its page is not cached. An entry is removed when `guard` allows it. -/
inductive SharedStep (guard : SharedRun → Nat → Prop) : SharedRun → SharedRun → Prop where
  | gftInsertS {c node v index} (hnode : node ≠ 0)
    (hret : gftInsertS c.table (createGfe node) = .ret (v, index)) :
    SharedStep guard c (c.withTable v)
  | gftRemove {c index} (hguard : guard c index) :
    SharedStep guard c (c.withTable (gftRemove c.table index).1)
  | reserveBuffer {c s gfd page a} (hopen : OpenFile c.file gfd)
    (hnone : pageCacheGetBuffer c.file gfd page = 0)
    (hret : pageCacheReserveBuffer c.file gfd page = .ret (s, a)) :
    SharedStep guard c { c with file := s }
  | releaseBuffer {c s gfd page r}
    (hret : pageCacheReleaseBuffer c.file gfd page = .ret (s, r)) :
    SharedStep guard c { c with file := s }
  | reserveAnonymous {c s a} (hret : pageCacheReserveAnonymous c.file = (s, a)) :
    SharedStep guard c { c with file := s, anon := if a = 0 then c.anon else a :: c.anon }
  | releaseAnonymous {c a} (hout : a ∈ c.anon) :
    SharedStep guard c
      { c with file := pageCacheReleaseAnonymous c.file a, anon := c.anon.erase a }

/-- The entry has no cached page. -/
def NoPages (c : SharedRun) (index : Nat) : Prop :=
  ∀ e, c.file.gft[index]? = some e → e.pages = []

/-- The runs after `init_global_file_table` and `page_cache_init`. -/
def sharedSystem (guard : SharedRun → Nat → Prop) (start noBuffers size : Nat) :
    System SharedRun where
  Init c := (∃ s, c.file = pageCacheInit s start noBuffers) ∧
    c.table = vectorInit size ∧ c.anon = []
  Next := SharedStep guard

/-- The number of allocated cells. -/
def allocatedCells (s : FileState) : Nat :=
  ((Finset.range (pageCacheNumBuffers s)).filter fun i => s.mem (bitmapAddr s + i) ≠ 0).card

/-- No buffer is leaked: the allocated cells are the bitmap's, the anonymous ones and those on
the page lists, and those on the lists can be found and released. -/
structure Accounted (c : SharedRun) : Prop where
  count : allocatedCells c.file =
    1 + c.anon.length + (c.file.gft.map fun e => e.pages.length).sum
  found : ∀ (g : Nat) (e : Gfe) (x : PageInfo), c.file.gft[g]? = some e → x ∈ e.pages →
    pageCacheGetBuffer c.file g x.page = cellAddr c.file x.bufferIndex ∧
      ∃ s, pageCacheReleaseBuffer c.file g x.page = .ret (s, .ok ()) ∧
        ∀ i, cellFree s i ↔ cellFree c.file i ∨ i = x.bufferIndex

/-! ## Page lists of a table that changes -/

/-- The page list at an index. -/
def pagesAt (t : List Gfe) (g : Nat) : List PageInfo := (t[g]?.map (·.pages)).getD []

section Tables

variable {s : FileState} {t t' : List Gfe} {files : Nat → Nat → Option Nat} {cells : List Nat}

theorem pagesAt_some {e : Gfe} {g : Nat} (he : t[g]? = some e) : pagesAt t g = e.pages := by
  unfold pagesAt
  rw [he]
  rfl

theorem pagesAt_none {g : Nat} (he : t[g]? = none) : pagesAt t g = [] := by
  unfold pagesAt
  rw [he]
  rfl

theorem mem_pagesAt {g : Nat} {x : PageInfo} :
    x ∈ pagesAt t g ↔ ∃ e, t[g]? = some e ∧ x ∈ e.pages := by
  cases he : t[g]? with
  | none =>
    rw [pagesAt_none he]
    simp
  | some e =>
    rw [pagesAt_some he]
    simp

/-- Tables with the same page lists list the same cells. -/
theorem listed_congr (h : ∀ g, pagesAt t' g = pagesAt t g) :
    (t'.flatMap fun e => e.pages.map (·.bufferIndex)) =
      t.flatMap fun e => e.pages.map (·.bufferIndex) := by
  induction t generalizing t' with
  | nil =>
    rw [List.flatMap_nil, List.flatMap_eq_nil_iff]
    intro e he
    rcases List.getElem?_of_mem he with ⟨g, hg⟩
    have hnil : e.pages = [] := (pagesAt_some hg).symm.trans (h g)
    rw [hnil]
    rfl
  | cons e t ih =>
    have hhead : pagesAt t' 0 = e.pages := h 0
    cases t' with
    | nil =>
      have hrest := @ih [] fun g => h (g + 1)
      rw [List.flatMap_cons, ← hrest, ← hhead]
      rfl
    | cons e' t' =>
      have hrest := @ih t' fun g => h (g + 1)
      have hsame : e'.pages = e.pages := hhead
      rw [List.flatMap_cons, List.flatMap_cons, hrest, hsame]

/-- A table whose entries in use have the page lists of the old one holds the same files. -/
theorem FileMap.retable (h : FileMap s files cells)
    (hpages : ∀ g, pagesAt t g = pagesAt s.gft g)
    (hopen : ∀ (g : Nat) (e : Gfe), t[g]? = some e → e.pages ≠ [] → e.fileNode ≠ 0) :
    FileMap { s with gft := t } files cells := by
  have hlisted : listed { s with gft := t } = listed s := listed_congr hpages
  refine ⟨h.toLedger.perm rfl rfl rfl (by rw [hlisted]), ?_, hopen, ?_⟩
  · intro g e he
    have hsame := hpages g
    rw [pagesAt_some (t := t) he] at hsame
    cases hold : s.gft[g]? with
    | none =>
      rw [pagesAt_none hold] at hsame
      rw [hsame]
      exact List.nodup_nil
    | some e' =>
      rw [pagesAt_some hold] at hsame
      rw [hsame]
      exact h.unique g e' hold
  · intro g p a
    have hholds : ∀ i, Holds { s with gft := t } g p i ↔ Holds s g p i := by
      intro i
      unfold Holds
      constructor
      · intro ⟨e, d, he, hx⟩
        have hmem := mem_pagesAt.mpr ⟨e, he, hx⟩
        rw [hpages g] at hmem
        rcases mem_pagesAt.mp hmem with ⟨e', he', hx'⟩
        exact ⟨e', d, he', hx'⟩
      · intro ⟨e, d, he, hx⟩
        have hmem := mem_pagesAt.mpr ⟨e, he, hx⟩
        rw [← hpages g] at hmem
        rcases mem_pagesAt.mp hmem with ⟨e', he', hx'⟩
        exact ⟨e', d, he', hx'⟩
    rw [h.addresses]
    constructor
    · intro ⟨i, hh, ha⟩
      exact ⟨i, (hholds i).mpr hh, ha⟩
    · intro ⟨i, hh, ha⟩
      exact ⟨i, (hholds i).mp hh, ha⟩

/-- An entry that is not in use has no page. -/
theorem FileMap.pages_nil (h : FileMap s files cells) {g : Nat}
    (hg : s.gft[g]? = none ∨ ∃ e, s.gft[g]? = some e ∧ e.fileNode = 0) :
    pagesAt s.gft g = [] := by
  rcases hg with hnone | ⟨e, he, hzero⟩
  · exact pagesAt_none hnone
  · rw [pagesAt_some he]
    by_contra hne
    exact h.opened g e he hne hzero

/-- `gft_insert_s` does not change what is cached. -/
theorem FileMap.gftInsertS (h : FileMap s files cells) {r node index : Nat} {v : Vector Gfe}
    (hnode : node ≠ 0) (hv : Vector.Fits ⟨s.gft, r⟩) (hpos : 0 < r)
    (hret : MeOS.gftInsertS ⟨s.gft, r⟩ (createGfe node) = .ret (v, index)) :
    FileMap { s with gft := v.data } files cells := by
  rcases gftInsertS_spec hret hv hpos with ⟨_, hother, hcases⟩
  have hindex : pagesAt v.data index = pagesAt s.gft index ∧
      ∀ e, v.data[index]? = some e → e.fileNode ≠ 0 := by
    rcases hcases with ⟨e, he, heq, hnew⟩ | ⟨_, hfresh, hnew⟩
    · constructor
      · rw [pagesAt_some hnew, pagesAt_some he]
      · intro e' he'
        rw [hnew] at he'
        cases he'
        rw [← heq] at hnode
        exact hnode
    · constructor
      · rw [pagesAt_some hnew, h.pages_nil hfresh]
      · intro e' he'
        rw [hnew] at he'
        cases he'
        exact hnode
  apply h.retable
  · intro g
    by_cases hg : g = index
    · rw [hg]
      exact hindex.1
    · unfold pagesAt
      rw [hother g hg]
  · intro g e he hne
    by_cases hg : g = index
    · rw [hg] at he
      exact hindex.2 e he
    · rw [hother g hg] at he
      exact h.opened g e he hne

/-- `gft_remove` of an entry without pages does not change what is cached. -/
theorem FileMap.gftRemove (h : FileMap s files cells) {r index : Nat}
    (hnil : ∀ e, s.gft[index]? = some e → e.pages = []) :
    FileMap { s with gft := (MeOS.gftRemove ⟨s.gft, r⟩ index).1.data } files cells := by
  unfold MeOS.gftRemove
  by_cases hout : index ≥ Vector.count ⟨s.gft, r⟩
  · rw [if_pos hout]
    exact h
  · rw [if_neg hout]
    rcases lt_count_iff.mp (Nat.lt_of_not_le hout) with ⟨e, he⟩
    have hsame := modify_same (f := fun e => { e with fileNode := 0, openCount := 0 }) he
    apply h.retable
    · intro g
      by_cases hg : g = index
      · subst hg
        rw [pagesAt_some hsame]
        exact (pagesAt_some he).symm
      · unfold pagesAt
        dsimp only
        rw [modify_other (Ne.symm hg)]
    · intro g e' he' hne
      by_cases hg : g = index
      · subst hg
        dsimp only at he'
        rw [hsame] at he'
        cases he'
        exact absurd (hnil e he) hne
      · dsimp only at he'
        rw [modify_other (Ne.symm hg)] at he'
        exact h.opened g e' he' hne

end Tables

/-! ## Runs that remove entries without pages -/

/-- The page lists hold a map of files, and the cells in hand are the anonymous ones. -/
structure SharedInv (start noBuffers : Nat) (c : SharedRun) (files : Nat → Nat → Option Nat)
    (cells : List Nat) : Prop where
  map : FileMap c.file files cells
  anon : c.anon = cells.map (cellAddr c.file)
  cache : c.file.cache = start
  size : pageCacheNumBuffers c.file = noBuffers
  table : c.table.Fits ∧ 0 < c.table.rSize

section Shared

variable {start noBuffers size : Nat} {c c' : SharedRun} {files : Nat → Nat → Option Nat}
  {cells : List Nat}

/-- Only the table changes. -/
theorem SharedInv.withTable (h : SharedInv start noBuffers c files cells) {v : Vector Gfe}
    (hmap : FileMap { c.file with gft := v.data } files cells) (hv : v.Fits ∧ 0 < v.rSize) :
    SharedInv start noBuffers (c.withTable v) files cells :=
  ⟨hmap, h.anon, h.cache, h.size, hv⟩

/-- Only the cache changes. -/
theorem SharedInv.withFile (h : SharedInv start noBuffers c files cells) {s : FileState}
    {files' : Nat → Nat → Option Nat} {cells' : List Nat} {anon : List Nat}
    (hmap : FileMap s files' cells') (hcache : s.cache = c.file.cache)
    (hsize : s.cacheSize = c.file.cacheSize) (hgft : s.gft.length = c.file.gft.length)
    (hanon : anon = cells'.map (cellAddr c.file)) :
    SharedInv start noBuffers { c with file := s, anon := anon } files' cells' := by
  have hnum : pageCacheNumBuffers s = pageCacheNumBuffers c.file := by
    unfold pageCacheNumBuffers
    rw [hsize]
  have haddr : cellAddr s = cellAddr c.file := by
    funext i
    unfold cellAddr
    rw [hcache]
  refine ⟨hmap, ?_, hcache.trans h.cache, hnum.trans h.size, ⟨⟨?_, h.table.1.word⟩, h.table.2⟩⟩
  · dsimp only
    rw [haddr]
    exact hanon
  · have hle := h.table.1.le
    unfold Vector.count SharedRun.table at hle ⊢
    dsimp only at hle ⊢
    rw [hgft]
    exact hle

theorem SharedInv.init {guard : SharedRun → Nat → Prop} (hpos : 0 < noBuffers)
    (hfew : noBuffers ≤ pageCacheSize) (hstart : 0 < start)
    (htop : start + noBuffers * pageCacheSize ≤ 4294967296) (hword : size < 4294967296)
    (h : (sharedSystem guard start noBuffers size).Init c) :
    SharedInv start noBuffers c (fun _ _ => none) [] := by
  rcases h with ⟨⟨s, hfile⟩, htable, hanon⟩
  rcases pageCacheInit_spec hfile hpos hfew hstart htop with ⟨hcache, hnum, hshape, hbits⟩
  have hgft : c.file.gft = [] := congrArg Vector.data htable
  have hlisted : listed c.file = [] := by
    unfold listed
    rw [hgft]
    rfl
  have hledger : Ledger c.file [] := by
    refine ⟨hshape, ?_, ?_, ?_⟩
    · rw [hlisted]
      exact List.nodup_nil
    · rw [hlisted]
      intro i hi
      cases hi
    · intro i hi
      rw [hlisted, hbits i (by rw [← hnum]; omega)]
      rw [hnum] at hi
      constructor
      · intro hlast
        omega
      · intro hmem
        cases hmem
  have hentry : ∀ (g : Nat) (e : Gfe), c.file.gft[g]? ≠ some e := by
    intro g e he
    rw [hgft] at he
    cases he
  refine ⟨⟨hledger, ?_, ?_, ?_⟩, hanon, hcache, hnum, ?_⟩
  · intro g e he
    exact absurd he (hentry g e)
  · intro g e he
    exact absurd he (hentry g e)
  · intro g p a
    constructor
    · intro ha
      cases ha
    · intro ⟨i, ⟨e, d, he, _⟩, _⟩
      exact absurd he (hentry g e)
  · rw [htable]
    exact vectorInit_fits hword

/-- Reserving a page does not change the number of entries. -/
theorem reserveBuffer_length {s s' : FileState} {g p a : Nat}
    (hret : pageCacheReserveBuffer s g p = .ret (s', a)) : s'.gft.length = s.gft.length := by
  have hkeep := reserveAnonymous_keeps_gft (s := s)
  unfold pageCacheReserveBuffer at hret
  obtain ⟨t, b, hanon⟩ : ∃ t b, pageCacheReserveAnonymous s = (t, b) := ⟨_, _, rfl⟩
  rw [hanon] at hret hkeep
  dsimp only at hkeep
  cases b with
  | zero =>
    cases hret
    rw [hkeep]
  | succ k =>
    cases he : gftGet t g with
    | none =>
      simp only [he] at hret
      cases hret
    | some e =>
      simp only [he] at hret
      cases hret
      rw [← hkeep]
      exact List.length_modify _ _ _

/-- Every call keeps the invariant, as long as entries are removed without pages. -/
theorem SharedInv.step (h : SharedInv start noBuffers c files cells)
    (hstep : SharedStep NoPages c c') :
    ∃ files' cells', SharedInv start noBuffers c' files' cells' := by
  cases hstep with
  | @gftInsertS node v index hnode hret =>
    have hspec := gftInsertS_spec hret h.table.1 h.table.2
    exact ⟨files, cells, h.withTable (h.map.gftInsertS hnode h.table.1 h.table.2 hret) hspec.1⟩
  | @gftRemove index hguard =>
    refine ⟨files, cells, h.withTable (h.map.gftRemove hguard) ?_⟩
    unfold gftRemove
    by_cases hout : index ≥ c.table.count
    · rw [if_pos hout]
      exact h.table
    · rw [if_neg hout]
      exact ⟨h.table.1.modify _ _, h.table.2⟩
  | @reserveBuffer s g p a hopen hnone hret =>
    -- the page was asked for before, so no file has it
    have hget : files g p = none := by
      rw [h.map.getBuffer] at hnone
      cases hfile : files g p with
      | none => rfl
      | some b =>
        rw [hfile] at hnone
        rcases (h.map.addresses g p b).mp hfile with ⟨i, hh, hb⟩
        have hlt := (h.map.cacheInv.cells hh).1
        have hpos := h.map.cell_pos (i := i) (by omega)
        rw [Option.getD_some] at hnone
        omega
    have hlen := reserveBuffer_length hret
    rcases h.map.reserveBuffer hopen hget hret with ⟨_, hs⟩ | ⟨_, hmap, hcache, hsize⟩
    · refine ⟨files, cells, h.withFile ?_ ?_ ?_ hlen h.anon⟩
      · rw [hs]
        exact h.map.frames _
      · rw [hs]
      · rw [hs]
    · exact ⟨_, cells, h.withFile hmap hcache hsize hlen h.anon⟩
  | @releaseBuffer s g p r hret =>
    rcases h.map.releaseBuffer hret with ⟨_, _, rfl, _⟩ | ⟨i, _, _, hs, hmap⟩
    · exact ⟨files, cells, h⟩
    · refine ⟨_, cells, h.withFile hmap ?_ ?_ ?_ h.anon⟩
      · rw [hs]
        rfl
      · rw [hs]
        rfl
      · rw [hs]
        exact List.length_modify _ _ _
  | @reserveAnonymous s a hret =>
    rcases h.map.reserveAnonymous hret with
      ⟨rfl, hs⟩ | ⟨i, _, ha, hpos, hmap, hgft, hcache, hsize⟩
    · refine ⟨files, cells, h.withFile ?_ ?_ ?_ ?_ ?_⟩
      · rw [hs]
        exact h.map.frames _
      · rw [hs]
      · rw [hs]
      · rw [hs]
      · rw [if_pos rfl]
        exact h.anon
    · refine ⟨files, i :: cells, h.withFile hmap hcache hsize (by rw [hgft]) ?_⟩
      rw [if_neg (by omega), List.map_cons, ← ha, h.anon]
  | @releaseAnonymous a hout =>
    rw [h.anon] at hout
    rcases List.mem_map.mp hout with ⟨i, hi, rfl⟩
    -- the ledger lists the cells in some order; the one released comes to its front
    have hmap := h.map.reorder (List.perm_cons_erase hi).symm
    have hlt := hmap.below i (List.mem_append_right _ List.mem_cons_self)
    rw [h.map.releaseAnonymous_eq (by omega)]
    refine ⟨files, cells.erase i, h.withFile hmap.free rfl rfl rfl ?_⟩
    rw [h.anon]
    exact (List.map_erase (fun _ _ heq => cellAddr_inj heq) cells).symm

/-- What the invariant says of the buffers. -/
theorem SharedInv.accounted (h : SharedInv start noBuffers c files cells) : Accounted c := by
  constructor
  · unfold allocatedCells
    rw [h.map.toLedger.count, h.anon, List.length_map]
    have hlisted : (listed c.file).length =
        (c.file.gft.map fun e => e.pages.length).sum := by
      unfold listed
      rw [List.length_flatMap]
      congr 1
      apply List.map_congr_left
      intro e _
      exact List.length_map _
    omega
  · intro g e x he hx
    -- the page is released through its own entry, which clears the mark of its cell
    have hh : Holds c.file g x.page x.bufferIndex := ⟨e, x.dirty, he, hx⟩
    have hfile := (h.map.addresses g x.page _).mpr ⟨_, hh, rfl⟩
    refine ⟨?_, ?_⟩
    · rw [h.map.getBuffer, hfile]
      rfl
    · obtain ⟨s, r, hret⟩ : ∃ s r, pageCacheReleaseBuffer c.file g x.page = .ret (s, r) := by
        unfold pageCacheReleaseBuffer
        rw [he]
        dsimp only
        split
        · exact ⟨_, _, rfl⟩
        · split
          · exact ⟨_, _, rfl⟩
          · exact ⟨_, _, rfl⟩
      rcases h.map.releaseBuffer hret with ⟨_, _, _, hnone⟩ | ⟨i, rfl, hfile', hs, hmap⟩
      · rw [hfile] at hnone
        cases hnone
      · rw [hfile] at hfile'
        have hi : x.bufferIndex = i := cellAddr_inj (Option.some.inj hfile')
        refine ⟨s, hret, ?_⟩
        intro j
        have hbit : s.mem (bitmapAddr c.file + j) =
            if j = i then 0 else c.file.mem (bitmapAddr c.file + j) := by
          rw [hs]
          exact freed_bit
        have haddr : allocedBitmap s = bitmapAddr c.file := by
          rw [hmap.bitmap_eq, hs]
          rfl
        unfold cellFree
        rw [haddr, hbit, h.map.bitmap_eq, hi]
        by_cases hj : j = i
        · rw [if_pos hj]
          simp [hj]
        · rw [if_neg hj]
          simp [hj]

/-- No buffer is leaked in the runs that remove an entry only when it has no cached page. -/
theorem buffers_accounted (hpos : 1 ≤ noBuffers) (hfew : noBuffers ≤ 4096) (hstart : 0 < start)
    (htop : start + noBuffers * pageCacheSize ≤ 4294967296) (hword : size < 4294967296)
    (h : (sharedSystem NoPages start noBuffers size).Reachable c) : Accounted c := by
  have hinv : ∃ files cells, SharedInv start noBuffers c files cells := by
    induction h with
    | init hinit => exact ⟨_, _, SharedInv.init hpos hfew hstart htop hword hinit⟩
    | next _ hstep ih =>
      rcases ih with ⟨files, cells, hinv⟩
      exact hinv.step hstep
  rcases hinv with ⟨files, cells, hinv⟩
  exact hinv.accounted

end Shared

/-! ## A removed entry with pages -/

/-- A cache of two cells and a table with one place, at the start. -/
def twoCells : SharedRun where
  file := pageCacheInit { oneFileCache with gft := [] } 4096 2
  rSize := 1
  anon := []

/-- A file is opened in the table. -/
def twoCellsOpen : SharedRun :=
  twoCells.withTable { data := [{ fileNode := 1, openCount := 1, pages := [] }], rSize := 1 }

/-- Its first page was given the cell `i`. -/
def twoCellsCached (i : Nat) : SharedRun :=
  { twoCellsOpen with file := twoCellsOpen.file.assign 0 0 i fun _ => 0 }

/-- A change of the table does not touch the bitmap. -/
theorem withTable_bit (c : SharedRun) (v : Vector Gfe) (i : Nat) :
    (c.withTable v).file.mem (bitmapAddr (c.withTable v).file + i) =
      c.file.mem (bitmapAddr c.file + i) := rfl

theorem twoCellsOpen_reachable (guard : SharedRun → Nat → Prop) :
    (sharedSystem guard 4096 2 1).Reachable twoCellsOpen := by
  have hinit : (sharedSystem guard 4096 2 1).Reachable twoCells := .init ⟨⟨_, rfl⟩, rfl, rfl⟩
  have hret : gftInsertS twoCells.table (createGfe 1) =
      .ret ({ data := [{ fileNode := 1, openCount := 1, pages := [] }], rSize := 1 }, 0) := rfl
  exact hinit.next (.gftInsertS (by decide) hret)

/-- The page of the open file gets the free cell. -/
theorem twoCellsCached_reachable (guard : SharedRun → Nat → Prop) :
    ∃ i, (sharedSystem guard 4096 2 1).Reachable (twoCellsCached i) := by
  have hinv : ∃ files cells, SharedInv 4096 2 twoCellsOpen files cells := by
    have hinit : (sharedSystem NoPages 4096 2 1).Init twoCells := ⟨⟨_, rfl⟩, rfl, rfl⟩
    have hstart := SharedInv.init (by decide) (by decide) (by decide) (by decide) (by decide) hinit
    have hret : gftInsertS twoCells.table (createGfe 1) =
        .ret ({ data := [{ fileNode := 1, openCount := 1, pages := [] }], rSize := 1 }, 0) := rfl
    exact hstart.step (.gftInsertS (by decide) hret)
  rcases hinv with ⟨files, cells, hinv⟩
  have hopen : OpenFile twoCellsOpen.file 0 := ⟨_, rfl, by decide⟩
  have hnone : pageCacheGetBuffer twoCellsOpen.file 0 0 = 0 := by
    apply getBuffer_of_not_cached
    intro ⟨i, e, d, he, hx⟩
    cases he
    cases hx
  have hzero : 0 ∈ freeCells twoCellsOpen.file := by
    rcases pageCacheInit_spec
      (show twoCells.file = pageCacheInit _ 4096 2 from rfl) (by decide) (by decide) (by decide)
      (by decide) with ⟨_, hnum, _, hbits⟩
    refine mem_freeCells.mpr ⟨?_, ?_⟩
    · rw [show pageCacheNumBuffers twoCellsOpen.file = 2 from hnum]
      decide
    · have hbit := hbits 0 (by decide)
      rw [twoCellsOpen, withTable_bit]
      by_contra hne
      have hlast := hbit.mp hne
      omega
  obtain ⟨i, rest, hfree⟩ := List.exists_cons_of_ne_nil (List.ne_nil_of_mem hzero)
  have hret := hinv.map.cacheInv.reserve_ok (p := 0) hopen hfree rfl
  exact ⟨i, (twoCellsOpen_reachable guard).next (.reserveBuffer hopen hnone hret)⟩

/-- An entry is removed with a page and its place is taken: the cell of the page is lost. -/
theorem buffers_leaked :
    ¬∀ c, (sharedSystem (fun _ _ => True) 4096 2 1).Reachable c → Accounted c := by
  intro hall
  rcases twoCellsCached_reachable fun _ _ => True with ⟨i, hcached⟩
  have hremoved := hcached.next (@SharedStep.gftRemove (fun _ _ => True) _ 0 trivial)
  have hret : gftInsertS ((twoCellsCached i).withTable
      (gftRemove (twoCellsCached i).table 0).1).table (createGfe 2) =
        .ret ({ data := [{ fileNode := 2, openCount := 1, pages := [] }], rSize := 1 }, 0) := rfl
  have hreused := hremoved.next (.gftInsertS (by decide) hret)
  have hbefore : allocatedCells (twoCellsCached i).file = 1 + 0 + 1 := (hall _ hcached).count
  have hafter : allocatedCells (twoCellsCached i).file = 1 + 0 + 0 := (hall _ hreused).count
  omega

/-- The open file with its cached page. -/
theorem buffers_accounted_two : ∃ i, Accounted (twoCellsCached i) := by
  rcases twoCellsCached_reachable NoPages with ⟨i, hcached⟩
  exact ⟨i, buffers_accounted (by decide) (by decide) (by decide) (by decide) (by decide) hcached⟩

end MeOS
