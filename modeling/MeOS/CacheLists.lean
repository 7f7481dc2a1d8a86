import MeOS.PageCacheInv
import MeOS.SlList

/-! # The page lists of `page_cache.cpp` as linked nodes

`page_cache.cpp` walks and changes the page lists node by node. Here its
functions are given on the nodes, and shown to do what `PageCache` says of the
lists of their elements.
-/

namespace MeOS

open Links Bytes

/-- The page cache with `gft[i].pages` as linked lists; the `pages` of the entries in `file`
are not looked at. -/
structure LinkedCache where
  file : FileState
  nodes : SlNodes PageInfo
  lists : Nat → SlList

/-! ## The functions -/

/-- The loop of `page_cache_get_finfo`; a list has `fuel` nodes at most. -/
def findInfoFrom (m : SlNodes PageInfo) (page : Nat) : Nat → Nat → Nat
  | 0, _ => 0
  | fuel + 1, temp =>
    if temp = 0 then 0
    else if (m.data temp).page = page then temp
    else findInfoFrom m page fuel (m.next temp)

/-- `page_cache_get_finfo`, the node. -/
def LinkedCache.getFinfo (c : LinkedCache) (gfd page : Nat) : Except PageCacheError Nat :=
  match c.file.gft[gfd]? with
  | none => .error .outOfBounds
  | some e =>
    if e.fileNode = 0 then
      .error .invalid
    else
      let temp := findInfoFrom c.nodes page (c.lists gfd).count (c.lists gfd).head
      if temp = 0 then .error .finfoNotFound else .ok temp

/-- `page_cache_get_buffer`. -/
def LinkedCache.getBuffer (c : LinkedCache) (gfd page : Nat) : Nat :=
  match c.getFinfo gfd page with
  | .error _ => 0
  | .ok finfo => add32 c.file.cache (mul32 (c.nodes.data finfo).bufferIndex pageCacheSize)

/-- `page_cache_reserve_anonymous`. -/
def LinkedCache.reserveAnonymous (c : LinkedCache) : LinkedCache × Nat :=
  let (s, address) := pageCacheReserveAnonymous c.file
  ({ c with file := s }, address)

/-- `page_cache_release_anonymous`. -/
def LinkedCache.releaseAnonymous (c : LinkedCache) (address : Nat) : LinkedCache :=
  { c with file := pageCacheReleaseAnonymous c.file address }

/-- `page_cache_reserve_buffer`; `node` is where the new list node is put. -/
def LinkedCache.reserveBuffer (c : LinkedCache) (gfd page node : Nat) :
    Outcome (LinkedCache × Nat) :=
  match c.reserveAnonymous with
  | (c, 0) => .ret (c, 0)
  | (c, address) =>
    let freeBuf := pageCacheIndexByAddr c.file address
    let finfo : PageInfo := { page := page, bufferIndex := freeBuf, dirty := false }
    match gftGet c.file gfd with
    | none => .undefined
    | some _ =>
      let (m, l) := listInsertBack c.nodes (c.lists gfd) node finfo
      .ret ({ c with nodes := m, lists := Function.update c.lists gfd l }, address)

/-- The loop of `page_cache_release_buffer`: the node before the one of `page`, or 0. -/
def findPrevFrom (m : SlNodes PageInfo) (page : Nat) : Nat → Nat → Nat
  | 0, _ => 0
  | fuel + 1, prev =>
    if m.next prev = 0 then 0
    else if (m.data (m.next prev)).page = page then prev
    else findPrevFrom m page fuel (m.next prev)

/-- The middle part of `page_cache_release_buffer`: `page` is taken off a list that is not
empty. The index is `-1` when it is not on it. -/
def LinkedCache.unlinkPage (c : LinkedCache) (gfd page : Nat) : LinkedCache × Nat :=
  let list := c.lists gfd
  let prev := list.head
  if (c.nodes.data prev).page = page then
    ({ c with lists := Function.update c.lists gfd (listRemoveFront c.nodes list) },
      (c.nodes.data prev).bufferIndex)
  else
    let before := findPrevFrom c.nodes page list.count prev
    if before = 0 then
      (c, 4294967295)
    else
      let (m, l, _) := listRemove c.nodes list before
      ({ c with nodes := m, lists := Function.update c.lists gfd l },
        (c.nodes.data (c.nodes.next before)).bufferIndex)

/-- `page_cache_release_buffer`. -/
def LinkedCache.releaseBuffer (c : LinkedCache) (gfd page : Nat) :
    Outcome (LinkedCache × Except PageCacheError Unit) :=
  match c.file.gft[gfd]? with
  | none => .undefined
  | some _ =>
    if (c.lists gfd).head = 0 then
      .ret (c, .error .badPages)
    else
      let (c, index) := c.unlinkPage gfd page
      if index = 4294967295 then
        .ret (c, .error .pageNotFound)
      else
        .ret (c.releaseAnonymous (pageCacheAddrByIndex c.file index), .ok ())

/-! ## What the nodes show -/

/-- The tables with the lists of the elements of the nodes `xs`. -/
def LinkedCache.shown (c : LinkedCache) (xs : Nat → List Nat) : FileState :=
  { c.file with
    gft := c.file.gft.mapIdx fun i e => { e with pages := (xs i).map c.nodes.data } }

/-- The list of every entry holds its nodes, and no two lists share one. -/
structure LinkedOk (c : LinkedCache) (xs : Nat → List Nat) : Prop where
  holds : ∀ g, SlHolds c.nodes (c.lists g) (xs g)
  apart : ∀ g g', g ≠ g' → ∀ a ∈ xs g, a ∉ xs g'

section Shown

variable {c c' : LinkedCache} {xs : Nat → List Nat} {g page node : Nat} {e : Gfe}

theorem shown_getElem : (c.shown xs).gft[g]? =
    (c.file.gft[g]?).map fun e => { e with pages := (xs g).map c.nodes.data } := by
  unfold LinkedCache.shown
  dsimp only
  rw [List.getElem?_mapIdx]

/-- The search loop finds the first node with the page. -/
theorem findInfoFrom_eq {m : SlNodes PageInfo} {as : List Nat} {a : Nat}
    (h : Seg m.next a as 0) (hpos : ∀ x ∈ as, 0 < x) :
    findInfoFrom m page as.length a = (as.find? fun x => (m.data x).page == page).getD 0 := by
  induction as generalizing a with
  | nil => rfl
  | cons x as ih =>
    rcases h with ⟨rfl, hrest⟩
    have hx := hpos a List.mem_cons_self
    rw [List.length_cons, findInfoFrom, if_neg (by omega), List.find?_cons]
    by_cases hpage : (m.data a).page = page
    · rw [if_pos hpage, beq_iff_eq.mpr hpage]
      rfl
    · rw [if_neg hpage, ih hrest fun x hx => hpos x (List.mem_cons_of_mem a hx)]
      rw [beq_false_of_ne hpage]

/-- Looking up a page in the nodes and in the list of their elements. -/
theorem getBuffer_shown (h : LinkedOk c xs) :
    c.getBuffer g page = pageCacheGetBuffer (c.shown xs) g page := by
  have hg := h.holds g
  unfold LinkedCache.getBuffer LinkedCache.getFinfo pageCacheGetBuffer pageCacheGetFinfo
  rw [shown_getElem]
  cases he : c.file.gft[g]? with
  | none => rfl
  | some e =>
    simp only [Option.map_some]
    by_cases hnode : e.fileNode = 0
    · rw [if_pos hnode, if_pos hnode]
    · rw [if_neg hnode, if_neg hnode, hg.count,
        findInfoFrom_eq hg.seg fun x hx => (hg.addr x hx).1, List.find?_map]
      unfold Function.comp
      cases hfind : (xs g).find? fun x => (c.nodes.data x).page == page with
      | none => rfl
      | some x =>
        have hx := (hg.addr x (List.mem_of_find?_eq_some hfind)).1
        simp only [Option.getD_some, if_neg (show x ≠ 0 by omega), Option.map_some]
        rfl

/-- The bitmap is found without a look at the memory and the lists. -/
theorem allocedBitmap_with {s : FileState} (m : Mem) (t : List Gfe) (fr : Nat → Option Mem) :
    allocedBitmap { s with mem := m, gft := t, frames := fr } = allocedBitmap s := rfl

theorem addrByIndex_with {s : FileState} (i : Nat) (m : Mem) (t : List Gfe)
    (fr : Nat → Option Mem) :
    pageCacheAddrByIndex { s with mem := m, gft := t, frames := fr } i =
      pageCacheAddrByIndex s i := rfl

/-- The cells are reserved without a look at the lists. -/
theorem reserveAnonymous_gft {s : FileState} {t : List Gfe} :
    pageCacheReserveAnonymous { s with gft := t } =
      ({ (pageCacheReserveAnonymous s).1 with gft := t }, (pageCacheReserveAnonymous s).2) := by
  have hfree : pageCacheIndexFreeBuffer { s with gft := t } = pageCacheIndexFreeBuffer s := rfl
  have hnum : pageCacheNumBuffers { s with gft := t } = pageCacheNumBuffers s := rfl
  unfold pageCacheReserveAnonymous
  rw [hfree, hnum]
  by_cases hfull : pageCacheIndexFreeBuffer s ≥ pageCacheNumBuffers s
  · rw [if_pos hfull, if_pos hfull]
  · rw [if_neg hfull, if_neg hfull]
    unfold vmmngrAllocPage pageCacheIndexReserveBuffer pageCacheIndexReleaseBuffer
    cases hframe : s.frames 0 with
    | none => simp only [hframe, allocedBitmap_with]
    | some content => simp only [hframe, allocedBitmap_with, addrByIndex_with]

/-! ## Changes of one list -/

variable {l : SlList} {ys : List Nat} {f : List PageInfo → List PageInfo}

/-- The tables after one list has changed. -/
theorem shown_update (hfile : c'.file = c.file)
    (hdata : ∀ g', g' ≠ g → ∀ a ∈ xs g', c'.nodes.data a = c.nodes.data a)
    (hg : ys.map c'.nodes.data = f ((xs g).map c.nodes.data)) :
    c'.shown (Function.update xs g ys) = (c.shown xs).modifyPages g f := by
  have hgft : (c'.shown (Function.update xs g ys)).gft = ((c.shown xs).modifyPages g f).gft := by
    apply List.ext_getElem?
    intro i
    by_cases hi : i = g
    · subst hi
      rw [shown_getElem, hfile, Function.update_self, hg]
      cases he : c.file.gft[i]? with
      | none =>
        unfold FileState.modifyPages
        dsimp only
        rw [List.getElem?_modify_eq, shown_getElem, he]
        rfl
      | some e =>
        have hshown : (c.shown xs).gft[i]? =
            some { e with pages := (xs i).map c.nodes.data } := by
          rw [shown_getElem, he]
          rfl
        rw [modifyPages_same hshown]
        rfl
    · rw [shown_getElem, hfile, Function.update_of_ne hi, modifyPages_other (Ne.symm hi),
        shown_getElem]
      congr 1
      funext e
      rw [List.map_congr_left (hdata i hi)]
  have hleft : c'.shown (Function.update xs g ys) =
      { c.file with gft := (c'.shown (Function.update xs g ys)).gft } := by
    unfold LinkedCache.shown
    rw [hfile]
  have hright : (c.shown xs).modifyPages g f =
      { c.file with gft := ((c.shown xs).modifyPages g f).gft } := rfl
  rw [hleft, hright, hgft]

/-- One list changes, the others keep their nodes. -/
theorem LinkedOk.update (h : LinkedOk c xs) (hlists : c'.lists = Function.update c.lists g l)
    (hold : SlHolds c'.nodes l ys)
    (hframe : ∀ g', g' ≠ g → ∀ a ∈ xs g', c'.nodes.next a = c.nodes.next a)
    (hys : ∀ a ∈ ys, a ∈ xs g ∨ ∀ g', a ∉ xs g') : LinkedOk c' (Function.update xs g ys) where
  holds := by
    intro i
    rw [hlists]
    by_cases hi : i = g
    · subst hi
      rw [Function.update_self, Function.update_self]
      exact hold
    · rw [Function.update_of_ne hi, Function.update_of_ne hi]
      exact (h.holds i).congr (hframe i hi)
  apart := by
    have hout : ∀ i, i ≠ g → ∀ a ∈ ys, a ∉ xs i := by
      intro i hi a ha
      rcases hys a ha with hmem | hnew
      · exact h.apart g i (Ne.symm hi) a hmem
      · exact hnew i
    intro i j hij a ha
    by_cases hi : i = g
    · subst hi
      rw [Function.update_self] at ha
      rw [Function.update_of_ne (Ne.symm hij)]
      exact hout j (Ne.symm hij) a ha
    · rw [Function.update_of_ne hi] at ha
      by_cases hj : j = g
      · subst hj
        rw [Function.update_self]
        intro hmem
        exact hout i hi a hmem ha
      · rw [Function.update_of_ne hj]
        exact h.apart i j hij a ha

/-- The part of the state besides the lists may change. -/
theorem LinkedOk.file (h : LinkedOk c xs) (s : FileState) : LinkedOk { c with file := s } xs :=
  ⟨h.holds, h.apart⟩

theorem shown_reserved (s : FileState) (hgft : s.gft = c.file.gft) :
    LinkedCache.shown { c with file := s } xs = { s with gft := (c.shown xs).gft } := by
  unfold LinkedCache.shown
  dsimp only
  rw [hgft]

theorem reserveAnonymous_keeps_gft {s : FileState} :
    (pageCacheReserveAnonymous s).1.gft = s.gft := by
  have h := reserveAnonymous_gft (s := s) (t := s.gft)
  have hself : ({ s with gft := s.gft } : FileState) = s := rfl
  rw [hself] at h
  rw [h]

/-- `page_cache_reserve_anonymous` does not look at the lists. -/
theorem reserveAnonymous_shown : pageCacheReserveAnonymous (c.shown xs) =
    (c.reserveAnonymous.1.shown xs, c.reserveAnonymous.2) := by
  have h := reserveAnonymous_gft (s := c.file) (t := (c.shown xs).gft)
  have hfile : ({ c.file with gft := (c.shown xs).gft } : FileState) = c.shown xs := rfl
  rw [hfile] at h
  rw [h]
  unfold LinkedCache.reserveAnonymous
  dsimp only
  rw [shown_reserved _ reserveAnonymous_keeps_gft]

/-- `page_cache_release_anonymous` does not look at the lists. -/
theorem releaseAnonymous_shown (a : Nat) :
    pageCacheReleaseAnonymous (c.shown xs) a = (c.releaseAnonymous a).shown xs := by
  unfold LinkedCache.releaseAnonymous pageCacheReleaseAnonymous
  have hindex : pageCacheIndexByAddr (c.shown xs) a = pageCacheIndexByAddr c.file a := rfl
  have hnum : pageCacheNumBuffers (c.shown xs) = pageCacheNumBuffers c.file := rfl
  rw [hindex, hnum]
  by_cases hout : pageCacheIndexByAddr c.file a ≥ pageCacheNumBuffers c.file
  · rw [if_pos hout, if_pos hout]
  · rw [if_neg hout, if_neg hout]
    rfl

/-- `page_cache_reserve_buffer` on the nodes and on the lists of their elements. -/
theorem reserveBuffer_shown {a : Nat} (h : LinkedOk c xs) (hnode : ∀ g', node ∉ xs g')
    (haddr : 0 < node ∧ node < 4294967296)
    (hret : c.reserveBuffer g page node = .ret (c', a)) :
    ∃ xs', LinkedOk c' xs' ∧
      pageCacheReserveBuffer (c.shown xs) g page = .ret (c'.shown xs', a) := by
  obtain ⟨d, addr, hanon⟩ : ∃ d addr, c.reserveAnonymous = (d, addr) := ⟨_, _, rfl⟩
  have hshown : pageCacheReserveAnonymous (c.shown xs) = (d.shown xs, addr) := by
    rw [reserveAnonymous_shown, hanon]
  have hd : LinkedOk d xs := by
    have heq : d = c.reserveAnonymous.1 := by rw [hanon]
    rw [heq]
    exact h.file _
  unfold LinkedCache.reserveBuffer at hret
  unfold pageCacheReserveBuffer
  rw [hanon] at hret
  rw [hshown]
  cases addr with
  | zero =>
    cases hret
    exact ⟨xs, hd, rfl⟩
  | succ k =>
    cases he : gftGet d.file g with
    | none =>
      simp only [he] at hret
      cases hret
    | some e =>
      -- the list operations do not touch the cache, so both sides compute one index
      have hindex : pageCacheIndexByAddr (d.shown xs) (k + 1) =
          pageCacheIndexByAddr d.file (k + 1) := rfl
      have hget : gftGet (d.shown xs) g =
          some { e with pages := (xs g).map d.nodes.data } := by
        unfold gftGet at he ⊢
        rw [shown_getElem, he]
        rfl
      simp only [he] at hret
      simp only [hget, hindex]
      rcases listInsertBack_spec (x := (⟨page, pageCacheIndexByAddr d.file (k + 1), false⟩ :
        PageInfo)) (hd.holds g) (hnode g) haddr with ⟨m, l, heq, hold, hdata, hnext⟩
      rw [heq] at hret
      cases hret
      -- the new node is in no list, so the pages of every file stay
      have hkeep : ∀ i, ∀ a ∈ xs i, m.data a = d.nodes.data a := by
        intro i a ha
        have hne : a ≠ node := fun han => hnode i (han ▸ ha)
        rw [hdata, Function.update_of_ne hne]
      refine ⟨Function.update xs g (xs g ++ [node]), ?_, ?_⟩
      · refine hd.update rfl hold ?_ ?_
        · intro i hi a ha
          have hne : a ≠ node := fun han => hnode i (han ▸ ha)
          exact hnext a (hd.apart i g hi a ha) hne
        · intro a ha
          rcases List.mem_append.mp ha with hmem | hnew
          · exact Or.inl hmem
          · rw [List.mem_singleton.mp hnew]
            exact Or.inr hnode
      · have hupd : LinkedCache.shown ⟨d.file, m, Function.update d.lists g l⟩
            (Function.update xs g (xs g ++ [node])) = (d.shown xs).modifyPages g fun pages =>
              pages ++ [⟨page, pageCacheIndexByAddr d.file (k + 1), false⟩] := by
          apply shown_update
          · rfl
          · exact fun i _ => hkeep i
          · rw [List.map_append, List.map_congr_left (hkeep g), List.map_singleton]
            dsimp only
            rw [hdata, Function.update_self]
        rw [← hupd]

/-! ## Releasing a page -/

/-- The loop of `page_cache_release_buffer` stops before the first later node with the page. -/
theorem findPrevFrom_spec {m : SlNodes PageInfo} {as : List Nat} {x : Nat} (page : Nat)
    (h : Seg m.next x (x :: as) 0) (hpos : ∀ y ∈ as, 0 < y) :
    (findPrevFrom m page (as.length + 1) x = 0 ∧ ∀ y ∈ as, (m.data y).page ≠ page) ∨
      ∃ u p t v, findPrevFrom m page (as.length + 1) x = p ∧ x :: as = u ++ p :: t :: v ∧
        (m.data t).page = page ∧ ∀ y ∈ (u ++ [p]).tail, (m.data y).page ≠ page := by
  induction as generalizing x with
  | nil =>
    left
    have hend : m.next x = 0 := h.2
    refine ⟨?_, fun y hy => by cases hy⟩
    rw [List.length_nil, findPrevFrom, if_pos hend]
  | cons t v ih =>
    have hnext : m.next x = t := h.2.1
    have ht := hpos t List.mem_cons_self
    rw [List.length_cons, findPrevFrom, hnext, if_neg (by omega)]
    by_cases hpage : (m.data t).page = page
    · right
      rw [if_pos hpage]
      refine ⟨[], x, t, v, rfl, rfl, hpage, ?_⟩
      intro y hy
      cases hy
    · rw [if_neg hpage]
      have hseg : Seg m.next t (t :: v) 0 := ⟨rfl, h.2.2⟩
      rcases ih hseg (fun y hy => hpos y (List.mem_cons_of_mem t hy)) with
        ⟨hzero, hnone⟩ | ⟨u, p, t', v', hp, heq, hpage', hnone⟩
      · left
        refine ⟨hzero, ?_⟩
        intro y hy
        rcases List.mem_cons.mp hy with rfl | hy
        · exact hpage
        · exact hnone y hy
      · right
        refine ⟨x :: u, p, t', v', hp, by rw [heq]; rfl, hpage', ?_⟩
        intro y hy
        -- the nodes before the found one are `t` and those after it
        have hsplit : (x :: u ++ [p]).tail = u ++ [p] := rfl
        rw [hsplit] at hy
        cases u with
        | nil =>
          have hpt : t = p := by
            simpa using (List.cons.inj heq).1
          rw [List.nil_append, List.mem_singleton] at hy
          rw [hy, ← hpt]
          exact hpage
        | cons z u =>
          have hzt : t = z := (List.cons.inj heq).1
          rcases List.mem_cons.mp hy with rfl | hy
          · rw [← hzt]
            exact hpage
          · exact hnone y hy

/-- What the middle part does to the nodes and to the list of their elements. -/
theorem unlinkPage_spec {x : Nat} {as : List Nat} (page : Nat) (h : LinkedOk c xs)
    (hxs : xs g = x :: as) :
    (c.unlinkPage g page = (c, 4294967295) ∧
        ((xs g).map c.nodes.data).find? (fun i => i.page == page) = none) ∨
      ∃ c' xs' i, c.unlinkPage g page = (c', i.bufferIndex) ∧
        ((xs g).map c.nodes.data).find? (fun i => i.page == page) = some i ∧
        c'.file = c.file ∧ LinkedOk c' xs' ∧ c'.shown xs' =
          (c.shown xs).modifyPages g fun pages => pages.eraseP fun i => i.page == page := by
  have hg := h.holds g
  rw [hxs] at hg
  have hx : (c.lists g).head = x := hg.seg.1
  by_cases hfirst : (c.nodes.data x).page = page
  · -- the page is the first one
    right
    have heq : c.unlinkPage g page =
        ({ c with lists := Function.update c.lists g (listRemoveFront c.nodes (c.lists g)) },
          (c.nodes.data x).bufferIndex) := by
      unfold LinkedCache.unlinkPage
      dsimp only
      rw [hx, if_pos hfirst]
    refine ⟨_, Function.update xs g as, _, heq, ?_, rfl, ?_, ?_⟩
    · rw [hxs, List.map_cons, List.find?_cons, beq_iff_eq.mpr hfirst]
    · refine h.update rfl (listRemoveFront_spec hg) (fun _ _ _ _ => rfl) ?_
      intro a ha
      left
      rw [hxs]
      exact List.mem_cons_of_mem x ha
    · apply shown_update
      · rfl
      · exact fun _ _ _ _ => rfl
      · rw [hxs, List.map_cons, List.eraseP_cons, beq_iff_eq.mpr hfirst]
        rfl
  · have hseg : Seg c.nodes.next x (x :: as) 0 := by
      have hs := hg.seg
      rwa [hx] at hs
    have hpos : ∀ y ∈ as, 0 < y := fun y hy => (hg.addr y (List.mem_cons_of_mem x hy)).1
    have hcount : (c.lists g).count = as.length + 1 := hg.count
    rcases findPrevFrom_spec page hseg hpos with
      ⟨hzero, hnone⟩ | ⟨u, p, t, v, hprev, hsplit, hpage, hbefore⟩
    · -- the page is not there
      left
      constructor
      · unfold LinkedCache.unlinkPage
        dsimp only
        rw [hx, if_neg hfirst, hcount, hzero, if_pos rfl]
      · rw [hxs, List.find?_eq_none]
        intro i hi
        rcases List.mem_map.mp hi with ⟨y, hy, rfl⟩
        rcases List.mem_cons.mp hy with rfl | hy
        · simpa using hfirst
        · simpa using hnone y hy
    · -- the page is a later one
      right
      have hp : p ≠ 0 := by
        have hmem : p ∈ x :: as := by
          rw [hsplit]
          simp
        have := (hg.addr p hmem).1
        omega
      have hup : ∀ i ∈ (u ++ [p]).map c.nodes.data, ¬(i.page == page) = true := by
        intro i hi
        rcases List.mem_map.mp hi with ⟨y, hy, rfl⟩
        cases u with
        | nil =>
          have hxp : x = p := (List.cons.inj hsplit).1
          rw [List.nil_append, List.mem_singleton] at hy
          rw [hy, ← hxp]
          simpa using hfirst
        | cons z u =>
          have hxz : x = z := (List.cons.inj hsplit).1
          rcases List.mem_cons.mp hy with rfl | hy
          · rw [← hxz]
            simpa using hfirst
          · simpa using hbefore y hy
      rw [hsplit] at hg
      rcases listRemove_spec hg with ⟨m, l, hrem, hold, hdata, hnext⟩
      have ht : c.nodes.next p = t := by
        rcases seg_append.mp hg.seg with ⟨_, _, _, ht, _⟩
        exact ht
      have heq : c.unlinkPage g page =
          ({ c with nodes := m, lists := Function.update c.lists g l },
            (c.nodes.data t).bufferIndex) := by
        unfold LinkedCache.unlinkPage
        dsimp only
        rw [hx, if_neg hfirst, hcount, hprev, if_neg hp, hrem, ht]
      have hmap : (xs g).map c.nodes.data = (u ++ [p]).map c.nodes.data ++
          c.nodes.data t :: v.map c.nodes.data := by
        rw [hxs, hsplit]
        simp
      refine ⟨_, Function.update xs g (u ++ p :: v), _, heq, ?_, rfl, ?_, ?_⟩
      · rw [hmap, List.find?_append, List.find?_eq_none.mpr hup, List.find?_cons,
          beq_iff_eq.mpr hpage]
        rfl
      · refine h.update rfl hold ?_ ?_
        · intro i hi a ha
          apply hnext
          intro hap
          apply h.apart i g hi a ha
          rw [hap, hxs, hsplit]
          simp
        · intro a ha
          left
          rw [hxs, hsplit]
          rcases List.mem_append.mp ha with hau | hav
          · exact List.mem_append_left _ hau
          · apply List.mem_append_right
            rcases List.mem_cons.mp hav with rfl | hav
            · exact List.mem_cons_self
            · exact List.mem_cons_of_mem _ (List.mem_cons_of_mem t hav)
      · apply shown_update
        · rfl
        · intro i _ a _
          dsimp only
          rw [hdata]
        · rw [hmap, List.eraseP_append_right _ hup, List.eraseP_cons, beq_iff_eq.mpr hpage]
          dsimp only
          rw [hdata]
          simp

/-- `page_cache_release_buffer` on the nodes and on the lists of their elements. -/
theorem releaseBuffer_shown {r : Except PageCacheError Unit} (h : LinkedOk c xs)
    (hindex : ∀ i ∈ (xs g).map c.nodes.data, i.bufferIndex ≠ 4294967295)
    (hret : c.releaseBuffer g page = .ret (c', r)) :
    ∃ xs', LinkedOk c' xs' ∧
      pageCacheReleaseBuffer (c.shown xs) g page = .ret (c'.shown xs', r) := by
  have hg := h.holds g
  unfold LinkedCache.releaseBuffer at hret
  unfold pageCacheReleaseBuffer
  rw [shown_getElem]
  cases he : c.file.gft[g]? with
  | none =>
    rw [he] at hret
    cases hret
  | some e =>
    rw [he] at hret
    dsimp only [Option.map_some] at hret ⊢
    -- the source tests the head before it searches
    cases hxs : xs g with
    | nil =>
      rw [hxs] at hg
      have hhead : (c.lists g).head = 0 := hg.seg
      rw [if_pos hhead] at hret
      cases hret
      exact ⟨xs, h, rfl⟩
    | cons x as =>
      have hx : (c.lists g).head = x := by
        rw [hxs] at hg
        exact hg.seg.1
      have hpos := (hg.addr x (by rw [hxs]; exact List.mem_cons_self)).1
      rw [hx, if_neg (by omega)] at hret
      rw [← hxs, if_neg (by rw [hxs]; simp)]
      rcases unlinkPage_spec page h hxs with
        ⟨heq, hfind⟩ | ⟨d, ys, i, heq, hfind, hfile, hd, hshown⟩
      · simp only [heq, if_true] at hret
        cases hret
        rw [hfind]
        exact ⟨xs, h, rfl⟩
      · have hi := hindex i (List.mem_of_find?_eq_some hfind)
        simp only [heq, if_neg hi] at hret
        cases hret
        rw [hfind]
        dsimp only
        rw [← hshown, releaseAnonymous_shown]
        exact ⟨ys, hd.file _, rfl⟩

end Shown

end MeOS
