import MeOS.File
import MeOS.FileTable
import MeOS.PageCacheInv

/-! # `file.cpp`: writing dirty pages back

`sync_file` goes over the pages of its range and hands those that are cached and
dirty to the driver. The device offset it gives is that of the first page of the
range, for every page. So the pages it flushes are in their place exactly as far
as they are the first page of the range.

The results of `vfs_write_file` come from outside: `answers` lists them for the
calls still to come, one for each write.
-/

namespace MeOS

open Bytes

/-! ## The functions -/

/-- `page_cache_is_page_dirty`. -/
def pageCacheIsPageDirty (s : FileState) (gfd page : Nat) : Bool :=
  match pageCacheGetFinfo s gfd page with
  | .error _ => false
  | .ok i => i.dirty

/-- A call of `fs_write`; `content` is what it finds behind the buffer address. -/
structure DeviceWrite where
  fd : Nat
  file : Nat
  start : Nat
  count : Nat
  content : Mem

/-- Why `sync_file` does not return `ERROR_OK`. -/
inductive SyncError where
  /-- `OPEN_FILE_OUT_OF_BOUNDS`, from `lft_get`. -/
  | outOfBounds
  | file (e : FileError)
  /-- The driver has not taken the whole page. -/
  | refused
  | cache (e : PageCacheError)
deriving Repr, DecidableEq

/-- What `sync_file` leaves, and its writes in order. -/
structure Synced where
  state : FileState
  result : Except SyncError Unit
  writes : List DeviceWrite

/-- The page loop of `sync_file`, in front of page `pg`. -/
def syncPages (answers : Nat → Nat) (gfd node startPage endPage : Nat) :
    Nat → Nat → List DeviceWrite → FileState → Outcome Synced
  | 0, _, _, _ => .running
  | fuel + 1, pg, writes, s =>
    if pg ≤ endPage then
      let cache := pageCacheGetBuffer s gfd pg
      -- assume page not loaded
      if cache = 0 then
        syncPages answers gfd node startPage endPage fuel (add32 pg 1) writes s
      else if pageCacheIsPageDirty s gfd pg = false then
        syncPages answers gfd node startPage endPage fuel (add32 pg 1) writes s
      else
        let write : DeviceWrite :=
          ⟨gfd, node, mul32 startPage pageCacheSize, pageCacheSize, fun k => s.mem (cache + k)⟩
        if answers writes.length ≠ pageCacheSize then
          .ret ⟨s, .error .refused, writes ++ [write]⟩
        else
          match pageCacheMakeDirty s gfd pg false with
          | (s, .error e) => .ret ⟨s, .error (.cache e), writes ++ [write]⟩
          | (s, .ok ()) =>
            syncPages answers gfd node startPage endPage fuel (add32 pg 1) (writes ++ [write]) s
    else .ret ⟨s, .ok (), writes⟩

/-- `sync_file`. -/
def syncFile (fuel : Nat) (answers : Nat → Nat) (s : FileState) (lft : Vector Lfe)
    (fd startPage endPage : Nat) : Outcome Synced :=
  match lftGet lft fd with
  | none => .ret ⟨s, .error .outOfBounds, []⟩
  | some localEntry =>
    let globalFd := localEntry.gfd
    match gftGet s globalFd with
    | none => .ret ⟨s, .error (.file .gfdNotFound), []⟩
    | some entry =>
      if gfeIsInvalid entry then
        .ret ⟨s, .error (.file .gfdNotFound), []⟩
      else if chkBit localEntry.flags (vfsCapWrite ||| vfsCapCache) = false then
        .ret ⟨s, .error (.file .capabilitiesError), []⟩
      else
        -- convention to sync the whole file
        let (startPage, endPage) :=
          if endPage < startPage then
            (0, ceilDivision (s.nodes entry.fileNode).fileLength pageCacheSize)
          else (startPage, endPage)
        syncPages answers globalFd entry.fileNode startPage endPage fuel startPage [] s

/-! ## Clean pages -/

/-- The pages are marked clean, one after another. -/
def FileState.cleaned (s : FileState) (g : Nat) (pages : List Nat) : FileState :=
  pages.foldl (fun s p => s.modifyPages g (setDirty p false)) s

/-- The cached and dirty pages among `p`, …, `p + n - 1`, in ascending order. -/
def dirtyPages (s : FileState) (g p n : Nat) : List Nat :=
  (List.range' p n).filter fun q => pageCacheIsPageDirty s g q

section Clean

variable {s : FileState} {g p q n : Nat} {d : Bool} {pages : List Nat}

/-- The entry that is found for a page, after the flag of another or the same
page has been set. -/
theorem find?_setDirty (infos : List PageInfo) :
    (setDirty p d infos).find? (fun i => i.page == q) =
      (infos.find? fun i => i.page == q).map
        fun i => if q = p then { i with dirty := d } else i := by
  induction infos with
  | nil => rfl
  | cons i rest ih =>
    unfold setDirty
    by_cases hp : i.page = p
    · by_cases hq : i.page = q
      · have hqp : q = p := by omega
        simp [hp, hqp]
      · have hqp : ¬ q = p := by omega
        simp [hp, Ne.symm hqp, hqp]
    · by_cases hq : i.page = q
      · have hqp : ¬ q = p := by omega
        simp [hq, hqp]
      · simp [hp, hq, ih]

theorem getFinfo_setDirty :
    pageCacheGetFinfo (s.modifyPages g (setDirty p d)) g q =
      (pageCacheGetFinfo s g q).map fun i => if q = p then { i with dirty := d } else i := by
  unfold pageCacheGetFinfo
  cases he : s.gft[g]? with
  | none => simp [FileState.modifyPages, he, Except.map]
  | some e =>
    rw [modifyPages_same he]
    by_cases hnode : e.fileNode = 0
    · simp [hnode, Except.map]
    · simp only [if_neg hnode, find?_setDirty]
      cases e.pages.find? fun i => i.page == q with
      | none => rfl
      | some i => rfl

/-- Marking a page moves no page. -/
theorem getBuffer_setDirty :
    pageCacheGetBuffer (s.modifyPages g (setDirty p d)) g q = pageCacheGetBuffer s g q := by
  unfold pageCacheGetBuffer
  rw [getFinfo_setDirty]
  cases pageCacheGetFinfo s g q with
  | error e => rfl
  | ok i =>
    by_cases hq : q = p
    · simp only [Except.map, if_pos hq]
      rfl
    · simp only [Except.map, if_neg hq]
      rfl

theorem isPageDirty_setDirty :
    pageCacheIsPageDirty (s.modifyPages g (setDirty p false)) g q =
      (pageCacheIsPageDirty s g q && q != p) := by
  unfold pageCacheIsPageDirty
  rw [getFinfo_setDirty]
  cases pageCacheGetFinfo s g q with
  | error e => rfl
  | ok i =>
    by_cases hq : q = p
    · simp [Except.map, hq]
    · simp [Except.map, hq]

/-- A page is dirty behind the marking if it was before and has not been marked. -/
theorem isPageDirty_cleaned :
    pageCacheIsPageDirty (s.cleaned g pages) g q =
      (pageCacheIsPageDirty s g q && !pages.contains q) := by
  induction pages generalizing s with
  | nil => simp [FileState.cleaned]
  | cons p rest ih =>
    have hstep : s.cleaned g (p :: rest) =
        (s.modifyPages g (setDirty p false)).cleaned g rest := rfl
    rw [hstep, ih, isPageDirty_setDirty, List.contains_cons]
    by_cases hq : q = p
    · simp [hq]
    · simp [bne, Bool.and_assoc]

/-- A dirty page is cached. -/
theorem CacheInv.buffer_of_dirty (h : CacheInv s) (hg : OpenFile s g)
    (hd : pageCacheIsPageDirty s g q = true) : pageCacheGetBuffer s g q ≠ 0 := by
  intro hzero
  have hno := (h.getBuffer_eq_zero hg).mp hzero
  unfold pageCacheIsPageDirty pageCacheGetFinfo at hd
  obtain ⟨e, he, hnode⟩ := hg
  simp only [he, if_neg hnode] at hd
  cases hfind : e.pages.find? fun i => i.page == q with
  | none =>
    rw [hfind] at hd
    cases hd
  | some i =>
    obtain ⟨page, idx, d⟩ := i
    have hpage : page = q := by simpa using List.find?_some hfind
    exact hno ⟨idx, e, d, he, hpage ▸ List.mem_of_find?_eq_some hfind⟩

theorem mem_dirtyPages :
    q ∈ dirtyPages s g p n ↔ (p ≤ q ∧ q < p + n) ∧ pageCacheIsPageDirty s g q = true := by
  rw [dirtyPages, List.mem_filter, List.mem_range'_1]

theorem dirtyPages_nodup : (dirtyPages s g p n).Nodup := (List.nodup_range' 1).filter _

theorem dirtyPages_succ : dirtyPages s g p (n + 1) =
    if pageCacheIsPageDirty s g p then p :: dirtyPages s g (p + 1) n
    else dirtyPages s g (p + 1) n := by
  rw [dirtyPages, List.range'_succ, List.filter_cons]
  rfl

/-- Marking a page leaves the later ones as they are. -/
theorem dirtyPages_setDirty (hp : q < p) :
    dirtyPages (s.modifyPages g (setDirty q false)) g p n = dirtyPages s g p n := by
  refine List.filter_congr fun r hr => ?_
  have hle := (List.mem_range'_1.mp hr).1
  have hne : r ≠ q := by omega
  rw [isPageDirty_setDirty]
  simp [hne]

end Clean

/-! ## The loop -/

/-- The write of page `pg` at its own device offset. -/
def homeWrite (s : FileState) (g node pg : Nat) : DeviceWrite :=
  ⟨g, node, pg * pageCacheSize, pageCacheSize, fun k => s.mem (pageCacheGetBuffer s g pg + k)⟩

/-- The write that `sync_file` does for page `pg` of a range that starts at `first`. -/
def syncWrite (s : FileState) (g node first pg : Nat) : DeviceWrite :=
  { homeWrite s g node pg with start := mul32 first pageCacheSize }

section Loop

variable {s : FileState} {g node first last pg fuel n : Nat} {answers : Nat → Nat}
  {writes : List DeviceWrite}

theorem CacheInv.setDirty (h : CacheInv s) (hg : OpenFile s g) (p : Nat) (d : Bool) :
    CacheInv (s.modifyPages g (setDirty p d)) := by
  obtain ⟨e, he, _⟩ := hg
  refine h.of_holds fun g' p' i' => ?_
  refine (holds_modifyPages he g' p' i').trans ?_
  by_cases hgg : g' = g
  · subst hgg
    rw [if_pos rfl, mem_setDirty, holds_iff he]
  · rw [if_neg hgg]

/-- A page that is not cached or not dirty is passed over. -/
theorem syncPages_passed (hle : pg ≤ last) (hd : pageCacheIsPageDirty s g pg = false) :
    syncPages answers g node first last (fuel + 1) pg writes s =
      syncPages answers g node first last fuel (add32 pg 1) writes s := by
  simp only [syncPages, if_pos hle, hd, if_true, ite_self]

/-- A dirty page is written, unless the driver refuses it, and clean then. -/
theorem syncPages_dirty (h : CacheInv s) (hg : OpenFile s g) (hle : pg ≤ last)
    (hd : pageCacheIsPageDirty s g pg = true) :
    syncPages answers g node first last (fuel + 1) pg writes s =
      if answers writes.length ≠ pageCacheSize then
        .ret ⟨s, .error .refused, writes ++ [syncWrite s g node first pg]⟩
      else
        syncPages answers g node first last fuel (add32 pg 1)
          (writes ++ [syncWrite s g node first pg]) (s.modifyPages g (MeOS.setDirty pg false)) := by
  have hcache := h.buffer_of_dirty hg hd
  have hcached : Cached s g pg := by
    by_contra hno
    exact hcache ((h.getBuffer_eq_zero hg).mpr hno)
  obtain ⟨c, hc⟩ := hcached
  have hmark := (makeDirty_holds (d := false) hg hc).1
  simp only [syncPages, if_pos hle, if_neg hcache, hd, Bool.true_eq_false, if_false, hmark]
  rfl

variable (node first answers writes) in
/-- How the loop ends, in front of page `pg` with `n` pages left: all dirty pages
are written and clean, or those in front of one that the driver refuses. -/
theorem syncPages_run (h : CacheInv s) (hg : OpenFile s g) (hn : pg + n = last + 1)
    (hlast : last < 4294967295) (hfuel : n < fuel) :
    ((∀ k < (dirtyPages s g pg n).length, answers (writes.length + k) = pageCacheSize) ∧
      syncPages answers g node first last fuel pg writes s =
        .ret ⟨s.cleaned g (dirtyPages s g pg n), .ok (),
          writes ++ (dirtyPages s g pg n).map (syncWrite s g node first)⟩) ∨
    ∃ pre q post, dirtyPages s g pg n = pre ++ q :: post ∧
      (∀ k < pre.length, answers (writes.length + k) = pageCacheSize) ∧
      answers (writes.length + pre.length) ≠ pageCacheSize ∧
      syncPages answers g node first last fuel pg writes s =
        .ret ⟨s.cleaned g pre, .error .refused,
          writes ++ (pre ++ [q]).map (syncWrite s g node first)⟩ := by
  induction n generalizing s pg fuel writes with
  | zero =>
    obtain ⟨fuel, rfl⟩ : ∃ f, fuel = f + 1 := ⟨fuel - 1, by omega⟩
    have hend : ¬ pg ≤ last := by omega
    refine Or.inl ⟨fun k hk => absurd hk (Nat.not_lt_zero _), ?_⟩
    simp only [syncPages, if_neg hend]
    simp [dirtyPages, FileState.cleaned]
  | succ n ih =>
    obtain ⟨fuel, rfl⟩ : ∃ f, fuel = f + 1 := ⟨fuel - 1, by omega⟩
    have hle : pg ≤ last := by omega
    have hnext : add32 pg 1 = pg + 1 := add32_eq (by omega)
    rw [dirtyPages_succ]
    by_cases hd : pageCacheIsPageDirty s g pg = true
    · rw [if_pos hd, syncPages_dirty h hg hle hd, hnext]
      by_cases htaken : answers writes.length = pageCacheSize
      · -- the driver takes the page
        rw [if_neg (not_not.mpr htaken)]
        have hn' : pg + 1 + n = last + 1 := by omega
        have hfuel' : n < fuel := by omega
        have hrest := ih (writes ++ [syncWrite s g node first pg]) (h.setDirty hg pg false)
          (openFile_modifyPages.mpr hg) hn' hfuel'
        rw [dirtyPages_setDirty (by omega), List.length_append, List.length_singleton] at hrest
        have hsame : syncWrite (s.modifyPages g (MeOS.setDirty pg false)) g node first =
            syncWrite s g node first := by
          funext q
          simp only [syncWrite, homeWrite, getBuffer_setDirty, modifyPages_mem]
        have hshift : ∀ k, writes.length + 1 + k = writes.length + (k + 1) := fun k => by omega
        simp only [hsame, hshift, List.append_assoc] at hrest
        have hfirst : ∀ m, (∀ k < m, answers (writes.length + (k + 1)) = pageCacheSize) →
            ∀ k < m + 1, answers (writes.length + k) = pageCacheSize := by
          intro m hm k hk
          cases k with
          | zero => exact htaken
          | succ k => exact hm k (by omega)
        rcases hrest with ⟨hall, hrun⟩ | ⟨pre, q, post, hsplit, hall, hno, hrun⟩
        · exact Or.inl ⟨hfirst _ hall, hrun⟩
        · refine Or.inr ⟨pg :: pre, q, post, ?_, hfirst _ hall, hno, hrun⟩
          rw [hsplit, List.cons_append]
      · rw [if_pos htaken]
        exact Or.inr ⟨[], pg, dirtyPages s g (pg + 1) n, rfl,
          fun k hk => absurd hk (Nat.not_lt_zero _), htaken, rfl⟩
    · have hclean : pageCacheIsPageDirty s g pg = false := by simpa using hd
      rw [if_neg hd, syncPages_passed hle hclean, hnext]
      exact ih writes h hg (by omega) (by omega)

end Loop

/-! ## In its own place -/

/-- The driver has taken page `pg` at its own offset. -/
def WrittenHome (s : FileState) (g node : Nat) (answers : Nat → Nat) (r : Synced) (pg : Nat) :
    Prop :=
  ∃ k, r.writes[k]? = some (homeWrite s g node pg) ∧ answers k = pageCacheSize

/-- What a sync of the pages `first`, …, `last` is meant to leave. -/
structure SyncLaw (s : FileState) (g node first last : Nat) (answers : Nat → Nat) (r : Synced) :
    Prop where
  once : r.result = .ok () → ∀ pg, first ≤ pg → pg ≤ last → pageCacheIsPageDirty s g pg = true →
    r.writes.filter (fun w => w.start == pg * pageCacheSize) = [homeWrite s g node pg]
  clean : r.result = .ok () → ∀ pg, first ≤ pg → pg ≤ last →
    pageCacheIsPageDirty r.state g pg = false
  nothingElse : r.result = .ok () → ∀ w ∈ r.writes, ∃ pg, first ≤ pg ∧ pg ≤ last ∧
    pageCacheIsPageDirty s g pg = true ∧ w = homeWrite s g node pg
  pending : r.result ≠ .ok () → ∀ pg, pageCacheIsPageDirty s g pg = true →
    pageCacheIsPageDirty r.state g pg = true ∨ WrittenHome s g node answers r pg

/-- The condition on the cache and the driver: of the dirty pages in ascending
order, those that the driver takes before it refuses one are the first page of
the range, and its offset is a word. -/
def SyncsHome (s : FileState) (g first last : Nat) (answers : Nat → Nat) : Prop :=
  ∀ k pg, (dirtyPages s g first (last + 1 - first))[k]? = some pg →
    (∀ j ≤ k, answers j = pageCacheSize) → pg = first ∧ first * pageCacheSize < 4294967296

section Home

variable {s : FileState} {g node first last pg k fd fuel : Nat} {answers : Nat → Nat}
  {lft : Vector Lfe} {le : Lfe} {e : Gfe} {r : Synced} {pages : List Nat}

/-- A write of the code is in its place for the first page only. -/
theorem homeWrite_eq_syncWrite {q : Nat} (hle : first ≤ pg)
    (heq : homeWrite s g node pg = syncWrite s g node first q) :
    pg = first ∧ first * pageCacheSize < 4294967296 := by
  have hstart : pg * pageCacheSize = mul32 first pageCacheSize := congrArg DeviceWrite.start heq
  simp only [mul32, pageCacheSize] at *
  have hmod := Nat.mod_le (first * 4096) 4294967296
  have hlt := Nat.mod_lt (first * 4096) (show 0 < 4294967296 by decide)
  omega

theorem syncWrite_first (hlt : first * pageCacheSize < 4294967296) :
    syncWrite s g node first first = homeWrite s g node first := by
  unfold syncWrite
  rw [mul32_eq hlt]
  rfl

/-- Pages that are all the first one are at most one page. -/
theorem eq_singleton_of_nodup (hnodup : pages.Nodup) (hmem : pg ∈ pages)
    (hall : ∀ q ∈ pages, q = pg) : pages = [pg] := by
  cases pages with
  | nil => cases hmem
  | cons a rest =>
    obtain rfl := hall a List.mem_cons_self
    have hrest : rest = [] := by
      refine List.eq_nil_iff_forall_not_mem.mpr fun q hq => ?_
      obtain rfl := hall q (List.mem_cons_of_mem _ hq)
      exact (List.nodup_cons.mp hnodup).1 hq
    rw [hrest]

/-- A sync that the driver does not refuse. -/
theorem syncLaw_ok
    (hall : ∀ k < (dirtyPages s g first (last + 1 - first)).length, answers k = pageCacheSize)
    (hr : r = ⟨s.cleaned g (dirtyPages s g first (last + 1 - first)), .ok (),
      (dirtyPages s g first (last + 1 - first)).map (syncWrite s g node first)⟩) :
    SyncLaw s g node first last answers r ↔ SyncsHome s g first last answers := by
  have hmem : ∀ q, q ∈ dirtyPages s g first (last + 1 - first) ↔
      first ≤ q ∧ q ≤ last ∧ pageCacheIsPageDirty s g q = true := by
    intro q
    rw [mem_dirtyPages]
    constructor
    · rintro ⟨⟨h₁, h₂⟩, hd⟩
      exact ⟨h₁, by omega, hd⟩
    · rintro ⟨h₁, h₂, hd⟩
      exact ⟨⟨h₁, by omega⟩, hd⟩
  -- a page is listed once, so it is written once
  have hnodup : (dirtyPages s g first (last + 1 - first)).Nodup := dirtyPages_nodup
  subst hr
  constructor
  · intro hlaw k pg hk _
    obtain ⟨hlo, hhi, hd⟩ := (hmem pg).mp (List.mem_of_getElem? hk)
    have honce := hlaw.once rfl pg hlo hhi hd
    have hwrite : homeWrite s g node pg ∈
        (dirtyPages s g first (last + 1 - first)).map (syncWrite s g node first) :=
      (List.mem_filter.mp (honce ▸ List.mem_singleton_self _)).1
    obtain ⟨q, _, hq⟩ := List.mem_map.mp hwrite
    exact homeWrite_eq_syncWrite hlo hq.symm
  · intro hhome
    -- every write goes to the first page's offset: at most one page is dirty, and it is the first
    have hfirst : ∀ q ∈ dirtyPages s g first (last + 1 - first),
        q = first ∧ first * pageCacheSize < 4294967296 := by
      intro q hq
      obtain ⟨k, hk⟩ := List.mem_iff_getElem?.mp hq
      have hlt : k < (dirtyPages s g first (last + 1 - first)).length :=
        (List.getElem?_eq_some_iff.mp hk).1
      exact hhome k q hk fun j hj => hall j (by omega)
    refine ⟨?_, ?_, ?_, fun hno => absurd rfl hno⟩
    · intro _ pg hlo hhi hd
      have hin := (hmem pg).mpr ⟨hlo, hhi, hd⟩
      obtain ⟨rfl, hlt⟩ := hfirst pg hin
      have hone := eq_singleton_of_nodup hnodup hin fun q hq => (hfirst q hq).1
      rw [hone, List.map_singleton, syncWrite_first hlt]
      simp [homeWrite]
    · intro _ pg hlo hhi
      rw [isPageDirty_cleaned]
      by_cases hd : pageCacheIsPageDirty s g pg = true
      · simp [(hmem pg).mpr ⟨hlo, hhi, hd⟩]
      · simp [hd]
    · intro _ w hw
      obtain ⟨q, hq, rfl⟩ := List.mem_map.mp hw
      obtain ⟨hlo, hhi, hd⟩ := (hmem q).mp hq
      obtain ⟨rfl, hlt⟩ := hfirst q hq
      exact ⟨q, hlo, hhi, hd, syncWrite_first hlt⟩

/-- A sync that the driver refuses behind the pages `pre`. -/
theorem syncLaw_refused {pre post : List Nat} {q : Nat}
    (hsplit : dirtyPages s g first (last + 1 - first) = pre ++ q :: post)
    (hall : ∀ k < pre.length, answers k = pageCacheSize)
    (hno : answers pre.length ≠ pageCacheSize)
    (hr : r = ⟨s.cleaned g pre, .error .refused, (pre ++ [q]).map (syncWrite s g node first)⟩) :
    SyncLaw s g node first last answers r ↔ SyncsHome s g first last answers := by
  -- the writes stop at the refused page, so those the driver took are in front of it
  have hpre : ∀ k pg, (∀ j ≤ k, answers j = pageCacheSize) →
      (dirtyPages s g first (last + 1 - first))[k]? = some pg → pre[k]? = some pg := by
    intro k pg htaken hk
    have hlt : k < pre.length := by
      by_contra hge
      exact hno (htaken _ (by omega))
    rwa [hsplit, List.getElem?_append_left hlt] at hk
  subst hr
  constructor
  · intro hlaw k pg hk htaken
    have hin := List.mem_of_getElem? (hpre k pg htaken hk)
    obtain ⟨⟨hlo, _⟩, hd⟩ := mem_dirtyPages.mp (List.mem_of_getElem? hk)
    rcases hlaw.pending (by simp) pg hd with hstill | ⟨j, hj, _⟩
    · rw [isPageDirty_cleaned] at hstill
      simp [hin] at hstill
    · obtain ⟨q', _, hq'⟩ := List.mem_map.mp (List.mem_of_getElem? hj)
      exact homeWrite_eq_syncWrite hlo hq'.symm
  · intro hhome
    have hbad : (Except.error SyncError.refused : Except SyncError Unit) ≠ .ok () := by simp
    refine ⟨fun hok => absurd hok hbad, fun hok => absurd hok hbad, fun hok => absurd hok hbad, ?_⟩
    intro _ pg hd
    by_cases hin : pg ∈ pre
    · obtain ⟨k, hk⟩ := List.mem_iff_getElem?.mp hin
      have hlt : k < pre.length := (List.getElem?_eq_some_iff.mp hk).1
      have hdirty : (dirtyPages s g first (last + 1 - first))[k]? = some pg := by
        rw [hsplit, List.getElem?_append_left hlt]
        exact hk
      obtain ⟨rfl, hword⟩ := hhome k pg hdirty fun j hj => hall j (by omega)
      refine Or.inr ⟨k, ?_, hall k hlt⟩
      show ((pre ++ [q]).map (syncWrite s g node pg))[k]? = _
      rw [List.getElem?_map, List.getElem?_append_left hlt, hk, Option.map_some,
        syncWrite_first hword]
    · refine Or.inl ?_
      rw [isPageDirty_cleaned]
      simp [hd, hin]

/-- A cached file of two pages, both in the cache and dirty. -/
def twoDirty : FileState where
  mem := fun x => if 12288 ≤ x ∧ x < 12291 then 1 else 0
  cache := 4096
  cacheSize := 12288
  gft := [⟨1, 1, [⟨0, 0, true⟩, ⟨1, 1, true⟩]⟩]
  nodes := fun _ => ⟨8192⟩
  frames := fun _ => none

/-- Its descriptor 0, open for cached writing. -/
def twoDirtyLft : Vector Lfe := ⟨[⟨12, 0⟩], 1⟩

/-- The second page is written over the first on the device, and counts as clean. -/
theorem syncFile_misplaced : ∃ r, syncFile 3 (fun _ => 4096) twoDirty twoDirtyLft 0 0 1 = .ret r ∧
    r.result = .ok () ∧ r.writes.map (·.start) = [0, 0] ∧
      pageCacheIsPageDirty r.state 0 1 = false ∧
      ¬ SyncLaw twoDirty 0 1 0 1 (fun _ => 4096) r := by
  refine ⟨_, rfl, rfl, by decide, by decide, fun hlaw => ?_⟩
  have honce := hlaw.once rfl 1 (by decide) (by decide) (by decide)
  exact absurd (congrArg List.length honce) (by decide)

theorem twoDirty_inv : CacheInv twoDirty := by
  have hholds : ∀ {g p i}, Holds twoDirty g p i → g = 0 ∧ p = i ∧ i < 2 := by
    rintro g p i ⟨e, d, he, hmem⟩
    rcases g with _ | g
    · obtain rfl : (⟨1, 1, [⟨0, 0, true⟩, ⟨1, 1, true⟩]⟩ : Gfe) = e := Option.some.inj he
      simp only [List.mem_cons, PageInfo.mk.injEq, List.not_mem_nil, or_false] at hmem
      omega
    · simp [twoDirty] at he
  exact
    { base := by decide, size := by decide, nonempty := by decide, few := by decide,
      top := by decide, self := by decide
      cells := by
        intro g p i hh
        obtain ⟨_, _, hlt⟩ := hholds hh
        obtain rfl | rfl : i = 0 ∨ i = 1 := by omega
        · decide
        · decide
      inj := by
        intro g p g' p' i h₁ h₂
        obtain ⟨rfl, rfl, _⟩ := hholds h₁
        obtain ⟨rfl, rfl, _⟩ := hholds h₂
        exact ⟨rfl, rfl⟩
      fn := by
        intro g p i i' h₁ h₂
        obtain ⟨_, rfl, _⟩ := hholds h₁
        obtain ⟨_, rfl, _⟩ := hholds h₂
        rfl }

/-- The range of a descriptor that passes the checks. -/
theorem syncFile_range (hlft : lftGet lft fd = some le) (he : gftGet s le.gfd = some e)
    (hvalid : gfeIsInvalid e = false)
    (hflags : chkBit le.flags (vfsCapWrite ||| vfsCapCache) = true) (hrange : first ≤ last) :
    syncFile fuel answers s lft fd first last =
      syncPages answers le.gfd e.fileNode first last fuel first [] s := by
  have hlt : ¬ last < first := by omega
  simp only [syncFile, hlft, he, hvalid, hflags, if_neg hlt, Bool.false_eq_true,
    Bool.true_eq_false, if_false]

/-- A sync of a cached file ends, and does what it is meant to do exactly when it
flushes the first page of its range only. -/
theorem syncFile_home_iff (answers : Nat → Nat) (h : CacheInv s) (hlft : lftGet lft fd = some le)
    (he : s.gft[le.gfd]? = some e) (hnode : e.fileNode ≠ 0)
    (hflags : chkBit le.flags (vfsCapWrite ||| vfsCapCache) = true) (hrange : first ≤ last)
    (hlast : last < 4294967295) (hfuel : last + 1 - first < fuel) :
    ∃ r, syncFile fuel answers s lft fd first last = .ret r ∧
      (SyncLaw s le.gfd e.fileNode first last answers r ↔
        SyncsHome s le.gfd first last answers) := by
  have hinvalid : gfeIsInvalid e = false := by simpa [gfeIsInvalid] using hnode
  rw [syncFile_range hlft he hinvalid hflags hrange]
  have hn : first + (last + 1 - first) = last + 1 := by omega
  have hrun := syncPages_run e.fileNode first answers [] h ⟨e, he, hnode⟩ hn hlast hfuel
  simp only [List.length_nil, Nat.zero_add, List.nil_append] at hrun
  rcases hrun with ⟨hall, hret⟩ | ⟨pre, q, post, hsplit, hall, hno, hret⟩
  · exact ⟨_, hret, syncLaw_ok hall rfl⟩
  · exact ⟨_, hret, syncLaw_refused hsplit hall hno rfl⟩

theorem syncFile_home_iff_twoDirty :
    ∃ r, syncFile 3 (fun _ => 4096) twoDirty twoDirtyLft 0 0 1 = .ret r ∧
      (SyncLaw twoDirty 0 1 0 1 (fun _ => 4096) r ↔ SyncsHome twoDirty 0 0 1 fun _ => 4096) :=
  have hlft : lftGet twoDirtyLft 0 = some ⟨12, 0⟩ := rfl
  syncFile_home_iff (e := ⟨1, 1, [⟨0, 0, true⟩, ⟨1, 1, true⟩]⟩) (fun _ => 4096)
    twoDirty_inv hlft rfl (by decide) (by decide) (by decide) (by decide) (by decide)

end Home

end MeOS
