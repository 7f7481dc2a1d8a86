import MeOS.CachedWrite
import MeOS.FatFiles
import MeOS.SyncEnds

/-! # Files in the page cache and on the disk

A cached write stays in the page cache until `fat_fs_sync` hands the cached pages of its
range to the clusters of the file. What a user of a file sees is a cached page where there is
one, and else the page on the disk. Over every run of writes and syncs of the open files this
view changes by the writes only, and a sync that goes through leaves it on the disk.
-/

namespace MeOS.CachedFiles

open Bytes Blocks Runs FatFiles

variable {ι : Type}

/-! ## What a user sees -/

/-- The pages the users of the files see, and those on the disk. -/
structure Seen (ι : Type) where
  view : ι → Nat → Option Page
  disk : ι → List Page

/-- The user of file `i` sees `v`. -/
def Seen.setView [DecidableEq ι] (σ : Seen ι) (i : ι) (v : Nat → Option Page) : Seen ι where
  view := Function.update σ.view i v
  disk := σ.disk

/-- The pages of file `i` on the disk are `l`. -/
def Seen.setDisk [DecidableEq ι] (σ : Seen ι) (i : ι) (l : List Page) : Seen ι where
  view := σ.view
  disk := Function.update σ.disk i l

/-- A call: the pages `pages` are written from page `first` on, of which `k` are taken; the
pages from `first` to `last` are synced; or something else is done. -/
inductive Op (ι : Type) where
  | write (file : ι) (first : Nat) (pages : List Page) (k : Nat)
  | sync (file : ι) (first last : Nat) (result : ErrorT)
  | other

/-- A page that was written, or what was there. -/
def written (v : Nat → Option Page) (first : Nat) (pages : List Page) (p : Nat) : Option Page :=
  if first ≤ p ∧ p < first + pages.length then pages[p - first]? else v p

/-- From `l` to `l'` pages of the view were stored, all of `first` to `last` if the result is
`ERROR_OK`. Unless `last` is the last page number there is, no others were. -/
structure StoredPages (v : Nat → Option Page) (first last : Nat) (result : ErrorT)
    (l l' : List Page) : Prop where
  length : l'.length = l.length
  page : ∀ p, l'[p]? = l[p]? ∨
    l'[p]? = v p ∧ (last < 4294967295 → first ≤ p ∧ p ≤ last)
  done : result = .ok → ∀ p, first ≤ p → p ≤ last → l'[p]? = v p

/-- What files behind a cache that is written back do. -/
inductive SeenStep [DecidableEq ι] : Seen ι → Op ι → Seen ι → Prop where
  | write {σ : Seen ι} {i : ι} {first k : Nat} {pages : List Page} (hk : k ≤ pages.length) :
      SeenStep σ (.write i first pages k)
        (σ.setView i (written (σ.view i) first (pages.take k)))
  | sync {σ : Seen ι} {i : ι} {first last : Nat} {result : ErrorT} {l : List Page}
      (h : StoredPages (σ.view i) first last result (σ.disk i) l) :
      SeenStep σ (.sync i first last result) (σ.setDisk i l)
  | other {σ : Seen ι} : SeenStep σ .other σ

/-! ## What the kernel does -/

/-- The page cached for page `p` of the file of descriptor `g`. -/
def cachedPage (s : FileState) (g p : Nat) : Option Page :=
  if pageCacheGetBuffer s g p = 0 then none else some (block 4096 s.mem (pageCacheGetBuffer s g p))

/-- Page `p` as the cache and the pages on the disk show it. -/
def viewPage (s : FileState) (g : Nat) (l : List Page) (p : Nat) : Option Page :=
  (cachedPage s g p).or l[p]?

/-- The open files, with the descriptors they are open under. -/
structure Opens (ι : Type) extends Files ι where
  gfd : ι → Nat

/-- What the users of the files see in a state. -/
def Opens.seen (F : Opens ι) (s : FatState) : Seen ι where
  view i := viewPage s.files (F.gfd i) ((F.store s.disk).pages i)
  disk := (F.store s.disk).pages

/-- The page cache is well formed, and the descriptors are open. -/
structure Ready (F : Opens ι) (s : FatState) : Prop where
  inv : CacheInv s.files
  opened : ∀ i, OpenFile s.files (F.gfd i)

/-- A cached write of whole pages that was accepted, a sync, or anything else that leaves the
cached pages of the files and their clusters alone. -/
inductive CachedStep (F : Opens ι) : FatState → Op ι → FatState → Prop where
  | write {s : FatState} {files : FileState} {n : Nat} {read : List (Nat × Nat)} {e : Gfe}
      (i : ι) (ops : FsOperations) (start count buffer caps : Nat)
      (hrequest : Request s.files (F.gfd i) start count buffer) (hwhole : count % 4096 = 0)
      (he : s.files.gft[F.gfd i]? = some e) (hcache : chkBit caps vfsCapCache = true)
      (hrun : writeFileGlobal ops s.files (F.gfd i) start count buffer caps =
        .ret (files, .ok n, read)) :
      CachedStep F s (.write i (start / 4096) (bufferAt s.mem buffer count) (n / 4096))
        { s with files := files }
  | sync {s t : FatState} {result : ErrorT} (i : ι) (self : MountPoint)
      (fuel pageStart pageEnd : Nat)
      (hnode : syncMountPoint (F.node i) F.mp self = some F.mp) (hend : pageEnd < 4294967296)
      (hrun : fatFsSync fuel s (F.node i) F.mp self (F.gfd i) pageStart pageEnd =
        .ret (t, result)) :
      CachedStep F s (.sync i (syncRange (F.node i) pageStart pageEnd).1
        (syncRange (F.node i) pageStart pageEnd).2 result) t
  | other {s t : FatState} (hready : Ready F t)
      (hcached : ∀ i p, cachedPage t.files (F.gfd i) p = cachedPage s.files (F.gfd i) p)
      (hdisk : (F.store t.disk).pages = (F.store s.disk).pages) : CachedStep F s .other t

/-! ## Cached pages -/

section Cache

variable {s s' : FileState} {g p c start buffer j : Nat}

theorem cachedPage_of_holds (h : CacheInv s) (hopen : OpenFile s g) (hh : Holds s g p c) :
    cachedPage s g p = some (block 4096 s.mem (cellAddr s c)) := by
  have hpos := (h.cell_bounds (Nat.lt_of_succ_lt (h.cells hh).1)).1
  unfold cachedPage
  rw [h.getBuffer_of_holds hopen hh, if_neg (Nat.pos_iff_ne_zero.mp hpos)]

theorem cachedPage_of_not_cached (h : ¬ Cached s g p) : cachedPage s g p = none := by
  unfold cachedPage
  rw [getBuffer_of_not_cached h, if_pos rfl]

/-- A cached page is the bytes the file has in the cache. -/
theorem cachedPage_of_bytes (h : CacheInv s) (hopen : OpenFile s g) {x : Page}
    (hbytes : ∀ k : Fin 4096, FileByte s g (4096 * p + k) (x k)) : cachedPage s g p = some x := by
  have hpage : ∀ k : Fin 4096, (4096 * p + k) / pageCacheSize = p ∧
      (4096 * p + k) % pageCacheSize = k := by
    intro k
    have hk := k.isLt
    simp only [pageCacheSize]
    omega
  obtain ⟨c, hh, _⟩ := hbytes ⟨0, by decide⟩
  rw [(hpage _).1] at hh
  rw [cachedPage_of_holds h hopen hh]
  congr 1
  funext k
  obtain ⟨c', hh', hbyte⟩ := hbytes k
  rw [(hpage k).1] at hh'
  rw [(hpage k).2, h.fn hh' hh] at hbyte
  exact hbyte

/-- The pages that were filled. -/
theorem Filled.cachedPage_inside (h : Filled s s' g start buffer 0 j) (hopen : OpenFile s' g)
    (hstart : start % 4096 = 0) (hlo : start / 4096 ≤ p) (hhi : p < start / 4096 + j) :
    cachedPage s' g p = some (block 4096 s.mem (buffer + 4096 * (p - start / 4096))) := by
  refine cachedPage_of_bytes h.inv hopen fun k => ?_
  have hk := k.isLt
  have hbyte := h.bytes (4096 * (p - start / 4096) + k) (by omega)
    (by simp only [pageCacheSize]; omega)
  have hoff : start + (4096 * (p - start / 4096) + k) = 4096 * p + k := by omega
  rw [hoff, ← Nat.add_assoc] at hbyte
  exact hbyte

/-- The pages that were not. -/
theorem Filled.cachedPage_outside (h : Filled s s' g start buffer 0 j) (hinv : CacheInv s)
    {g' : Nat} (hopen : OpenFile s g') (hstart : start % 4096 = 0)
    (hout : g' = g → p < start / 4096 ∨ start / 4096 + j ≤ p) :
    cachedPage s' g' p = cachedPage s g' p := by
  by_cases hcached : Cached s g' p
  · obtain ⟨c, hh⟩ := hcached
    rw [cachedPage_of_holds hinv hopen hh]
    refine cachedPage_of_bytes h.inv ((h.opened g').mpr hopen) fun k => ?_
    have hk := k.isLt
    refine h.kept g' _ _ ⟨c, ?_, ?_⟩ fun hg => ?_
    · have hpage : (4096 * p + k) / pageCacheSize = p := by simp only [pageCacheSize]; omega
      rw [hpage]
      exact hh
    · have hoff : (4096 * p + k) % pageCacheSize = k := by simp only [pageCacheSize]; omega
      rw [hoff]
      rfl
    · have hrange := hout hg
      simp only [pageCacheSize]
      omega
  · rw [cachedPage_of_not_cached hcached, cachedPage_of_not_cached]
    rintro ⟨c, hh⟩
    rcases h.fresh hh with hold | ⟨hg, hlo, hhi⟩
    · exact hcached ⟨c, hold⟩
    · have hrange := hout hg
      simp only [pageCacheSize] at hlo hhi
      omega

end Cache

/-! ## Writes -/

section Write

variable {s files : FileState} {g start count buffer caps n : Nat} {e : Gfe}
  {ops : FsOperations} {read : List (Nat × Nat)}

/-- A cached write that returns a count has filled as many pages. -/
theorem writeFileGlobal_filled (h : Request s g start count buffer) (hwhole : count % 4096 = 0)
    (he : s.gft[g]? = some e) (hcache : chkBit caps vfsCapCache = true)
    (hrun : writeFileGlobal ops s g start count buffer caps = .ret (files, .ok n, read)) :
    ∃ s' nodes, files = { s' with nodes := nodes } ∧ n / 4096 ≤ count / 4096 ∧
      Filled s s' g start buffer 0 (n / 4096) := by
  obtain ⟨e', he', hnode⟩ := h.opened
  obtain rfl : e = e' := Option.some.inj (he.symm.trans he')
  have hinvalid : gfeIsInvalid e = false := by simpa [gfeIsInvalid] using hnode
  -- the checks have passed, or the result were an error
  have hwrite : chkBit caps vfsCapWrite = true := by
    by_contra hno
    rw [Bool.not_eq_true] at hno
    simp [writeFileGlobal, gftGet, he, hinvalid, hno] at hrun
  have hnear : start / pageCacheSize <
      add32 (ceilDivision (s.nodes e.fileNode).fileLength pageCacheSize) 2 := by
    by_contra hno
    simp [writeFileGlobal, gftGet, he, hinvalid, hwrite, hcache, h.aligned,
      Nat.le_of_not_lt hno] at hrun
  have htotal : ceilDivision count pageCacheSize = count / 4096 := by
    rw [totalPages_eq h.countLt, if_pos hwhole, Nat.add_zero]
  have hfull : pageCacheSize * (0 + count / 4096) ≤ count := by
    simp only [pageCacheSize]
    omega
  rcases writePages_whole [] (n := count / 4096) (r := 0) h hfull with
    ⟨_, s', j, read', _, hj, hloop, hfilled, _⟩ | ⟨_, s', read', hloop, hfilled, _, _⟩
  · rw [Nat.add_zero, Nat.mul_zero, ← htotal] at hloop
    obtain ⟨nodes, hret⟩ :=
      writeFileGlobal_accepted ops he hnode hwrite hcache h.aligned hnear hloop
    rw [hret] at hrun
    cases hrun
    have hcount : pageCacheSize * j / 4096 = j := by simp only [pageCacheSize]; omega
    refine ⟨s', nodes, rfl, ?_, ?_⟩
    · exact hcount.le.trans (by omega)
    · rw [hcount]
      exact hfilled
  · rw [Nat.add_zero, Nat.mul_zero, ← htotal] at hloop
    obtain ⟨nodes, hret⟩ :=
      writeFileGlobal_accepted ops he hnode hwrite hcache h.aligned hnear hloop
    rw [hret] at hrun
    cases hrun
    have hcount : pageCacheSize * (0 + ceilDivision count pageCacheSize) / 4096 =
        count / 4096 := by
      rw [htotal]
      simp only [pageCacheSize]
      omega
    refine ⟨s', nodes, rfl, Nat.le_of_eq hcount, ?_⟩
    rw [hcount]
    rw [Nat.zero_add] at hfilled
    exact hfilled

theorem CacheInv.of_nodes (h : CacheInv s) (nodes : Nat → FileNode) :
    CacheInv { s with nodes := nodes } :=
  ⟨h.base, h.size, h.nonempty, h.few, h.top, h.self, h.cells, h.inj, h.fn⟩

/-- The file table and the memory decide what is cached. -/
theorem cachedPage_nodes {nodes : Nat → FileNode} {p : Nat} :
    cachedPage { s with nodes := nodes } g p = cachedPage s g p := rfl

/-- The view of the file that was written. -/
theorem Filled.viewPage_written {s' : FileState} {k : Nat} {l : List Page}
    (h : Filled s s' g start buffer 0 k) (hopen' : OpenFile s' g) (hinv : CacheInv s)
    (hopen : OpenFile s g) (hstart : start % 4096 = 0) (hk : k ≤ count / 4096) :
    viewPage s' g l =
      written (viewPage s g l) (start / 4096) ((bufferAt s.mem buffer count).take k) := by
  have hlength : ((bufferAt s.mem buffer count).take k).length = k := by
    rw [List.length_take, length_bufferAt]
    omega
  funext p
  unfold written
  rw [hlength]
  by_cases hp : start / 4096 ≤ p ∧ p < start / 4096 + k
  · unfold viewPage
    rw [if_pos hp, Filled.cachedPage_inside h hopen' hstart hp.1 hp.2, take_bufferAt hk,
      List.getElem?_map, List.getElem?_range (by omega)]
    rfl
  · unfold viewPage
    rw [if_neg hp, Filled.cachedPage_outside h hinv hopen hstart fun _ => by omega]

end Write

/-! ## Syncs -/

section Sync

variable {v : Nat → Option Page} {l l₁ l' : List Page} {first last p : Nat} {result : ErrorT}

theorem StoredPages.refl (h : result = .ok → last < first) : StoredPages v first last result l l :=
  ⟨rfl, fun _ => Or.inl rfl, fun hok p hlo hhi => absurd (h hok) (by omega)⟩

/-- One page, which is stored if it is cached, before the others. -/
theorem StoredPages.cons
    (hp : (v first = l[first]? ∧ l₁ = l) ∨
      ∃ x, v first = some x ∧ first < l.length ∧ l₁ = l.set first x)
    (hfirst : first ≤ last) (hlast : last < 4294967296)
    (h : StoredPages v (add32 first 1) last result l₁ l') :
    StoredPages v first last result l l' := by
  have hlength : l₁.length = l.length := by
    rcases hp with ⟨_, rfl⟩ | ⟨x, _, _, rfl⟩
    · rfl
    · exact List.length_set
  have hview : l₁[first]? = v first := by
    rcases hp with ⟨hx, rfl⟩ | ⟨x, hx, hlt, rfl⟩
    · exact hx.symm
    · rw [hx]
      exact List.getElem?_set_self hlt
  have hothers : ∀ p, p ≠ first → l₁[p]? = l[p]? := by
    intro p hne
    rcases hp with ⟨_, rfl⟩ | ⟨x, _, _, rfl⟩
    · rfl
    · exact List.getElem?_set_ne (Ne.symm hne)
  refine ⟨h.length.trans hlength, fun p => ?_, fun hok p hlo hhi => ?_⟩
  · rcases h.page p with hsame | ⟨hp', hrange⟩
    · by_cases heq : p = first
      · subst heq
        exact Or.inr ⟨hsame.trans hview, fun _ => ⟨Nat.le_refl p, hfirst⟩⟩
      · exact Or.inl (hsame.trans (hothers p heq))
    · refine Or.inr ⟨hp', fun hlt => ?_⟩
      have hin := hrange hlt
      rw [add32_eq (by omega)] at hin
      omega
  · by_cases heq : p = first
    · subst heq
      rcases h.page p with hsame | ⟨hp', _⟩
      · exact hsame.trans hview
      · exact hp'
    · exact h.done hok p (by rw [add32_eq (by omega)]; omega) hhi

variable [DecidableEq ι] {F : Files ι} {i : ι} {n g fuel pg : Nat} {s t : FatState}

/-- The page loop of `fat_fs_sync` stores cached pages. -/
theorem fatSyncPages_stored {files : FileState} (hvolume : Volume F.mp n) (hsep : Separate F n)
    (hlast : last < 4294967296) (hfiles : s.files = files)
    (hcached : ∀ p x, cachedPage files g p = some x → v p = some x)
    (hmissing : ∀ p, cachedPage files g p = none → v p = ((F.store s.disk).pages i)[p]?)
    (hrun : fatSyncPages F.mp (F.node i).data.layout g last fuel pg s = .ret (t, result)) :
    t.files = files ∧ ∃ l, F.store t.disk = (F.store s.disk).setPages i l ∧
      StoredPages v pg last result ((F.store s.disk).pages i) l := by
  induction fuel generalizing pg s with
  | zero => cases hrun
  | succ fuel ih =>
    unfold fatSyncPages at hrun
    by_cases hle : pg ≤ last
    · rw [if_pos hle, hfiles] at hrun
      by_cases hnone : pageCacheGetBuffer files g pg = 0
      · rw [if_pos hnone] at hrun
        obtain ⟨hfiles', l, hstore, hl⟩ := ih hfiles hmissing hrun
        exact ⟨hfiles', l, hstore, hl.cons (Or.inl ⟨hmissing pg (if_pos hnone), rfl⟩) hle hlast⟩
      · rw [if_neg hnone] at hrun
        have hblock : cachedPage files g pg =
            some (block 4096 s.mem (pageCacheGetBuffer files g pg)) := by
          unfold cachedPage FatState.mem
          rw [if_neg hnone, hfiles]
        rcases writeByPage_cases hvolume.toMounted s (F.node i).data.layout pg
            (pageCacheGetBuffer files g pg) with ⟨c, hc, _, hres⟩ | ⟨_, hfail, hdisk, hkept⟩
        · -- the page is stored, and the loop goes on
          rw [hres] at hrun
          have hput := @store_putPage _ _ _ _ s _ (pageCacheGetBuffer files g pg) _ _ hvolume
            hsep hc
          have hroom : pg < ((F.store s.disk).pages i).length := by
            rw [length_pages]
            exact (List.getElem?_eq_some_iff.mp hc).1
          have hrest : ∀ p, cachedPage files g p = none → v p =
              ((F.store (s.put (dataClusterLba F.mp c) (pageCacheGetBuffer files g pg)).disk).pages
                i)[p]? := by
            intro p hp
            have hne : pg ≠ p := by
              rintro rfl
              rw [hblock] at hp
              cases hp
            rw [hput, setPages_self, List.getElem?_set_ne hne]
            exact hmissing p hp
          obtain ⟨hfiles', l, hstore, hl⟩ := ih ((s.put_files _ _).trans hfiles) hrest hrun
          rw [hput, setPages_setPages] at hstore
          rw [hput, setPages_self] at hl
          exact ⟨hfiles', l, hstore,
            hl.cons (Or.inr ⟨_, hcached pg _ hblock, hroom, rfl⟩) hle hlast⟩
        · cases hres : fatFsWriteByPage s F.mp (F.node i).data.layout pg
              (pageCacheGetBuffer files g pg) with
          | mk u ok =>
            rw [hres] at hrun hfail hdisk hkept
            obtain rfl : ok = false := hfail
            cases hrun
            refine ⟨hkept.trans hfiles, _, ?_, StoredPages.refl fun hok => by cases hok⟩
            rw [setPages_same]
            exact congrArg F.store hdisk
    · rw [if_neg hle] at hrun
      cases hrun
      exact ⟨hfiles, _, (setPages_same _ _).symm, StoredPages.refl fun _ => by omega⟩

/-- What `fat_fs_sync` does to the file, and to the view of its users. -/
theorem fatFsSync_stored {self : MountPoint} {pageStart pageEnd : Nat} (hvolume : Volume F.mp n)
    (hsep : Separate F n) (hnode : syncMountPoint (F.node i) F.mp self = some F.mp)
    (hlast : (syncRange (F.node i) pageStart pageEnd).2 < 4294967296)
    (hrun : fatFsSync fuel s (F.node i) F.mp self g pageStart pageEnd = .ret (t, result)) :
    t.files = s.files ∧ ∃ l, F.store t.disk = (F.store s.disk).setPages i l ∧
      StoredPages (viewPage s.files g ((F.store s.disk).pages i))
        (syncRange (F.node i) pageStart pageEnd).1 (syncRange (F.node i) pageStart pageEnd).2 result
        ((F.store s.disk).pages i) l := by
  unfold fatFsSync at hrun
  rw [hnode] at hrun
  refine fatSyncPages_stored hvolume hsep hlast rfl (fun p x hx => ?_) (fun p hp => ?_) hrun
  · unfold viewPage
    rw [hx]
    rfl
  · unfold viewPage
    rw [hp]
    rfl

/-- A sync does not change the view. -/
theorem StoredPages.view_eq {files : FileState} (h : StoredPages (viewPage files g l) first last
    result l l') : viewPage files g l' = viewPage files g l := by
  funext p
  have hpage := h.page p
  unfold viewPage at hpage ⊢
  cases hcached : cachedPage files g p with
  | some x => rfl
  | none =>
    rw [hcached, Option.none_or] at hpage
    rw [Option.none_or, Option.none_or]
    exact hpage.elim id fun hx => hx.1

end Sync

/-! ## Runs -/

section Runs

variable [DecidableEq ι] {F : Opens ι} {n : Nat} {s t : FatState} {op : Op ι} {ops : List (Op ι)}

theorem syncRange_lt {node : FatNode} {pageStart pageEnd : Nat} (hend : pageEnd < 4294967296) :
    (syncRange node pageStart pageEnd).2 < 4294967296 := by
  unfold syncRange
  split
  · exact Nat.mod_lt _ (by decide)
  · exact hend

/-- Every step of the kernel is one of the files behind a cache. -/
theorem cachedStep_seen (hv : Volume F.mp n) (hsep : Separate F.toFiles n)
    (hgfd : Function.Injective F.gfd) (hready : Ready F s) (h : CachedStep F s op t) :
    Ready F t ∧ SeenStep (F.seen s) op (F.seen t) := by
  cases h with
  | write i ops start count buffer caps hrequest hwhole he hcache hrun =>
    rename_i files k read e
    obtain ⟨s', nodes, rfl, hk, hfilled⟩ :=
      writeFileGlobal_filled hrequest hwhole he hcache hrun
    have hopened : ∀ j, OpenFile s' (F.gfd j) := fun j => (hfilled.opened _).mpr (hready.opened j)
    refine ⟨⟨?_, hopened⟩, ?_⟩
    · exact CacheInv.of_nodes hfilled.inv nodes
    · have hview : F.seen { s with files := { s' with nodes := nodes } } =
          (F.seen s).setView i (written ((F.seen s).view i) (start / 4096)
            ((bufferAt s.mem buffer count).take (k / 4096))) := by
        refine congrArg₂ Seen.mk (funext fun j => ?_) rfl
        by_cases hj : j = i
        · subst hj
          rw [Function.update_self]
          have hview := Filled.viewPage_written (l := (F.store s.disk).pages j) hfilled (hopened j)
            hready.inv (hready.opened j) hrequest.aligned hk
          exact hview
        · rw [Function.update_of_ne hj]
          funext p
          unfold viewPage
          rw [cachedPage_nodes, Filled.cachedPage_outside hfilled hready.inv (hready.opened j)
            hrequest.aligned fun h => absurd (hgfd h) hj]
          rfl
      rw [hview]
      exact .write (by rw [length_bufferAt]; exact hk)
  | sync i self fuel pageStart pageEnd hnode hend hrun =>
    rename_i result
    obtain ⟨hfiles, l, hstore, hl⟩ :=
      fatFsSync_stored hv hsep hnode (syncRange_lt hend) hrun
    refine ⟨⟨?_, ?_⟩, ?_⟩
    · rw [hfiles]
      exact hready.inv
    · intro j
      rw [hfiles]
      exact hready.opened j
    · have hseen : F.seen t =
          (F.seen s).setDisk i l := by
        have hpages : (F.store t.disk).pages = Function.update (F.store s.disk).pages i l := by
          rw [hstore]
          rfl
        refine congrArg₂ Seen.mk (funext fun j => ?_) hpages
        rw [hfiles, hpages]
        by_cases hj : j = i
        · subst hj
          rw [Function.update_self]
          exact hl.view_eq
        · rw [Function.update_of_ne hj]
          rfl
      rw [hseen]
      exact .sync hl
  | other hready' hcached hdisk =>
    have hseen : F.seen t = F.seen s := by
      refine congrArg₂ Seen.mk (funext fun i => funext fun p => ?_) hdisk
      unfold viewPage
      rw [hcached, hdisk]
    rw [hseen]
    exact ⟨hready', .other⟩

/-- Every run of the kernel is one of the files behind a cache. -/
theorem cachedRun_seen (hv : Volume F.mp n) (hsep : Separate F.toFiles n)
    (hgfd : Function.Injective F.gfd) (hready : Ready F s) (h : Trace (CachedStep F) s ops t) :
    Trace SeenStep (F.seen s) ops (F.seen t) :=
  h.simulates (I := Ready F) (f := F.seen)
    (fun _ _ _ hI hstep => cachedStep_seen hv hsep hgfd hI hstep) hready

/-- Over every run of cached writes and syncs the users of files opened from a FAT that links
no cluster twice see their own writes only, and what a sync stores is what they see. -/
theorem cachedFiles_refine (hv : Volume F.mp n) (hopen : OpenedFrom F.toFiles n s.disk)
    (hgfd : Function.Injective F.gfd) (hready : Ready F s) (h : Trace (CachedStep F) s ops t) :
    Trace SeenStep (F.seen s) ops (F.seen t) :=
  cachedRun_seen hv hopen.separate hgfd hready h

/-- A page that is seen stays as long as no write takes it. -/
theorem seenStep_kept {σ σ' : Seen ι} {i : ι} {p : Nat} {x : Option Page} (h : SeenStep σ op σ')
    (hother : ∀ first pages k, op = .write i first pages k → p < first ∨ first + k ≤ p)
    (hx : σ.view i p = x) : σ'.view i p = x := by
  cases h with
  | other => exact hx
  | sync => exact hx
  | write hk =>
    rename_i j first k pages
    unfold Seen.setView
    by_cases hj : i = j
    · subst hj
      have hout := hother first pages k rfl
      have hlength : (pages.take k).length = k := by
        rw [List.length_take]
        omega
      dsimp only
      unfold written
      rw [Function.update_self, hlength, if_neg (by omega)]
      exact hx
    · dsimp only
      rw [Function.update_of_ne hj]
      exact hx

/-- What was taken of a write is on the disk behind the next sync of its pages that goes
through, unless it was written again. -/
theorem cachedWrite_durable {i : ι} {first k a b : Nat} {pages : List Page}
    {between : List (Op ι)} (hv : Volume F.mp n) (hopen : OpenedFrom F.toFiles n s.disk)
    (hgfd : Function.Injective F.gfd) (hready : Ready F s)
    (h : Trace (CachedStep F) s (.write i first pages k :: (between ++ [.sync i a b .ok])) t)
    (hother : ∀ first' pages' k', Op.write i first' pages' k' ∈ between →
      first + k ≤ first' ∨ first' + k' ≤ first) :
    ∀ j < k, a ≤ first + j → first + j ≤ b →
      ((F.store t.disk).pages i)[first + j]? = pages[j]? := by
  intro j hj hlo hhi
  cases cachedRun_seen hv hopen.separate hgfd hready h with
  | cons hwrite hrest =>
    obtain ⟨σ, hmiddle, hlast⟩ := hrest.split
    -- the page is seen behind the write, and still in front of the sync
    have hkept : σ.view i (first + j) = pages[j]? := by
      refine hmiddle.keeps (I := fun σ => σ.view i (first + j) = pages[j]?)
        (fun op hop σ σ' hI hstep => seenStep_kept hstep ?_ hI) ?_
      · rintro first' pages' k' rfl
        have hout := hother first' pages' k' hop
        omega
      · cases hwrite with
        | write hk =>
          have hlength : (pages.take k).length = k := by
            rw [List.length_take]
            omega
          unfold Seen.setView written
          dsimp only
          rw [Function.update_self, hlength, if_pos (by omega), Nat.add_sub_cancel_left,
            List.getElem?_take_of_lt hj]
    cases hlast with
    | cons hsync hnil =>
      cases hnil
      generalize hend : F.seen t = σ' at hsync
      cases hsync with
      | sync hstored =>
        rename_i l
        have hdisk : (F.store t.disk).pages i = l := by
          have hpages := congrFun (congrArg Seen.disk hend) i
          exact hpages.trans (Function.update_self _ _ _)
        rw [hdisk, hstored.done rfl (first + j) hlo hhi, hkept]

end Runs

/-- One file in cluster 2, open under descriptor 0. -/
def oneFile : Opens Unit where
  mp := smallMount
  node _ := ⟨[65], 25, 14, 0, ⟨[2], true, 2, 0⟩, []⟩
  gfd _ := 0

/-- A cache of one cell in front of the disk of two clusters. -/
def smallState : FatState := { freshState twoFilesDisk with files := smallCache }

theorem oneFile_opened : OpenedFrom oneFile.toFiles 1024 twoFilesDisk := by
  refine ⟨fun _ => rfl, fun _ => .last ⟨by decide, by decide⟩ (by decide),
    fun a b c h => absurd h (twoFilesDisk_unlinked a c), fun _ a _ b => twoFilesDisk_unlinked b a, ?_⟩
  decide

theorem smallState_ready : Ready oneFile smallState :=
  ⟨smallCache_request.inv, fun _ => smallCache_request.opened⟩

/-- A page is written and synced. -/
theorem oneFile_run : ∃ pages t, Trace (CachedStep oneFile) smallState
    [.write () 0 pages 1, .sync () 0 0 .ok] t := by
  have hrequest : Request smallCache 0 0 4096 65536 :=
    ⟨smallCache_request.inv, smallCache_request.opened, by decide, by decide, by decide,
      by decide, by decide, Or.inr (by decide)⟩
  have hcalls : ∃ files read t,
      writeFileGlobal zeroOps smallCache 0 0 4096 65536 12 = .ret (files, .ok 4096, read) ∧
      fatFsSync 2 { smallState with files := files } (oneFile.node ()) smallMount smallMount 0 0 0 =
        .ret (t, .ok) := ⟨_, _, _, rfl, rfl⟩
  obtain ⟨files, read, t, hwrite, hsync⟩ := hcalls
  have hfirst := CachedStep.write (F := oneFile) (s := smallState) () zeroOps 0 4096 65536 12
    hrequest rfl rfl rfl hwrite
  exact ⟨_, t, .cons hfirst (.cons (.sync () smallMount 2 0 0 rfl (by decide) hsync) .nil)⟩

theorem cachedFiles_refine_oneFile : ∃ pages t,
    Trace SeenStep (oneFile.seen smallState) [.write () 0 pages 1, .sync () 0 0 .ok]
      (oneFile.seen t) := by
  obtain ⟨pages, t, hrun⟩ := oneFile_run
  exact ⟨pages, t, cachedFiles_refine smallMount_volume oneFile_opened (fun _ _ _ => rfl)
    smallState_ready hrun⟩

theorem cachedWrite_durable_oneFile : ∃ pages t,
    Trace (CachedStep oneFile) smallState [.write () 0 pages 1, .sync () 0 0 .ok] t ∧
      ((oneFile.store t.disk).pages ())[0]? = pages[0]? := by
  obtain ⟨pages, t, hrun⟩ := oneFile_run
  have hsplit : Trace (CachedStep oneFile) smallState
      (.write () 0 pages 1 :: ([] ++ [.sync () 0 0 .ok])) t := hrun
  have hdone := cachedWrite_durable smallMount_volume oneFile_opened (fun _ _ _ => rfl)
    smallState_ready hsplit (fun _ _ _ h => absurd h List.not_mem_nil) 0 (by decide) (by decide)
    (by decide)
  exact ⟨pages, t, hrun, hdone⟩

end MeOS.CachedFiles
