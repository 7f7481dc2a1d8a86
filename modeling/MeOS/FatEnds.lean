import MeOS.FatEntry
import MeOS.FatFree
import MeOS.FatListing
import MeOS.FatLoad
import MeOS.FatMount

/-! # Reading that ends

Nothing in the driver bounds what it follows on the disk. A layout is loaded when the links
that are read come to an end mark. A directory is read when the links of its clusters do, and
when the same holds of every directory entry that is met: one level down there is one buffer
less, and reading ends there, too. With a single buffer left the link cannot be read, and 1 is
taken for it again and again.
-/

namespace MeOS

open Bytes EndMarked

/-! ## Layouts -/

section Load

variable {s t : FatState} {mp : MountPoint} {c x fuel : Nat} {front layout : List Nat}
  {r : FatState × List Nat}

theorem readLink_lt (s : FatState) (mp : MountPoint) (x : Nat) : readLink s mp x < 268435456 := by
  unfold readLink
  split
  · exact and_fatMask_lt _
  · unfold behindBuffer fatFsReadFatValue
    exact and_fatMask_lt _

/-- A link that is read, and the links after that. -/
theorem findNext_steady (h : Steady 1 s) (hmp : Mounted mp) (hc : c < 268435456) :
    ∃ t, fatFsFindNextCluster s mp c = (t, readLink s mp c) ∧ Scratch s t ∧ t.disk = s.disk ∧
      ∀ x < 268435456, readLink t mp x = readLink s mp x := by
  rcases findNextCluster_done h.inv hmp hc h.buffer (h.calm.device 0) with
    ⟨t, hrun, hscratch, ⟨hdisk, -⟩, -, hmem⟩
  refine ⟨t, hrun, hscratch, hdisk, fun x hx => ?_⟩
  unfold readLink
  rw [hdisk]
  split
  · rfl
  · exact behindBuffer_same h.inv h.buffer (hscratch.steady h).buffer hscratch hmem (by omega) hx

/-- Links that agree are followed to the same places. -/
theorem iterate_readLink (hsame : ∀ x < 268435456, readLink t mp x = readLink s mp x)
    (hx : x < 268435456) (k : Nat) : (readLink t mp)^[k] x = (readLink s mp)^[k] x := by
  induction k generalizing x with
  | zero => rfl
  | succ k ih =>
    rw [Function.iterate_succ_apply, Function.iterate_succ_apply, hsame x hx]
    exact ih (readLink_lt s mp x)

/-- A loop that returns has come to an end mark. -/
theorem loadLoop_reaches (h : Steady 1 s) (hmp : Mounted mp) (hc : c < 268435456)
    (hrun : fatFsLoadLoop mp fuel s (front ++ [c]) = .ret r) :
    ∃ k, fatEof ≤ (readLink s mp)^[k + 1] c := by
  induction fuel generalizing s c front with
  | zero => cases hrun
  | succ fuel ih =>
    rcases findNext_steady h hmp hc with ⟨t, hfind, hscratch, -, hsame⟩
    by_cases hend : fatEof ≤ readLink s mp c
    · exact ⟨0, hend⟩
    · rw [loadLoop_turn (getLast_snoc front c) (by rw [hfind]; omega), hfind] at hrun
      have hv := readLink_lt s mp c
      rcases ih (hscratch.steady h) hv hrun with ⟨k, hk⟩
      refine ⟨k + 1, ?_⟩
      rw [iterate_readLink hsame hv] at hk
      rw [Function.iterate_succ_apply]
      exact hk

/-- A loop that comes to an end mark returns. -/
theorem loadLoop_settles {k : Nat} (h : Steady 1 s) (hmp : Mounted mp) (hc : c < 268435456)
    (hk : fatEof ≤ (readLink s mp)^[k + 1] c) :
    ∃ r, Settles (fun fuel => fatFsLoadLoop mp fuel s (front ++ [c])) r := by
  induction k generalizing s c front with
  | zero =>
    rcases findNext_steady h hmp hc with ⟨t, hfind, -⟩
    refine ⟨_, loadLoop_ended front ?_⟩
    rw [hfind]
    exact hk
  | succ k ih =>
    rcases findNext_steady h hmp hc with ⟨t, hfind, hscratch, -, hsame⟩
    by_cases hend : fatEof ≤ (fatFsFindNextCluster s mp c).2
    · exact ⟨_, loadLoop_ended front hend⟩
    · have hv := readLink_lt s mp c
      rw [Function.iterate_succ_apply, ← iterate_readLink hsame hv] at hk
      have hrest : ∃ r, Settles (fun fuel => fatFsLoadLoop mp fuel t
          (front ++ [c] ++ [readLink s mp c])) r := ih (hscratch.steady h) hv hk
      rcases hrest with ⟨r, hr⟩
      have hlink : (fatFsFindNextCluster s mp c).2 < fatEof := by omega
      refine ⟨r, .succ ?_⟩
      simp only [loadLoop_turn (getLast_snoc front c) hlink, hfind]
      exact hr

/-- Without a free cell the answer is 1. -/
theorem findNext_noBuffer (mp : MountPoint) (c : Nat) (hinv : CacheInv s.files)
    (hfree : freeCells s.files = []) :
    ∃ t, fatFsFindNextCluster s mp c = (t, 1) ∧ Scratch s t ∧ t.disk = s.disk := by
  rcases reserve_cases hinv with ⟨t, hres, hscratch, hdisk, -⟩ | ⟨q, t, hres, hu, -⟩
  · refine ⟨t, ?_, hscratch, hdisk.1⟩
    unfold fatFsFindNextCluster
    rw [hres]
    rfl
  · have hfirst := hu.first
    rw [hfree] at hfirst
    cases hfirst

/-- Without a free cell the loop never returns. -/
theorem loadLoop_noBuffer (hinv : CacheInv s.files) (hfree : freeCells s.files = []) :
    fatFsLoadLoop mp fuel s (front ++ [c]) ≠ .ret r := by
  induction fuel generalizing s c front with
  | zero =>
    intro hrun
    cases hrun
  | succ fuel ih =>
    rcases findNext_noBuffer mp c hinv hfree with ⟨t, hfind, hscratch, -⟩
    have hlt : (fatFsFindNextCluster s mp c).2 < fatEof := by
      rw [hfind]
      exact (by decide : 1 < fatEof)
    rw [loadLoop_turn (getLast_snoc front c) hlt, hfind]
    exact ih (hscratch.cacheInv hinv) (by rw [hscratch.freeCells]; exact hfree)

end Load

/-! ## Directories -/

/-- The link of cluster `c` as it is read from the disk, for a cluster that is found in its
block. -/
def diskLink (d : Mem) (mp : MountPoint) (c : Nat) : Nat :=
  load32 d (512 * add32 mp.data.fatLba (c / 128) + 4 * c) &&& fatMask

/-- An entry that opens a directory, and none of the recursive ones. -/
def Opens (e : Slot) : Prop :=
  Shown e ∧ (fatFsRetrieveShortName (slotName e)).head? ≠ some dot ∧
    (e 11).toNat &&& fatDirectory = fatDirectory

/-- Reading from cluster `c` on ends with `m` free buffers: at an end mark, or because there is
no buffer. Otherwise there are two of them, the directories of the cluster end with one less,
and so does what the cluster links to. -/
inductive DirEnds (d : Mem) (mp : MountPoint) : Nat → Nat → Prop where
  | ended {m c : Nat} (hend : fatEof ≤ c) : DirEnds d mp m c
  | noBuffer {c : Nat} : DirEnds d mp 0 c
  | cluster {m c : Nat} (hsmall : c < 1024)
    (hsub : ∀ j, Visible slotKind 128 (slots d mp c) j → Opens (slots d mp c j) →
      DirEnds d mp (m + 1) (slotCluster (slots d mp c j)))
    (hnext : DirEnds d mp (m + 2) (diskLink d mp c)) : DirEnds d mp (m + 2) c

/-- From a cluster, with the number of free buffers, reading goes on to these. -/
inductive ReadsNext (d : Mem) (mp : MountPoint) : Nat × Nat → Nat × Nat → Prop where
  | below {m c j : Nat} (hlt : c < fatEof) (hvis : Visible slotKind 128 (slots d mp c) j)
    (hopens : Opens (slots d mp c j)) :
    ReadsNext d mp (m + 2, c) (m + 1, slotCluster (slots d mp c j))
  | next {m c : Nat} (hlt : c < fatEof) : ReadsNext d mp (m + 2, c) (m + 2, diskLink d mp c)

/-- The clusters that are met have numbers below 1024. -/
def MeetsSmall (d : Mem) (mp : MountPoint) (m c : Nat) : Prop :=
  ∀ p, Relation.ReflTransGen (ReadsNext d mp) (m, c) p → p.2 < 1024 ∨ fatEof ≤ p.2

/-- A page cache with `m` free cells and a disk, on which nothing fails. -/
structure ReadState (d : Mem) (m : Nat) (s : FatState) : Prop where
  inv : CacheInv s.files
  calm : NoFailure s
  disk : s.disk = d
  free : (freeCells s.files).length = m

section Directory

variable {s s₁ s₂ t : FatState} {d : Mem} {mp : MountPoint} {m n q a c i j x fuel offset : Nat}
  {sub : FatState → Nat → Outcome (FatState × List FatNode)} {l l' : List FatNode}
  {r : FatState × List FatNode}

theorem MeetsSmall.step {p : Nat × Nat} (h : MeetsSmall d mp m c)
    (hstep : ReadsNext d mp (m, c) p) : MeetsSmall d mp p.1 p.2 :=
  fun p' hp' => h p' (.head hstep hp')

theorem readLink_disk (hc : c < 1024) : readLink s mp c = diskLink s.disk mp c := if_pos hc

theorem Scratch.readState (h : Scratch s t) (hdisk : t.disk = s.disk) (hs : ReadState d m s) :
    ReadState d m t :=
  ⟨h.cacheInv hs.inv, h.calm hs.calm, hdisk.trans hs.disk, by rw [h.freeCells]; exact hs.free⟩

/-- One cell is taken. -/
theorem Using.readState (h : Using s t q) (hdisk : t.disk = s.disk)
    (hs : ReadState d (m + 1) s) : ReadState d m t := by
  refine ⟨h.cacheInv hs.inv, h.calm hs.calm, hdisk.trans hs.disk, ?_⟩
  have hlen := hs.free
  rw [h.freeCells_cons, List.length_cons] at hlen
  omega

/-- The buffer stays as it is while others come and go. -/
theorem Using.spare (h : Using s s₂ q) (hinv : CacheInv s.files) : ∀ u, Scratch s₂ u →
    ∀ k < 4096, u.mem (cellAddr s.files q + k) = s₂.mem (cellAddr s.files q + k) :=
  fun _ hscratch k hk => (h.scratch hinv hscratch).2 k hk

theorem ReadState.steady (h : ReadState d (m + 1) s) : Steady 1 s :=
  ⟨h.inv, by rw [h.free]; omega, h.calm⟩

/-- What the entry loop sees of an entry in the buffer. -/
theorem slotCluster_slotAt (m : Mem) (a : Nat) :
    slotCluster (slotAt m a) = fatFsGetEntryDataCluster m a := by
  have hload : ∀ k, k + 2 ≤ 32 → load16 (slotMem (slotAt m a)) (0 + k) = load16 m (a + k) := by
    intro k hk
    unfold load16 slotMem slotAt
    rw [dif_pos (by omega), dif_pos (by omega)]
    simp only [Nat.zero_add, Nat.add_assoc]
  unfold slotCluster fatFsGetEntryDataCluster
  rw [hload 26 (by decide), hload 20 (by decide)]

theorem opensDirectory_iff (m : Mem) (a i : Nat) : OpensDirectory m a i ↔
    m (entryAddr a i) ≠ 0xE5 ∧ Opens (slotAt m (entryAddr a i)) := by
  unfold OpensDirectory Opens Shown
  rw [slotName_slotAt]
  exact Iff.rfl

/-- Reading the directories below leaves the page cache and the disk. -/
def SubScratch (sub : FatState → Nat → Outcome (FatState × List FatNode)) : Prop :=
  ∀ s c t l, CacheInv s.files → NoFailure s → sub s c = .ret (t, l) →
    Scratch s t ∧ t.disk = s.disk

theorem settles_scratch {sub : Nat → FatState → Nat → Outcome (FatState × List FatNode)}
    (hsub : ∀ fuel, SubScratch (sub fuel)) (hinv : CacheInv s.files) (hcalm : NoFailure s)
    (h : Settles (fun fuel => sub fuel s c) (t, l)) : Scratch s t ∧ t.disk = s.disk := by
  rcases h with ⟨bound, hbound⟩
  exact hsub bound s c t l hinv hcalm (hbound bound le_rfl)

/-- The entry loop leaves the page cache and the disk. -/
theorem readEntries_scratch (hsub : SubScratch sub) (hinv : CacheInv s.files) (hcalm : NoFailure s)
    (hrun : fatFsReadEntries sub offset a n i l s = .ret (t, l')) :
    Scratch s t ∧ t.disk = s.disk := by
  induction n generalizing i l s with
  | zero =>
    injection hrun with hpair
    rw [← (Prod.mk.inj hpair).1]
    exact ⟨Scratch.refl, rfl⟩
  | succ n ih =>
    rcases readEntries_turn offset a n i l s with ⟨-, hover⟩ | ⟨-, -, l₁, hpass⟩ |
      ⟨-, -, node, hopen⟩
    · rw [hover] at hrun
      injection hrun with hpair
      rw [← (Prod.mk.inj hpair).1]
      exact ⟨Scratch.refl, rfl⟩
    · rw [hpass] at hrun
      exact ih hinv hcalm hrun
    · rw [hopen] at hrun
      rcases Outcome.bind_eq_ret.mp hrun with ⟨⟨t₁, children⟩, hchildren, hrun⟩
      rcases hsub _ _ _ _ hinv hcalm hchildren with ⟨hscratch, hdisk⟩
      rcases ih (hscratch.cacheInv hinv) (hscratch.calm hcalm) hrun with ⟨hscratch', hdisk'⟩
      exact ⟨hscratch.trans hscratch', hdisk'.trans hdisk⟩

/-- The cluster loop with `m + 1` free cells reads a cluster into the first of them. -/
theorem readClusters_turn (hmp : Mounted mp) (hs : ReadState d (m + 1) s) (hc : c < fatEof) :
    ∃ q s₂, Using s s₂ q ∧ Loaded s₂.mem (cellAddr s.files q) d mp c ∧ ReadState d m s₂ ∧
      cellAddr s.files q + pageCacheSize ≤ 4294967296 ∧
      ∀ fuel l, fatFsReadClusters mp (fuel + 1) s c l =
        (fatFsReadEntries (fun s cluster => fatFsReadClusters mp fuel s cluster []) c
          (cellAddr s.files q) 128 0 l s₂ >>= fun p =>
            fatFsReadClusters mp fuel
              ((fatFsFindNextCluster p.1 mp c).1.releaseAnonymous (cellAddr s.files q))
              (fatFsFindNextCluster p.1 mp c).2 p.2) := by
  rcases hs.steady.reserve with ⟨q, s₁, hres, hu, -, ⟨hdisk, -, -⟩, -⟩
  have htop := hu.top hs.inv
  rcases hu.addr hs.inv with ⟨a, ha⟩
  have hdev : s₁.device 0 = true := (hu.calm hs.calm).device 0
  have hfetch : Using s (s₁.fetch (dataClusterLba mp c) (cellAddr s.files q)) q :=
    hu.fetch hs.inv
  have hdisk' : (s₁.fetch (dataClusterLba mp c) (cellAddr s.files q)).disk = s.disk := hdisk
  refine ⟨q, _, hfetch, ?_, hfetch.readState hdisk' hs, htop, fun fuel l => ?_⟩
  · rw [← hs.disk, ← hdisk]
    exact loaded_fetch
  · conv_lhs => unfold fatFsReadClusters
    rw [if_pos hc, hres, ha]
    simp only [readByDataCluster_eq hmp, hdev, if_pos]

/-- Reading a directory leaves the page cache and the disk. -/
theorem readClusters_scratch (hmp : Mounted mp) (hinv : CacheInv s.files) (hcalm : NoFailure s)
    (hrun : fatFsReadClusters mp fuel s c l = .ret (t, l')) : Scratch s t ∧ t.disk = s.disk := by
  induction fuel generalizing s c l t l' with
  | zero => cases hrun
  | succ fuel ih =>
    by_cases hc : c < fatEof
    · cases hm : (freeCells s.files).length with
      | zero =>
        -- no buffer
        unfold fatFsReadClusters at hrun
        rw [if_pos hc] at hrun
        rcases reserve_cases hinv with ⟨s₁, hres, hscratch, hdisk, -⟩ | ⟨q, s₁, -, hu, -⟩
        · rw [hres] at hrun
          injection hrun with hpair
          rw [← (Prod.mk.inj hpair).1]
          exact ⟨hscratch, hdisk.1⟩
        · rw [hu.freeCells_cons] at hm
          cases hm
      | succ m =>
        have hs : ReadState s.disk (m + 1) s := ⟨hinv, hcalm, rfl, hm⟩
        rcases readClusters_turn hmp hs hc with ⟨q, s₂, hu, -, hs₂, -, hturn⟩
        rw [hturn] at hrun
        rcases Outcome.bind_eq_ret.mp hrun with ⟨⟨t₁, l₁⟩, hentries, hrun⟩
        have hsub : SubScratch fun s cluster => fatFsReadClusters mp fuel s cluster [] :=
          fun s c t l hinv hcalm hrun => ih hinv hcalm hrun
        rcases readEntries_scratch hsub hs₂.inv hs₂.calm hentries with ⟨hscratch₁, hdisk₁⟩
        have hfind := findNextCluster_scratch mp c (hscratch₁.cacheInv hs₂.inv)
        have hback := ((hu.scratch hinv hscratch₁).1.scratch hinv hfind.1).1.release hinv
        rcases ih (hback.cacheInv hinv) (hback.calm hcalm) hrun with ⟨hscratch, hdisk⟩
        refine ⟨hback.trans hscratch, ?_⟩
        rw [hdisk, FatState.release_disk, hfind.2, hdisk₁, hs₂.disk]
    · unfold fatFsReadClusters at hrun
      rw [if_neg hc] at hrun
      injection hrun with hpair
      rw [← (Prod.mk.inj hpair).1]
      exact ⟨Scratch.refl, rfl⟩

theorem readClusters_subScratch (hmp : Mounted mp) (fuel : Nat) :
    SubScratch fun s cluster => fatFsReadClusters mp fuel s cluster [] :=
  fun _ _ _ _ hinv hcalm hrun => readClusters_scratch hmp hinv hcalm hrun

/-- What the buffer shows of an entry while directories below are read. -/
theorem loaded_entry {u : FatState} (ha : a + pageCacheSize ≤ 4294967296)
    (hload : Loaded s₂.mem a d mp c) (hspare : ∀ k < 4096, u.mem (a + k) = s₂.mem (a + k))
    (hi : i < 128) : slotAt u.mem (entryAddr a i) = slots d mp c i :=
  Loaded.slotAt (fun k hk => (hspare k hk).trans (hload k hk)) ha hi

/-- When the entry loop returns, so does the reading of every directory that is seen. -/
theorem readEntries_returns {u : FatState} (hsub : SubScratch sub) (hinv : CacheInv s₂.files)
    (hcalm : NoFailure s₂) (ha : a + pageCacheSize ≤ 4294967296)
    (hspare : ∀ u, Scratch s₂ u → ∀ k < 4096, u.mem (a + k) = s₂.mem (a + k))
    (hload : Loaded s₂.mem a d mp c) (hu : Scratch s₂ u) (hdisk : u.disk = s₂.disk)
    (hin : i + n = 128) (hrun : fatFsReadEntries sub offset a n i l u = .ret r) {j : Nat}
    (hij : i ≤ j) (hvis : Visible slotKind 128 (slots d mp c) j) (hopens : Opens (slots d mp c j)) :
    ∃ v r', Scratch s₂ v ∧ v.disk = s₂.disk ∧ sub v (slotCluster (slots d mp c j)) = .ret r' := by
  induction n generalizing i l u with
  | zero =>
    have hj := hvis.1
    omega
  | succ n ih =>
    have hentry := loaded_entry ha hload (hspare u hu) (show i < 128 by omega)
    have hfirst : u.mem (entryAddr a i) = slots d mp c i 0 := congrFun hentry 0
    rcases readEntries_turn offset a n i l u with ⟨hzero, -⟩ | ⟨hgo, hno, l₁, hpass⟩ |
      ⟨hgo, hdir, node, hopen⟩
    · -- nothing is seen behind the end mark
      have hstop : slotKind (slots d mp c i) = .stop :=
        (kind_stop_iff _).mpr (hfirst.symm.trans hzero)
      rcases Nat.lt_or_ge i j with hlt | hge
      · exact absurd hstop (hvis.2.2 i hlt)
      · obtain rfl : i = j := by omega
        rw [hvis.2.1] at hstop
        cases hstop
    · rw [hpass] at hrun
      have hne : i ≠ j := by
        rintro rfl
        refine hno ((opensDirectory_iff _ _ _).mpr ⟨?_, ?_⟩)
        · rw [hfirst]
          exact ((kind_live_iff _).mp hvis.2.1).2
        · rw [hentry]
          exact hopens
      exact ih hu hdisk (by omega) hrun (by omega)
    · rw [hopen] at hrun
      rcases Outcome.bind_eq_ret.mp hrun with ⟨⟨t₁, children⟩, hchildren, hrun⟩
      by_cases hji : i = j
      · subst hji
        rw [← slotCluster_slotAt, hentry] at hchildren
        exact ⟨u, _, hu, hdisk, hchildren⟩
      · rcases hsub _ _ _ _ (hu.cacheInv hinv) (hu.calm hcalm) hchildren with ⟨hscratch, hdisk'⟩
        exact ih (hu.trans hscratch) (hdisk'.trans hdisk) (by omega) hrun (by omega)

/-- When the reading of every directory that is seen settles, so does the entry loop. -/
theorem readEntries_settles {sub : Nat → FatState → Nat → Outcome (FatState × List FatNode)}
    {u : FatState} (l : List FatNode) (offset : Nat) (hsub : ∀ fuel, SubScratch (sub fuel))
    (hinv : CacheInv s₂.files) (hcalm : NoFailure s₂) (ha : a + pageCacheSize ≤ 4294967296)
    (hspare : ∀ u, Scratch s₂ u → ∀ k < 4096, u.mem (a + k) = s₂.mem (a + k))
    (hload : Loaded s₂.mem a d mp c)
    (hends : ∀ j v, Visible slotKind 128 (slots d mp c) j → Opens (slots d mp c j) →
      Scratch s₂ v → v.disk = s₂.disk →
      ∃ r, Settles (fun fuel => sub fuel v (slotCluster (slots d mp c j))) r)
    (hu : Scratch s₂ u) (hdisk : u.disk = s₂.disk) (hin : i + n = 128)
    (hfront : ∀ j < i, slotKind (slots d mp c j) ≠ .stop) :
    ∃ r, Settles (fun fuel => fatFsReadEntries (sub fuel) offset a n i l u) r := by
  induction n generalizing i l u with
  | zero => exact ⟨(u, l), .ret⟩
  | succ n ih =>
    -- the buffer still has the cluster that was loaded, whatever the subtrees read
    have hentry := loaded_entry ha hload (hspare u hu) (show i < 128 by omega)
    have hfirst : u.mem (entryAddr a i) = slots d mp c i 0 := congrFun hentry 0
    have hgoes : u.mem (entryAddr a i) ≠ 0 → ∀ j < i + 1, slotKind (slots d mp c j) ≠ .stop := by
      intro hgo j hj
      rcases Nat.lt_succ_iff_lt_or_eq.mp hj with hlt | rfl
      · exact hfront j hlt
      · rw [Ne, kind_stop_iff, ← hfirst]
        exact hgo
    rcases readEntries_turn offset a n i l u with ⟨-, hover⟩ | ⟨hgo, -, l₁, hpass⟩ |
      ⟨hgo, hdir, node, hopen⟩
    · refine ⟨(u, l), ?_⟩
      simp only [hover]
      exact .ret
    · simp only [hpass]
      exact ih l₁ hu hdisk (by omega) (hgoes hgo)
    · rcases (opensDirectory_iff _ _ _).mp hdir with ⟨hfree, hopens⟩
      rw [hentry] at hopens
      have hvis : Visible slotKind 128 (slots d mp c) i := by
        refine ⟨by omega, (kind_live_iff _).mpr ⟨?_, ?_⟩, hfront⟩
        · rw [← hfirst]
          exact hgo
        · rw [← hfirst]
          exact hfree
      -- the subtree ends from any state with this disk, and keeps both
      rcases hends i u hvis hopens hu hdisk with ⟨⟨t₁, children⟩, hsettles⟩
      have hscratch : Scratch u t₁ ∧ t₁.disk = u.disk :=
        settles_scratch hsub (hu.cacheInv hinv) (hu.calm hcalm) hsettles
      rcases ih (l ++ [node t₁ children]) (hu.trans hscratch.1) (hscratch.2.trans hdisk) (by omega)
        (hgoes hgo) with ⟨r, hr⟩
      refine ⟨r, ?_⟩
      simp only [hopen]
      rw [← slotCluster_slotAt, hentry]
      exact hsettles.bind hr

/-- After the entries of a cluster the buffer is given back, and the next cluster is known. -/
theorem readClusters_next (hmp : Mounted mp) (hs : ReadState d (m + 1) s) (hu : Using s s₂ q)
    (hs₂ : ReadState d m s₂) (ht : Scratch s₂ t) (hdisk : t.disk = s₂.disk) :
    ReadState d (m + 1)
        ((fatFsFindNextCluster t mp c).1.releaseAnonymous (cellAddr s.files q)) ∧
      (m = 0 → (fatFsFindNextCluster t mp c).2 = 1) ∧
      (m ≠ 0 → c < 1024 → (fatFsFindNextCluster t mp c).2 = diskLink d mp c) := by
  have hst : ReadState d m t := ht.readState hdisk hs₂
  have hfind := findNextCluster_scratch mp c hst.inv
  have hback := ((hu.scratch hs.inv ht).1.scratch hs.inv hfind.1).1.release hs.inv
  refine ⟨hback.readState ?_ hs, ?_, ?_⟩
  · rw [FatState.release_disk, hfind.2, hst.disk, hs.disk]
  · rintro rfl
    have hfree := List.eq_nil_of_length_eq_zero hst.free
    rcases findNext_noBuffer mp c hst.inv hfree with ⟨t', hrun, -⟩
    rw [hrun]
  · intro hm hc
    obtain ⟨k, rfl⟩ := Nat.exists_eq_succ_of_ne_zero hm
    rcases findNext_steady hst.steady hmp (c := c) (by omega) with ⟨t', hrun, -⟩
    rw [hrun, readLink_disk hc, hst.disk]

/-- Reading that ends returns with enough fuel. -/
theorem dirEnds_settles (hmp : Mounted mp) (h : DirEnds d mp m c) (hs : ReadState d m s)
    (l : List FatNode) : ∃ r, Settles (fun fuel => fatFsReadClusters mp fuel s c l) r := by
  induction h generalizing s l with
  | ended hend =>
    refine ⟨(s, l), .succ ?_⟩
    unfold fatFsReadClusters
    simp only [if_neg (Nat.not_lt_of_le hend)]
    exact .ret
  | @noBuffer c =>
    by_cases hc : c < fatEof
    · rcases reserve_cases hs.inv with ⟨s₁, hres, -⟩ | ⟨q, s₁, -, hu, -⟩
      · refine ⟨(s₁, []), .succ ?_⟩
        unfold fatFsReadClusters
        simp only [if_pos hc, hres]
        exact .ret
      · have hlen := hs.free
        rw [hu.freeCells_cons] at hlen
        cases hlen
    · refine ⟨(s, l), .succ ?_⟩
      unfold fatFsReadClusters
      simp only [if_neg hc]
      exact .ret
  | @cluster m c hsmall hsub hnext ihsub ihnext =>
    have hc : c < fatEof := Nat.lt_trans hsmall (by decide)
    rcases readClusters_turn hmp hs hc with ⟨q, s₂, hu, hload, hs₂, htop, hturn⟩
    -- a directory below is read with one buffer less
    have hends : ∀ j v, Visible slotKind 128 (slots d mp c) j → Opens (slots d mp c j) →
        Scratch s₂ v → v.disk = s₂.disk → ∃ r, Settles (fun fuel =>
          fatFsReadClusters mp fuel v (slotCluster (slots d mp c j)) []) r :=
      fun j v hvis hopens hv hdisk => ihsub j hvis hopens (hv.readState hdisk hs₂) []
    rcases readEntries_settles l c (readClusters_subScratch hmp) hs₂.inv hs₂.calm htop
      (hu.spare hs.inv) hload hends Scratch.refl rfl (show 0 + 128 = 128 from rfl)
      (fun j hj => absurd hj (Nat.not_lt_zero j)) with ⟨⟨t, l₁⟩, hentries⟩
    have ht : Scratch s₂ t ∧ t.disk = s₂.disk := by
      rcases hentries with ⟨bound, hbound⟩
      exact readEntries_scratch (readClusters_subScratch hmp bound) hs₂.inv hs₂.calm
        (hbound bound le_rfl)
    rcases readClusters_next (c := c) hmp hs hu hs₂ ht.1 ht.2 with ⟨hnextState, -, hvalue⟩
    rcases ihnext hnextState l₁ with ⟨r, hr⟩
    refine ⟨r, .succ ?_⟩
    simp only [hturn]
    refine hentries.bind ?_
    dsimp only
    rw [hvalue (Nat.succ_ne_zero m) hsmall]
    exact hr

/-- Reading that returns ends, when the clusters that are met are below 1024. -/
theorem returns_dirEnds (hmp : Mounted mp) (hs : ReadState d m s) (hmeets : MeetsSmall d mp m c)
    (hrun : fatFsReadClusters mp fuel s c l = .ret r) : DirEnds d mp m c := by
  induction fuel generalizing s m c l r with
  | zero => cases hrun
  | succ fuel ih =>
    by_cases hc : c < fatEof
    swap
    · exact .ended (by omega)
    rcases m with _ | m
    · exact .noBuffer
    rcases readClusters_turn hmp hs hc with ⟨q, s₂, hu, hload, hs₂, htop, hturn⟩
    rw [hturn] at hrun
    rcases Outcome.bind_eq_ret.mp hrun with ⟨⟨t, l₁⟩, hentries, hrun⟩
    have ht := readEntries_scratch (readClusters_subScratch hmp fuel) hs₂.inv hs₂.calm hentries
    rcases readClusters_next (c := c) hmp hs hu hs₂ ht.1 ht.2 with ⟨hnext, hone, hvalue⟩
    have hsmall : c < 1024 := by
      rcases hmeets _ .refl with hlt | hend
      · exact hlt
      · exact absurd hend (Nat.not_le_of_lt hc)
    rcases m with _ | m
    · -- with one buffer the next cluster is 1, and so is the one behind it
      rw [hone rfl] at hrun
      have hmeets₁ : MeetsSmall d mp 1 1 := by
        intro p hp
        rcases hp.cases_head with rfl | ⟨p', hstep, -⟩
        · exact Or.inl (by decide)
        · cases hstep
      have hends := ih hnext hmeets₁ hrun
      cases hends with
      | ended hend => exact absurd hend (by decide)
    · refine .cluster hsmall (fun j hvis hopens => ?_) ?_
      · rcases readEntries_returns (readClusters_subScratch hmp fuel) hs₂.inv hs₂.calm htop
          (hu.spare hs.inv) hload Scratch.refl rfl (show 0 + 128 = 128 from rfl) hentries
          (Nat.zero_le j) hvis hopens with ⟨v, r', hv, hdisk, hreturns⟩
        exact ih (hv.readState hdisk hs₂) (hmeets.step (.below hc hvis hopens)) hreturns
      · rw [hvalue (Nat.succ_ne_zero m) hsmall] at hrun
        exact ih hnext (hmeets.step (.next hc)) hrun

end Directory

/-! ## Mounting -/

/-- The mount point for the volume of a disk. -/
def diskMount (d : Mem) (tag storageInfo : Nat) : MountPoint :=
  let partitionOffset := lbaOffset d 0
  volumeMount (fun k => d (512 * partitionOffset + k)) 0 partitionOffset tag storageInfo

section Mount

variable {s t : FatState} {d m m' : Mem} {n a x p tag storageInfo : Nat}

/-- A sector that was read. -/
theorem deviceRead_sector (hdev : t.device 0 = true) {k : Nat} (hk : k < 512) :
    (t.deviceRead x 1 a).1.mem (a + k) = t.disk (512 * x + k) := by
  unfold FatState.deviceRead
  rw [if_pos hdev]
  show blit _ _ _ _ _ _ = _
  rw [blit_at _ _ _ _ (by omega)]

/-- The mount point depends on the sector with the volume id only. -/
theorem volumeMount_congr (h : ∀ k < 512, m (a + k) = m' k) :
    volumeMount m a p tag storageInfo = volumeMount m' 0 p tag storageInfo := by
  have hword : ∀ k, k + 4 ≤ 512 → load32 m (a + k) = load32 m' (0 + k) := by
    intro k hk
    refine load32_copy fun i hi => ?_
    rw [Nat.add_assoc, h _ (by omega), Nat.zero_add]
  have hhalf : load16 m (a + 14) = load16 m' (0 + 14) := by
    unfold load16
    rw [Nat.add_assoc, h 14 (by decide), h (14 + 1) (by decide), Nat.zero_add]
  unfold volumeMount reservedSectorCount numberFats sectorsPerFat rootClusterLba
  rw [hhalf, hword 36 (by decide), hword 44 (by decide), h 16 (by decide), Nat.zero_add]

/-- When nothing fails, mounting reads the root directory with a page cache as before. -/
theorem mount_run (tag storageInfo : Nat) (hs : ReadState d (n + 1) s) :
    ∃ w, Scratch s w ∧ w.disk = s.disk ∧ ∀ fuel, fatFsMount fuel s tag storageInfo =
      (fatFsReadDirectory fuel w (diskMount d tag storageInfo)
        (diskMount d tag storageInfo).data.rootDirFirstCluster >>= fun p =>
          .ret (p.1, some (diskMount d tag storageInfo, p.2))) := by
  rcases hs.steady.reserve with ⟨q, s₁, hres, hu, -, ⟨hdisk, -, -⟩, -⟩
  rcases hu.addr hs.inv with ⟨b, hb⟩
  generalize hcell : cellAddr s.files q = a at *
  have hdev : s₁.device 0 = true := (hu.calm hs.calm).device 0
  have hfirst : Using s (s₁.deviceRead 0 1 a).1 q := by
    rw [← hcell]
    exact deviceRead_using hu hs.inv (by decide)
  have hdisk₁ : (s₁.deviceRead 0 1 a).1.disk = d := by
    rw [deviceRead_disk, hdisk, hs.disk]
  have hdev' : (s₁.deviceRead 0 1 a).1.device 0 = true := (hfirst.calm hs.calm).device 0
  have hlba : lbaOffset (s₁.deviceRead 0 1 a).1.mem a = lbaOffset d 0 := by
    unfold lbaOffset
    refine load32_copy fun i hi => ?_
    rw [Nat.add_assoc, deviceRead_sector hdev (by omega), hdisk, hs.disk]
    congr 1
    omega
  have hsecond : Using s ((s₁.deviceRead 0 1 a).1.deviceRead (lbaOffset d 0) 1 a).1 q := by
    rw [← hcell]
    rw [← hcell] at hfirst
    exact deviceRead_using hfirst hs.inv (by decide)
  have hdisk₂ : ((s₁.deviceRead 0 1 a).1.deviceRead (lbaOffset d 0) 1 a).1.disk = d := by
    rw [deviceRead_disk, hdisk₁]
  -- the second sector overwrites the first, whose address is known by then
  have hmount : volumeMount ((s₁.deviceRead 0 1 a).1.deviceRead (lbaOffset d 0) 1 a).1.mem a
      (lbaOffset d 0) tag storageInfo = diskMount d tag storageInfo := by
    refine volumeMount_congr fun k hk => ?_
    rw [deviceRead_sector hdev' hk, hdisk₁]
  have hback : Scratch s
      (((s₁.deviceRead 0 1 a).1.deviceRead (lbaOffset d 0) 1 a).1.releaseAnonymous a) := by
    rw [← hcell]
    rw [← hcell] at hsecond
    exact hsecond.release hs.inv
  refine ⟨_, hback, ?_, fun fuel => ?_⟩
  · rw [FatState.release_disk, hdisk₂, hs.disk]
  · have hcount : (s₁.deviceRead 0 1 a).2 = 1 := by
      rw [deviceRead_count, if_pos hdev]
    have hcount' : ((s₁.deviceRead 0 1 a).1.deviceRead (lbaOffset d 0) 1 a).2 = 1 := by
      rw [deviceRead_count, if_pos hdev']
    unfold fatFsMount
    rw [hres, hb]
    simp only
    rw [← hb]
    simp only [hcount, hlba, hcount', hmount, ne_eq, not_true_eq_false, if_false]
    rfl

end Mount

/-! ## The law -/

section Law

variable {s : FatState} {d : Mem} {mp : MountPoint} {node : FatNode} {m f : Nat}

/-- A layout is loaded exactly when there is a free cell and the links that are read come to
an end mark. -/
theorem loadLayout_ends_iff (hinv : CacheInv s.files) (hmp : Mounted mp) (hcalm : NoFailure s)
    (hlayout : node.data.layout = [f]) (hf : f < 268435456) :
    (∃ r, Settles (fun fuel => fatFsLoadFileLayout fuel s mp node) r) ↔
      freeCells s.files ≠ [] ∧ ∃ k, fatEof ≤ (readLink s mp)^[k + 1] f := by
  have hloop : (∃ r, Settles (fun fuel => fatFsLoadFileLayout fuel s mp node) r) ↔
      ∃ r, Settles (fun fuel => fatFsLoadLoop mp fuel s ([] ++ [f])) r := by
    rw [List.nil_append, ← hlayout]
    constructor
    · rintro ⟨⟨s', node', res⟩, hsettles⟩
      rcases loadLayout_settles.mp hsettles with ⟨l, hl, -⟩
      exact ⟨_, hl⟩
    · rintro ⟨⟨s', l⟩, hsettles⟩
      exact ⟨_, loadLayout_settles.mpr ⟨l, hsettles, rfl, rfl⟩⟩
  rw [hloop]
  constructor
  · rintro ⟨r, bound, hbound⟩
    have hrun := hbound bound le_rfl
    have hcells : freeCells s.files ≠ [] := fun hfree => loadLoop_noBuffer hinv hfree hrun
    have hsteady : Steady 1 s := ⟨hinv, List.length_pos_of_ne_nil hcells, hcalm⟩
    exact ⟨hcells, loadLoop_reaches hsteady hmp hf hrun⟩
  · rintro ⟨hcells, k, hk⟩
    exact loadLoop_settles ⟨hinv, List.length_pos_of_ne_nil hcells, hcalm⟩ hmp hf hk

/-- A directory is read to its end when the links and entries of the disk come to one; and only
then, when the clusters that are met are below 1024. -/
theorem readDirectory_ends (hmp : Mounted mp) (hs : ReadState d m s) (c : Nat) :
    (DirEnds d mp m c → ∃ r, Settles (fun fuel => fatFsReadDirectory fuel s mp c) r) ∧
      (MeetsSmall d mp m c → (∃ r, Settles (fun fuel => fatFsReadDirectory fuel s mp c) r) →
        DirEnds d mp m c) := by
  constructor
  · intro hends
    exact dirEnds_settles hmp hends hs []
  · rintro hmeets ⟨r, bound, hbound⟩
    -- any fuel for which the call returns will do
    exact returns_dirEnds hmp hs hmeets (hbound bound le_rfl)

theorem diskMount_mounted {tag storageInfo : Nat} (htag : tag ≠ 0) (hinfo : storageInfo ≠ 0) :
    Mounted (diskMount d tag storageInfo) :=
  ⟨show vfsMountPt &&& 7 = vfsMountPt by decide, htag, hinfo⟩

/-- Mounting a device ends like the reading of its root directory. -/
theorem mount_ends {tag storageInfo c : Nat} (htag : tag ≠ 0) (hinfo : storageInfo ≠ 0)
    (hroot : (diskMount d tag storageInfo).data.rootDirFirstCluster = c) (hs : ReadState d m s) :
    (DirEnds d (diskMount d tag storageInfo) m c →
        ∃ r, Settles (fun fuel => fatFsMount fuel s tag storageInfo) r) ∧
      (MeetsSmall d (diskMount d tag storageInfo) m c →
        (∃ r, Settles (fun fuel => fatFsMount fuel s tag storageInfo) r) →
        DirEnds d (diskMount d tag storageInfo) m c) := by
  have hmp := diskMount_mounted (d := d) htag hinfo
  rcases m with _ | m
  · -- without a buffer nothing is read
    refine ⟨fun _ => ?_, fun _ _ => .noBuffer⟩
    rcases reserve_cases hs.inv with ⟨s₁, hres, -⟩ | ⟨q, s₁, -, hu, -⟩
    · refine ⟨(s₁, none), ?_⟩
      unfold fatFsMount
      simp only [hres]
      exact .ret
    · have hlen := hs.free
      rw [hu.freeCells_cons] at hlen
      cases hlen
  · rcases mount_run tag storageInfo hs with ⟨w, hback, hdisk, hmount⟩
    have hw := hback.readState hdisk hs
    rw [hroot] at hmount
    simp only [hmount]
    constructor
    · intro hends
      rcases dirEnds_settles hmp hends hw [] with ⟨r, hr⟩
      exact ⟨_, hr.bind .ret⟩
    · rintro hmeets ⟨r, bound, hbound⟩
      rcases Outcome.bind_eq_ret.mp (hbound bound le_rfl) with ⟨p, hrun, -⟩
      exact returns_dirEnds hmp hw hmeets hrun

end Law

/-- Nothing fails: a layout is loaded, a directory read and a device mounted to the end when
the links and entries of the disk come to one; the layout only then, the others only then when
the clusters that are met are below 1024. -/
theorem reading_ends_iff {s : FatState} {mp : MountPoint} (hinv : CacheInv s.files)
    (hmp : Mounted mp) (hcalm : NoFailure s) :
    (∀ node f, node.data.layout = [f] → f < 268435456 →
      ((∃ r, Settles (fun fuel => fatFsLoadFileLayout fuel s mp node) r) ↔
        freeCells s.files ≠ [] ∧ ∃ k, fatEof ≤ (readLink s mp)^[k + 1] f)) ∧
    (∀ c, (DirEnds s.disk mp (freeCells s.files).length c →
          ∃ r, Settles (fun fuel => fatFsReadDirectory fuel s mp c) r) ∧
        (MeetsSmall s.disk mp (freeCells s.files).length c →
          (∃ r, Settles (fun fuel => fatFsReadDirectory fuel s mp c) r) →
          DirEnds s.disk mp (freeCells s.files).length c)) ∧
    (∀ tag storageInfo c, tag ≠ 0 → storageInfo ≠ 0 →
      (diskMount s.disk tag storageInfo).data.rootDirFirstCluster = c →
        (DirEnds s.disk (diskMount s.disk tag storageInfo) (freeCells s.files).length c →
          ∃ r, Settles (fun fuel => fatFsMount fuel s tag storageInfo) r) ∧
        (MeetsSmall s.disk (diskMount s.disk tag storageInfo) (freeCells s.files).length c →
          (∃ r, Settles (fun fuel => fatFsMount fuel s tag storageInfo) r) →
          DirEnds s.disk (diskMount s.disk tag storageInfo) (freeCells s.files).length c)) := by
  have hs : ReadState s.disk (freeCells s.files).length s := ⟨hinv, hcalm, rfl, rfl⟩
  refine ⟨?_, ?_, ?_⟩
  · intro node f hlayout hf
    exact loadLayout_ends_iff hinv hmp hcalm hlayout hf
  · intro c
    exact readDirectory_ends hmp hs c
  · intro tag storageInfo c htag hinfo hroot
    exact mount_ends htag hinfo hroot hs

/-- The root directory of `zeroFile` is one cluster with one entry, a file. -/
theorem zeroFile_dirEnds : DirEnds zeroFile smallMount 3 2 := by
  refine .cluster (by decide) (fun j hvis hopens => ?_) (.ended (by decide))
  rcases Nat.eq_zero_or_pos j with rfl | hpos
  · exact absurd hopens.2.2 (by decide)
  · have hzero : slots zeroFile smallMount 2 j 0 = 0 := by
      have hj := hvis.1
      rw [slots_head, show clusterAddr smallMount 2 = 24576 from rfl]
      unfold zeroFile
      rw [if_neg, if_neg, if_neg, if_neg, if_neg] <;> omega
    exact absurd hzero ((kind_live_iff _).mp hvis.2.1).1

/-- Reading it returns. -/
theorem reading_ends_iff_zeroFile : ∃ r,
    Settles (fun fuel => fatFsReadDirectory fuel (freshState zeroFile) smallMount 2) r := by
  rcases reading_ends_iff (s := freshState zeroFile) freshCache_inv smallMount_mounted
    (freshState_steady zeroFile).calm with ⟨-, hread, -⟩
  exact (hread 2).1 zeroFile_dirEnds

/-- What is met on a disk whose entry 2 links to itself. -/
theorem loopDisk_meets {p : Nat × Nat}
    (h : Relation.ReflTransGen (ReadsNext loopDisk smallMount) (3, 2) p) : p = (3, 2) := by
  induction h with
  | refl => rfl
  | tail h hstep ih =>
    subst ih
    cases hstep with
    | @below m c j hlt hvis hopens =>
      -- its directories are empty
      have hzero : slots loopDisk smallMount 2 j 0 = 0 := by
        have hj := hvis.1
        rw [slots_head]
        unfold loopDisk
        rw [if_neg]
        unfold clusterAddr dataClusterLba smallMount
        simp only [add32, mul32, sub32]
        omega
      exact absurd hzero ((kind_live_iff _).mp hvis.2.1).1
    | next hlt => rfl

/-- A root directory whose chain is a loop is read for ever, and so is the layout of a file
that starts there. -/
theorem reading_loops :
    (¬ ∃ r, Settles (fun fuel => fatFsReadDirectory fuel (freshState loopDisk) smallMount 2) r) ∧
      ¬ ∃ r, Settles (fun fuel =>
        fatFsLoadFileLayout fuel (freshState loopDisk) smallMount oneCluster) r := by
  constructor
  · intro hreturns
    have hs : ReadState loopDisk 3 (freshState loopDisk) :=
      ⟨freshCache_inv, (freshState_steady loopDisk).calm, rfl, by decide⟩
    have hmeets : MeetsSmall loopDisk smallMount 3 2 := by
      intro p hp
      rw [loopDisk_meets hp]
      exact Or.inl (by decide)
    have hends := (readDirectory_ends smallMount_mounted hs 2).2 hmeets hreturns
    -- the cluster links to itself, so no derivation reaches its end
    have hnever : ∀ m c, DirEnds loopDisk smallMount m c → m ≠ 0 → c ≠ 2 := by
      intro m c h
      induction h with
      | ended hend =>
        rintro - rfl
        exact absurd hend (by decide)
      | noBuffer => exact fun hm => absurd rfl hm
      | cluster hsmall hsub hnext ihsub ihnext =>
        rintro - rfl
        exact ihnext (Nat.succ_ne_zero _) rfl
    exact hnever 3 2 hends (by decide) rfl
  · intro hreturns
    rcases (loadLayout_ends_iff freshCache_inv smallMount_mounted
      (freshState_steady loopDisk).calm (rfl : oneCluster.data.layout = [2]) (by decide)).mp
      hreturns with ⟨-, k, hk⟩
    -- however often the link is followed, it is the same cluster
    have hloop : ∀ k, (readLink (freshState loopDisk) smallMount)^[k] 2 = 2 := by
      intro k
      induction k with
      | zero => rfl
      | succ k ih =>
        rw [Function.iterate_succ_apply]
        exact ih
    rw [hloop] at hk
    exact absurd hk (by decide)

end MeOS
