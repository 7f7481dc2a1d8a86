import MeOS.FatBuffers
import MeOS.FatData

/-! # Mounting, and the buffers it may lose

`fat_fs_mount` reads the master boot record and the volume id into one buffer, gives it
back, and reads the root directory with everything below it.
-/

namespace MeOS

open Bytes

/-! ## Mounting -/

/-- `primary_partition.lba_offset` of the `fat_mbr` at `a`. -/
def lbaOffset (m : Mem) (a : Nat) : Nat := load32 m (a + 454)

/-- `reserved_sector_count` of the `fat_volume_id` at `a`. -/
def reservedSectorCount (m : Mem) (a : Nat) : Nat := load16 m (a + 14)

/-- `number_FATs`. -/
def numberFats (m : Mem) (a : Nat) : Nat := (m (a + 16)).toNat

/-- `extended.sectors_per_FAT`. -/
def sectorsPerFat (m : Mem) (a : Nat) : Nat := load32 m (a + 36)

/-- `extended.root_cluster_lba`. -/
def rootClusterLba (m : Mem) (a : Nat) : Nat := load32 m (a + 44)

/-- The mount point for the `fat_volume_id` at `a`; `tag` and `storageInfo` are the device
node and its data. -/
def volumeMount (m : Mem) (a partitionOffset tag storageInfo : Nat) : MountPoint :=
  let fatLba := add32 partitionOffset (reservedSectorCount m a)
  let clusterLba := add32 fatLba (mul32 (numberFats m a) (sectorsPerFat m a))
  { attributes := vfsMountPt, tag := tag, storageInfo := storageInfo,
    data := ⟨partitionOffset, fatLba, clusterLba, rootClusterLba m a⟩ }

/-- `fat_fs_mount`. The last component is the mount point with its children. -/
def fatFsMount (fuel : Nat) (s : FatState) (tag storageInfo : Nat) :
    Outcome (FatState × Option (MountPoint × List FatNode)) :=
  match s.reserveAnonymous with
  | (s, 0) => .ret (s, none)
  | (s, cache) =>
    match s.deviceRead 0 1 cache with
    | (s, count) =>
      if count ≠ 1 then .ret (s, none)
      else
        let partitionOffset := lbaOffset s.mem cache
        match s.deviceRead partitionOffset 1 cache with
        | (s, count) =>
          if count ≠ 1 then .ret (s, none)
          else do
            let mp := volumeMount s.mem cache partitionOffset tag storageInfo
            let (s, children) ←
              fatFsReadDirectory fuel (s.releaseAnonymous cache) mp mp.data.rootDirFirstCluster
            pure (s, some (mp, children))

/-! ## What is lost -/

/-- The anonymous buffers that are reserved: cells with a mark and no page. -/
def anonymousBuffers (s : FileState) : Set Nat :=
  {i | i + 1 < pageCacheNumBuffers s ∧ s.mem (bitmapAddr s + i) ≠ 0 ∧ ∀ g p, ¬ Holds s g p i}

/-- The same buffers are reserved. -/
def KeepsBuffers (s s' : FatState) : Prop :=
  anonymousBuffers s'.files = anonymousBuffers s.files

/-- The page cache is as before, but for the cells in `lost`, which were free and stay
reserved. -/
structure Leaves (s s' : FatState) (lost : Nat → Prop) : Prop extends ScratchBut s s' lost where
  free : ∀ j, lost j → j ∈ freeCells s.files
  taken : ∀ j, lost j → s'.mem (bitmapAddr s.files + j) ≠ 0

section Leaves

variable {s s₁ s₂ t : FatState} {lost lost₁ : Nat → Prop} {c j : Nat}

theorem Scratch.leaves (h : Scratch s t) : Leaves s t fun _ => False :=
  { h with free := fun _ ho => ho.elim, taken := fun _ ho => ho.elim }

theorem Using.leaves (h : Using s t c) : Leaves s t (· = c) :=
  { h.toScratchBut with free := fun _ ho => ho ▸ h.free, taken := fun _ ho => ho ▸ h.mark }

theorem Leaves.cacheInv (h : Leaves s t lost) (hinv : CacheInv s.files) : CacheInv t.files :=
  h.toScratchBut.inv hinv h.taken

/-- What is lost is not free any more. -/
theorem Leaves.mem_freeCells (h : Leaves s t lost) :
    j ∈ freeCells t.files ↔ j ∈ freeCells s.files ∧ ¬ lost j := by
  rw [MeOS.mem_freeCells, MeOS.mem_freeCells, numBuffers_congr h.same.2, bitmapAddr_congr h.same]
  constructor
  · rintro ⟨hlt, hzero⟩
    have hno : ¬ lost j := fun ho => h.taken j ho hzero
    exact ⟨⟨hlt, (h.marks j hlt hno).symm.trans hzero⟩, hno⟩
  · rintro ⟨⟨hlt, hzero⟩, hno⟩
    exact ⟨hlt, (h.marks j hlt hno).trans hzero⟩

/-- One after the other. -/
theorem Leaves.trans (h : Leaves s s₁ lost) (h₁ : Leaves s₁ s₂ lost₁) :
    Leaves s s₂ fun j => lost j ∨ lost₁ j where
  toScratchBut := h.toScratchBut.append
    (fun j ho => (MeOS.mem_freeCells.mp (h.free j ho)).2) h₁.toScratchBut
  free j ho := by
    rcases ho with ho | ho
    · exact h.free j ho
    · exact (h.mem_freeCells.mp (h₁.free j ho)).1
  taken j ho := by
    by_cases ho₁ : lost₁ j
    · have hmark := h₁.taken j ho₁
      rw [bitmapAddr_congr h.same] at hmark
      exact hmark
    · -- lost by the first part, and left by the second
      have ho₀ := ho.resolve_right ho₁
      have hlt : j < pageCacheNumBuffers s₁.files := by
        rw [numBuffers_congr h.same.2]
        exact (MeOS.mem_freeCells.mp (h.free j ho₀)).1
      have hmark := h₁.marks j hlt ho₁
      rw [bitmapAddr_congr h.same] at hmark
      rw [hmark]
      exact h.taken j ho₀

/-- A buffer that is given back is not lost. -/
theorem Leaves.release (h : Leaves s t fun j => j = c ∨ lost j) (hinv : CacheInv s.files)
    (hno : ¬ lost c) : Leaves s (t.releaseAnonymous (cellAddr s.files c)) lost := by
  have hfree : c ∈ freeCells s.files := h.free c (Or.inl rfl)
  rw [release_eq (h.cacheInv hinv) h.same (hinv.free_lt hfree)]
  refine { h.toScratchBut.clear hinv hfree with
           free := fun j ho => h.free j (Or.inr ho), taken := fun j ho => ?_ }
  have hjc : j ≠ c := by
    rintro rfl
    exact hno ho
  rw [FatState.setMem_mem, store8_ne _ _ (by omega)]
  exact h.taken j (Or.inr ho)

/-- The reserved buffers are the same exactly when none is lost. -/
theorem Leaves.keeps_iff (h : Leaves s t lost) (hinv : CacheInv s.files) :
    KeepsBuffers s t ↔ ¬ ∃ j, lost j := by
  unfold KeepsBuffers
  constructor
  · rintro hsame ⟨j, ho⟩
    have hfree := h.free j ho
    rcases MeOS.mem_freeCells.mp hfree with ⟨-, hzero⟩
    have hthere : j ∈ anonymousBuffers t.files := by
      refine ⟨?_, ?_, fun g p hh => ?_⟩
      · rw [numBuffers_congr h.same.2]
        exact hinv.free_lt hfree
      · rw [bitmapAddr_congr h.same]
        exact h.taken j ho
      · exact (hinv.cells ((holds_congr h.entries.1).mp hh)).2 hzero
    rw [hsame] at hthere
    exact hthere.2.1 hzero
  · intro hnone
    ext j
    show (j + 1 < pageCacheNumBuffers t.files ∧ t.mem (bitmapAddr t.files + j) ≠ 0 ∧ _) ↔ _
    rw [numBuffers_congr h.same.2, bitmapAddr_congr h.same]
    refine and_congr_right fun hlt => ?_
    rw [h.marks j (by omega) fun ho => hnone ⟨j, ho⟩]
    refine and_congr_right fun _ => forall_congr' fun g => forall_congr' fun p => ?_
    rw [holds_congr h.entries.1]

theorem Scratch.keeps (h : Scratch s t) (hinv : CacheInv s.files) : KeepsBuffers s t := by
  refine (h.leaves.keeps_iff hinv).mpr ?_
  rintro ⟨j, hno⟩
  exact hno

end Leaves

/-! ## Reads that fail -/

/-- Entry `i` of the buffer is a directory that is read, and none of the recursive ones. -/
def OpensDirectory (m : Mem) (cache i : Nat) : Prop :=
  m (entryAddr cache i) ≠ 0xE5 ∧
    entryAttributes m (entryAddr cache i) &&& fatVolumeId ≠ fatVolumeId ∧
    (fatFsRetrieveShortName (entryName m (entryAddr cache i))).head? ≠ some dot ∧
    entryAttributes m (entryAddr cache i) &&& fatDirectory = fatDirectory

/-- In the entry loop from entry `i` on, with `n` entries left, a directory below is read
for which `fails` holds. -/
inductive EntriesFail (sub : FatState → Nat → Outcome (FatState × List FatNode))
    (fails : FatState → Nat → Prop) (cache : Nat) : Nat → Nat → FatState → Prop where
  | skip {n i s} (hgo : s.mem (entryAddr cache i) ≠ 0) (hno : ¬ OpensDirectory s.mem cache i)
    (h : EntriesFail sub fails cache n (i + 1) s) : EntriesFail sub fails cache (n + 1) i s
  | here {n i s} (hgo : s.mem (entryAddr cache i) ≠ 0) (hdir : OpensDirectory s.mem cache i)
    (h : fails s (fatFsGetEntryDataCluster s.mem (entryAddr cache i))) :
    EntriesFail sub fails cache (n + 1) i s
  | later {n i s t children} (hgo : s.mem (entryAddr cache i) ≠ 0)
    (hdir : OpensDirectory s.mem cache i)
    (hsub : sub s (fatFsGetEntryDataCluster s.mem (entryAddr cache i)) = .ret (t, children))
    (h : EntriesFail sub fails cache n (i + 1) t) : EntriesFail sub fails cache (n + 1) i s

/-- A directory cluster cannot be read in `fatFsReadClusters`: the first one, one of a
directory below, or one behind it. -/
def DirReadFails (mp : MountPoint) : Nat → FatState → Nat → List FatNode → Prop
  | 0, _, _, _ => False
  | fuel + 1, s, offset, l =>
    let cache := s.reserveAnonymous.2
    let sub := fun s cluster => fatFsReadClusters mp fuel s cluster []
    let fails := fun s cluster => DirReadFails mp fuel s cluster []
    let read := fatFsReadByDataCluster s.reserveAnonymous.1 mp offset cache
    (offset < fatEof ∧ cache ≠ 0) ∧
      (read.2 = false ∨
        (read.2 = true ∧ EntriesFail sub fails cache 128 0 read.1) ∨
        ∃ t l', read.2 = true ∧ fatFsReadEntries sub offset cache 128 0 l read.1 = .ret (t, l') ∧
          DirReadFails mp fuel ((fatFsFindNextCluster t mp offset).1.releaseAnonymous cache)
            (fatFsFindNextCluster t mp offset).2 l')

/-- A sector or a directory cluster cannot be read in `fatFsMount`. -/
def MountReadFails (fuel : Nat) (s : FatState) (tag storageInfo : Nat) : Prop :=
  let cache := s.reserveAnonymous.2
  let first := (s.reserveAnonymous.1.deviceRead 0 1 cache).1
  let partitionOffset := lbaOffset first.mem cache
  let second := (first.deviceRead partitionOffset 1 cache).1
  let mp := volumeMount second.mem cache partitionOffset tag storageInfo
  cache ≠ 0 ∧ (s.reserveAnonymous.1.device 0 = false ∨ first.device 0 = false ∨
    DirReadFails mp fuel (second.releaseAnonymous cache) mp.data.rootDirFirstCluster [])

section Reading

variable {s s' t : FatState} {mp : MountPoint} {fuel offset cache n i c : Nat}
  {sub : FatState → Nat → Outcome (FatState × List FatNode)} {fails : FatState → Nat → Prop}
  {l l' : List FatNode}

/-- What a way of reading directories loses: something exactly when it fails. -/
def LosesWhen (sub : FatState → Nat → Outcome (FatState × List FatNode))
    (fails : FatState → Nat → Prop) : Prop :=
  ∀ s c t l, CacheInv s.files → sub s c = .ret (t, l) →
    ∃ lost, Leaves s t lost ∧ ((∃ j, lost j) ↔ fails s c)

/-- An entry that is passed over changes nothing. -/
theorem entriesFail_skip (hgo : s.mem (entryAddr cache i) ≠ 0)
    (hno : ¬ OpensDirectory s.mem cache i) :
    EntriesFail sub fails cache (n + 1) i s ↔ EntriesFail sub fails cache n (i + 1) s := by
  constructor
  · intro h
    cases h with
    | skip hgo' hno' h => exact h
    | here hgo' hdir h => exact absurd hdir hno
    | later hgo' hdir hsub h => exact absurd hdir hno
  · exact .skip hgo hno

/-- A directory below is read, and then the rest. -/
theorem entriesFail_directory (hgo : s.mem (entryAddr cache i) ≠ 0)
    (hdir : OpensDirectory s.mem cache i)
    (hsub : sub s (fatFsGetEntryDataCluster s.mem (entryAddr cache i)) = .ret (t, l)) :
    EntriesFail sub fails cache (n + 1) i s ↔
      fails s (fatFsGetEntryDataCluster s.mem (entryAddr cache i)) ∨
        EntriesFail sub fails cache n (i + 1) t := by
  constructor
  · intro h
    cases h with
    | skip hgo' hno h => exact absurd hdir hno
    | here hgo' hdir' h => exact Or.inl h
    | later hgo' hdir' hsub' h =>
      rw [hsub] at hsub'
      injection hsub' with hpair
      rw [← (Prod.mk.inj hpair).1] at h
      exact Or.inr h
  · rintro (h | h)
    · exact .here hgo hdir h
    · exact .later hgo hdir hsub h

/-- The node that is made of entry `i` of cluster `offset`; `t` is the state when the
directories below it have been read. -/
def entryNode (s : FatState) (offset a i : Nat) (t : FatState) (children : List FatNode) :
    FatNode :=
  { name := fatFsRetrieveShortName (entryName s.mem (entryAddr a i))
    attributes := fatToVfsAttributes (entryAttributes s.mem (entryAddr a i))
    capabilities := 14
    fileLength := entryFileSize s.mem (entryAddr a i)
    data := { layout := [fatFsGetEntryDataCluster t.mem (entryAddr a i)], layoutLoaded := false,
              metadataCluster := offset, metadataIndex := i }
    children := children }

/-- One turn of the entry loop: it is over, passes an entry, or opens a directory. -/
theorem readEntries_turn (offset a n i : Nat) (l : List FatNode) (s : FatState) :
    (s.mem (entryAddr a i) = 0 ∧
      ∀ sub, fatFsReadEntries sub offset a (n + 1) i l s = .ret (s, l)) ∨
    (s.mem (entryAddr a i) ≠ 0 ∧ ¬ OpensDirectory s.mem a i ∧
      ∃ l₁, ∀ sub, fatFsReadEntries sub offset a (n + 1) i l s =
        fatFsReadEntries sub offset a n (i + 1) l₁ s) ∨
    (s.mem (entryAddr a i) ≠ 0 ∧ OpensDirectory s.mem a i ∧
      ∃ node : FatState → List FatNode → FatNode, ∀ sub,
        fatFsReadEntries sub offset a (n + 1) i l s =
          sub s (fatFsGetEntryDataCluster s.mem (entryAddr a i)) >>= fun p =>
            fatFsReadEntries sub offset a n (i + 1) (l ++ [node p.1 p.2]) p.1) := by
  by_cases hzero : s.mem (entryAddr a i) = 0
  · refine Or.inl ⟨hzero, fun sub => ?_⟩
    unfold fatFsReadEntries
    dsimp only
    rw [if_pos hzero]
  refine Or.inr ?_
  by_cases hdir : OpensDirectory s.mem a i
  · refine Or.inr ⟨hzero, hdir, entryNode s offset a i, fun sub => ?_⟩
    conv_lhs => unfold fatFsReadEntries
    dsimp only
    rw [if_neg hzero, if_neg hdir.1, if_neg hdir.2.1, if_pos hdir.2.2]
    rfl
  · refine Or.inl ⟨hzero, hdir, ?_⟩
    by_cases hpass : s.mem (entryAddr a i) = 0xE5 ∨
        entryAttributes s.mem (entryAddr a i) &&& fatVolumeId = fatVolumeId
    · -- a free entry or a label
      refine ⟨l, fun sub => ?_⟩
      conv_lhs => unfold fatFsReadEntries
      dsimp only
      rw [if_neg hzero]
      rcases hpass with hfree | hlabel
      · rw [if_pos hfree]
      · rw [if_pos hlabel]
        split
        · rfl
        · rfl
    · rw [not_or] at hpass
      refine ⟨l ++ [entryNode s offset a i s []], fun sub => ?_⟩
      conv_lhs => unfold fatFsReadEntries
      dsimp only
      rw [if_neg hzero, if_neg hpass.1, if_neg hpass.2,
        if_neg fun hopens => hdir ⟨hpass.1, hpass.2, hopens⟩]
      rfl

/-- The entry loop loses a buffer exactly when a directory below cannot be read. -/
theorem readEntries_leaves (hsub : LosesWhen sub fails) (hinv : CacheInv s.files)
    (hrun : fatFsReadEntries sub offset cache n i l s = .ret (t, l')) :
    ∃ lost, Leaves s t lost ∧ ((∃ j, lost j) ↔ EntriesFail sub fails cache n i s) := by
  induction n generalizing i l s with
  | zero =>
    injection hrun with hpair
    rw [← (Prod.mk.inj hpair).1]
    refine ⟨_, Scratch.refl.leaves, iff_of_false (fun ⟨j, hno⟩ => hno) fun h => ?_⟩
    cases h
  | succ n ih =>
    rcases readEntries_turn offset cache n i l s with ⟨hzero, hover⟩ | ⟨hgo, hno, l₁, hpass⟩ |
      ⟨hgo, hdir, node, hopen⟩
    · -- the end mark
      rw [hover] at hrun
      injection hrun with hpair
      rw [← (Prod.mk.inj hpair).1]
      refine ⟨_, Scratch.refl.leaves, iff_of_false (fun ⟨j, hno⟩ => hno) fun h => ?_⟩
      cases h with
      | skip hgo hno h => exact hgo hzero
      | here hgo hdir h => exact hgo hzero
      | later hgo hdir hsub h => exact hgo hzero
    · rw [hpass] at hrun
      rw [entriesFail_skip hgo hno]
      exact ih hinv hrun
    · rw [hopen] at hrun
      rcases Outcome.bind_eq_ret.mp hrun with ⟨⟨t₁, children⟩, hchildren, hrun⟩
      rcases hsub _ _ _ _ hinv hchildren with ⟨lost, hleaves, hlost⟩
      rcases ih (hleaves.cacheInv hinv) hrun with ⟨lost₁, hleaves₁, hlost₁⟩
      refine ⟨_, hleaves.trans hleaves₁, ?_⟩
      rw [entriesFail_directory hgo hdir hchildren, exists_or, hlost, hlost₁]

/-- The cluster loop: a buffer is lost exactly when a directory cluster cannot be read. -/
theorem readClusters_leaves (hinv : CacheInv s.files)
    (hrun : fatFsReadClusters mp fuel s offset l = .ret (s', l')) :
    ∃ lost, Leaves s s' lost ∧ ((∃ j, lost j) ↔ DirReadFails mp fuel s offset l) := by
  induction fuel generalizing s offset l s' l' with
  | zero => cases hrun
  | succ fuel ih =>
    have hnone : ∀ t : FatState, Scratch s t → ¬ DirReadFails mp (fuel + 1) s offset l →
        ∃ lost, Leaves s t lost ∧ ((∃ j, lost j) ↔ DirReadFails mp (fuel + 1) s offset l) :=
      fun t hscratch hno => ⟨_, hscratch.leaves, iff_of_false (fun ⟨j, ho⟩ => ho) hno⟩
    unfold fatFsReadClusters at hrun
    split at hrun
    case isFalse hend =>
      injection hrun with hpair
      rw [← (Prod.mk.inj hpair).1]
      exact hnone s Scratch.refl fun h => hend h.1.1
    case isTrue hlt =>
    rcases reserve_cases hinv with ⟨s₁, hres, hscratch, -⟩ | ⟨q, s₁, hres, hu, -⟩
    · -- without a buffer the list so far is dropped, and nothing is lost
      rw [hres] at hrun
      injection hrun with hpair
      rw [← (Prod.mk.inj hpair).1]
      exact hnone s₁ hscratch fun h => h.1.2 (by rw [hres])
    rcases hu.addr hinv with ⟨a, ha⟩
    rw [hres, ha] at hrun
    simp only at hrun
    rw [← ha] at hrun
    have hne : cellAddr s.files q ≠ 0 := by omega
    rw [DirReadFails]
    simp only [hres]
    rw [and_iff_right ⟨hlt, hne⟩]
    rcases hread : fatFsReadByDataCluster s₁ mp offset (cellAddr s.files q) with ⟨u, ok⟩
    have hu' := readByDataCluster_using hu hinv hread
    rw [hread] at hrun
    cases ok with
    | false =>
      -- the buffer stays reserved
      injection hrun with hpair
      rw [← (Prod.mk.inj hpair).1]
      exact ⟨_, hu'.leaves, iff_of_true ⟨q, rfl⟩ (Or.inl rfl)⟩
    | true =>
      dsimp only at hrun
      rcases Outcome.bind_eq_ret.mp hrun with ⟨⟨t, l₁⟩, hentries, hrun⟩
      have hinv₁ := hu'.cacheInv hinv
      have hsub : LosesWhen (fun s cluster => fatFsReadClusters mp fuel s cluster [])
          (fun s cluster => DirReadFails mp fuel s cluster []) :=
        fun s c t l hinv hrun => ih hinv hrun
      rcases readEntries_leaves hsub hinv₁ hentries with ⟨lost₁, hleaves₁, hlost₁⟩
      -- what is lost below was free, and this buffer was in use: it is given back
      have hnot : ¬ lost₁ q := by
        intro ho
        have hfree := hleaves₁.free q ho
        exact (hu'.leaves.mem_freeCells.mp hfree).2 rfl
      have hfind := (findNextCluster_scratch mp offset (hleaves₁.cacheInv hinv₁)).1
      have hback := hu'.leaves.trans (hleaves₁.trans hfind.leaves)
      simp only [or_false] at hback
      have hreleased := hback.release hinv hnot
      dsimp only at hrun
      rcases ih (hreleased.cacheInv hinv) hrun with ⟨lost₂, hleaves₂, hlost₂⟩
      refine ⟨_, hreleased.trans hleaves₂, ?_⟩
      rw [exists_or, hlost₁, hlost₂]
      constructor
      · rintro (h | h)
        · exact Or.inr (Or.inl ⟨rfl, h⟩)
        · exact Or.inr (Or.inr ⟨t, l₁, rfl, hentries, h⟩)
      · rintro (h | ⟨-, h⟩ | ⟨t', l₁', -, hentries', h⟩)
        · cases h
        · exact Or.inl h
        · rw [hentries] at hentries'
          injection hentries' with hpair
          rcases Prod.mk.inj hpair with ⟨rfl, rfl⟩
          exact Or.inr h

/-- The count of a read of one sector. -/
theorem deviceRead_count (t : FatState) (x a : Nat) :
    (t.deviceRead x 1 a).2 = if t.device 0 = true then 1 else 0 := by
  unfold FatState.deviceRead
  dsimp only
  split
  · rfl
  · rfl

/-- Mounting: a buffer is lost exactly when a sector or a directory cluster cannot be
read. -/
theorem mount_leaves {tag storageInfo : Nat} {res : Option (MountPoint × List FatNode)}
    (hinv : CacheInv s.files) (hrun : fatFsMount fuel s tag storageInfo = .ret (s', res)) :
    ∃ lost, Leaves s s' lost ∧ ((∃ j, lost j) ↔ MountReadFails fuel s tag storageInfo) := by
  unfold fatFsMount at hrun
  unfold MountReadFails
  rcases reserve_cases hinv with ⟨s₁, hres, hscratch, -⟩ | ⟨q, s₁, hres, hu, -⟩
  · rw [hres] at hrun ⊢
    injection hrun with hpair
    rw [← (Prod.mk.inj hpair).1]
    exact ⟨_, hscratch.leaves, iff_of_false (fun ⟨j, hno⟩ => hno) fun h => h.1 rfl⟩
  rcases hu.addr hinv with ⟨a, ha⟩
  rw [hres, ha] at hrun
  simp only at hrun
  rw [← ha] at hrun
  have hne : cellAddr s.files q ≠ 0 := by omega
  simp only [hres]
  rw [and_iff_right hne]
  have hfirst := deviceRead_using (x := 0) hu hinv (show 1 ≤ 8 by decide)
  generalize hread : s₁.deviceRead 0 1 (cellAddr s.files q) = r at *
  have hcount := deviceRead_count s₁ 0 (cellAddr s.files q)
  rw [hread] at hcount
  by_cases hdev : s₁.device 0 = true
  · rw [if_pos hdev] at hcount
    rw [if_neg (not_not.mpr hcount)] at hrun
    have hsecond := deviceRead_using (x := lbaOffset r.1.mem (cellAddr s.files q)) hfirst hinv
      (show 1 ≤ 8 by decide)
    generalize hread' : r.1.deviceRead (lbaOffset r.1.mem (cellAddr s.files q)) 1
      (cellAddr s.files q) = r' at *
    have hcount' := deviceRead_count r.1 (lbaOffset r.1.mem (cellAddr s.files q))
      (cellAddr s.files q)
    rw [hread'] at hcount'
    by_cases hdev' : r.1.device 0 = true
    · rw [if_pos hdev'] at hcount'
      rw [if_neg (not_not.mpr hcount')] at hrun
      rcases Outcome.bind_eq_ret.mp hrun with ⟨⟨t, children⟩, hchildren, hret⟩
      injection hret with hpair
      rw [← (Prod.mk.inj hpair).1]
      have hscratch := hsecond.release hinv
      rcases readClusters_leaves (hscratch.cacheInv hinv) hchildren with ⟨lost, hleaves, hlost⟩
      have hall := hscratch.leaves.trans hleaves
      simp only [false_or] at hall
      refine ⟨lost, hall, ?_⟩
      rw [hlost]
      simp [hdev, hdev']
    · -- the volume id is not read
      rw [if_neg hdev'] at hcount'
      rw [if_pos (by rw [hcount']; decide)] at hrun
      injection hrun with hpair
      rw [← (Prod.mk.inj hpair).1]
      exact ⟨_, hsecond.leaves, iff_of_true ⟨q, rfl⟩ (Or.inr (Or.inl (by simpa using hdev')))⟩
  · -- the master boot record is not read
    rw [if_neg hdev] at hcount
    rw [if_pos (by rw [hcount]; decide)] at hrun
    injection hrun with hpair
    rw [← (Prod.mk.inj hpair).1]
    exact ⟨_, hfirst.leaves, iff_of_true ⟨q, rfl⟩ (Or.inl (by simpa using hdev))⟩

end Reading

/-! ## The law -/

/-- Whatever fails, following and marking links, reserving, deleting, moving and creating
leave the same buffers reserved; reading a directory does exactly when no directory cluster
fails to be read, and mounting when neither a sector nor a directory cluster does. -/
theorem buffers_kept_iff {s : FatState} (hinv : CacheInv s.files) :
    (∀ mp c, KeepsBuffers s (fatFsFindNextCluster s mp c).1) ∧
    (∀ mp c v, KeepsBuffers s (fatFsMarkCluster s mp c v).1) ∧
    (∀ fuel mp next s' r, fatFsReserveFirstCluster fuel s mp next = .ret (s', r) →
      KeepsBuffers s s') ∧
    (∀ fuel mp node s' res, node.data.metadataIndex < 128 →
      fatFsDeleteNode fuel s mp node = .ret (s', res) → KeepsBuffers s s') ∧
    (∀ fuel mp node directory s' node' directory' res, node.data.metadataIndex < 128 →
      fatFsMoveNode fuel s mp node directory = .ret (s', node', directory', res) →
      KeepsBuffers s s') ∧
    (∀ fuel mp directory name attributes s' directory' made,
      fatFsCreateNode fuel s mp directory name attributes = .ret (s', directory', made) →
      KeepsBuffers s s') ∧
    (∀ fuel mp c s' l, fatFsReadDirectory fuel s mp c = .ret (s', l) →
      (KeepsBuffers s s' ↔ ¬ DirReadFails mp fuel s c [])) ∧
    (∀ fuel tag storageInfo s' res, fatFsMount fuel s tag storageInfo = .ret (s', res) →
      (KeepsBuffers s s' ↔ ¬ MountReadFails fuel s tag storageInfo)) := by
  -- the calls that return every buffer first, then those that may lose some
  refine ⟨?_, ?_, ?_, ?_, ?_, ?_, ?_, ?_⟩
  · intro mp c
    exact (findNextCluster_scratch _ _ hinv).1.keeps hinv
  · intro mp c v
    exact (markCluster_keeps _ _ _ hinv).keeps hinv
  · intro fuel mp next s' r hrun
    exact (reserveFirst_keeps hinv hrun).keeps hinv
  · intro fuel mp node s' res hindex hrun
    exact (deleteNode_keeps hinv hindex hrun).keeps hinv
  · intro fuel mp node directory s' node' directory' res hindex hrun
    exact (moveNode_keeps hinv hindex hrun).keeps hinv
  · intro fuel mp directory name attributes s' directory' made hrun
    exact (createNode_keeps hinv hrun).keeps hinv
  · intro fuel mp c s' l hrun
    rcases readClusters_leaves hinv hrun with ⟨lost, hleaves, hlost⟩
    rw [hleaves.keeps_iff hinv, hlost]
  · intro fuel tag storageInfo s' res hrun
    rcases mount_leaves hinv hrun with ⟨lost, hleaves, hlost⟩
    rw [hleaves.keeps_iff hinv, hlost]

/-- A disk whose root directory is read twice. -/
theorem buffers_kept_iff_fresh :
    KeepsBuffers (freshState zeroFile)
        (fatFsFindNextCluster (freshState zeroFile) smallMount 2).1 ∧
      ∀ s' l, fatFsReadDirectory 2 (freshState zeroFile) smallMount 2 = .ret (s', l) →
        (KeepsBuffers (freshState zeroFile) s' ↔
          ¬ DirReadFails smallMount 2 (freshState zeroFile) 2 []) := by
  rcases buffers_kept_iff (s := freshState zeroFile) freshCache_inv with
    ⟨hfind, -, -, -, -, -, hread, -⟩
  exact ⟨hfind smallMount 2, fun s' l hrun => hread 2 smallMount 2 s' l hrun⟩

/-- A machine whose device answers no call. -/
def deadDevice : FatState := { freshState zeroFile with device := fun _ => false }

/-- The root directory cannot be read: its buffer stays reserved. -/
theorem readDirectory_loses_buffer : ∃ s',
    fatFsReadDirectory 1 deadDevice smallMount 2 = .ret (s', []) ∧
    ¬ KeepsBuffers deadDevice s' := by
  have hrun : ∃ s', fatFsReadDirectory 1 deadDevice smallMount 2 = .ret (s', []) := ⟨_, rfl⟩
  rcases hrun with ⟨s', hrun⟩
  refine ⟨s', hrun, fun hsame => ?_⟩
  have hinv : CacheInv deadDevice.files := freshCache_inv
  rcases readClusters_leaves hinv hrun with ⟨lost, hleaves, hlost⟩
  have hfails : DirReadFails smallMount 1 deadDevice 2 [] :=
    ⟨⟨by decide, by decide⟩, Or.inl rfl⟩
  exact (hleaves.keeps_iff hinv).mp hsame (hlost.mpr hfails)

end MeOS
