import MeOS.FatMove
import MeOS.FatCodec

/-! # Scratch buffers whatever fails

The operations that change the FAT give their buffers back on every way out. Reading a
directory does not: when a cluster cannot be read, the function returns with the buffer of
that cluster still reserved, and so does mounting when a sector cannot be read. A call
leaves the reserved buffers as they were exactly when no such read fails
(`buffers_kept_iff`).
-/

namespace MeOS

open Bytes

/-! ## Calls that give everything back -/

section Kept

variable {s t s' : FatState} {mp : MountPoint} {node directory directory' : FatNode}
  {made : Option FatNode} {c c' i v r fuel next idx x : Nat} {res : ErrorT} {m : Mem}
  {name : List UInt8} {ok : Bool} {layout layout' : List Nat}
  {found : Option (Nat × Nat)}

/-- A way out of a call that leaves the page cache. -/
theorem Scratch.returned {β : Type} {y z : β} (h : Scratch s t)
    (hrun : (Outcome.ret (t, y) : Outcome (FatState × β)) = .ret (s', z)) : Scratch s s' := by
  injection hrun with hpair
  rw [← (Prod.mk.inj hpair).1]
  exact h

/-- A word is set in the buffer. -/
theorem Using.word (h : Using s t c) (hinv : CacheInv s.files) (hi : i < 1024) :
    Using s (t.setMem (store32 t.mem (fatWord (cellAddr s.files c) i) v)) c := by
  have htop := h.top hinv
  refine h.setMem hinv fun x hx => store32_frame _ _ ?_
  rw [fatWord_eq htop hi]
  simp only [pageCacheSize] at hx
  omega

theorem writeByLba_using (h : Using s t c)
    (hrun : fatFsWriteByLba t mp x (cellAddr s.files c) = (s', ok)) : Using s s' c := by
  unfold fatFsWriteByLba at hrun
  split at hrun
  · injection hrun with hstate
    rw [← hstate]
    exact h.error .badArguments
  · have hwrite : Using s (t.deviceWrite x 8 (cellAddr s.files c)).1 c := by
      unfold FatState.deviceWrite
      dsimp only
      split
      · exact h.put
      · exact h.skip
    dsimp only at hrun
    split at hrun
    · injection hrun with hstate
      rw [← hstate]
      exact hwrite
    · injection hrun with hstate
      rw [← hstate]
      exact hwrite

/-- A data cluster is read into the buffer, or not. -/
theorem readByDataCluster_using (h : Using s t c) (hinv : CacheInv s.files)
    (hrun : fatFsReadByDataCluster t mp x (cellAddr s.files c) = (s', ok)) : Using s s' c := by
  unfold fatFsReadByDataCluster at hrun
  split at hrun
  · injection hrun with hstate
    rw [← hstate]
    exact h.error .badArguments
  · exact (readByLba_using h hinv hrun).1

theorem writeByDataCluster_using (h : Using s t c)
    (hrun : fatFsWriteByDataCluster t mp x (cellAddr s.files c) = (s', ok)) : Using s s' c := by
  unfold fatFsWriteByDataCluster at hrun
  split at hrun
  · injection hrun with hstate
    rw [← hstate]
    exact h.error .badArguments
  · exact writeByLba_using h hrun

/-- Marking an entry. -/
theorem markCluster_keeps (mp : MountPoint) (x v : Nat) (hinv : CacheInv s.files) :
    Scratch s (fatFsMarkCluster s mp x v).1 := by
  unfold fatFsMarkCluster
  rcases reserve_cases hinv with ⟨s₁, hres, hscratch, -⟩ | ⟨q, s₁, hres, hu, -⟩
  · rw [hres]
    exact hscratch
  · rcases hu.addr hinv with ⟨a, ha⟩
    rw [hres, ha]
    simp only
    rw [← ha]
    rcases hread : fatFsReadByLba s₁ mp (add32 mp.data.fatLba (x / 128)) (cellAddr s.files q) with
      ⟨t, ok⟩
    have ht := (readByLba_using hu hinv hread).1
    cases ok with
    | false => exact ht.release hinv
    | true =>
      -- the word lies inside the buffer, so the bitmap and the other cells stay
      have hedit := ht.word (v := v &&& fatMask) hinv (show x % 128 < 1024 by omega)
      dsimp only
      rcases hwrite : fatFsWriteByLba (t.setMem (store32 t.mem (fatWord (cellAddr s.files q)
        (x % 128)) (v &&& fatMask))) mp (add32 mp.data.fatLba (x / 128)) (cellAddr s.files q) with
        ⟨w, ok⟩
      have hw := writeByLba_using hedit hwrite
      cases ok with
      | false => exact hw.release hinv
      | true => exact hw.release hinv

/-- The scan for a free cluster. -/
theorem reserveLoop_keeps (hinv : CacheInv s.files) (hu : Using s t c)
    (hrun : fatFsReserveLoop mp next (cellAddr s.files c) fuel idx t = .ret (s', r)) :
    Scratch s s' := by
  induction fuel generalizing t idx with
  | zero => cases hrun
  | succ fuel ih =>
    unfold fatFsReserveLoop at hrun
    dsimp only at hrun
    rcases hread : fatFsReadByLba t mp (add32 mp.data.fatLba (mul32 idx 8)) (cellAddr s.files c)
      with ⟨t₁, ok⟩
    have ht := (readByLba_using hu hinv hread).1
    rw [hread] at hrun
    cases ok with
    | false =>
      exact (ht.release hinv).returned hrun
    | true =>
      dsimp only at hrun
      split at hrun
      · -- a word that is 0
        rename_i i hfind
        have hi : i < 128 := List.mem_range.mp (List.mem_of_find?_eq_some hfind)
        have hedit := ht.word (v := next &&& fatMask) hinv (show i < 1024 by omega)
        rcases hwrite : fatFsWriteByLba (t₁.setMem (store32 t₁.mem (fatWord (cellAddr s.files c) i)
          (next &&& fatMask))) mp (add32 mp.data.fatLba (mul32 idx 8)) (cellAddr s.files c) with
          ⟨w, ok⟩
        have hw := writeByLba_using hedit hwrite
        rw [hwrite] at hrun
        cases ok with
        | false =>
          exact (hw.release hinv).returned hrun
        | true =>
          exact (hw.release hinv).returned hrun
      · exact ih ht hrun

/-- Reserving a cluster. -/
theorem reserveFirst_keeps (hinv : CacheInv s.files)
    (hrun : fatFsReserveFirstCluster fuel s mp next = .ret (s', r)) : Scratch s s' := by
  unfold fatFsReserveFirstCluster at hrun
  rcases reserve_cases hinv with ⟨s₁, hres, hscratch, -⟩ | ⟨q, s₁, hres, hu, -⟩
  · rw [hres] at hrun
    exact hscratch.returned hrun
  · rcases hu.addr hinv with ⟨a, ha⟩
    rw [hres, ha] at hrun
    simp only at hrun
    rw [← ha] at hrun
    exact reserveLoop_keeps hinv hu hrun

/-- Freeing a chain. -/
theorem deleteChain_keeps (hinv : CacheInv s.files)
    (hrun : fatFsDeleteChain mp fuel s x = .ret (s', res)) : Scratch s s' := by
  induction fuel generalizing s x with
  | zero => cases hrun
  | succ fuel ih =>
    unfold fatFsDeleteChain at hrun
    have hmark := markCluster_keeps mp x 0 hinv
    split at hrun
    · split at hrun
      · rename_i t hpair
        rw [hpair] at hmark
        exact hmark.returned hrun
      · rename_i t v' hne hpair
        rw [hpair] at hmark
        exact hmark.trans (ih (hmark.cacheInv hinv) hrun)
    · exact Scratch.refl.returned hrun

/-- An entry is marked as deleted in the buffer. -/
theorem Using.markDeleted (h : Using s t c) (hinv : CacheInv s.files) (hi : i < 128) (b : UInt8) :
    Using s (t.setMem (store8 t.mem (entryAddr (cellAddr s.files c) i) b)) c := by
  have htop := h.top hinv
  refine h.setMem hinv fun x hx => store8_ne _ _ ?_
  rw [entryAddr_eq htop hi]
  simp only [pageCacheSize] at hx
  omega

/-- Deleting a node. -/
theorem deleteNode_keeps (hinv : CacheInv s.files) (hi : node.data.metadataIndex < 128)
    (hrun : fatFsDeleteNode fuel s mp node = .ret (s', res)) : Scratch s s' := by
  unfold fatFsDeleteNode at hrun
  split at hrun
  · exact (Scratch.error s .vfsBadArguments).returned hrun
  · rcases reserve_cases hinv with ⟨s₁, hres, hscratch, -⟩ | ⟨q, s₁, hres, hu, -⟩
    · rw [hres] at hrun
      exact hscratch.returned hrun
    · rcases hu.addr hinv with ⟨a, ha⟩
      rw [hres, ha] at hrun
      simp only at hrun
      rw [← ha] at hrun
      rcases hread : fatFsReadByDataCluster s₁ mp node.data.metadataCluster (cellAddr s.files q)
        with ⟨t, ok⟩
      have ht := readByDataCluster_using hu hinv hread
      rw [hread] at hrun
      cases ok with
      | false =>
        exact (ht.release hinv).returned hrun
      | true =>
        dsimp only at hrun
        -- the chain is freed when the buffer has been given back
        have hmark := ht.markDeleted hinv hi
          (deletedMark t.mem (cellAddr s.files q) node.data.metadataIndex)
        rcases hwrite : fatFsWriteByDataCluster (t.setMem (store8 t.mem
          (entryAddr (cellAddr s.files q) node.data.metadataIndex)
          (deletedMark t.mem (cellAddr s.files q) node.data.metadataIndex))) mp
          node.data.metadataCluster (cellAddr s.files q) with ⟨w, ok⟩
        have hw := writeByDataCluster_using hmark hwrite
        rw [hwrite] at hrun
        cases ok with
        | false =>
          exact (hw.release hinv).returned hrun
        | true =>
          dsimp only at hrun
          have hscratch := hw.release hinv
          split at hrun
          · cases hrun
          · exact hscratch.trans (deleteChain_keeps (hscratch.cacheInv hinv) hrun)

/-- The search for a vacant entry; the entry is one of the first 127. -/
theorem findEmptyEntry_using (hinv : CacheInv s.files) (hu : Using s t c)
    (hrun : fatFsFindEmptyEntry mp (cellAddr s.files c) layout t = (s', found)) :
    Using s s' c ∧ ∀ p, found = some p → p.2 < 127 := by
  induction layout generalizing t with
  | nil =>
    unfold fatFsFindEmptyEntry at hrun
    rcases Prod.mk.inj hrun with ⟨rfl, rfl⟩
    exact ⟨hu, fun p hp => by cases hp⟩
  | cons x layout ih =>
    unfold fatFsFindEmptyEntry at hrun
    rcases hread : fatFsReadByDataCluster t mp x (cellAddr s.files c) with ⟨t₁, ok⟩
    have ht := readByDataCluster_using hu hinv hread
    rw [hread] at hrun
    cases ok with
    | false =>
      rcases Prod.mk.inj hrun with ⟨rfl, rfl⟩
      exact ⟨ht, fun p hp => by cases hp⟩
    | true =>
      dsimp only at hrun
      split at hrun
      · rename_i j hfind
        rcases Prod.mk.inj hrun with ⟨rfl, rfl⟩
        refine ⟨ht, fun p hp => ?_⟩
        cases hp
        exact List.mem_range.mp (List.mem_of_find?_eq_some hfind)
      · exact ih ht hrun

/-- Moving a node. -/
theorem moveNode_keeps (hinv : CacheInv s.files) (hi : node.data.metadataIndex < 128)
    (hrun : fatFsMoveNode fuel s mp node directory = .ret (s', node', directory', res)) :
    Scratch s s' := by
  unfold fatFsMoveNode at hrun
  split at hrun
  · -- the arguments are refused
    exact (Scratch.error s .badNodeStructure).returned hrun
  rcases Outcome.bind_eq_ret.mp hrun with ⟨⟨s₁, directory₁, opened⟩, hopen, hrun⟩
  have hscratch₁ := (openFileByNode_scratch hinv hopen).1
  have hinv₁ := hscratch₁.cacheInv hinv
  refine hscratch₁.trans ?_
  dsimp only at hrun
  split at hrun
  · -- the directory cannot be opened
    exact Scratch.refl.returned hrun
  rcases reserve_cases hinv₁ with ⟨t, hres, hscratch, -⟩ | ⟨q, t, hres, hu, -⟩
  · rw [hres] at hrun
    exact hscratch.returned hrun
  rcases hu.addr hinv₁ with ⟨a, ha⟩
  rw [hres, ha] at hrun
  simp only at hrun
  rw [← ha] at hrun
  rcases hread : fatFsReadByDataCluster t mp node.data.metadataCluster (cellAddr s₁.files q)
    with ⟨u, ok⟩
  have hread' := readByDataCluster_using hu hinv₁ hread
  rw [hread] at hrun
  cases ok with
  | false =>
    exact (hread'.release hinv₁).returned hrun
  | true =>
    -- the entry is taken off the disk before a place is looked for
    dsimp only at hrun
    have hmark := hread'.markDeleted hinv₁ hi
      (deletedMark u.mem (cellAddr s₁.files q) node.data.metadataIndex)
    rcases hwrite : fatFsWriteByDataCluster (u.setMem (store8 u.mem
      (entryAddr (cellAddr s₁.files q) node.data.metadataIndex)
      (deletedMark u.mem (cellAddr s₁.files q) node.data.metadataIndex))) mp
      node.data.metadataCluster (cellAddr s₁.files q) with ⟨w, ok⟩
    have hw := writeByDataCluster_using hmark hwrite
    rw [hwrite] at hrun
    cases ok with
    | false =>
      exact (hw.release hinv₁).returned hrun
    | true =>
      dsimp only at hrun
      rcases hfind : fatFsFindEmptyEntry mp (cellAddr s₁.files q) directory₁.data.layout w with
        ⟨x, found⟩
      rcases findEmptyEntry_using hinv₁ hw hfind with ⟨hx, hfound⟩
      rw [hfind] at hrun
      cases found with
      | none =>
        exact (hx.release hinv₁).returned hrun
      | some p =>
        rcases p with ⟨cluster, index⟩
        have hindex : index < 127 := hfound _ rfl
        dsimp only at hrun
        have hfill := hx.fillEntry (fun k =>
          u.mem (entryAddr (cellAddr s₁.files q) node.data.metadataIndex + k)) hinv₁
          (show index < 128 by omega)
        rcases hput : fatFsWriteByDataCluster (x.setMem (blit x.mem
          (entryAddr (cellAddr s₁.files q) index)
          (fun k => u.mem (entryAddr (cellAddr s₁.files q) node.data.metadataIndex + k)) 0 32)) mp
          cluster (cellAddr s₁.files q) with ⟨y, ok⟩
        have hy := writeByDataCluster_using hfill hput
        rw [hput] at hrun
        cases ok with
        | false =>
          exact (hy.release hinv₁).returned hrun
        | true =>
          exact (hy.release hinv₁).returned hrun

/-- The entry of a new node is written inside the buffer. -/
theorem createShortEntry_using (hinv : CacheInv s.files) (hu : Using s t c) (hi : i < 128)
    (hrun : fatFsCreateShortEntryFromNode t (entryAddr (cellAddr s.files c) i) node = (s', res)) :
    Using s s' c := by
  have htop := hu.top hinv
  unfold fatFsCreateShortEntryFromNode at hrun
  split at hrun
  · rw [← (Prod.mk.inj hrun).1]
    exact hu.error .badNodeStructure
  · rw [← (Prod.mk.inj hrun).1]
    refine hu.setMem hinv fun x hx => ?_
    rw [entryAddr_eq htop hi]
    simp only [pageCacheSize] at hx
    cases hname : fatFsGenerateShortName node.name with
    | none => simp (disch := omega) only [store8_ne, store16_frame, store32_frame]
    | some bytes =>
      have hlen := generateShortName_length hname
      simp (disch := omega) only [store8_ne, store16_frame, store32_frame, storeBytes_frame]

/-- The first block of a new node is written from the buffer. -/
theorem initializeNodeCluster_using {entry : Mem} (hinv : CacheInv s.files) (hu : Using s t c)
    (hrun : fatFsInitializeNodeCluster t mp node directory entry (cellAddr s.files c) =
      .ret (s', directory', ok)) : Using s s' c := by
  unfold fatFsInitializeNodeCluster at hrun
  dsimp only at hrun
  rcases hread : fatFsReadByDataCluster t mp (fatFsGetEntryDataCluster entry 0)
    (cellAddr s.files c) with ⟨u, okRead⟩
  have hread' := readByDataCluster_using hu hinv hread
  rw [hread] at hrun
  cases okRead with
  | false =>
    injection hrun with hpair
    rw [← (Prod.mk.inj hpair).1]
    exact hread'
  | true =>
    dsimp only at hrun
    have hclear : Using s (u.setMem (fill u.mem (cellAddr s.files c) 4096 0)) c :=
      hread'.setMem hinv fun x hx => fill_frame _ _ hx
    split at hrun
    · -- a directory: its dot entries are written in front
      split at hrun
      · cases hrun
      · injection hrun with hpair
        rw [← (Prod.mk.inj hpair).1]
        refine writeByDataCluster_using (hclear.setMem hinv fun x hx => ?_) rfl
        apply initializeDirectory_frame
        simp only [pageCacheSize] at hx
        omega
    · injection hrun with hpair
      rw [← (Prod.mk.inj hpair).1]
      exact writeByDataCluster_using hclear rfl

/-- Creating a node from the label `file_creation` on. -/
theorem fileCreation_keeps (hinv : CacheInv s.files) (hu : Using s t c) (hi : i < 128)
    (hrun : fatFsFileCreation fuel t mp directory name v (cellAddr s.files c) x i =
      .ret (s', directory', made)) : Scratch s s' := by
  unfold fatFsFileCreation at hrun
  dsimp only at hrun
  rcases Outcome.bind_eq_ret.mp hrun with ⟨⟨t₁, freeCluster⟩, hreserve, hrun⟩
  have hinv' := hu.cacheInv hinv
  have ht₁ := (hu.scratch hinv (reserveFirst_keeps hinv' hreserve)).1
  dsimp only at hrun
  split at hrun
  · -- no cluster is left
    exact (ht₁.release hinv).returned hrun
  split at hrun
  · rename_i t₂ hentry
    exact ((createShortEntry_using hinv ht₁ hi hentry).release hinv).returned hrun
  · rename_i t₂ hentry
    have ht₂ := createShortEntry_using hinv ht₁ hi hentry
    rcases hwrite : fatFsWriteByDataCluster t₂ mp x (cellAddr s.files c) with ⟨t₃, ok⟩
    have ht₃ := writeByDataCluster_using ht₂ hwrite
    rw [hwrite] at hrun
    cases ok with
    | false =>
      exact (ht₃.release hinv).returned hrun
    | true =>
      dsimp only at hrun
      rcases Outcome.bind_eq_ret.mp hrun with ⟨⟨t₄, directory₁, written⟩, hinit, hrun⟩
      have ht₄ := initializeNodeCluster_using hinv ht₃ hinit
      dsimp only at hrun
      split at hrun
      · exact (ht₄.release hinv).returned hrun
      · exact (ht₄.release hinv).returned hrun

/-- Creating a node. -/
theorem createNode_keeps (hinv : CacheInv s.files)
    (hrun : fatFsCreateNode fuel s mp directory name v = .ret (s', directory', made)) :
    Scratch s s' := by
  unfold fatFsCreateNode at hrun
  split at hrun
  · exact (Scratch.error s .badNodeStructure).returned hrun
  split at hrun
  · exact (Scratch.error s .invalid83Name).returned hrun
  rcases reserve_cases hinv with ⟨s₁, hres, hscratch, -⟩ | ⟨q, s₁, hres, hu, -⟩
  · rw [hres] at hrun
    exact hscratch.returned hrun
  rcases hu.addr hinv with ⟨a, ha⟩
  rw [hres, ha] at hrun
  simp only at hrun
  rw [← ha] at hrun
  rcases hfind : fatFsFindEmptyEntry mp (cellAddr s.files q) directory.data.layout s₁ with
    ⟨t, found⟩
  rcases findEmptyEntry_using hinv hu hfind with ⟨ht, hfound⟩
  rw [hfind] at hrun
  cases found with
  | some p =>
    rcases p with ⟨cluster, index⟩
    have hindex : index < 127 := hfound _ rfl
    exact fileCreation_keeps hinv ht (by omega) hrun
  | none =>
    -- a cluster is reserved for the directory and linked to its last one
    dsimp only at hrun
    rcases Outcome.bind_eq_ret.mp hrun with ⟨⟨t₁, freeCluster⟩, hreserve, hrun⟩
    have ht₁ := (ht.scratch hinv (reserveFirst_keeps (ht.cacheInv hinv) hreserve)).1
    dsimp only at hrun
    split at hrun
    · exact (ht₁.release hinv).returned hrun
    split at hrun
    · cases hrun
    · rename_i last hlast
      have hmark := markCluster_keeps mp last freeCluster (ht₁.cacheInv hinv)
      exact fileCreation_keeps hinv (ht₁.scratch hinv hmark).1 (by decide) hrun

end Kept

end MeOS
