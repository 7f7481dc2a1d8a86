import MeOS.PageCacheInv
import MeOS.Fat

/-! # Scratch buffers

Every operation of the driver works in cells of the page cache it reserves and
gives back. `Scratch s s'` says that this is all that happened to the page
cache: marks, used cells and the memory outside are as before, whatever was
written into free cells. `Using s s' c` is the same while cell `c` is reserved.
-/

namespace MeOS

open Bytes

/-! ## Relations -/

/-- No call to the outside fails. -/
structure NoFailure (s : FatState) : Prop where
  frames : ∀ k, s.files.frames k ≠ none
  device : ∀ k, s.device k = true
  tables : ∀ k, s.tables k = true

/-- From `s` to `s'` nothing happened to the page cache, except to free cells
and to the marks in `own`. -/
structure ScratchBut (s s' : FatState) (own : Nat → Prop) : Prop where
  same : s'.files.cache = s.files.cache ∧ s'.files.cacheSize = s.files.cacheSize
  entries : s'.files.gft = s.files.gft ∧ s'.files.nodes = s.files.nodes
  marks : ∀ c < pageCacheNumBuffers s.files, ¬ own c →
    s'.mem (bitmapAddr s.files + c) = s.mem (bitmapAddr s.files + c)
  used : ∀ c, c + 1 < pageCacheNumBuffers s.files → s.mem (bitmapAddr s.files + c) ≠ 0 →
    ∀ k < pageCacheSize, s'.mem (cellAddr s.files c + k) = s.mem (cellAddr s.files c + k)
  outside : ∀ x, x < s.files.cache ∨ s.files.cache + s.files.cacheSize ≤ x → s'.mem x = s.mem x
  calm : NoFailure s → NoFailure s'
  junk : s'.behindTable = s.behindTable ∧ s'.rawLoaded = s.rawLoaded

/-- All buffers were given back. -/
abbrev Scratch (s s' : FatState) : Prop := ScratchBut s s' fun _ => False

/-- Cell `c`, the first that was free, is reserved. -/
structure Using (s s' : FatState) (c : Nat) : Prop extends ScratchBut s s' (· = c) where
  first : (freeCells s.files).head? = some c
  mark : s'.mem (bitmapAddr s.files + c) ≠ 0

/-- A page cache with at least `n` free cells, and no failing calls. -/
structure Steady (n : Nat) (s : FatState) : Prop where
  inv : CacheInv s.files
  free : n ≤ (freeCells s.files).length
  calm : NoFailure s

/-- The mount point of a mounted volume. -/
structure Mounted (mp : MountPoint) : Prop where
  attributes : mp.attributes &&& 7 = vfsMountPt
  tag : mp.tag ≠ 0
  storageInfo : mp.storageInfo ≠ 0

section Config

variable {s t : FileState} {c : Nat}

theorem numBuffers_congr (h : t.cacheSize = s.cacheSize) :
    pageCacheNumBuffers t = pageCacheNumBuffers s := by
  rw [pageCacheNumBuffers, pageCacheNumBuffers, h]

theorem cellAddr_congr (h : t.cache = s.cache) : cellAddr t c = cellAddr s c := by
  rw [cellAddr, cellAddr, h]

theorem bitmapAddr_congr (h : t.cache = s.cache ∧ t.cacheSize = s.cacheSize) :
    bitmapAddr t = bitmapAddr s := by
  rw [bitmapAddr, bitmapAddr, numBuffers_congr h.2, cellAddr_congr h.1]

theorem holds_congr (h : t.gft = s.gft) {g p : Nat} : Holds t g p c ↔ Holds s g p c := by
  rw [Holds, Holds, h]

/-- The invariant holds on as long as marks of used cells stay. -/
theorem CacheInv.of_marks (h : CacheInv s) (hsame : t.cache = s.cache ∧ t.cacheSize = s.cacheSize)
    (hgft : t.gft = s.gft)
    (hmarks : ∀ j < pageCacheNumBuffers s, (∃ g p, Holds s g p j) ∨ j + 1 = pageCacheNumBuffers s →
      t.mem (bitmapAddr s + j) ≠ 0) : CacheInv t where
  base := by rw [hsame.1]; exact h.base
  size := by rw [hsame.2, numBuffers_congr hsame.2]; exact h.size
  nonempty := by rw [numBuffers_congr hsame.2]; exact h.nonempty
  few := by rw [numBuffers_congr hsame.2]; exact h.few
  top := by rw [hsame.1, hsame.2]; exact h.top
  self := by
    have hpos := h.nonempty
    rw [numBuffers_congr hsame.2, bitmapAddr_congr hsame]
    exact hmarks _ (by omega) (Or.inr (by omega))
  cells := by
    intro g p i hh
    rw [holds_congr hgft] at hh
    have hlt := (h.cells hh).1
    rw [numBuffers_congr hsame.2, bitmapAddr_congr hsame]
    exact ⟨hlt, hmarks i (by omega) (Or.inl ⟨g, p, hh⟩)⟩
  inj := fun h₁ h₂ => h.inj ((holds_congr hgft).mp h₁) ((holds_congr hgft).mp h₂)
  fn := fun h₁ h₂ => h.fn ((holds_congr hgft).mp h₁) ((holds_congr hgft).mp h₂)

/-- A mark is outside of the cells. -/
theorem mark_outside {j : Nat} (hc : c + 1 < pageCacheNumBuffers s) :
    cellAddr s c + pageCacheSize ≤ bitmapAddr s + j :=
  (CacheInv.cell_below_bitmap hc).trans (Nat.le_add_right _ _)

theorem CacheInv.mark_inside (h : CacheInv s) {j : Nat} (hj : j < pageCacheNumBuffers s) :
    s.cache ≤ bitmapAddr s + j ∧ bitmapAddr s + j < s.cache + s.cacheSize := by
  have hpos := h.nonempty
  have hfew := h.few
  have hlast := h.cell_bounds (i := pageCacheNumBuffers s - 1) (by omega)
  have hbase := cache_le_cellAddr (s := s) (i := pageCacheNumBuffers s - 1)
  simp only [bitmapAddr] at *
  omega

end Config

section Scratch

variable {s s₁ s₂ s' : FatState} {own own₁ : Nat → Prop} {c n : Nat}

theorem ScratchBut.inv (h : ScratchBut s s' own) (hinv : CacheInv s.files)
    (hown : ∀ j, own j → s'.mem (bitmapAddr s.files + j) ≠ 0) : CacheInv s'.files := by
  refine hinv.of_marks h.same h.entries.1 fun j hj hused => ?_
  by_cases ho : own j
  · exact hown j ho
  · show s'.mem _ ≠ 0
    rw [h.marks j hj ho]
    rcases hused with ⟨g, p, hh⟩ | hlast
    · exact (hinv.cells hh).2
    · have hself := hinv.self
      rw [show pageCacheNumBuffers s.files - 1 = j by omega] at hself
      exact hself

theorem Scratch.cacheInv (h : Scratch s s') (hinv : CacheInv s.files) : CacheInv s'.files :=
  h.inv hinv fun _ ho => ho.elim

theorem Using.cacheInv (h : Using s s' c) (hinv : CacheInv s.files) : CacheInv s'.files :=
  h.inv hinv fun _ ho => ho ▸ h.mark

theorem Scratch.freeCells (h : Scratch s s') : freeCells s'.files = freeCells s.files := by
  rw [MeOS.freeCells, MeOS.freeCells, numBuffers_congr h.same.2, bitmapAddr_congr h.same]
  refine List.filter_congr fun j hj => ?_
  have hmark := h.marks j (List.mem_range.mp hj) not_false
  show (s'.mem _ == 0) = (s.mem _ == 0)
  rw [hmark]

theorem Scratch.steady (h : Scratch s s') (hs : Steady n s) : Steady n s' :=
  ⟨h.cacheInv hs.inv, by rw [h.freeCells]; exact hs.free, h.calm hs.calm⟩

theorem Scratch.refl : Scratch s s :=
  ⟨⟨rfl, rfl⟩, ⟨rfl, rfl⟩, fun _ _ _ => rfl, fun _ _ _ _ _ => rfl, fun _ _ => rfl, id,
    ⟨rfl, rfl⟩⟩

/-- What only looks at the disk or the device leaves the page cache alone. -/
theorem Scratch.of_files (hfiles : s'.files = s.files) (hcalm : NoFailure s → NoFailure s')
    (hjunk : s'.behindTable = s.behindTable ∧ s'.rawLoaded = s.rawLoaded) : Scratch s s' := by
  have hmem : s'.mem = s.mem := congrArg FileState.mem hfiles
  exact ⟨by rw [hfiles]; exact ⟨rfl, rfl⟩, by rw [hfiles]; exact ⟨rfl, rfl⟩,
    fun _ _ _ => by rw [hmem], fun _ _ _ _ _ => by rw [hmem], fun _ _ => by rw [hmem], hcalm, hjunk⟩

/-- One after the other; the cells of the first were free. -/
theorem ScratchBut.append (h : ScratchBut s s₁ own)
    (hown : ∀ j, own j → s.mem (bitmapAddr s.files + j) = 0)
    (h₁ : ScratchBut s₁ s₂ own₁) : ScratchBut s s₂ fun j => own j ∨ own₁ j where
  same := ⟨h₁.same.1.trans h.same.1, h₁.same.2.trans h.same.2⟩
  entries := ⟨h₁.entries.1.trans h.entries.1, h₁.entries.2.trans h.entries.2⟩
  marks j hj ho := by
    rw [not_or] at ho
    have hmark := h₁.marks j (by rw [numBuffers_congr h.same.2]; exact hj) ho.2
    rw [bitmapAddr_congr h.same] at hmark
    rw [hmark, h.marks j hj ho.1]
  used j hj hused k hk := by
    have ho : ¬ own j := fun ho => hused (hown j ho)
    have hmark := h.marks j (by omega) ho
    have hcell := h₁.used j (by rw [numBuffers_congr h.same.2]; exact hj)
      (by rw [bitmapAddr_congr h.same, hmark]; exact hused) k hk
    rw [cellAddr_congr h.same.1] at hcell
    rw [hcell, h.used j hj hused k hk]
  outside x hx := by
    have hout := h₁.outside x (by rw [h.same.1, h.same.2]; exact hx)
    rw [hout, h.outside x hx]
  calm hs := h₁.calm (h.calm hs)
  junk := ⟨h₁.junk.1.trans h.junk.1, h₁.junk.2.trans h.junk.2⟩

/-- First `s` to `s₁`, then on without touching what is used. -/
theorem ScratchBut.trans (h : ScratchBut s s₁ own)
    (hown : ∀ j, own j → s.mem (bitmapAddr s.files + j) = 0)
    (h₁ : Scratch s₁ s₂) : ScratchBut s s₂ own := by
  have happend := h.append hown h₁
  simp only [or_false] at happend
  exact happend

theorem Scratch.trans (h : Scratch s s₁) (h₁ : Scratch s₁ s₂) : Scratch s s₂ :=
  ScratchBut.trans h (fun _ ho => ho.elim) h₁

end Scratch

/-! ## Transfers -/

namespace FatState

variable (s : FatState)

/-- The state after a transfer that failed. -/
def skip : FatState := { s with device := fun k => s.device (k + 1) }

/-- The state after a block was read to address `a`. -/
def fetch (lba a : Nat) : FatState :=
  s.skip.setMem (blit s.mem a s.disk (512 * lba) pageCacheSize)

/-- The state after the block at address `a` was written. -/
def put (lba a : Nat) : FatState :=
  { s.skip with disk := blit s.disk (512 * lba) s.mem a pageCacheSize,
                written := s.written ++ [(lba, 8)] }

@[simp] theorem skip_files : s.skip.files = s.files := rfl

@[simp] theorem skip_disk : s.skip.disk = s.disk := rfl

@[simp] theorem skip_device (k : Nat) : s.skip.device k = s.device (k + 1) := rfl

@[simp] theorem setMem_disk (m : Mem) : (s.setMem m).disk = s.disk := rfl

@[simp] theorem setMem_device (m : Mem) : (s.setMem m).device = s.device := rfl

@[simp] theorem setMem_mem (m : Mem) : (s.setMem m).mem = m := rfl

@[simp] theorem fetch_disk (lba a : Nat) : (s.fetch lba a).disk = s.disk := rfl

@[simp] theorem fetch_device (lba a k : Nat) : (s.fetch lba a).device k = s.device (k + 1) := rfl

@[simp] theorem put_files (lba a : Nat) : (s.put lba a).files = s.files := rfl

@[simp] theorem put_mem (lba a : Nat) : (s.put lba a).mem = s.mem := rfl

@[simp] theorem put_device (lba a k : Nat) : (s.put lba a).device k = s.device (k + 1) := rfl

@[simp] theorem put_disk (lba a : Nat) :
    (s.put lba a).disk = blit s.disk (512 * lba) s.mem a pageCacheSize := rfl

@[simp] theorem release_disk (a : Nat) : (s.releaseAnonymous a).disk = s.disk := rfl

@[simp] theorem release_device (a : Nat) : (s.releaseAnonymous a).device = s.device := rfl

@[simp] theorem reserve_disk : s.reserveAnonymous.1.disk = s.disk := rfl

@[simp] theorem reserve_device : s.reserveAnonymous.1.device = s.device := rfl

/-- The buffer holds the block. -/
theorem fetch_byte (lba a : Nat) {k : Nat} (hk : k < pageCacheSize) :
    (s.fetch lba a).mem (a + k) = s.disk (512 * lba + k) := by
  show blit _ _ _ _ _ _ = _
  rw [blit_at _ _ _ _ (by omega)]

end FatState

section Transfer

variable {s s₁ : FatState} {mp : MountPoint} {c lba a : Nat}

theorem readByLba_eq (hmp : Mounted mp) : fatFsReadByLba s mp lba a =
    if s.device 0 then (s.fetch lba a, true) else (s.skip, false) := by
  have hcheck : ¬ (mp.attributes &&& 7 ≠ vfsMountPt ∨ mp.tag = 0 ∨ mp.storageInfo = 0) := by
    simp [hmp.attributes, hmp.tag, hmp.storageInfo]
  rw [fatFsReadByLba, if_neg hcheck]
  by_cases hdev : s.device 0 = true
  · simp [FatState.deviceRead, hdev, FatState.fetch, FatState.skip]
  · simp [FatState.deviceRead, hdev, FatState.skip]

theorem writeByLba_eq (hmp : Mounted mp) : fatFsWriteByLba s mp lba a =
    if s.device 0 then (s.put lba a, true) else (s.skip, false) := by
  have hcheck : ¬ (mp.attributes &&& 7 ≠ vfsMountPt ∨ mp.storageInfo = 0) := by
    simp [hmp.attributes, hmp.storageInfo]
  rw [fatFsWriteByLba, if_neg hcheck]
  by_cases hdev : s.device 0 = true
  · simp [FatState.deviceWrite, hdev, FatState.put, FatState.skip]
  · simp [FatState.deviceWrite, hdev, FatState.skip]

theorem readByDataCluster_eq (hmp : Mounted mp) : fatFsReadByDataCluster s mp c a =
    if s.device 0 then (s.fetch (dataClusterLba mp c) a, true) else (s.skip, false) := by
  rw [fatFsReadByDataCluster, if_neg (not_not.mpr hmp.attributes), readByLba_eq hmp]

theorem writeByDataCluster_eq (hmp : Mounted mp) : fatFsWriteByDataCluster s mp c a =
    if s.device 0 then (s.put (dataClusterLba mp c) a, true) else (s.skip, false) := by
  rw [fatFsWriteByDataCluster, if_neg (not_not.mpr hmp.attributes), writeByLba_eq hmp]

theorem NoFailure.skip (h : NoFailure s) : NoFailure s.skip :=
  ⟨h.frames, fun k => h.device (k + 1), h.tables⟩

theorem NoFailure.fetch (h : NoFailure s) : NoFailure (s.fetch lba a) :=
  ⟨h.frames, fun k => h.device (k + 1), h.tables⟩

end Transfer

/-! ## Reserving and releasing -/

section Buffer

variable {s s₁ s₂ : FatState} {c n lba : Nat} {m : Mem}

theorem Using.free (h : Using s s₁ c) : c ∈ freeCells s.files :=
  List.mem_of_head? h.first

theorem Using.room (h : Using s s₁ c) (hinv : CacheInv s.files) :
    c + 1 < pageCacheNumBuffers s.files :=
  hinv.free_lt h.free

/-- The cells that are still free. -/
theorem Using.freeCells (h : Using s s₁ c) :
    freeCells s₁.files = (freeCells s.files).filter (· ≠ c) := by
  rw [MeOS.freeCells, MeOS.freeCells, numBuffers_congr h.same.2, bitmapAddr_congr h.same,
    List.filter_filter]
  refine List.filter_congr fun j hj => ?_
  show (s₁.mem _ == 0) = _
  by_cases hjc : j = c
  · simp [hjc, h.mark]
  · rw [h.marks j (List.mem_range.mp hj) hjc]
    simp [hjc]

/-- The first of the free cells is not free any more. -/
theorem Using.freeCells_cons (h : Using s s₁ c) :
    MeOS.freeCells s.files = c :: MeOS.freeCells s₁.files := by
  obtain ⟨rest, hrest⟩ : ∃ rest, MeOS.freeCells s.files = c :: rest :=
    List.head?_eq_some_iff.mp h.first
  have hnodup : (MeOS.freeCells s.files).Nodup := List.nodup_range.filter _
  rw [hrest, List.nodup_cons] at hnodup
  rw [h.freeCells, hrest, List.filter_cons_of_neg (by simp), List.filter_eq_self.mpr]
  intro j hj
  have hne : j ≠ c := by
    rintro rfl
    exact hnodup.1 hj
  simp [hne]

theorem Using.steady (h : Using s s₁ c) (hs : Steady (n + 1) s) : Steady n s₁ := by
  refine ⟨h.cacheInv hs.inv, ?_, h.calm hs.calm⟩
  have hlen := hs.free
  rw [h.freeCells_cons, List.length_cons] at hlen
  omega

/-- A buffer is reserved, or the page cache is left alone: there is no free cell,
or no frame for the first of them. -/
theorem reserve_cases (hinv : CacheInv s.files) :
    (∃ s₁, s.reserveAnonymous = (s₁, 0) ∧ Scratch s s₁ ∧
      (s₁.disk = s.disk ∧ s₁.written = s.written ∧ s₁.device = s.device) ∧
      (MeOS.freeCells s.files = [] ∨ s.files.frames 0 = none)) ∨
    (∃ c s₁, s.reserveAnonymous = (s₁, cellAddr s.files c) ∧ Using s s₁ c ∧
      (s₁.disk = s.disk ∧ s₁.written = s.written ∧ s₁.device = s.device) ∧
      ∀ x, x < cellAddr s.files c ∨ cellAddr s.files c + pageCacheSize ≤ x →
        s₁.mem x = store8 s.mem (bitmapAddr s.files + c) 1 x) := by
  cases hfree : MeOS.freeCells s.files with
  | nil =>
    -- no free cell
    have hidx : pageCacheIndexFreeBuffer s.files = pageCacheNumBuffers s.files := by
      rw [hinv.indexFreeBuffer, hfree]
      rfl
    refine Or.inl ⟨s, ?_, Scratch.refl, ⟨rfl, rfl, rfl⟩, Or.inl rfl⟩
    simp only [FatState.reserveAnonymous, pageCacheReserveAnonymous, hidx, ge_iff_le, le_refl,
      if_pos]
  | cons c rest =>
    have hc : c ∈ MeOS.freeCells s.files := by simp [hfree]
    have hlt := hinv.free_lt hc
    have hzero : s.mem (bitmapAddr s.files + c) = 0 := (mem_freeCells.mp hc).2
    have hidx : pageCacheIndexFreeBuffer s.files = c := by
      rw [hinv.indexFreeBuffer, hfree]
      rfl
    have hge : ¬ c ≥ pageCacheNumBuffers s.files := by omega
    have haddr := hinv.addrByIndex (i := c) (by omega)
    cases hframe : s.files.frames 0 with
    | none =>
      -- the mark that was set is cleared again
      let s₁ : FatState :=
        { s with files := { s.files with
                              mem := store8 (store8 s.mem (bitmapAddr s.files + c) 1)
                                (bitmapAddr s.files + c) 0
                              frames := fun k => s.files.frames (k + 1) } }
      have hmem : s₁.mem = s.mem := by
        funext x
        show store8 (store8 _ _ _) _ _ x = _
        by_cases hx : x = bitmapAddr s.files + c
        · rw [hx, store8_same, hzero]
        · rw [store8_ne _ _ hx, store8_ne _ _ hx]
      have hrun : s.reserveAnonymous = (s₁, 0) := by
        simp only [FatState.reserveAnonymous, pageCacheReserveAnonymous, hidx, if_neg hge,
          pageCacheIndexReserveBuffer, hinv.bitmap_eq, vmmngrAllocPage, hframe,
          pageCacheIndexReleaseBuffer]
        have hbit : allocedBitmap { s.files with
            mem := store8 s.files.mem (bitmapAddr s.files + c) 1
            frames := fun k => s.files.frames (k + 1) } = bitmapAddr s.files := hinv.bitmap_eq
        rw [hbit]
      refine Or.inl ⟨s₁, hrun, ?_, ⟨rfl, rfl, rfl⟩, Or.inr rfl⟩
      exact
        { same := ⟨rfl, rfl⟩
          entries := ⟨rfl, rfl⟩
          marks := fun _ _ _ => by rw [hmem]
          used := fun _ _ _ _ _ => by rw [hmem]
          outside := fun _ _ => by rw [hmem]
          calm := fun hs => absurd hframe (hs.frames 0)
          junk := ⟨rfl, rfl⟩ }
    | some content =>
      let m : Mem := blit (store8 s.mem (bitmapAddr s.files + c) 1) (cellAddr s.files c) content 0
        pageCacheSize
      let s₁ : FatState :=
        { s with files := { s.files with mem := m, frames := fun k => s.files.frames (k + 1) } }
      have hrun : s.reserveAnonymous = (s₁, cellAddr s.files c) := by
        simp only [FatState.reserveAnonymous, pageCacheReserveAnonymous, hidx, if_neg hge,
          pageCacheIndexReserveBuffer, hinv.bitmap_eq, vmmngrAllocPage, hframe,
          pageCacheAddrByIndex, haddr]
        rfl
      have hmark : ∀ j, m (bitmapAddr s.files + j) =
          if j = c then 1 else s.mem (bitmapAddr s.files + j) := by
        intro j
        have hout := mark_outside (s := s.files) (j := j) hlt
        show blit _ _ _ _ _ _ = _
        rw [blit_frame _ _ _ (Or.inr hout)]
        split
        · rename_i hj
          rw [hj, store8_same]
        · rename_i hj
          rw [store8_ne _ _ (by omega)]
      have hsame : ∀ x, (x < cellAddr s.files c ∨ cellAddr s.files c + pageCacheSize ≤ x) →
          x ≠ bitmapAddr s.files + c → m x = s.mem x := by
        intro x hx hb
        show blit _ _ _ _ _ _ = _
        rw [blit_frame _ _ _ hx, store8_ne _ _ hb]
      have husing : Using s s₁ c :=
        { same := ⟨rfl, rfl⟩, entries := ⟨rfl, rfl⟩, junk := ⟨rfl, rfl⟩
          marks := fun j _ hj => (hmark j).trans (if_neg hj)
          used := by
            intro j hj hused k hk
            have hjc : j ≠ c := by
              rintro rfl
              exact hused hzero
            have happ := cell_apart (s := s.files) hjc
            have hout := mark_outside (s := s.files) (j := c) hj
            exact hsame _ (by omega) (by omega)
          outside := by
            intro x hx
            have hcell := hinv.cell_bounds (i := c) (by omega)
            have hcache := cache_le_cellAddr (s := s.files) (i := c)
            have hin := hinv.mark_inside (j := c) (by omega)
            exact hsame x (by omega) (by omega)
          calm := fun hs => ⟨fun k => hs.frames (k + 1), hs.device, hs.tables⟩
          first := by rw [hfree]; rfl
          mark := by
            show m _ ≠ 0
            rw [hmark, if_pos rfl]
            decide }
      exact Or.inr ⟨c, s₁, hrun, husing, ⟨rfl, rfl, rfl⟩, fun x hx => blit_frame _ _ _ hx⟩

/-- Reserving a buffer takes a frame. -/
theorem reserve_frames (h : s.reserveAnonymous.2 ≠ 0) : s.files.frames 0 ≠ none ∧
    s.reserveAnonymous.1.files.frames = fun k => s.files.frames (k + 1) := by
  unfold FatState.reserveAnonymous pageCacheReserveAnonymous vmmngrAllocPage at *
  dsimp only at h ⊢
  split at h
  · exact absurd rfl h
  · rename_i hlt
    rw [if_neg hlt]
    cases hframe : s.files.frames 0 with
    | none =>
      have hsame : (pageCacheIndexReserveBuffer s.files
          (pageCacheIndexFreeBuffer s.files)).frames 0 = none := hframe
      simp only [hsame] at h
      exact absurd rfl h
    | some content =>
      have hsame : (pageCacheIndexReserveBuffer s.files
          (pageCacheIndexFreeBuffer s.files)).frames 0 = some content := hframe
      simp only [hsame]
      exact ⟨Option.some_ne_none content, rfl⟩

/-- When a buffer can be had. -/
theorem reserve_ne_zero_iff (hinv : CacheInv s.files) : s.reserveAnonymous.2 ≠ 0 ↔
    MeOS.freeCells s.files ≠ [] ∧ s.files.frames 0 ≠ none := by
  rcases reserve_cases hinv with ⟨s₁, hrun, -, -, hwhy⟩ | ⟨c, s₁, hrun, hu, -, -⟩
  · rw [hrun]
    constructor
    · intro h
      exact absurd rfl h
    · rintro ⟨hfree, hframe⟩
      rcases hwhy with hnone | hrefused
      · exact absurd hnone hfree
      · exact absurd hrefused hframe
  · have hroom := hu.room hinv
    have hpos := (hinv.cell_bounds (i := c) (by omega)).1
    have hne : s.reserveAnonymous.2 ≠ 0 := by
      rw [hrun]
      exact hpos.ne'
    refine iff_of_true hne ⟨?_, (reserve_frames hne).1⟩
    exact List.ne_nil_of_mem hu.free

/-- A buffer can be had. -/
theorem Steady.reserve (h : Steady (n + 1) s) : ∃ c s₁,
    s.reserveAnonymous = (s₁, cellAddr s.files c) ∧ Using s s₁ c ∧ Steady n s₁ ∧
      (s₁.disk = s.disk ∧ s₁.written = s.written ∧ s₁.device = s.device) ∧
      ∀ x, x < cellAddr s.files c ∨ cellAddr s.files c + pageCacheSize ≤ x →
        s₁.mem x = store8 s.mem (bitmapAddr s.files + c) 1 x := by
  rcases reserve_cases h.inv with ⟨-, -, -, -, hnone | hrefused⟩ | ⟨c, s₁, hrun, hu, hdisk, hmem⟩
  · have hfree := h.free
    rw [hnone] at hfree
    exact absurd hfree (Nat.not_succ_le_zero n)
  · exact absurd hrefused (h.calm.frames 0)
  · exact ⟨c, s₁, hrun, hu, hu.steady h, hdisk, hmem⟩

/-- Writing into the buffer. -/
theorem Using.setMem (h : Using s s₁ c) (hinv : CacheInv s.files)
    (hm : ∀ x, x < cellAddr s.files c ∨ cellAddr s.files c + pageCacheSize ≤ x → m x = s₁.mem x) :
    Using s (s₁.setMem m) c := by
  have hlt := h.room hinv
  have hmark : ∀ j, m (bitmapAddr s.files + j) = s₁.mem (bitmapAddr s.files + j) := fun j =>
    hm _ (Or.inr (mark_outside hlt))
  refine { same := h.same, entries := h.entries, junk := h.junk, first := h.first,
           calm := fun hs => ⟨(h.calm hs).frames, (h.calm hs).device, (h.calm hs).tables⟩,
           marks := fun j hj ho => (hmark j).trans (h.marks j hj ho), used := ?_, outside := ?_,
           mark := ?_ }
  · intro j hj hused k hk
    have hjc : j ≠ c := by
      rintro rfl
      exact hused (mem_freeCells.mp h.free).2
    have happ := cell_apart (s := s.files) hjc
    exact (hm _ (by omega)).trans (h.used j hj hused k hk)
  · intro x hx
    have hcell := hinv.cell_bounds (i := c) (by omega)
    have hcache := cache_le_cellAddr (s := s.files) (i := c)
    exact (hm x (by omega)).trans (h.outside x hx)
  · show m _ ≠ 0
    rw [hmark]
    exact h.mark

/-- Going on without the page cache. -/
theorem Using.of_files (h : Using s s₁ c) (hfiles : s₂.files = s₁.files)
    (hcalm : NoFailure s₁ → NoFailure s₂)
    (hjunk : s₂.behindTable = s₁.behindTable ∧ s₂.rawLoaded = s₁.rawLoaded) : Using s s₂ c := by
  have hscratch := h.toScratchBut.trans (fun j ho => ho ▸ (mem_freeCells.mp h.free).2)
    (Scratch.of_files hfiles hcalm hjunk)
  refine { hscratch with first := h.first, mark := ?_ }
  show s₂.files.mem _ ≠ 0
  rw [hfiles]
  exact h.mark

theorem Using.skip (h : Using s s₁ c) : Using s s₁.skip c :=
  h.of_files rfl NoFailure.skip ⟨rfl, rfl⟩

theorem Using.fetch (h : Using s s₁ c) (hinv : CacheInv s.files) :
    Using s (s₁.fetch lba (cellAddr s.files c)) c :=
  h.skip.setMem hinv fun _ hx => blit_frame _ _ _ hx

theorem Using.put (h : Using s s₁ c) {a : Nat} : Using s (s₁.put lba a) c :=
  h.of_files rfl (fun hs => ⟨hs.frames, fun k => hs.device (k + 1), hs.tables⟩) ⟨rfl, rfl⟩

/-- An operation in between that gives its own buffers back; it spares the
bytes of this one. -/
theorem Using.scratch (h : Using s s₁ c) (hinv : CacheInv s.files) (h₁ : Scratch s₁ s₂) :
    Using s s₂ c ∧ ∀ k < pageCacheSize,
      s₂.mem (cellAddr s.files c + k) = s₁.mem (cellAddr s.files c + k) := by
  have hlt := h.room hinv
  have hmark := h₁.marks c (by rw [numBuffers_congr h.same.2]; omega) not_false
  have hcell := h₁.used c (by rw [numBuffers_congr h.same.2]; exact hlt)
    (by rw [bitmapAddr_congr h.same]; exact h.mark)
  rw [bitmapAddr_congr h.same] at hmark
  rw [cellAddr_congr h.same.1] at hcell
  refine ⟨{ h.toScratchBut.trans (fun j ho => ho ▸ (mem_freeCells.mp h.free).2) h₁ with
            first := h.first, mark := ?_ }, hcell⟩
  rw [hmark]
  exact h.mark

/-- Giving a buffer back clears its mark. -/
theorem release_eq (hinv : CacheInv s₁.files)
    (hsame : s₁.files.cache = s.files.cache ∧ s₁.files.cacheSize = s.files.cacheSize)
    (hlt : c + 1 < pageCacheNumBuffers s.files) :
    s₁.releaseAnonymous (cellAddr s.files c) =
      s₁.setMem (store8 s₁.mem (bitmapAddr s.files + c) 0) := by
  have hnum := numBuffers_congr hsame.2
  have hidx : pageCacheIndexByAddr s₁.files (cellAddr s.files c) = c := by
    rw [← cellAddr_congr hsame.1]
    exact hinv.indexByAddr (by rw [hnum]; omega)
  have hbit : allocedBitmap s₁.files = bitmapAddr s.files := by
    rw [hinv.bitmap_eq, bitmapAddr_congr hsame]
  have hge : ¬ c ≥ pageCacheNumBuffers s₁.files := by rw [hnum]; omega
  simp only [FatState.releaseAnonymous, pageCacheReleaseAnonymous, hidx, if_neg hge,
    pageCacheIndexReleaseBuffer, hbit]
  rfl

theorem Using.release_eq (h : Using s s₁ c) (hinv : CacheInv s.files) :
    s₁.releaseAnonymous (cellAddr s.files c) =
      s₁.setMem (store8 s₁.mem (bitmapAddr s.files + c) 0) :=
  MeOS.release_eq (h.cacheInv hinv) h.same (h.room hinv)

/-- A buffer, if there is one, has an address that is not 0. -/
theorem Using.addr (h : Using s s₁ c) (hinv : CacheInv s.files) :
    ∃ a, cellAddr s.files c = a + 1 := by
  have hroom := h.room hinv
  have hpos := (hinv.cell_bounds (i := c) (by omega)).1
  exact ⟨cellAddr s.files c - 1, by omega⟩

/-- The buffer ends inside the address space. -/
theorem Using.top (h : Using s s₁ c) (hinv : CacheInv s.files) :
    cellAddr s.files c + pageCacheSize ≤ 4294967296 := by
  have hroom := h.room hinv
  exact (hinv.cell_bounds (i := c) (by omega)).2.2

/-- The mark of a cell that was free is cleared. -/
theorem ScratchBut.clear {own : Nat → Prop} (h : ScratchBut s s₁ fun j => j = c ∨ own j)
    (hinv : CacheInv s.files) (hfree : c ∈ freeCells s.files) :
    ScratchBut s (s₁.setMem (store8 s₁.mem (bitmapAddr s.files + c) 0)) own := by
  have hlt := hinv.free_lt hfree
  have hzero := (mem_freeCells.mp hfree).2
  refine { same := h.same, entries := h.entries, junk := h.junk,
           calm := fun hs => ⟨(h.calm hs).frames, (h.calm hs).device, (h.calm hs).tables⟩,
           marks := ?_, used := ?_, outside := ?_ }
  · intro j hj ho
    rw [FatState.setMem_mem]
    by_cases hjc : j = c
    · rw [hjc, store8_same]
      exact hzero.symm
    · rw [store8_ne _ _ (by omega)]
      exact h.marks j hj (not_or.mpr ⟨hjc, ho⟩)
  · intro j hj hused k hk
    have hout := mark_outside (s := s.files) (j := c) hj
    rw [FatState.setMem_mem, store8_ne _ _ (by omega)]
    exact h.used j hj hused k hk
  · intro x hx
    have hin := hinv.mark_inside (j := c) (by omega)
    rw [FatState.setMem_mem, store8_ne _ _ (by omega)]
    exact h.outside x hx

theorem Using.release (h : Using s s₁ c) (hinv : CacheInv s.files) :
    Scratch s (s₁.releaseAnonymous (cellAddr s.files c)) := by
  have hbut : ScratchBut s s₁ fun j => j = c ∨ False := by
    simp only [or_false]
    exact h.toScratchBut
  rw [h.release_eq hinv]
  exact hbut.clear hinv h.free

end Buffer

/-! ## A small volume -/

/-- A page cache of three free cells in front of the bitmap. -/
def freshCache : FileState where
  mem := fun x => if x = 16387 then 1 else 0
  cache := 4096
  cacheSize := 16384
  gft := []
  nodes := fun _ => ⟨0⟩
  frames := fun _ => some fun _ => 0

/-- A machine with this disk on which nothing fails. -/
def freshState (disk : Mem) : FatState where
  files := freshCache
  disk := disk
  written := []
  device := fun _ => true
  tables := fun _ => true
  behindTable := 0
  rawLoaded := false
  lastError := .none

/-- A volume whose FAT starts at sector 32 and whose data starts at sector 48. -/
def smallMount : MountPoint := ⟨5, 1, 1, ⟨0, 32, 48, 2⟩⟩

theorem smallMount_mounted : Mounted smallMount := ⟨by decide, by decide, by decide⟩

theorem freshCache_inv : CacheInv freshCache := by
  have hnone : ∀ {g p i}, ¬ Holds freshCache g p i := by
    rintro g p i ⟨e, d, he, _⟩
    simp [freshCache] at he
  exact
    { base := by decide, size := by decide, nonempty := by decide, few := by decide,
      top := by decide, self := by decide, cells := fun hh => absurd hh hnone,
      inj := fun hh => absurd hh hnone, fn := fun hh => absurd hh hnone }

theorem freshState_steady (disk : Mem) : Steady 3 (freshState disk) :=
  ⟨freshCache_inv, show 3 ≤ (freeCells freshCache).length by decide,
    ⟨fun _ => Option.some_ne_none _, fun _ => rfl, fun _ => rfl⟩⟩

theorem Steady.mono {s : FatState} {n k : Nat} (h : Steady n s) (hk : k ≤ n) : Steady k s :=
  ⟨h.inv, hk.trans h.free, h.calm⟩

end MeOS
