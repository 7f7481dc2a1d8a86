import MeOS.Lib.Pool
import MeOS.PageMapping
import MeOS.PhysRegions

/-! # Memory at boot

`kmain` starts the frame allocator with all memory in use, frees the available
regions of the memory map that begin at 1 MB or above, and takes the kernel image
out again. From there on the allocator is a pool of the frames that are left:
it hands out no frame twice, none of the image and none that the map does not
offer, and the counter says how many frames are free.
-/

namespace MeOS

open Bitmap Runs Pools

/-! ## `kernel.cpp` -/

/-- The fields of `bios_memory_region` that `kmain` reads. -/
structure BiosMemoryRegion where
  startLo : Nat
  sizeLo : Nat
  type : Nat
deriving Repr, DecidableEq

/-- The fields of `multiboot_info` that `kmain` reads; `mmap` are the `m_mmap_length`
regions at `m_mmap_addr`. -/
structure MultibootInfo where
  memoryLo : Nat
  memoryHi : Nat
  mmap : List BiosMemoryRegion
deriving Repr, DecidableEq

/-- `pmmngr_get_next_align`. -/
def pmmngrGetNextAlign (value : Nat) : Nat :=
  if value % pmmngrBlockSize ≠ 0 then
    sub32 (add32 value pmmngrBlockSize) (value % pmmngrBlockSize)
  else value

/-- The loop of `kmain` over the memory map, from round `i` on. -/
def freeMemoryMap : Nat → List BiosMemoryRegion → PhysState → Outcome PhysState
  | _, [], s => .ret s
  | i, region :: rest, s =>
    if region.type > 4 then
      .ret s
    else if i > 0 ∧ region.startLo = 0 then
      .ret s
    else if region.type = 1 ∧ region.startLo ≥ 0x100000 then do
      -- available only above 1 MB
      let (s, _) ← pmmngrFreeRegion s ⟨region.startLo, region.sizeLo⟩
      freeMemoryMap (i + 1) rest s
    else
      freeMemoryMap (i + 1) rest s

/-- `memoryKB` of `kmain`. -/
def MultibootInfo.memoryKB (info : MultibootInfo) : Nat :=
  add32 (add32 1024 info.memoryLo) (mul32 info.memoryHi 64)

/-- The region of the kernel image. -/
def kernelRegion (kernelSize : Nat) : PhysicalMemoryRegion :=
  ⟨0x100000, pmmngrGetNextAlign (add32 kernelSize 1)⟩

/-- The part of `kmain` that sets up the allocator; `words` is the memory behind the kernel
that the bitmap is put into. -/
def kmainMemory (info : MultibootInfo) (kernelSize : Nat) (words : Nat → BitVec 32) :
    Outcome PhysState := do
  let s ← freeMemoryMap 0 info.mmap (pmmngrInit info.memoryKB words)
  let (s, _) ← pmmngrReserveRegion s (kernelRegion kernelSize)
  return s

/-! ## The frames that are left -/

/-- The regions that the loop frees. -/
def mapRegions : Nat → List BiosMemoryRegion → List PhysicalMemoryRegion
  | _, [] => []
  | i, region :: rest =>
    if region.type > 4 ∨ i > 0 ∧ region.startLo = 0 then []
    else if region.type = 1 ∧ region.startLo ≥ 0x100000 then
      ⟨region.startLo, region.sizeLo⟩ :: mapRegions (i + 1) rest
    else mapRegions (i + 1) rest

instance (r : PhysicalMemoryRegion) (b : Nat) : Decidable (r.Covers b) :=
  inferInstanceAs (Decidable (_ ∧ _))

/-- The frame is offered by the memory map, above 1 MB, and is not of the kernel image. -/
def Usable (info : MultibootInfo) (kernelSize b : Nat) : Prop :=
  (∃ r ∈ mapRegions 0 info.mmap, r.Covers b) ∧ ¬ (kernelRegion kernelSize).Covers b

instance (info : MultibootInfo) (kernelSize b : Nat) : Decidable (Usable info kernelSize b) :=
  inferInstanceAs (Decidable (_ ∧ _))

/-- The number of frames. -/
def MultibootInfo.blocks (info : MultibootInfo) : Nat :=
  mul32 info.memoryKB 1024 / pmmngrBlockSize

/-- The usable frames. -/
def usableFrames (info : MultibootInfo) (kernelSize : Nat) : Finset Nat :=
  (Finset.range info.blocks).filter (Usable info kernelSize)

/-- What `kmain` relies on: the regions that it frees are aligned, not empty, in the
memory and apart, and the kernel image lies in one of them. -/
structure MapSound (info : MultibootInfo) (kernelSize : Nat) : Prop where
  aligned : ∀ r ∈ mapRegions 0 info.mmap, r.base % pmmngrBlockSize = 0 ∧ r.base < 4294967296 ∧
    r.length % pmmngrBlockSize = 0 ∧ r.length < 4294967296 ∧ r.length ≠ 0
  inside : ∀ r ∈ mapRegions 0 info.mmap, ∀ b, r.Covers b → b < 8 * (info.blocks / 8)
  apart : (mapRegions 0 info.mmap).Pairwise fun r q => ∀ b, r.Covers b → ¬ q.Covers b
  size : kernelSize < 0xFFFF0000
  image : ∃ r ∈ mapRegions 0 info.mmap, ∀ b, (kernelRegion kernelSize).Covers b → r.Covers b

/-! ## Freeing the map -/

section Boot

variable {s s' : PhysState} {info : MultibootInfo} {kernelSize a b i n value : Nat}
variable {words : Nat → BitVec 32} {r : PhysicalMemoryRegion}

theorem pmmngrGetNextAlign_spec (value : Nat) (h : value + pmmngrBlockSize ≤ 4294967296) :
    pmmngrGetNextAlign value % pmmngrBlockSize = 0 ∧ value ≤ pmmngrGetNextAlign value ∧
      pmmngrGetNextAlign value < value + pmmngrBlockSize := by
  unfold pmmngrGetNextAlign
  simp only [pmmngrBlockSize] at h ⊢
  by_cases hmod : value % 4096 = 0
  · rw [if_neg (by omega)]
    omega
  · rw [if_pos hmod]
    simp only [sub32, add32]
    omega

theorem freeBlocksFrom_max : (freeBlocksFrom n a s).mmngrMaxBlocks = s.mmngrMaxBlocks := by
  induction n generalizing a s with
  | zero => rfl
  | succ n ih =>
    rw [freeBlocksFrom_succ]
    by_cases htest : mmapTest s a = true
    · rw [if_pos htest, ih, give_max]
    · rw [if_neg htest, ih]

theorem reserveBlocksFrom_max : (reserveBlocksFrom n a s).mmngrMaxBlocks = s.mmngrMaxBlocks := by
  induction n generalizing a s with
  | zero => rfl
  | succ n ih =>
    rw [reserveBlocksFrom_succ]
    by_cases htest : mmapTest s a = false
    · rw [if_pos htest, ih, take_max]
    · rw [if_neg htest, ih]

/-- The counter follows a bitmap that it has moved with. -/
theorem CountMoves.follows (h : CountMoves s s') (hmax : s'.mmngrMaxBlocks = s.mmngrMaxBlocks) :
    CountFollows s s' where
  max := hmax
  used := by
    have hcard := card_ones_changed s.mmngrBitmap s'.mmngrBitmap s.mmngrMaxBlocks
    simp only [← mmapTest_eq] at hcard
    simp only [CountMoves, add32] at h
    omega

/-- A region in use is freed as a whole. -/
theorem freeRegion_whole (hr : r.Fits s) (hbase : 0 < r.base / pmmngrBlockSize)
    (hzero : mmapTest s 0 = true) (hset : ∀ b, r.Covers b → mmapTest s b = true) :
    ∃ s', pmmngrFreeRegion s r = .ret (s', none) ∧ CountFollows s s' ∧
      ∀ b, mmapTest s' b = true ↔ mmapTest s b = true ∧ ¬ r.Covers b := by
  have hstays : StaysFrom s r false := by
    intro b _ hb _ _ hfree
    rw [hset b hb] at hfree
    cases hfree
  obtain ⟨s', hret, hfreed⟩ := (freeRegion_iff hr).mpr hstays
  have hmax : s'.mmngrMaxBlocks = s.mmngrMaxBlocks := by
    rcases freeRegion_cases hret with rfl | ⟨t, rfl, -, ⟨-, rfl⟩ | ⟨-, rfl⟩⟩
    · rfl
    · exact take_max.trans freeBlocksFrom_max
    · exact freeBlocksFrom_max
  refine ⟨s', hret, hfreed.count.follows hmax, fun b => ?_⟩
  by_cases hb : b = 0
  · subst hb
    exact iff_of_true hfreed.zero ⟨hzero, fun hcov => by have := hcov.1; omega⟩
  · by_cases hcov : r.Covers b
    · rw [hfreed.free b hcov hb]
      simp [hcov]
    · rw [hfreed.outside b hcov hb]
      simp [hcov]

/-- A region that is free is reserved as a whole. -/
theorem reserveRegion_whole (hr : r.Fits s) (hfree : ∀ b, r.Covers b → mmapTest s b = false) :
    ∃ s', pmmngrReserveRegion s r = .ret (s', none) ∧ CountFollows s s' ∧
      ∀ b, mmapTest s' b = true ↔ mmapTest s b = true ∨ r.Covers b := by
  have hstays : StaysFrom s r true := by
    intro b _ hb _ _ hset
    rw [hfree b hb] at hset
    cases hset
  obtain ⟨s', hret, hres⟩ := (reserveRegion_iff hr).mpr hstays
  have hmax : s'.mmngrMaxBlocks = s.mmngrMaxBlocks := by
    rcases reserveRegion_cases hret with rfl | rfl
    · rfl
    · exact reserveBlocksFrom_max
  refine ⟨s', hret, hres.count.follows hmax, fun b => ?_⟩
  by_cases hcov : r.Covers b
  · rw [hres.used b hcov]
    simp [hcov]
  · rw [hres.outside b hcov]
    simp [hcov]

theorem mapRegions_base {map : List BiosMemoryRegion} (h : r ∈ mapRegions i map) :
    0x100000 ≤ r.base := by
  induction map generalizing i with
  | nil => cases h
  | cons region rest ih =>
    unfold mapRegions at h
    split at h
    · cases h
    · split at h
      · rename_i havail
        rcases List.mem_cons.mp h with rfl | hrest
        · exact havail.2
        · exact ih hrest
      · exact ih h

theorem PhysicalMemoryRegion.Fits.congr (h : r.Fits s)
    (hmax : s'.mmngrMaxBlocks = s.mmngrMaxBlocks) : r.Fits s' where
  base := h.base
  length := h.length
  pos := h.pos
  inside := by
    rw [hmax]
    exact h.inside

/-- The loop frees the regions of the map. -/
theorem freeMemoryMap_spec {map : List BiosMemoryRegion} (hzero : mmapTest s 0 = true)
    (hfits : ∀ r ∈ mapRegions i map, r.Fits s)
    (hset : ∀ r ∈ mapRegions i map, ∀ b, r.Covers b → mmapTest s b = true)
    (hapart : (mapRegions i map).Pairwise fun r q => ∀ b, r.Covers b → ¬ q.Covers b) :
    ∃ s', freeMemoryMap i map s = .ret s' ∧ CountFollows s s' ∧
      ∀ b, mmapTest s' b = true ↔
        mmapTest s b = true ∧ ¬ ∃ r ∈ mapRegions i map, r.Covers b := by
  induction map generalizing i s with
  | nil => exact ⟨s, rfl, .refl s, fun b => by simp [mapRegions]⟩
  | cons region rest ih =>
    unfold mapRegions at hfits hset hapart ⊢
    unfold freeMemoryMap
    by_cases htype : region.type > 4
    · rw [if_pos htype, if_pos (Or.inl htype)]
      exact ⟨s, rfl, .refl s, fun b => by simp⟩
    by_cases hstart : i > 0 ∧ region.startLo = 0
    · rw [if_neg htype, if_pos hstart, if_pos (Or.inr hstart)]
      exact ⟨s, rfl, .refl s, fun b => by simp⟩
    have hgoes : ¬ (region.type > 4 ∨ i > 0 ∧ region.startLo = 0) := not_or.mpr ⟨htype, hstart⟩
    rw [if_neg hgoes] at hfits hset hapart ⊢
    rw [if_neg htype, if_neg hstart]
    by_cases havail : region.type = 1 ∧ region.startLo ≥ 0x100000
    · -- the region is freed, and the others are still in use
      rw [if_pos havail] at hfits hset hapart ⊢
      rw [if_pos havail]
      have hbase : 0 < region.startLo / pmmngrBlockSize := by
        simp only [pmmngrBlockSize]
        omega
      obtain ⟨t, hret, hcount, htest⟩ := freeRegion_whole
        (hfits _ List.mem_cons_self) hbase hzero (hset _ List.mem_cons_self)
      obtain ⟨hfirst, hrest⟩ := List.pairwise_cons.mp hapart
      have hset' : ∀ r ∈ mapRegions (i + 1) rest, ∀ b, r.Covers b → mmapTest t b = true :=
        fun r hr b hb => (htest b).mpr
          ⟨hset r (List.mem_cons_of_mem _ hr) b hb, fun hcov => hfirst r hr b hcov hb⟩
      have hzero' : mmapTest t 0 = true :=
        (htest 0).mpr ⟨hzero, fun hcov => by have := hcov.1; dsimp only at this; omega⟩
      obtain ⟨s', hret', hcount', htest'⟩ := ih hzero'
        (fun r hr => (hfits r (List.mem_cons_of_mem _ hr)).congr hcount.max) hset' hrest
      rw [hret]
      refine ⟨s', hret', hcount.trans hcount', fun b => ?_⟩
      rw [htest', htest]
      simp only [List.mem_cons, exists_eq_or_imp, not_or, and_assoc]
    · rw [if_neg havail] at hfits hset hapart ⊢
      rw [if_neg havail]
      exact ih hzero hfits hset hapart

/-! ## The state at boot -/

/-- A region of whole blocks is inside when its last block is. -/
theorem covers_last (h : r.length % pmmngrBlockSize = 0) (hne : r.length ≠ 0) :
    r.Covers (r.base / pmmngrBlockSize + r.length / pmmngrBlockSize - 1) := by
  unfold PhysicalMemoryRegion.Covers
  simp only [pmmngrBlockSize] at h ⊢
  omega

theorem MapSound.fits (h : MapSound info kernelSize) (hmax : s.mmngrMaxBlocks = info.blocks)
    (hr : r ∈ mapRegions 0 info.mmap) : r.Fits s := by
  obtain ⟨hbase, hbase', hlen, hlen', hne⟩ := h.aligned r hr
  have hlast := h.inside r hr _ (covers_last hlen hne)
  exact ⟨⟨hbase, hbase'⟩, ⟨hlen, hlen'⟩, hne, by omega⟩

theorem MapSound.image_fits (h : MapSound info kernelSize) (hmax : s.mmngrMaxBlocks = info.blocks) :
    (kernelRegion kernelSize).Fits s := by
  have hsize := h.size
  have hadd : add32 kernelSize 1 = kernelSize + 1 := add32_eq (by omega)
  have hlen : (kernelRegion kernelSize).length = pmmngrGetNextAlign (kernelSize + 1) :=
    congrArg pmmngrGetNextAlign hadd
  obtain ⟨hmod, hle, hlt⟩ := pmmngrGetNextAlign_spec (kernelSize + 1)
    (by simp only [pmmngrBlockSize]; omega)
  have hne : (kernelRegion kernelSize).length ≠ 0 := by omega
  obtain ⟨r, hr, hcov⟩ := h.image
  have hlast := h.inside r hr _ (hcov _ (covers_last (by rwa [hlen]) hne))
  have hstart : (kernelRegion kernelSize).base = 0x100000 := rfl
  simp only [pmmngrBlockSize] at hmod hlt
  refine ⟨⟨by rw [hstart]; rfl, by rw [hstart]; decide⟩, ⟨by rwa [hlen], ?_⟩, hne, by omega⟩
  omega

/-- Every block that the map offers is in use after `pmmngr_init`. -/
theorem MapSound.offered (h : MapSound info kernelSize) (hr : r ∈ mapRegions 0 info.mmap)
    (hb : r.Covers b) : mmapTest (pmmngrInit info.memoryKB words) b = true := by
  have hlt := h.inside r hr b hb
  rw [mmapTest_init]
  exact Bool.or_eq_true_iff.mpr (Or.inr (decide_eq_true hlt))

/-- `kmain` makes exactly the usable frames free. -/
theorem kmainMemory_spec (h : MapSound info kernelSize) (words : Nat → BitVec 32) :
    ∃ s, kmainMemory info kernelSize words = .ret s ∧
      CountFollows (pmmngrInit info.memoryKB words) s ∧
      ∀ b, mmapTest s b = true ↔
        mmapTest (pmmngrInit info.memoryKB words) b = true ∧ ¬ Usable info kernelSize b := by
  obtain ⟨r, hr, himage⟩ := h.image
  obtain ⟨-, -, hlen, -, hne⟩ := h.aligned r hr
  have hpos := h.inside r hr _ (covers_last hlen hne)
  have hzero : mmapTest (pmmngrInit info.memoryKB words) 0 = true := by
    rw [mmapTest_init]
    apply Bool.or_eq_true_iff.mpr (Or.inr (decide_eq_true _))
    exact Nat.lt_of_le_of_lt (Nat.zero_le _) hpos
  obtain ⟨t, hfree, hcount, htest⟩ := freeMemoryMap_spec hzero (fun q hq => h.fits rfl hq)
    (fun q hq b hb => h.offered hq hb) h.apart
  have hkernel : ∀ b, (kernelRegion kernelSize).Covers b → mmapTest t b = false := by
    intro b hb
    apply Bool.eq_false_iff.mpr
    intro hused
    exact ((htest b).mp hused).2 ⟨r, hr, himage b hb⟩
  obtain ⟨s, hres, hcount', htest'⟩ := reserveRegion_whole (h.image_fits hcount.max) hkernel
  refine ⟨s, ?_, hcount.trans hcount', fun b => ?_⟩
  · unfold kmainMemory
    rw [hfree]
    show (pmmngrReserveRegion t (kernelRegion kernelSize)).bind _ = _
    rw [hres]
    rfl
  · rw [htest', htest]
    unfold Usable
    by_cases hb : (kernelRegion kernelSize).Covers b
    · simp [hb, h.offered hr (himage b hb)]
    · simp [hb]

theorem MultibootInfo.blocks_lt (info : MultibootInfo) : info.blocks < 1048576 := by
  have hmul := mul32_lt info.memoryKB 1024
  unfold MultibootInfo.blocks
  simp only [pmmngrBlockSize]
  omega

/-- The memory below 1 MB is never given away. -/
theorem kmainMemory_low (h : MapSound info kernelSize)
    (hboot : kmainMemory info kernelSize words = .ret s) (hb : b < 256) :
    mmapTest s b = true := by
  obtain ⟨t, hret, -, htest⟩ := kmainMemory_spec h words
  cases hret.symm.trans hboot
  obtain ⟨r, hr, -⟩ := h.image
  have hbase := mapRegions_base hr
  obtain ⟨-, -, hlen, -, hne⟩ := h.aligned r hr
  have hlast := h.inside r hr _ (covers_last hlen hne)
  have hinit : (pmmngrInit info.memoryKB words).mmngrMaxBlocks = info.blocks := rfl
  simp only [pmmngrBlockSize] at hlen hlast
  refine (htest b).mpr ⟨?_, fun huse => ?_⟩
  · rw [mmapTest_init, hinit]
    exact Bool.or_eq_true_iff.mpr (Or.inr (decide_eq_true (by omega)))
  · obtain ⟨⟨q, hq, hcov⟩, -⟩ := huse
    have hstart := mapRegions_base hq
    have hlow := hcov.1
    simp only [pmmngrBlockSize] at hlow
    omega

end Boot

/-! ## Runs -/

/-- The runs of the allocator from the state that `kmain` makes. A frame that is freed is one
that was handed out. -/
def bootSystem (info : MultibootInfo) (kernelSize : Nat) (words : Nat → BitVec 32) :
    System PhysRun where
  Init c := kmainMemory info kernelSize words = .ret c.phys ∧ c.handedOut = []
  Next c c' := ∃ call : PhysCall,
    (call = .allocBlock ∨ ∃ b ∈ c.handedOut, call = .freeBlock (b * pmmngrBlockSize)) ∧
    call.exec c.phys = .ret c'.phys ∧
    c'.handedOut = call.handedOut c.phys c'.phys c.handedOut

/-- The pool that a state of the allocator stands for. -/
def poolOf (U : Finset Nat) (c : PhysRun) : Pool Nat :=
  ⟨U.filter fun b => mmapTest c.phys b = false, c.handedOut⟩

/-- The allocator behaves as the pool of the usable frames, and leaves the others alone. -/
structure BootInv (info : MultibootInfo) (kernelSize : Nat) (words : Nat → BitVec 32)
    (c : PhysRun) : Prop where
  follows : CountFollows (pmmngrInit info.memoryKB words) c.phys
  outside : ∀ b, b ∉ usableFrames info kernelSize →
    mmapTest c.phys b = mmapTest (pmmngrInit info.memoryKB words) b
  pool : (poolSystem (usableFrames info kernelSize)).Reachable
    (poolOf (usableFrames info kernelSize) c)

section Runs

variable {s : PhysState} {c c' : PhysRun} {info : MultibootInfo} {kernelSize b : Nat}
variable {words : Nat → BitVec 32} {U : Finset Nat}

/-- The scan looks at whole words only. -/
theorem mmapFirstFree_word (h : mmapFirstFree s ≠ 0) :
    mmapFirstFree s < 32 * (s.mmngrMaxBlocks / 32) := by
  let t : PhysState := { s with mmngrMaxBlocks := 32 * (s.mmngrMaxBlocks / 32) }
  have hsame : mmapFirstFree t = mmapFirstFree s := by
    unfold mmapFirstFree
    dsimp only [t]
    rw [Nat.mul_div_cancel_left _ (by decide)]
  rw [← hsame] at h ⊢
  exact (mmapFirstFree_spec h).1

theorem MapSound.mem_usable (h : MapSound info kernelSize) :
    b ∈ usableFrames info kernelSize ↔ Usable info kernelSize b := by
  unfold usableFrames
  rw [Finset.mem_filter, Finset.mem_range]
  refine ⟨fun hb => hb.2, fun hb => ⟨?_, hb⟩⟩
  obtain ⟨⟨r, hr, hcov⟩, -⟩ := hb
  have hlt := h.inside r hr b hcov
  omega

/-- After `kmain` the whole pool is free. -/
theorem BootInv.init (h : MapSound info kernelSize)
    (hboot : kmainMemory info kernelSize words = .ret c.phys) (hout : c.handedOut = []) :
    BootInv info kernelSize words c := by
  obtain ⟨s, hret, hcount, htest⟩ := kmainMemory_spec h words
  cases hret.symm.trans hboot
  refine ⟨hcount, fun b hb => ?_, .init ?_⟩
  · have hno : ¬ Usable info kernelSize b := mt h.mem_usable.mpr hb
    rw [Bool.eq_iff_iff, htest]
    exact ⟨fun hb => hb.1, fun hb => ⟨hb, hno⟩⟩
  · unfold poolOf
    have hfree : ∀ b ∈ usableFrames info kernelSize, mmapTest c.phys b = false := by
      intro b hb
      apply Bool.eq_false_iff.mpr
      intro hused
      exact ((htest b).mp hused).2 (h.mem_usable.mp hb)
    rw [hout, Finset.filter_true_of_mem hfree]
    rfl

theorem BootInv.divides (h : BootInv info kernelSize words c) :
    Divides (usableFrames info kernelSize) (poolOf (usableFrames info kernelSize) c) :=
  divides_of_reachable h.pool

/-- An allocation takes a free frame of the pool. -/
theorem BootInv.alloc (h : BootInv info kernelSize words c)
    (hphys : c'.phys = (pmmngrAllocBlock c.phys).1)
    (hout : c'.handedOut = PhysCall.allocBlock.handedOut c.phys c'.phys c.handedOut) :
    BootInv info kernelSize words c' := by
  unfold PhysCall.handedOut at hout
  rw [allocBlock_eq] at hphys hout
  by_cases hnone : NoBlock c.phys
  · rw [if_pos hnone] at hphys hout
    have hsame : c' = c := by
      cases c'
      cases c
      simp_all
    rwa [hsame]
  rw [if_neg hnone] at hphys hout
  have hframe : mmapFirstFree c.phys ≠ 0 := fun hzero => hnone (Or.inr hzero)
  obtain ⟨hlt, hfree⟩ := mmapFirstFree_spec hframe
  have hword := mmapFirstFree_word hframe
  have hmax := h.follows.max
  generalize mmapFirstFree c.phys = b at *
  have hblocks := info.blocks_lt
  have hinit : (pmmngrInit info.memoryKB words).mmngrMaxBlocks = info.blocks := rfl
  -- a free block that the scan reaches is one of the usable frames
  have hmem : b ∈ usableFrames info kernelSize := by
    by_contra hb
    have hsame := h.outside b hb
    rw [hfree, mmapTest_init, hinit, decide_eq_true (by omega), Bool.or_true] at hsame
    cases hsame
  dsimp only at hphys hout
  have hmul : mul32 b pmmngrBlockSize = b * pmmngrBlockSize :=
    mul32_eq (by simp only [pmmngrBlockSize]; omega)
  rw [hmul, if_neg (by simp only [pmmngrBlockSize]; omega), Nat.mul_div_cancel b (by decide)]
    at hout
  refine ⟨?_, fun d hd => ?_, ?_⟩
  · rw [hphys]
    exact h.follows.trans (.take hlt hfree)
  · have hne : d ≠ b := fun heq => hd (heq ▸ hmem)
    rw [hphys, mmapTest_take, decide_eq_false hne, Bool.false_or]
    exact h.outside d hd
  · have hpool : poolOf (usableFrames info kernelSize) c' =
        ⟨(poolOf (usableFrames info kernelSize) c).free.erase b, b :: c.handedOut⟩ := by
      unfold poolOf
      rw [hphys, hout]
      congr 1
      ext d
      simp only [Finset.mem_filter, Finset.mem_erase, mmapTest_take, Bool.or_eq_false_iff,
        decide_eq_false_iff_not]
      tauto
    rw [hpool]
    exact .next h.pool (Step.take (Finset.mem_filter.mpr ⟨hmem, hfree⟩))

/-- A frame that comes back is free again. -/
theorem BootInv.free (h : BootInv info kernelSize words c) (hb : b ∈ c.handedOut)
    (hphys : c'.phys = pmmngrFreeBlock c.phys (b * pmmngrBlockSize))
    (hout : c'.handedOut =
      (PhysCall.freeBlock (b * pmmngrBlockSize)).handedOut c.phys c'.phys c.handedOut) :
    BootInv info kernelSize words c' := by
  have hdiv := h.divides
  have hmem : b ∈ usableFrames info kernelSize := (hdiv.covers b).mp (Or.inr hb)
  have hused : mmapTest c.phys b = true := by
    by_contra hfree
    exact hdiv.apart b hb (Finset.mem_filter.mpr ⟨hmem, Bool.eq_false_iff.mpr hfree⟩)
  have hblock : b * pmmngrBlockSize / pmmngrBlockSize = b := Nat.mul_div_cancel b (by decide)
  rw [freeBlock_eq, hblock, if_pos hused] at hphys
  have hlt : b < c.phys.mmngrMaxBlocks := by
    rw [h.follows.max]
    exact Finset.mem_range.mp (Finset.mem_filter.mp hmem).1
  have hgone : c'.handedOut = c.handedOut.erase b := by
    have hnodup : c.handedOut.Nodup := hdiv.nodup
    rw [hout, hnodup.erase_eq_filter]
    unfold PhysCall.handedOut
    apply List.filter_congr
    intro d _
    have hfrees : PhysCall.Frees d (.freeBlock (b * pmmngrBlockSize)) = (d == b) := by
      show (d == b * pmmngrBlockSize / pmmngrBlockSize) = (d == b)
      rw [hblock]
    rw [hphys, mmapTest_give, hfrees]
    by_cases hd : d = b
    · simp [hd]
    · simp [hd, beq_eq_false_iff_ne.mpr hd]
  refine ⟨?_, fun d hd => ?_, ?_⟩
  · rw [hphys]
    exact h.follows.trans (.give hlt hused)
  · have hne : d ≠ b := fun heq => hd (heq ▸ hmem)
    rw [hphys, mmapTest_give, decide_eq_false hne, Bool.not_false, Bool.true_and]
    exact h.outside d hd
  · have hpool : poolOf (usableFrames info kernelSize) c' =
        ⟨insert b (poolOf (usableFrames info kernelSize) c).free, c.handedOut.erase b⟩ := by
      unfold poolOf
      rw [hphys, hgone]
      congr 1
      ext d
      simp only [Finset.mem_filter, Finset.mem_insert, mmapTest_give, Bool.and_eq_false_iff,
        Bool.not_eq_false', decide_eq_true_eq]
      by_cases hd : d = b
      · simp [hd, hmem]
      · simp [hd]
    rw [hpool]
    exact .next h.pool (Step.give hb)

theorem bootInv_inductive (h : MapSound info kernelSize) :
    (bootSystem info kernelSize words).Inductive (BootInv info kernelSize words) where
  init := by
    intro c ⟨hboot, hout⟩
    exact .init h hboot hout
  next := by
    rintro c c' hinv ⟨call, rfl | ⟨b, hb, rfl⟩, hret, hout⟩
    · injection hret with hphys
      exact hinv.alloc hphys.symm hout
    · injection hret with hphys
      exact hinv.free hb hphys.symm hout

/-- The counter says how many frames of the pool are free. -/
theorem BootInv.count (h : MapSound info kernelSize) (hinv : BootInv info kernelSize words c) :
    pmmngrGetFreeBlockCount c.phys = (poolOf (usableFrames info kernelSize) c).free.card := by
  have hmoves := hinv.follows.countMoves
  have hmax := hinv.follows.max
  have hinit : (pmmngrInit info.memoryKB words).mmngrMaxBlocks = info.blocks := rfl
  have hall : (pmmngrInit info.memoryKB words).mmngrUsedBlocks = info.blocks := rfl
  have hoffered : ∀ b ∈ usableFrames info kernelSize,
      mmapTest (pmmngrInit info.memoryKB words) b = true := by
    intro b hb
    obtain ⟨⟨r, hr, hcov⟩, -⟩ := h.mem_usable.mp hb
    exact h.offered hr hcov
  -- what has changed since `pmmngr_init` are the free frames of the pool
  have hfreed : ((Finset.range info.blocks).filter fun b =>
      mmapTest (pmmngrInit info.memoryKB words) b && !mmapTest c.phys b) =
        (poolOf (usableFrames info kernelSize) c).free := by
    ext b
    simp only [poolOf, Finset.mem_filter, Finset.mem_range, Bool.and_eq_true, Bool.not_eq_true']
    constructor
    · rintro ⟨-, hset, hclear⟩
      refine ⟨?_, hclear⟩
      by_contra hb
      rw [hinv.outside b hb, hset] at hclear
      cases hclear
    · rintro ⟨hb, hclear⟩
      exact ⟨Finset.mem_range.mp (Finset.mem_filter.mp hb).1, hoffered b hb, hclear⟩
  have htaken : ((Finset.range info.blocks).filter fun b =>
      !mmapTest (pmmngrInit info.memoryKB words) b && mmapTest c.phys b) = ∅ := by
    apply Finset.filter_eq_empty_iff.mpr
    intro b _
    by_cases hb : b ∈ usableFrames info kernelSize
    · simp [hoffered b hb]
    · simp [hinv.outside b hb]
  have hblocks := info.blocks_lt
  have hle : (poolOf (usableFrames info kernelSize) c).free.card ≤ info.blocks := by
    rw [← hfreed]
    exact (Finset.card_filter_le _ _).trans (Finset.card_range _).le
  unfold CountMoves at hmoves
  rw [hinit, hall, hfreed, htaken, Finset.card_empty] at hmoves
  unfold pmmngrGetFreeBlockCount
  rw [hmax, hinit]
  simp only [add32, sub32] at hmoves ⊢
  omega

/-- From boot on the allocator is a pool of the usable frames: none is handed out twice, and none
of the kernel image or outside the available memory; the frames that are not held are free, and
the counter counts them. -/
theorem bootFrames_pool (h : MapSound info kernelSize) (words : Nat → BitVec 32) :
    (∃ s, kmainMemory info kernelSize words = .ret s) ∧
      ∀ c, (bootSystem info kernelSize words).Reachable c →
        c.handedOut.Nodup ∧
        (∀ b ∈ c.handedOut, Usable info kernelSize b ∧ mmapTest c.phys b = true) ∧
        (∀ b < 8 * (info.blocks / 8), mmapTest c.phys b = false ↔
          Usable info kernelSize b ∧ b ∉ c.handedOut) ∧
        pmmngrGetFreeBlockCount c.phys + c.handedOut.length =
          (usableFrames info kernelSize).card := by
  obtain ⟨s, hret, -⟩ := kmainMemory_spec h words
  refine ⟨⟨s, hret⟩, fun c hreach => ?_⟩
  have hinv := (bootInv_inductive h).holds hreach
  have hdiv := hinv.divides
  refine ⟨hdiv.nodup, fun b hb => ?_, fun b hlt => ?_, ?_⟩
  · have hmem : b ∈ usableFrames info kernelSize := (hdiv.covers b).mp (Or.inr hb)
    refine ⟨h.mem_usable.mp hmem, ?_⟩
    by_contra hfree
    exact hdiv.apart b hb (Finset.mem_filter.mpr ⟨hmem, Bool.eq_false_iff.mpr hfree⟩)
  · have hinit : (pmmngrInit info.memoryKB words).mmngrMaxBlocks = info.blocks := rfl
    constructor
    · intro hfree
      have hmem : b ∈ usableFrames info kernelSize := by
        by_contra hb
        have hsame := hinv.outside b hb
        rw [hfree, mmapTest_init, hinit, decide_eq_true hlt, Bool.or_true] at hsame
        cases hsame
      exact ⟨h.mem_usable.mp hmem,
        fun hheld => hdiv.apart b hheld (Finset.mem_filter.mpr ⟨hmem, hfree⟩)⟩
    · rintro ⟨huse, hout⟩
      rcases (hdiv.covers b).mpr (h.mem_usable.mpr huse) with hfree | hheld
      · exact (Finset.mem_filter.mp hfree).2
      · exact absurd hheld hout
  · rw [hinv.count h]
    exact hdiv.card

/-- Four megabytes: low memory, and the rest from 1 MB on. -/
def fourMb : MultibootInfo := ⟨3072, 0, [⟨0, 0x9F000, 1⟩, ⟨0x100000, 0x300000, 1⟩]⟩

theorem fourMb_sound : MapSound fourMb 0x10000 := by
  have hmap : mapRegions 0 fourMb.mmap = [⟨0x100000, 0x300000⟩] := by decide
  have hall : ∀ {P : PhysicalMemoryRegion → Prop}, P ⟨0x100000, 0x300000⟩ →
      ∀ r ∈ mapRegions 0 fourMb.mmap, P r := by
    intro P h r hr
    rw [hmap, List.mem_singleton] at hr
    exact hr ▸ h
  refine ⟨hall (by decide), hall ?_, ?_, by decide, ⟨⟨0x100000, 0x300000⟩, ?_, ?_⟩⟩
  · intro b hb
    have hblocks : 8 * (fourMb.blocks / 8) = 1024 := by decide
    have hlt := hb.2
    simp only [pmmngrBlockSize] at hlt
    omega
  · rw [hmap]
    exact List.pairwise_singleton _ _
  · rw [hmap]
    exact List.mem_singleton_self _
  · intro b hb
    have hbase : (kernelRegion 0x10000).base = 0x100000 := rfl
    have hlen : (kernelRegion 0x10000).length = 0x11000 := by decide
    unfold PhysicalMemoryRegion.Covers at hb ⊢
    rw [hbase, hlen] at hb
    simp only [pmmngrBlockSize] at hb ⊢
    omega

/-- With an image of 64 KB the first 17 blocks above 1 MB stay in use. -/
theorem bootFrames_pool_fourMb : (∃ s, kmainMemory fourMb 0x10000 (fun _ => 0#32) = .ret s) ∧
    ∀ c, (bootSystem fourMb 0x10000 fun _ => 0#32).Reachable c → ∀ b ∈ c.handedOut, 0x111 ≤ b := by
  obtain ⟨hret, hpool⟩ := bootFrames_pool fourMb_sound (fun _ => 0#32)
  refine ⟨hret, fun c hreach b hb => ?_⟩
  obtain ⟨⟨⟨r, hr, hcov⟩, himage⟩, -⟩ := (hpool c hreach).2.1 b hb
  have hstart := mapRegions_base hr
  have hbase : (kernelRegion 0x10000).base = 0x100000 := rfl
  have hlen : (kernelRegion 0x10000).length = 0x11000 := by decide
  unfold PhysicalMemoryRegion.Covers at hcov himage
  rw [hbase, hlen] at himage
  simp only [pmmngrBlockSize] at hcov himage
  omega

end Runs

end MeOS
