import MeOS.Types
import MeOS.Lib.Bitmap
import MeOS.Lib.Runs

/-! # `mmngr_phys.cpp`: the frame allocator

One bit for each 4 KB block of physical memory says whether the block is in
use, and `usedBlocks` counts the bits that are set. The counter is kept by each
function on its own; `FramesInv` says that it agrees with the bitmap and that
block 0 is never free.
-/

namespace MeOS

open Bitmap Runs

/-- `PMMNGR_BLOCK_SIZE`. -/
abbrev pmmngrBlockSize : Nat := 4096

/-- `PMEM_ERROR`. -/
inductive PmemError where
  | outOfMem
  | badArgument
deriving Repr, DecidableEq

/-- The variables of the allocator; the bitmap is read as an array of words. -/
structure PhysState where
  mmngrMemorySize : Nat
  mmngrUsedBlocks : Nat
  mmngrMaxBlocks : Nat
  mmngrBitmap : Nat → BitVec 32

/-- `physical_memory_region`. -/
structure PhysicalMemoryRegion where
  base : Nat
  length : Nat
deriving Repr, DecidableEq

/-! ## The bitmap -/

/-- `mmap_set`. -/
def mmapSet (s : PhysState) (b : Nat) : PhysState :=
  let word := s.mmngrBitmap (b / 32) ||| 1#32 <<< (b % 32)
  { s with mmngrBitmap := Function.update s.mmngrBitmap (b / 32) word }

/-- `mmap_unset`. -/
def mmapUnset (s : PhysState) (b : Nat) : PhysState :=
  let word := s.mmngrBitmap (b / 32) &&& ~~~(1#32 <<< (b % 32))
  { s with mmngrBitmap := Function.update s.mmngrBitmap (b / 32) word }

/-- `mmap_test`. -/
def mmapTest (s : PhysState) (b : Nat) : Bool :=
  s.mmngrBitmap (b / 32) &&& 1#32 <<< (b % 32) != 0#32

/-- The inner loop of `mmap_first_free`: the first bit of a word that is off. -/
def firstClearBit (word : BitVec 32) : Option Nat :=
  (List.range 32).find? fun j => word &&& 1#32 <<< j == 0#32

/-- `mmap_first_free`; 0 when no block is free. -/
def mmapFirstFree (s : PhysState) : Nat :=
  ((List.range (s.mmngrMaxBlocks / 32)).findSome? fun i =>
    if s.mmngrBitmap i ≠ 0xFFFFFFFF#32 then
      (firstClearBit (s.mmngrBitmap i)).map fun j => i * 32 + j
    else none).getD 0

/-! ## Interface -/

/-- The words after a `memset` of `count` bytes to `0xff`. -/
def memsetFF (words : Nat → BitVec 32) (count : Nat) : Nat → BitVec 32 := fun i =>
  words i ||| BitVec.allOnes 32 >>> (32 - 8 * min 4 (count - 4 * i))

/-- `pmmngr_init`; `words` is the memory the bitmap is put into. -/
def pmmngrInit (size : Nat) (words : Nat → BitVec 32) : PhysState :=
  let maxBlocks := mul32 size 1024 / pmmngrBlockSize
  { mmngrMemorySize := size, mmngrUsedBlocks := maxBlocks, mmngrMaxBlocks := maxBlocks,
    -- by default all memory is in use
    mmngrBitmap := memsetFF words (maxBlocks / 8) }

/-- `pmmngr_get_free_block_count`. -/
def pmmngrGetFreeBlockCount (s : PhysState) : Nat := sub32 s.mmngrMaxBlocks s.mmngrUsedBlocks

/-- The loop of `pmmngr_free_region`, `n` rounds before its end. A round that
finds the block free stays at it. -/
def freeBlocksFrom : Nat → Nat → PhysState → PhysState
  | 0, _, s => s
  | n + 1, alignedAddr, s =>
    if mmapTest s alignedAddr then
      let s := mmapUnset s alignedAddr
      freeBlocksFrom n (add32 alignedAddr 1)
        { s with mmngrUsedBlocks := sub32 s.mmngrUsedBlocks 1 }
    else
      freeBlocksFrom n alignedAddr s

/-- `pmmngr_free_region`. Nothing is returned on the normal way. -/
def pmmngrFreeRegion (s : PhysState) (region : PhysicalMemoryRegion) :
    Outcome (PhysState × Option PmemError) :=
  if region.length = 0 then
    .ret (s, some .badArgument)
  else if region.length % pmmngrBlockSize ≠ 0 ∨ region.base % pmmngrBlockSize ≠ 0 then
    .panic
  else
    let alignedAddr := region.base / pmmngrBlockSize
    let alignedSize := region.length / pmmngrBlockSize
    let s := freeBlocksFrom alignedSize alignedAddr s
    -- block 0 is never given away
    if mmapTest s 0 = false then
      let s := mmapSet s 0
      .ret ({ s with mmngrUsedBlocks := add32 s.mmngrUsedBlocks 1 }, none)
    else
      .ret (s, none)

/-- The loop of `pmmngr_reserve_region`. -/
def reserveBlocksFrom : Nat → Nat → PhysState → PhysState
  | 0, _, s => s
  | n + 1, alignedAddr, s =>
    if mmapTest s alignedAddr = false then
      let s := mmapSet s alignedAddr
      reserveBlocksFrom n (add32 alignedAddr 1)
        { s with mmngrUsedBlocks := add32 s.mmngrUsedBlocks 1 }
    else
      reserveBlocksFrom n alignedAddr s

/-- `pmmngr_reserve_region`. -/
def pmmngrReserveRegion (s : PhysState) (region : PhysicalMemoryRegion) :
    Outcome (PhysState × Option PmemError) :=
  if region.length = 0 then
    .ret (s, some .badArgument)
  else if region.length % pmmngrBlockSize ≠ 0 ∨ region.base % pmmngrBlockSize ≠ 0 then
    .panic
  else
    let alignedAddr := region.base / pmmngrBlockSize
    let alignedSize := region.length / pmmngrBlockSize
    .ret (reserveBlocksFrom alignedSize alignedAddr s, none)

/-- `pmmngr_alloc_block`; 0 when there is no block. -/
def pmmngrAllocBlock (s : PhysState) : PhysState × Nat :=
  if pmmngrGetFreeBlockCount s ≤ 0 then
    (s, 0)
  else
    let frame := mmapFirstFree s
    if frame = 0 then
      (s, 0)
    else
      let s := mmapSet s frame
      ({ s with mmngrUsedBlocks := add32 s.mmngrUsedBlocks 1 }, mul32 frame pmmngrBlockSize)

/-- `pmmngr_free_block`. -/
def pmmngrFreeBlock (s : PhysState) (block : Nat) : PhysState :=
  let frame := block / pmmngrBlockSize
  if mmapTest s frame then
    let s := mmapUnset s frame
    { s with mmngrUsedBlocks := sub32 s.mmngrUsedBlocks 1 }
  else
    s

/-! ## The bits -/

section Bits

variable {s : PhysState} {b c : Nat}

theorem mmapTest_eq : mmapTest s b = bit s.mmngrBitmap b := by
  have h := and_mask_ne_zero (m := s.mmngrBitmap) (b := b) (w := 32) (by decide)
  unfold mmapTest
  cases hbit : bit s.mmngrBitmap b with
  | false =>
    rw [hbit] at h
    simpa [mask] using h
  | true =>
    rw [hbit] at h
    simpa [mask] using h

/-- The inner loop finds a clear bit of the word. -/
theorem firstClearBit_spec {word : BitVec 32} {j : Nat} (h : firstClearBit word = some j) :
    j < 32 ∧ word.getLsbD j = false := by
  unfold firstClearBit at h
  have hj : j < 32 := List.mem_range.mp (List.mem_of_find?_eq_some h)
  have hclear := List.find?_some h
  have hmod : j % 32 = j := Nat.mod_eq_of_lt hj
  have hiff := and_mask_ne_zero (m := fun _ => word) (b := j) (w := 32) (by decide)
  refine ⟨hj, ?_⟩
  unfold bit mask at hiff
  rw [hmod] at hiff
  by_contra hset
  have hne := hiff.mpr (by simpa using hset)
  exact hne (by simpa using hclear)

/-- `mmap_first_free` finds a free block. -/
theorem mmapFirstFree_spec (h : mmapFirstFree s ≠ 0) :
    mmapFirstFree s < s.mmngrMaxBlocks ∧ mmapTest s (mmapFirstFree s) = false := by
  unfold mmapFirstFree at h ⊢
  cases hfind : (List.range (s.mmngrMaxBlocks / 32)).findSome? fun i =>
      if s.mmngrBitmap i ≠ 0xFFFFFFFF#32 then
        (firstClearBit (s.mmngrBitmap i)).map fun j => i * 32 + j
      else none with
  | none =>
    rw [hfind] at h
    exact absurd rfl h
  | some f =>
    rcases List.exists_of_findSome?_eq_some hfind with ⟨i, hi, hword⟩
    have hi' : i < s.mmngrMaxBlocks / 32 := List.mem_range.mp hi
    by_cases hfull : s.mmngrBitmap i ≠ 0xFFFFFFFF#32
    · rw [if_pos hfull] at hword
      rcases Option.map_eq_some_iff.mp hword with ⟨j, hj, hf⟩
      rcases firstClearBit_spec hj with ⟨hlt, hclear⟩
      rw [Option.getD_some, ← hf]
      refine ⟨by omega, ?_⟩
      rw [mmapTest_eq]
      unfold bit
      rw [show (i * 32 + j) / 32 = i by omega, show (i * 32 + j) % 32 = j by omega]
      exact hclear
    · rw [if_neg hfull] at hword
      cases hword

end Bits

/-! ## Counter and bitmap -/

/-- Block `b` is marked as used and counted. -/
def PhysState.take (s : PhysState) (b : Nat) : PhysState :=
  { mmapSet s b with mmngrUsedBlocks := add32 s.mmngrUsedBlocks 1 }

/-- Block `b` is marked as free and no longer counted. -/
def PhysState.give (s : PhysState) (b : Nat) : PhysState :=
  { mmapUnset s b with mmngrUsedBlocks := sub32 s.mmngrUsedBlocks 1 }

/-- The counter agrees with the bitmap. -/
structure Counted (s : PhysState) : Prop where
  used : s.mmngrUsedBlocks = ((Finset.range s.mmngrMaxBlocks).filter fun b => mmapTest s b).card
  small : s.mmngrMaxBlocks ≤ 1048576

section Counted

variable {s : PhysState} {a b c n : Nat}

theorem take_used : (s.take b).mmngrUsedBlocks = add32 s.mmngrUsedBlocks 1 := rfl

@[simp] theorem take_max : (s.take b).mmngrMaxBlocks = s.mmngrMaxBlocks := rfl

theorem take_bitmap : (s.take b).mmngrBitmap = setBit s.mmngrBitmap b := rfl

theorem give_used : (s.give b).mmngrUsedBlocks = sub32 s.mmngrUsedBlocks 1 := rfl

@[simp] theorem give_max : (s.give b).mmngrMaxBlocks = s.mmngrMaxBlocks := by
  unfold PhysState.give mmapUnset
  dsimp only

theorem give_bitmap : (s.give b).mmngrBitmap = clearBit s.mmngrBitmap b := rfl

@[simp] theorem mmapTest_take : mmapTest (s.take b) c = (decide (c = b) || mmapTest s c) := by
  rw [mmapTest_eq, mmapTest_eq, take_bitmap, bit_setBit (by decide)]

@[simp] theorem mmapTest_give : mmapTest (s.give b) c = (!decide (c = b) && mmapTest s c) := by
  rw [mmapTest_eq, mmapTest_eq, give_bitmap, bit_clearBit (by decide)]

theorem counted_iff :
    Counted s ↔ s.mmngrUsedBlocks = (ones s.mmngrBitmap s.mmngrMaxBlocks).card ∧
      s.mmngrMaxBlocks ≤ 1048576 := by
  have hset : (Finset.range s.mmngrMaxBlocks).filter (fun b => mmapTest s b) =
      ones s.mmngrBitmap s.mmngrMaxBlocks := by
    unfold ones
    apply Finset.filter_congr
    intro b _
    rw [mmapTest_eq]
  constructor
  · intro h
    exact ⟨hset ▸ h.used, h.small⟩
  · intro ⟨hused, hsmall⟩
    exact ⟨hset ▸ hused, hsmall⟩

/-- Taking a free block. -/
theorem Counted.take (h : Counted s) (hb : b < s.mmngrMaxBlocks) (hfree : mmapTest s b = false) :
    Counted (s.take b) := by
  have hle := card_ones_le (m := s.mmngrBitmap) (n := s.mmngrMaxBlocks)
  rcases counted_iff.mp h with ⟨hused, hsmall⟩
  rw [mmapTest_eq] at hfree
  apply counted_iff.mpr
  rw [take_used, take_max, take_bitmap, card_ones_setBit (by decide) hb hfree,
    add32_eq (by omega), hused]
  exact ⟨rfl, hsmall⟩

/-- Giving a block back. -/
theorem Counted.give (h : Counted s) (hb : b < s.mmngrMaxBlocks) (hset : mmapTest s b = true) :
    Counted (s.give b) := by
  have hle := card_ones_le (m := s.mmngrBitmap) (n := s.mmngrMaxBlocks)
  rcases counted_iff.mp h with ⟨hused, hsmall⟩
  rw [mmapTest_eq] at hset
  have hcard := card_ones_clearBit (w := 32) (by decide) hb hset
  apply counted_iff.mpr
  rw [give_used, give_max, give_bitmap, sub32_eq (by omega) (by omega)]
  exact ⟨by omega, hsmall⟩

theorem freeBlocksFrom_succ : freeBlocksFrom (n + 1) a s =
    if mmapTest s a then freeBlocksFrom n (add32 a 1) (s.give a) else freeBlocksFrom n a s := by
  rw [freeBlocksFrom]
  unfold PhysState.give mmapUnset
  dsimp only

theorem reserveBlocksFrom_succ : reserveBlocksFrom (n + 1) a s =
    if mmapTest s a = false then reserveBlocksFrom n (add32 a 1) (s.take a)
    else reserveBlocksFrom n a s := rfl

/-- The loop of `pmmngr_free_region` clears bits of its region only. -/
theorem freeBlocksFrom_spec (h : Counted s) (hrange : a + n ≤ s.mmngrMaxBlocks) :
    Counted (freeBlocksFrom n a s) ∧
      (freeBlocksFrom n a s).mmngrMaxBlocks = s.mmngrMaxBlocks ∧
      ∀ c, c < a ∨ a + n ≤ c → mmapTest (freeBlocksFrom n a s) c = mmapTest s c := by
  induction n generalizing a s with
  | zero => exact ⟨h, rfl, fun c _ => rfl⟩
  | succ n ih =>
    have hsmall := h.small
    rw [freeBlocksFrom_succ]
    by_cases htest : mmapTest s a = true
    · have hrange' : a + 1 + n ≤ (s.give a).mmngrMaxBlocks := by
        rw [give_max]
        omega
      rw [if_pos htest, add32_eq (by omega)]
      rcases ih (h.give (by omega) htest) hrange' with ⟨hcount, hmax, hkeep⟩
      refine ⟨hcount, hmax.trans give_max, ?_⟩
      intro c hout
      have hca : c ≠ a := by omega
      rw [hkeep c (by omega), mmapTest_give]
      simp [hca]
    · rw [if_neg htest]
      rcases ih h (show a + n ≤ s.mmngrMaxBlocks by omega) with ⟨hcount, hmax, hkeep⟩
      exact ⟨hcount, hmax, fun c hout => hkeep c (by omega)⟩

/-- The loop of `pmmngr_reserve_region` sets bits only. -/
theorem reserveBlocksFrom_spec (h : Counted s) (hrange : a + n ≤ s.mmngrMaxBlocks) :
    Counted (reserveBlocksFrom n a s) ∧
      (reserveBlocksFrom n a s).mmngrMaxBlocks = s.mmngrMaxBlocks ∧
      ∀ c, mmapTest s c = true → mmapTest (reserveBlocksFrom n a s) c = true := by
  induction n generalizing a s with
  | zero => exact ⟨h, rfl, fun c => id⟩
  | succ n ih =>
    have hsmall := h.small
    rw [reserveBlocksFrom_succ]
    by_cases htest : mmapTest s a = false
    · have hrange' : a + 1 + n ≤ (s.take a).mmngrMaxBlocks := by
        rw [take_max]
        omega
      rw [if_pos htest, add32_eq (by omega)]
      rcases ih (h.take (by omega) htest) hrange' with ⟨hcount, hmax, hkeep⟩
      refine ⟨hcount, hmax.trans take_max, ?_⟩
      intro c hset
      apply hkeep c
      rw [mmapTest_take, hset, Bool.or_true]
    · rw [if_neg htest]
      exact ih h (show a + n ≤ s.mmngrMaxBlocks by omega)

/-- `pmmngr_alloc_block` takes a free block, or does nothing and returns 0. -/
theorem allocBlock_spec (hsmall : s.mmngrMaxBlocks ≤ 1048576) {s' : PhysState} {addr : Nat}
    (halloc : pmmngrAllocBlock s = (s', addr)) :
    (addr = 0 ∧ s' = s) ∨
      (∃ b, addr = b * pmmngrBlockSize ∧ 0 < b ∧ b < s.mmngrMaxBlocks ∧ mmapTest s b = false ∧
        s' = s.take b) := by
  unfold pmmngrAllocBlock at halloc
  by_cases hcount : pmmngrGetFreeBlockCount s ≤ 0
  · rw [if_pos hcount] at halloc
    cases halloc
    exact Or.inl ⟨rfl, rfl⟩
  · rw [if_neg hcount] at halloc
    by_cases hframe : mmapFirstFree s = 0
    · simp only [if_pos hframe] at halloc
      cases halloc
      exact Or.inl ⟨rfl, rfl⟩
    · simp only [if_neg hframe] at halloc
      rcases mmapFirstFree_spec hframe with ⟨hlt, hclear⟩
      cases halloc
      refine Or.inr ⟨mmapFirstFree s, ?_, Nat.pos_of_ne_zero hframe, hlt, hclear, rfl⟩
      simp only [pmmngrBlockSize]
      rw [mul32_eq (by omega)]

theorem freeBlock_eq : pmmngrFreeBlock s c =
    if mmapTest s (c / pmmngrBlockSize) then s.give (c / pmmngrBlockSize) else s := rfl

/-- `pmmngr_free_block` frees the block of its address and no other. -/
theorem mmapTest_freeBlock {d : Nat} : mmapTest (pmmngrFreeBlock s c) d =
    (!decide (d = c / pmmngrBlockSize) && mmapTest s d) := by
  rw [freeBlock_eq]
  by_cases htest : mmapTest s (c / pmmngrBlockSize) = true
  · rw [if_pos htest, mmapTest_give]
  · rw [if_neg htest]
    by_cases hd : d = c / pmmngrBlockSize
    · subst hd
      simpa using htest
    · simp [hd]

@[simp] theorem freeBlock_max :
    (pmmngrFreeBlock s c).mmngrMaxBlocks = s.mmngrMaxBlocks := by
  rw [freeBlock_eq]
  by_cases htest : mmapTest s (c / pmmngrBlockSize) = true
  · rw [if_pos htest, give_max]
  · rw [if_neg htest]

theorem Counted.freeBlock (h : Counted s) (hb : c / pmmngrBlockSize < s.mmngrMaxBlocks) :
    Counted (pmmngrFreeBlock s c) := by
  rw [freeBlock_eq]
  by_cases htest : mmapTest s (c / pmmngrBlockSize) = true
  · rw [if_pos htest]
    exact h.give hb htest
  · rwa [if_neg htest]

end Counted

/-! ## Runs -/

/-- Calls of the allocator. -/
inductive PhysCall where
  | freeRegion (region : PhysicalMemoryRegion)
  | reserveRegion (region : PhysicalMemoryRegion)
  | allocBlock
  | freeBlock (block : Nat)
deriving Repr, DecidableEq

/-- The call stays inside the memory, and does not free block 0. -/
def PhysCall.Made (s : PhysState) : PhysCall → Prop
  | .freeRegion r => r.base / pmmngrBlockSize + r.length / pmmngrBlockSize ≤ s.mmngrMaxBlocks
  | .reserveRegion r => r.base / pmmngrBlockSize + r.length / pmmngrBlockSize ≤ s.mmngrMaxBlocks
  | .allocBlock => True
  | .freeBlock block =>
    block % pmmngrBlockSize = 0 ∧ 0 < block / pmmngrBlockSize ∧
      block / pmmngrBlockSize < s.mmngrMaxBlocks

/-- Execute a call. -/
def PhysCall.exec (s : PhysState) : PhysCall → Outcome PhysState
  | .freeRegion r => do
    let (s, _) ← pmmngrFreeRegion s r
    return s
  | .reserveRegion r => do
    let (s, _) ← pmmngrReserveRegion s r
    return s
  | .allocBlock => return (pmmngrAllocBlock s).1
  | .freeBlock block => return pmmngrFreeBlock s block

/-- The call covers block `b` to free it. -/
def PhysCall.Frees (b : Nat) : PhysCall → Bool
  | .freeRegion r =>
    r.base / pmmngrBlockSize ≤ b && b < r.base / pmmngrBlockSize + r.length / pmmngrBlockSize
  | .freeBlock block => b == block / pmmngrBlockSize
  | _ => false

/-- The blocks that were returned and have not been freed since: an allocation adds
one, a free takes away those it has made free. -/
def PhysCall.handedOut (s s' : PhysState) (blocks : List Nat) (c : PhysCall) : List Nat :=
  match c with
  | .allocBlock =>
    if (pmmngrAllocBlock s).2 = 0 then blocks
    else (pmmngrAllocBlock s).2 / pmmngrBlockSize :: blocks
  | c => blocks.filter fun b => !(c.Frees b && !mmapTest s' b)

/-- The allocator with the blocks it has handed out. -/
structure PhysRun where
  phys : PhysState
  handedOut : List Nat

/-- The runs from `pmmngr_init(size, ..)`. -/
def physSystem (size : Nat) (words : Nat → BitVec 32) : System PhysRun where
  Init c := c.phys = pmmngrInit size words ∧ c.handedOut = []
  Next c c' := ∃ call : PhysCall, call.Made c.phys ∧ call.exec c.phys = .ret c'.phys ∧
    c'.handedOut = call.handedOut c.phys c'.phys c.handedOut

/-- The counter agrees with the bitmap, block 0 is in use, and so is every block that
was handed out. -/
structure FramesInv (c : PhysRun) : Prop extends Counted c.phys where
  zero : 0 < c.phys.mmngrMaxBlocks → mmapTest c.phys 0 = true
  taken : ∀ b ∈ c.handedOut, mmapTest c.phys b = true

section Runs

variable {c c' : PhysRun}

/-- After a call that hands nothing out, a block that was handed out and is still
counted is in use if the call clears only bits that it covers. -/
theorem taken_of_kept {call : PhysCall} {s s' : PhysState} {blocks : List Nat}
    (htaken : ∀ b ∈ blocks, mmapTest s b = true)
    (hkeep : ∀ b, call.Frees b = false → mmapTest s b = true → mmapTest s' b = true) :
    ∀ b ∈ blocks.filter (fun b => !(call.Frees b && !mmapTest s' b)), mmapTest s' b = true := by
  intro b hb
  rcases List.mem_filter.mp hb with ⟨hmem, hcond⟩
  cases hfrees : call.Frees b with
  | false => exact hkeep b hfrees (htaken b hmem)
  | true =>
    rw [hfrees] at hcond
    simpa using hcond

/-- Both regions functions return without change, or go over the blocks of the region. -/
theorem freeRegion_cases {s s' : PhysState} {r : PhysicalMemoryRegion} {e : Option PmemError}
    (h : pmmngrFreeRegion s r = .ret (s', e)) :
    s' = s ∨ (∃ t, t = freeBlocksFrom (r.length / pmmngrBlockSize) (r.base / pmmngrBlockSize) s ∧
      0 < r.length / pmmngrBlockSize ∧
      ((mmapTest t 0 = false ∧ s' = t.take 0) ∨ (mmapTest t 0 = true ∧ s' = t))) := by
  unfold pmmngrFreeRegion at h
  by_cases hlen : r.length = 0
  · rw [if_pos hlen] at h
    cases h
    exact Or.inl rfl
  rw [if_neg hlen] at h
  by_cases halign : r.length % pmmngrBlockSize ≠ 0 ∨ r.base % pmmngrBlockSize ≠ 0
  · rw [if_pos halign] at h
    cases h
  rw [if_neg halign] at h
  have hpos : 0 < r.length / pmmngrBlockSize := by
    simp only [pmmngrBlockSize] at halign ⊢
    omega
  dsimp only at h
  refine Or.inr ⟨_, rfl, hpos, ?_⟩
  cases hzero : mmapTest
      (freeBlocksFrom (r.length / pmmngrBlockSize) (r.base / pmmngrBlockSize) s) 0 with
  | false =>
    rw [if_pos hzero] at h
    cases h
    exact Or.inl ⟨rfl, rfl⟩
  | true =>
    rw [if_neg (by simp [hzero])] at h
    cases h
    exact Or.inr ⟨rfl, rfl⟩

theorem reserveRegion_cases {s s' : PhysState} {r : PhysicalMemoryRegion} {e : Option PmemError}
    (h : pmmngrReserveRegion s r = .ret (s', e)) :
    s' = s ∨
      s' = reserveBlocksFrom (r.length / pmmngrBlockSize) (r.base / pmmngrBlockSize) s := by
  unfold pmmngrReserveRegion at h
  by_cases hlen : r.length = 0
  · rw [if_pos hlen] at h
    cases h
    exact Or.inl rfl
  rw [if_neg hlen] at h
  by_cases halign : r.length % pmmngrBlockSize ≠ 0 ∨ r.base % pmmngrBlockSize ≠ 0
  · rw [if_pos halign] at h
    cases h
  rw [if_neg halign] at h
  cases h
  exact Or.inr rfl

/-- What a call does: the counter stays right, block 0 stays in use, and only blocks that
the call covers become free. -/
theorem exec_spec {call : PhysCall} {s s' : PhysState} (h : Counted s) (hmade : call.Made s)
    (hzero : 0 < s.mmngrMaxBlocks → mmapTest s 0 = true) (hret : call.exec s = .ret s') :
    Counted s' ∧ s'.mmngrMaxBlocks = s.mmngrMaxBlocks ∧
      (0 < s.mmngrMaxBlocks → mmapTest s' 0 = true) ∧
      ∀ b, call.Frees b = false → mmapTest s b = true → mmapTest s' b = true := by
  cases call with
  | freeRegion r =>
    rcases Outcome.bind_eq_ret.mp hret with ⟨⟨t, e⟩, hfree, hs⟩
    cases hs
    rcases freeRegion_cases hfree with rfl | ⟨t, ht, hlen, hcases⟩
    · exact ⟨h, rfl, hzero, fun _ _ hset => hset⟩
    -- the blocks of the region are freed, and block 0 is taken back if it was among them
    rcases freeBlocksFrom_spec h hmade with ⟨hcount, hmax, hkeep⟩
    rw [← ht] at hcount hmax hkeep
    have hset : ∀ b, PhysCall.Frees b (.freeRegion r) = false → mmapTest s b = true →
        mmapTest t b = true := by
      intro b hout hb
      rw [hkeep b ?_, hb]
      simp only [PhysCall.Frees, Bool.and_eq_false_iff, decide_eq_false_iff_not] at hout
      omega
    rcases hcases with ⟨hfree0, rfl⟩ | ⟨hset0, rfl⟩
    · have hpos : 0 < t.mmngrMaxBlocks := by
        rw [hmax]
        exact hlen.trans_le ((Nat.le_add_left _ _).trans hmade)
      refine ⟨hcount.take hpos hfree0, hmax, ?_, ?_⟩
      · intro _
        rw [mmapTest_take]
        simp
      · intro b hout hb
        rw [mmapTest_take, hset b hout hb, Bool.or_true]
    · exact ⟨hcount, hmax, fun _ => hset0, hset⟩
  | reserveRegion r =>
    rcases Outcome.bind_eq_ret.mp hret with ⟨⟨t, e⟩, hres, hs⟩
    cases hs
    rcases reserveRegion_cases hres with rfl | rfl
    · exact ⟨h, rfl, hzero, fun _ _ hset => hset⟩
    -- a reservation sets marks and clears none
    rcases reserveBlocksFrom_spec h hmade with ⟨hcount, hmax, hkeep⟩
    exact ⟨hcount, hmax, fun hpos => hkeep 0 (hzero hpos), fun b _ hb => hkeep b hb⟩
  | allocBlock =>
    cases hret
    rcases allocBlock_spec h.small (Prod.eta _).symm with ⟨-, heq⟩ | ⟨b, -, -, hlt, hfree, heq⟩
    · rw [heq]
      exact ⟨h, rfl, hzero, fun _ _ hset => hset⟩
    · rw [heq]
      refine ⟨h.take hlt hfree, take_max, ?_, ?_⟩
      · intro hpos
        rw [mmapTest_take, hzero hpos, Bool.or_true]
      · intro c _ hc
        rw [mmapTest_take, hc, Bool.or_true]
  | freeBlock block =>
    cases hret
    rcases hmade with ⟨-, hpos, hlt⟩
    refine ⟨h.freeBlock hlt, freeBlock_max, ?_, ?_⟩
    · intro hmpos
      have hne : (0 : Nat) ≠ block / pmmngrBlockSize := by omega
      rw [mmapTest_freeBlock, hzero hmpos]
      simp [hne]
    · intro b hout hb
      have hne : b ≠ block / pmmngrBlockSize := by
        simpa [PhysCall.Frees] using hout
      rw [mmapTest_freeBlock, hb]
      simp [hne]

/-- Every call keeps the invariant. -/
theorem FramesInv.exec (h : FramesInv c) {call : PhysCall} (hmade : call.Made c.phys)
    (hret : call.exec c.phys = .ret c'.phys)
    (hout : c'.handedOut = call.handedOut c.phys c'.phys c.handedOut) : FramesInv c' := by
  rcases exec_spec h.toCounted hmade h.zero hret with ⟨hcount, hmax, hzero, hkeep⟩
  refine ⟨hcount, by rwa [hmax], ?_⟩
  rw [hout]
  cases call with
  | allocBlock =>
    have hphys : (pmmngrAllocBlock c.phys).1 = c'.phys := by
      injection hret
    intro b hb
    unfold PhysCall.handedOut at hb
    rcases allocBlock_spec h.small (Prod.eta (pmmngrAllocBlock c.phys)).symm with
      ⟨hfail, -⟩ | ⟨f, haddr, hf, -, -, hstate⟩
    · -- nothing was handed out
      rw [if_pos hfail] at hb
      exact hkeep b rfl (h.taken b hb)
    · have hne : (pmmngrAllocBlock c.phys).2 ≠ 0 := by
        simp only [pmmngrBlockSize] at haddr
        omega
      rw [if_neg hne] at hb
      rcases List.mem_cons.mp hb with heq | hold
      · have hbf : b = f := by
          simp only [pmmngrBlockSize] at haddr heq
          omega
        rw [← hphys, hstate, mmapTest_take, hbf]
        simp
      · exact hkeep b rfl (h.taken b hold)
  | freeRegion r => exact taken_of_kept h.taken hkeep
  | reserveRegion r => exact taken_of_kept h.taken hkeep
  | freeBlock block => exact taken_of_kept h.taken hkeep

/-- `pmmngr_init` marks the blocks of whole bytes; the other bits are as the memory has them. -/
theorem mmapTest_init {size b : Nat} {words : Nat → BitVec 32} :
    mmapTest (pmmngrInit size words) b =
      (bit words b || decide (b < 8 * ((pmmngrInit size words).mmngrMaxBlocks / 8))) := by
  rw [mmapTest_eq]
  unfold pmmngrInit bit memsetFF
  dsimp only
  generalize mul32 size 1024 / pmmngrBlockSize / 8 = count
  have hlt : b % 32 < 32 := Nat.mod_lt b (by decide)
  rw [BitVec.getLsbD_or, BitVec.getLsbD_ushiftRight, BitVec.getLsbD_allOnes]
  congr 1
  exact decide_eq_decide.mpr (by omega)

/-- The bytes of the bitmap are all in use when the blocks fill them. -/
theorem pmmngrInit_full {size : Nat} {words : Nat → BitVec 32}
    (hmul : (pmmngrInit size words).mmngrMaxBlocks % 8 = 0) {b : Nat}
    (hb : b < (pmmngrInit size words).mmngrMaxBlocks) :
    mmapTest (pmmngrInit size words) b = true := by
  rw [mmapTest_init, decide_eq_true (by omega), Bool.or_true]

/-- The counter of `pmmngr_init` is right when every block is marked. -/
theorem Counted.init {size : Nat} {words : Nat → BitVec 32}
    (hfull : ∀ b, b < (pmmngrInit size words).mmngrMaxBlocks →
      mmapTest (pmmngrInit size words) b = true) : Counted (pmmngrInit size words) := by
  have hlt := mul32_lt size 1024
  apply counted_iff.mpr
  constructor
  · rw [card_ones_full]
    · rfl
    · intro b hb
      rw [← mmapTest_eq]
      exact hfull b hb
  · unfold pmmngrInit
    simp only [pmmngrBlockSize]
    omega

/-- The invariant holds after `pmmngr_init`. -/
theorem FramesInv.init {size : Nat} {words : Nat → BitVec 32} (hsize : size < 4194304)
    (hmul : size * 1024 / pmmngrBlockSize % 32 = 0) (hphys : c.phys = pmmngrInit size words)
    (hout : c.handedOut = []) : FramesInv c := by
  have hmax : (pmmngrInit size words).mmngrMaxBlocks = size * 1024 / pmmngrBlockSize := by
    unfold pmmngrInit
    dsimp only
    rw [mul32_eq (by omega)]
  have hfull : ∀ b, b < (pmmngrInit size words).mmngrMaxBlocks →
      mmapTest (pmmngrInit size words) b = true :=
    fun b hb => pmmngrInit_full (by omega) hb
  constructor
  · rw [hphys]
    exact .init hfull
  · rw [hphys]
    exact hfull 0
  · rw [hout]
    intro b hb
    cases hb

theorem framesInv_inductive {size : Nat} {words : Nat → BitVec 32} (hsize : size < 4194304)
    (hmul : size * 1024 / pmmngrBlockSize % 32 = 0) :
    (physSystem size words).Inductive FramesInv where
  init := by
    intro c ⟨hphys, hout⟩
    exact FramesInv.init hsize hmul hphys hout
  next := by
    intro c c' h ⟨call, hmade, hret, hout⟩
    exact h.exec hmade hret hout

/-- In every run counter and bitmap agree, block 0 is in use, and an allocation returns a
block that was free and is not among those already handed out. -/
theorem frames_counted {size : Nat} {words : Nat → BitVec 32} (hsize : size < 4194304)
    (hmul : size * 1024 / pmmngrBlockSize % 32 = 0) (h : (physSystem size words).Reachable c) :
    c.phys.mmngrUsedBlocks =
        ((Finset.range c.phys.mmngrMaxBlocks).filter fun b => mmapTest c.phys b).card ∧
      (0 < c.phys.mmngrMaxBlocks → mmapTest c.phys 0 = true) ∧
      ∀ s' addr, pmmngrAllocBlock c.phys = (s', addr) → addr ≠ 0 →
        addr % pmmngrBlockSize = 0 ∧ 0 < addr / pmmngrBlockSize ∧
          addr / pmmngrBlockSize < c.phys.mmngrMaxBlocks ∧
          mmapTest c.phys (addr / pmmngrBlockSize) = false ∧
          addr / pmmngrBlockSize ∉ c.handedOut := by
  have hinv : FramesInv c := (framesInv_inductive hsize hmul).holds h
  refine ⟨hinv.used, hinv.zero, ?_⟩
  intro s' addr halloc hne
  rcases allocBlock_spec hinv.small halloc with ⟨hfail, -⟩ | ⟨b, haddr, hpos, hlt, hfree, -⟩
  · exact absurd hfail hne
  have hblock : addr / pmmngrBlockSize = b := by
    simp only [pmmngrBlockSize] at haddr ⊢
    omega
  have halign : addr % pmmngrBlockSize = 0 := by
    simp only [pmmngrBlockSize] at haddr ⊢
    omega
  rw [hblock]
  refine ⟨halign, hpos, hlt, hfree, ?_⟩
  -- a block that is handed out is in use
  intro hmem
  rw [hinv.taken b hmem] at hfree
  cases hfree

/-- 256 KB of memory: the first four blocks are made free, and one of them is taken. -/
theorem frames_counted_four : ∃ c, (physSystem 256 fun _ => 0).Reachable c ∧
    c.handedOut = [1] ∧
    c.phys.mmngrUsedBlocks =
        ((Finset.range c.phys.mmngrMaxBlocks).filter fun b => mmapTest c.phys b).card ∧
    c.phys.mmngrUsedBlocks = 62 := by
  obtain ⟨s, hs, hmax⟩ : ∃ s, PhysCall.exec (pmmngrInit 256 fun _ => 0)
      (.freeRegion ⟨0, 16384⟩) = .ret s ∧ (pmmngrAllocBlock s).2 = 4096 ∧
        (pmmngrAllocBlock s).1.mmngrUsedBlocks = 62 := ⟨_, rfl, by decide, by decide⟩
  have hinit : (physSystem 256 fun _ => 0).Reachable ⟨pmmngrInit 256 fun _ => 0, []⟩ :=
    .init ⟨rfl, rfl⟩
  have hfree : (physSystem 256 fun _ => 0).Reachable ⟨s, []⟩ :=
    .next hinit ⟨.freeRegion ⟨0, 16384⟩, by unfold PhysCall.Made; decide, hs, rfl⟩
  have halloc : (physSystem 256 fun _ => 0).Reachable ⟨(pmmngrAllocBlock s).1, [1]⟩ := by
    refine .next hfree ⟨.allocBlock, trivial, rfl, ?_⟩
    unfold PhysCall.handedOut
    dsimp only
    rw [hmax.1]
    decide
  have hcounted := frames_counted (by decide) (by decide) halloc
  exact ⟨_, halloc, rfl, hcounted.1, hmax.2⟩

end Runs

end MeOS
