import MeOS.PhysBlocks

/-! # The lowest free block

`mmap_first_free` goes over the whole words of the bitmap, and `pmmngr_init` marks
its whole bytes. When the number of blocks is a multiple of 32 both cover
every block, and `pmmngr_alloc_block` finds the lowest free one in each state the
operations lead to. Otherwise the last blocks can be free and are not found.
-/

namespace MeOS

open Bitmap Runs

/-- `pmmngr_alloc_block` gives the lowest free block when the counter says that there is one, and
does nothing otherwise. -/
structure AllocsLowest (s : PhysState) : Prop where
  found : 0 < pmmngrGetFreeBlockCount s →
    ∃ b, IsLeast {c | c < s.mmngrMaxBlocks ∧ mmapTest s c = false} b ∧
      (pmmngrAllocBlock s).2 = b * pmmngrBlockSize
  none : pmmngrGetFreeBlockCount s = 0 → pmmngrAllocBlock s = (s, 0)

/-- The call stays inside the memory; block 0 may be freed as well. -/
def PhysCall.Inside (s : PhysState) : PhysCall → Prop
  | .freeRegion r => r.base / pmmngrBlockSize + r.length / pmmngrBlockSize ≤ s.mmngrMaxBlocks
  | .reserveRegion r => r.base / pmmngrBlockSize + r.length / pmmngrBlockSize ≤ s.mmngrMaxBlocks
  | .allocBlock => True
  | .freeBlock block => block / pmmngrBlockSize < s.mmngrMaxBlocks

/-- The runs of region and single-block operations from `pmmngr_init(size, ..)`. -/
def blockSystem (size : Nat) (words : Nat → BitVec 32) : System PhysState where
  Init s := s = pmmngrInit size words
  Next s s' := ∃ call : PhysCall, call.Inside s ∧ call.exec s = .ret s'

/-! ## The scan -/

section Scan

variable {s : PhysState} {b : Nat}

/-- A search over a range stops at the first place that has something. -/
theorem findSome?_range_first {f : Nat → Option Nat} {n i x : Nat} (hi : i < n)
    (hfound : f i = some x) (hnone : ∀ j < i, f j = none) :
    (List.range n).findSome? f = some x := by
  induction n with
  | zero => omega
  | succ n ih =>
    rw [List.range_succ, List.findSome?_append]
    by_cases hin : i < n
    · rw [ih hin, Option.some_or]
    · have hlast : i = n := by omega
      have hbefore : (List.range n).findSome? f = none :=
        List.findSome?_eq_none_iff.mpr fun j hj => hnone j (by
          rw [hlast]
          exact List.mem_range.mp hj)
      rw [hbefore, Option.none_or, ← hlast]
      simp [hfound]

/-- A word whose blocks are all in use is full. -/
theorem fullWord_of_used {w : Nat} (h : ∀ j < 32, mmapTest s (32 * w + j) = true) :
    FullWord s w := by
  show s.mmngrBitmap w = BitVec.allOnes 32
  apply BitVec.eq_of_getLsbD_eq
  intro j hj
  have hbit := h j hj
  rw [mmapTest_eq, bit, show (32 * w + j) / 32 = w by omega,
    show (32 * w + j) % 32 = j by omega] at hbit
  rw [hbit, BitVec.getLsbD_allOnes, decide_eq_true hj]

/-- The inner loop tests the blocks of the word. -/
theorem mask_eq_mmapTest {w j : Nat} (hj : j < 32) :
    (s.mmngrBitmap w &&& 1#32 <<< j == 0#32) = !mmapTest s (32 * w + j) := by
  unfold mmapTest
  rw [show (32 * w + j) / 32 = w by omega, show (32 * w + j) % 32 = j by omega, bne,
    Bool.not_not]

/-- The outer loop passes a word whose blocks are all in use. -/
theorem wordScan_full {w : Nat} (h : ∀ j < 32, mmapTest s (32 * w + j) = true) :
    (if s.mmngrBitmap w ≠ 0xFFFFFFFF#32 then
      (firstClearBit (s.mmngrBitmap w)).map fun j => w * 32 + j else none) = none := by
  have hfull : s.mmngrBitmap w = 0xFFFFFFFF#32 := fullWord_of_used h
  rw [if_neg (not_not_intro hfull)]

/-- The scan gives the lowest free block of the whole words. -/
theorem mmapFirstFree_lowest (hword : b / 32 < s.mmngrMaxBlocks / 32)
    (hfree : mmapTest s b = false) (hlow : ∀ c < b, mmapTest s c = true) :
    mmapFirstFree s = b := by
  have hplace : 32 * (b / 32) + b % 32 = b := Nat.div_add_mod b 32
  have hclear : firstClearBit (s.mmngrBitmap (b / 32)) = some (b % 32) := by
    rw [firstClearBit, List.find?_range_eq_some]
    refine ⟨?_, List.mem_range.mpr (Nat.mod_lt b (by decide)), fun j hj => ?_⟩
    · rw [mask_eq_mmapTest (Nat.mod_lt b (by decide)), hplace, hfree, Bool.not_false]
    · rw [mask_eq_mmapTest (by omega), hlow _ (by omega)]
      rfl
  have hnot : s.mmngrBitmap (b / 32) ≠ 0xFFFFFFFF#32 := fun hfull =>
    FullWord.not_free (s := s) hfull rfl hfree
  rw [mmapFirstFree, findSome?_range_first (i := b / 32) (x := b) hword]
  · rfl
  · rw [if_pos hnot, hclear, Option.map_some]
    congr 1
    omega
  · -- the words in front are full
    exact fun w hw => wordScan_full fun j hj => hlow _ (by omega)

/-- Nothing is found when the whole words are full. -/
theorem mmapFirstFree_full (h : ∀ c < 32 * (s.mmngrMaxBlocks / 32), mmapTest s c = true) :
    mmapFirstFree s = 0 := by
  rw [mmapFirstFree, List.findSome?_eq_none_iff.mpr, Option.getD_none]
  intro w hw
  have hlt := List.mem_range.mp hw
  exact wordScan_full fun j hj => h _ (by omega)

/-- The lowest free block exists when there is a free one. -/
theorem exists_lowest (hb : b < s.mmngrMaxBlocks) (hfree : mmapTest s b = false) :
    ∃ c, IsLeast {c | c < s.mmngrMaxBlocks ∧ mmapTest s c = false} c := by
  have hex : ∃ c, c < s.mmngrMaxBlocks ∧ mmapTest s c = false := ⟨b, hb, hfree⟩
  exact ⟨Nat.find hex, Nat.find_spec hex, fun c hc => Nat.find_min' hex hc⟩

end Scan

/-! ## Allocation -/

section Alloc

variable {s s' : PhysState} {b : Nat}

/-- With whole words, `pmmngr_alloc_block` gives the lowest free block. -/
theorem Counted.allocsLowest (h : Counted s) (hmul : s.mmngrMaxBlocks % 32 = 0) :
    AllocsLowest s where
  found hpos := by
    obtain ⟨c, hc, hfree⟩ := h.exists_free hpos
    obtain ⟨b, hb⟩ := exists_lowest hc hfree
    refine ⟨b, hb, ?_⟩
    obtain ⟨⟨hlt, hclear⟩, hleast⟩ := hb
    have hsmall := h.small
    have hlow : ∀ c < b, mmapTest s c = true := by
      intro c hcb
      by_contra hcfree
      have hle := hleast ⟨hcb.trans hlt, Bool.eq_false_iff.mpr hcfree⟩
      omega
    have hscan := mmapFirstFree_lowest (by omega) hclear hlow
    rw [pmmngrAllocBlock, if_neg (by omega), hscan]
    by_cases hb0 : b = 0
    · rw [if_pos hb0, hb0, Nat.zero_mul]
    · rw [if_neg hb0, mul32_eq (by simp only [pmmngrBlockSize]; omega)]
  none hzero := by
    rw [pmmngrAllocBlock, if_pos (by omega)]

/-- Counter and bitmap agree after every call inside the memory. -/
theorem PhysCall.exec_counted {call : PhysCall} (h : Counted s) (hin : call.Inside s)
    (hret : call.exec s = .ret s') : Counted s' ∧ s'.mmngrMaxBlocks = s.mmngrMaxBlocks := by
  cases call with
  | freeRegion r =>
    rcases Outcome.bind_eq_ret.mp hret with ⟨⟨t, e⟩, hfree, hs⟩
    cases hs
    rcases freeRegion_cases hfree with rfl | ⟨t, ht, hlen, hcases⟩
    · exact ⟨h, rfl⟩
    obtain ⟨hcount, hmax, _⟩ := freeBlocksFrom_spec h hin
    rw [← ht] at hcount hmax
    rcases hcases with ⟨hfree0, rfl⟩ | ⟨_, rfl⟩
    · -- block 0 was in the region and is taken back
      have hpos : 0 < t.mmngrMaxBlocks := by
        rw [hmax]
        exact hlen.trans_le ((Nat.le_add_left _ _).trans hin)
      exact ⟨hcount.take hpos hfree0, hmax⟩
    · exact ⟨hcount, hmax⟩
  | reserveRegion r =>
    rcases Outcome.bind_eq_ret.mp hret with ⟨⟨t, e⟩, hres, hs⟩
    cases hs
    rcases reserveRegion_cases hres with rfl | rfl
    · exact ⟨h, rfl⟩
    obtain ⟨hcount, hmax, _⟩ := reserveBlocksFrom_spec h hin
    exact ⟨hcount, hmax⟩
  | allocBlock =>
    cases hret
    rcases allocBlock_spec h.small (Prod.eta _).symm with ⟨_, heq⟩ | ⟨b, _, _, hlt, hfree, heq⟩
    · rw [heq]
      exact ⟨h, rfl⟩
    · rw [heq]
      exact ⟨h.take hlt hfree, take_max⟩
  | freeBlock block =>
    cases hret
    exact ⟨h.freeBlock hin, freeBlock_max⟩

/-- What the runs keep. -/
structure BlocksInv (n : Nat) (s : PhysState) : Prop extends Counted s where
  max : s.mmngrMaxBlocks = n

theorem blocksInv_inductive {size : Nat} {words : Nat → BitVec 32}
    (hmul : (pmmngrInit size words).mmngrMaxBlocks % 8 = 0) :
    (blockSystem size words).Inductive (BlocksInv (pmmngrInit size words).mmngrMaxBlocks) where
  init := by
    intro s hs
    rw [hs]
    exact ⟨.init fun b hb => pmmngrInit_full hmul hb, rfl⟩
  next := by
    intro s s' h ⟨call, hin, hret⟩
    obtain ⟨hcount, hmax⟩ := call.exec_counted h.toCounted hin hret
    exact ⟨hcount, hmax.trans h.max⟩

/-- A block behind the whole words that is the only free one is not found. -/
theorem not_allocsLowest (h : Counted s) (hb : b < s.mmngrMaxBlocks) (hpos : 0 < b)
    (hword : 32 * (s.mmngrMaxBlocks / 32) ≤ b) (hfree : mmapTest s b = false)
    (hused : ∀ c < s.mmngrMaxBlocks, c ≠ b → mmapTest s c = true) : ¬ AllocsLowest s := by
  intro hlowest
  have hrun : FreeRun s 1 b := by
    refine ⟨by omega, fun c h₁ h₂ => ?_⟩
    rw [show c = b by omega]
    exact hfree
  have hcount := h.le_free hrun
  obtain ⟨c, ⟨⟨hc, hcfree⟩, _⟩, haddr⟩ := hlowest.found (by omega)
  have hcb : c = b := by
    by_contra hne
    rw [hused c hc hne] at hcfree
    cases hcfree
  have hscan : mmapFirstFree s = 0 := mmapFirstFree_full fun c hc => hused c (by omega) (by omega)
  rw [pmmngrAllocBlock, if_neg (by omega), if_pos hscan] at haddr
  simp only [pmmngrBlockSize] at haddr
  omega

/-- From `pmmngr_init` the last block can be made the only free one. -/
theorem exists_last_free {size : Nat} (words : Nat → BitVec 32)
    (hbytes : (pmmngrInit size words).mmngrMaxBlocks % 8 = 0)
    (hmul : (pmmngrInit size words).mmngrMaxBlocks % 32 ≠ 0) :
    ∃ s, (blockSystem size words).Reachable s ∧ ¬ AllocsLowest s := by
  obtain ⟨n, hn⟩ : ∃ n, (pmmngrInit size words).mmngrMaxBlocks = n + 1 :=
    ⟨(pmmngrInit size words).mmngrMaxBlocks - 1, by omega⟩
  have hfull : ∀ b, b < (pmmngrInit size words).mmngrMaxBlocks →
      mmapTest (pmmngrInit size words) b = true := fun b hb => pmmngrInit_full hbytes hb
  have hblock : n * pmmngrBlockSize / pmmngrBlockSize = n := Nat.mul_div_cancel n (by decide)
  have hin : PhysCall.Inside (pmmngrInit size words) (.freeBlock (n * pmmngrBlockSize)) := by
    unfold PhysCall.Inside
    dsimp only
    omega
  have hcounted := (PhysCall.exec_counted (.init hfull) hin rfl).1
  have hmax := (freeBlock_max (s := pmmngrInit size words) (c := n * pmmngrBlockSize)).trans hn
  refine ⟨pmmngrFreeBlock (pmmngrInit size words) (n * pmmngrBlockSize),
    .next (.init rfl) ⟨_, hin, rfl⟩, not_allocsLowest (b := n) hcounted ?_ ?_ ?_ ?_ ?_⟩
  · omega
  · omega
  · omega
  · rw [mmapTest_freeBlock, hblock, decide_eq_true rfl]
    rfl
  · intro c hc hne
    rw [mmapTest_freeBlock, hblock, decide_eq_false hne, hfull c (by omega)]
    rfl

/-- `pmmngr_init` leaves every block in use, and in every run an allocation finds the lowest free
block, whatever the memory held, exactly when the number of blocks is a multiple of 32. -/
theorem allocsLowest_iff (size : Nat) :
    (∀ words : Nat → BitVec 32,
      (∀ b < (pmmngrInit size words).mmngrMaxBlocks, mmapTest (pmmngrInit size words) b = true) ∧
      ∀ s, (blockSystem size words).Reachable s → AllocsLowest s) ↔
    mul32 size 1024 / pmmngrBlockSize % 32 = 0 := by
  constructor
  · intro h
    by_contra hmul
    obtain ⟨hinit, hruns⟩ := h fun _ => 0#32
    have hmax : (pmmngrInit size fun _ => 0#32).mmngrMaxBlocks =
        mul32 size 1024 / pmmngrBlockSize := rfl
    by_cases hbytes : mul32 size 1024 / pmmngrBlockSize % 8 = 0
    · obtain ⟨s, hreach, hnot⟩ := exists_last_free (fun _ => 0#32) hbytes hmul
      exact hnot (hruns s hreach)
    · -- the blocks behind the whole bytes are free from the start
      have hlast := hinit (mul32 size 1024 / pmmngrBlockSize - 1) (by omega)
      rw [mmapTest_init, hmax, decide_eq_false (by omega)] at hlast
      simp [bit] at hlast
  · intro hmul words
    have hbytes : (pmmngrInit size words).mmngrMaxBlocks % 8 = 0 := by
      show mul32 size 1024 / pmmngrBlockSize % 8 = 0
      omega
    refine ⟨fun b hb => pmmngrInit_full hbytes hb, fun s hreach => ?_⟩
    have hinv := (blocksInv_inductive hbytes).holds hreach
    exact hinv.toCounted.allocsLowest (hinv.max.symm ▸ hmul)

/-- With 33 blocks the last one is free from the start, and with 40 blocks the last one is
not found when it is free. -/
theorem lowest_not_found :
    mmapTest (pmmngrInit 132 fun _ => 0) 32 = false ∧
      ∃ s, (blockSystem 160 fun _ => 0).Reachable s ∧ pmmngrGetFreeBlockCount s = 1 ∧
        mmapTest s 39 = false ∧ (pmmngrAllocBlock s).2 = 0 ∧ ¬ AllocsLowest s := by
  refine ⟨by decide +kernel, pmmngrFreeBlock (pmmngrInit 160 fun _ => 0) 159744, ?_, ?_⟩
  · exact .next (.init rfl) ⟨.freeBlock 159744, by unfold PhysCall.Inside; decide, rfl⟩
  have hfree : mmapTest (pmmngrFreeBlock (pmmngrInit 160 fun _ => 0) 159744) 39 = false := by
    decide +kernel
  have haddr : (pmmngrAllocBlock (pmmngrFreeBlock (pmmngrInit 160 fun _ => 0) 159744)).2 = 0 := by
    decide +kernel
  have hcount :
      pmmngrGetFreeBlockCount (pmmngrFreeBlock (pmmngrInit 160 fun _ => 0) 159744) = 1 := by
    decide +kernel
  have hzero : mmapTest (pmmngrFreeBlock (pmmngrInit 160 fun _ => 0) 159744) 0 = true := by
    decide +kernel
  refine ⟨hcount, hfree, haddr, fun h => ?_⟩
  obtain ⟨b, ⟨⟨_, hbfree⟩, _⟩, hb⟩ := h.found (by omega)
  rw [haddr] at hb
  simp only [pmmngrBlockSize] at hb
  have hb0 : b = 0 := by omega
  rw [hb0, hzero] at hbfree
  cases hbfree

end Alloc

end MeOS
