import MeOS.PhysBlocks

/-! # Giving a run of blocks back

`pmmngr_free_blocks` looks at the blocks of the run one after the other, but it
clears the bit of the first one each time. The counter goes down by the number of
used blocks in the run. So what `pmmngr_alloc_blocks` took is given back when it
was one block at most, and the counter stays right when no block behind the
first of the run is in use.
-/

namespace MeOS

open Bitmap

/-- The first `n` rounds of the loop of `pmmngr_free_blocks`. -/
def freeBlocksRounds (frame : Nat) : Nat → PhysState → PhysState
  | 0, s => s
  | i + 1, s =>
    let s := freeBlocksRounds frame i s
    if mmapTest s (frame + i) then
      let s := mmapUnset s frame
      { s with mmngrUsedBlocks := sub32 s.mmngrUsedBlocks 1 }
    else s

/-- `pmmngr_free_blocks`. -/
def pmmngrFreeBlocks (s : PhysState) (block size : Nat) : PhysState :=
  let count := ceilDivision size pmmngrBlockSize
  let frame := block / pmmngrBlockSize
  freeBlocksRounds frame count s

/-- The variables are machine words, and the blocks are those of a 32-bit memory. -/
structure PhysWords (s : PhysState) : Prop where
  used : s.mmngrUsedBlocks < 4294967296
  small : s.mmngrMaxBlocks ≤ 1048576

/-- Bitmap and counter are what they were. -/
def Restored (s s' : PhysState) : Prop :=
  s'.mmngrBitmap = s.mmngrBitmap ∧ s'.mmngrUsedBlocks = s.mmngrUsedBlocks

/-- The used blocks among the `n` from `frame` on. -/
def usedIn (s : PhysState) (frame n : Nat) : Finset Nat :=
  (Finset.range n).filter fun i => mmapTest s (frame + i)

/-! ## The loop -/

section Rounds

variable {s : PhysState} {frame n : Nat}

theorem freeBlocksRounds_succ : freeBlocksRounds frame (n + 1) s =
    if mmapTest (freeBlocksRounds frame n s) (frame + n) then (freeBlocksRounds frame n s).give frame
    else freeBlocksRounds frame n s := by
  rw [freeBlocksRounds]
  unfold PhysState.give mmapUnset
  dsimp only

/-- The counter after a round has gone down when the block of the round is in use. -/
theorem card_usedIn_succ (s : PhysState) (frame n : Nat) : (usedIn s frame (n + 1)).card =
    (usedIn s frame n).card + if mmapTest s (frame + n) then 1 else 0 := by
  unfold usedIn
  rw [Finset.range_add_one, Finset.filter_insert]
  by_cases htest : mmapTest s (frame + n) = true
  · rw [if_pos htest, if_pos htest, Finset.card_insert_of_notMem (by simp)]
  · rw [if_neg htest, if_neg htest, Nat.add_zero]

/-- What the rounds have done: the first block is free, the others are as before, and the
counter is down by the used blocks of the run. -/
structure RoundsDone (s : PhysState) (frame n : Nat) (s' : PhysState) : Prop where
  max : s'.mmngrMaxBlocks = s.mmngrMaxBlocks
  test : ∀ c, mmapTest s' c = (!decide (c = frame ∧ 0 < n) && mmapTest s c)
  used : (s'.mmngrUsedBlocks + (usedIn s frame n).card) % 4294967296 = s.mmngrUsedBlocks
  word : s'.mmngrUsedBlocks < 4294967296

theorem RoundsDone.zero (hused : s.mmngrUsedBlocks < 4294967296) : RoundsDone s frame 0 s where
  max := rfl
  test c := by simp
  used := Nat.mod_eq_of_lt hused
  word := hused

/-- One round. Behind the first, the block of the round has not been touched. -/
theorem RoundsDone.succ {s' : PhysState} (h : RoundsDone s frame n s') :
    RoundsDone s frame (n + 1)
      (if mmapTest s' (frame + n) then s'.give frame else s') := by
  have hround : mmapTest s' (frame + n) = mmapTest s (frame + n) := by
    rw [h.test, decide_eq_false (by omega), Bool.not_false, Bool.true_and]
  have hused := h.used
  have hcard := card_usedIn_succ s frame n
  rw [hround]
  by_cases htest : mmapTest s (frame + n) = true
  · rw [if_pos htest]
    rw [if_pos htest] at hcard
    refine ⟨give_max.trans h.max, fun c => ?_, ?_, Nat.mod_lt _ (by decide)⟩
    · rw [mmapTest_give, h.test]
      by_cases hc : c = frame <;> simp [hc]
    · rw [give_used, hcard, sub32]
      omega
  · rw [if_neg htest]
    rw [if_neg htest] at hcard
    refine ⟨h.max, fun c => ?_, by rwa [hcard, Nat.add_zero], h.word⟩
    rw [h.test]
    by_cases hc : c = frame ∧ n = 0
    · -- the first block was free already
      obtain ⟨rfl, rfl⟩ := hc
      have hfree : mmapTest s c = false := by simpa using htest
      rw [hfree, Bool.and_false, Bool.and_false]
    · have hsame : decide (c = frame ∧ 0 < n) = decide (c = frame ∧ 0 < n + 1) :=
        decide_eq_decide.mpr (by omega)
      rw [hsame]

theorem freeBlocksRounds_done (hused : s.mmngrUsedBlocks < 4294967296) :
    RoundsDone s frame n (freeBlocksRounds frame n s) := by
  induction n with
  | zero => exact .zero hused
  | succ n ih =>
    rw [freeBlocksRounds_succ]
    exact ih.succ

theorem usedIn_card_le (s : PhysState) (frame n : Nat) : (usedIn s frame n).card ≤ n :=
  (Finset.card_filter_le _ _).trans (Finset.card_range n).le

theorem usedIn_card_of_all (h : ∀ i < n, mmapTest s (frame + i) = true) :
    (usedIn s frame n).card = n := by
  unfold usedIn
  rw [Finset.filter_true_of_mem fun i hi => h i (Finset.mem_range.mp hi), Finset.card_range]

/-- The used blocks of a run are its first one, if that is used, and no other exactly when
those behind it are free. -/
theorem usedIn_card_iff (hn : 0 < n) :
    (usedIn s frame n).card = (if mmapTest s frame then 1 else 0) ↔
      ∀ c, frame < c → c < frame + n → mmapTest s c = false := by
  have hsplit : (usedIn s frame n).card =
      (usedIn s (frame + 1) (n - 1)).card + if mmapTest s frame then 1 else 0 := by
    obtain ⟨k, rfl⟩ : ∃ k, n = k + 1 := ⟨n - 1, by omega⟩
    rw [Nat.add_sub_cancel]
    clear hn
    induction k with
    | zero => simpa [usedIn] using card_usedIn_succ s frame 0
    | succ k ih =>
      rw [card_usedIn_succ, ih, card_usedIn_succ s (frame + 1),
        show frame + 1 + k = frame + (k + 1) by omega]
      omega
  rw [hsplit]
  constructor
  · intro h c h₁ h₂
    have hempty : usedIn s (frame + 1) (n - 1) = ∅ := Finset.card_eq_zero.mp (by omega)
    have hnot := Finset.filter_eq_empty_iff.mp hempty
      (Finset.mem_range.mpr (show c - (frame + 1) < n - 1 by omega))
    rw [show frame + 1 + (c - (frame + 1)) = c by omega] at hnot
    simpa using hnot
  · intro h
    have hempty : usedIn s (frame + 1) (n - 1) = ∅ := by
      refine Finset.filter_eq_empty_iff.mpr fun i hi => ?_
      have hlt := Finset.mem_range.mp hi
      rw [h (frame + 1 + i) (by omega) (by omega)]
      decide
    rw [hempty, Finset.card_empty, Nat.zero_add]

end Rounds

/-! ## What an allocation has taken -/

section Taken

variable {s s' : PhysState} {n start bit b fuel size p : Nat}

/-- A run that the inner loop reports is free as far as it has looked, the block behind the
last one of the memory included. -/
theorem freeRunLoop_found (hsmall : s.mmngrMaxBlocks ≤ 1048576) (hstart : start ≤ bit)
    (hshort : bit + 1 < start + n) (hfree : ∀ c, start ≤ c → c ≤ bit → mmapTest s c = false)
    (hret : freeRunLoop fuel s n start bit = .ret (.found b)) :
    b = start ∧ start + n ≤ s.mmngrMaxBlocks + 1 ∧
      ∀ c, start ≤ c → c < start + n → mmapTest s c = false := by
  induction fuel generalizing bit with
  | zero => cases hret
  | succ k ih =>
    rw [freeRunLoop] at hret
    by_cases hbit : bit < s.mmngrMaxBlocks
    swap
    · rw [if_neg hbit] at hret
      cases hret
    have hadd : add32 bit 1 = bit + 1 := add32_eq (by omega)
    have hlen : add32 (sub32 (bit + 1) start) 1 = bit + 2 - start := by
      rw [sub32_eq (by omega) (by omega), add32_eq (by omega)]
      omega
    rw [if_pos hbit] at hret
    simp only [hadd, hlen] at hret
    by_cases hin : InBitmap s (bit + 1)
    swap
    · rw [if_pos hin] at hret
      cases hret
    rw [if_neg (not_not_intro hin)] at hret
    cases htest : mmapTest s (bit + 1) with
    | true =>
      rw [htest, if_pos rfl] at hret
      cases hret
    | false =>
      rw [htest, if_neg Bool.false_ne_true] at hret
      have hfree' : ∀ c, start ≤ c → c ≤ bit + 1 → mmapTest s c = false := by
        intro c h₁ h₂
        rcases Nat.lt_or_eq_of_le h₂ with h | rfl
        · exact hfree c h₁ (by omega)
        · exact htest
      by_cases hcount : bit + 2 - start = n
      · rw [if_pos hcount] at hret
        cases hret
        exact ⟨rfl, by omega, fun c h₁ h₂ => hfree' c h₁ (by omega)⟩
      · rw [if_neg hcount] at hret
        exact ih (by omega) (by omega) hfree' hret

/-- A run that the scan reports is free. -/
theorem firstFreeLoop_found (hsmall : s.mmngrMaxBlocks ≤ 1048576) (hn : 2 ≤ n)
    (hret : firstFreeLoop fuel s n bit = .ret b) (hb : b ≠ 0) :
    b + n ≤ s.mmngrMaxBlocks + 1 ∧ ∀ c, b ≤ c → c < b + n → mmapTest s c = false := by
  induction fuel generalizing bit with
  | zero => cases hret
  | succ k ih =>
    rw [firstFreeLoop] at hret
    by_cases hbit : bit < s.mmngrMaxBlocks
    swap
    · rw [if_neg hbit] at hret
      cases hret
      exact absurd rfl hb
    rw [if_pos hbit] at hret
    by_cases hin : InBitmap s bit
    swap
    · rw [if_pos hin] at hret
      cases hret
    rw [if_neg (not_not_intro hin)] at hret
    by_cases hfull : s.mmngrBitmap (bit / 32) = 0xFFFFFFFF#32
    · rw [if_pos hfull] at hret
      exact ih hret
    rw [if_neg hfull] at hret
    cases htest : mmapTest s bit with
    | true =>
      rw [htest, if_neg (Bool.true_eq_false.mp)] at hret
      exact ih hret
    | false =>
      rw [htest, if_pos rfl] at hret
      have hone : ∀ c, bit ≤ c → c ≤ bit → mmapTest s c = false := by
        intro c h₁ h₂
        rw [Nat.le_antisymm h₂ h₁]
        exact htest
      cases hinner : freeRunLoop k s n bit bit with
      | ret e =>
        rw [hinner] at hret
        cases e with
        | found startBit =>
          cases hret
          obtain ⟨rfl, hend, hrun⟩ :=
            freeRunLoop_found hsmall (le_refl bit) (by omega) hone hinner
          exact ⟨hend, hrun⟩
        | stopped e => exact ih hret
      | panic =>
        rw [hinner] at hret
        cases hret
      | undefined =>
        rw [hinner] at hret
        cases hret
      | running =>
        rw [hinner] at hret
        cases hret

/-- An allocation that returns an address has marked and counted a run of free blocks. -/
theorem allocBlocks_taken (hs : PhysWords s) (hn : ceilDivision size pmmngrBlockSize = n)
    (hpos : 0 < n) (hret : pmmngrAllocBlocks fuel s size = .ret (s', p)) (hp : p ≠ 0) :
    p / pmmngrBlockSize + n ≤ s.mmngrMaxBlocks + 1 ∧
      (∀ c, p / pmmngrBlockSize ≤ c → c < p / pmmngrBlockSize + n → mmapTest s c = false) ∧
      s' = { mmapSetFrom n (p / pmmngrBlockSize) s with
        mmngrUsedBlocks := add32 s.mmngrUsedBlocks n } := by
  have hsmall := hs.small
  simp only [pmmngrAllocBlocks, hn] at hret
  by_cases hfree : pmmngrGetFreeBlockCount s < n
  · rw [if_pos hfree] at hret
    cases hret
    exact absurd rfl hp
  rw [if_neg hfree] at hret
  cases hscan : mmapFirstFreeS fuel s n with
  | ret frame =>
    rw [hscan] at hret
    dsimp only at hret
    by_cases hframe : frame = 0
    · rw [if_pos hframe] at hret
      cases hret
      exact absurd rfl hp
    rw [if_neg hframe] at hret
    obtain ⟨hlt, hend, hrun⟩ : frame < s.mmngrMaxBlocks ∧ frame + n ≤ s.mmngrMaxBlocks + 1 ∧
        ∀ c, frame ≤ c → c < frame + n → mmapTest s c = false := by
      rw [mmapFirstFreeS, if_neg (by omega)] at hscan
      by_cases hone : n = 1
      · -- one block is found by `mmap_first_free`
        rw [if_pos hone] at hscan
        cases hscan
        obtain ⟨hlt, hclear⟩ := mmapFirstFree_spec hframe
        refine ⟨hlt, by omega, fun c h₁ h₂ => ?_⟩
        rw [show c = mmapFirstFree s by omega]
        exact hclear
      · rw [if_neg hone] at hscan
        obtain ⟨hend, hrun⟩ := firstFreeLoop_found hsmall (by omega) hscan hframe
        exact ⟨by omega, hend, hrun⟩
    have hmul : mul32 frame pmmngrBlockSize = frame * pmmngrBlockSize :=
      mul32_eq (by simp only [pmmngrBlockSize]; omega)
    have hused := (mmapSetFrom_spec (s := s) (n := n) (b := frame) (by omega)).2.2.1
    rw [hused, hmul] at hret
    cases hret
    rw [Nat.mul_div_cancel frame (by decide)]
    exact ⟨hend, hrun, rfl⟩
  | panic =>
    rw [hscan] at hret
    cases hret
  | undefined =>
    rw [hscan] at hret
    cases hret
  | running =>
    rw [hscan] at hret
    cases hret

/-- An allocation of no blocks that returns an address has changed nothing. -/
theorem allocBlocks_none (hs : PhysWords s) (hn : ceilDivision size pmmngrBlockSize = 0)
    (hret : pmmngrAllocBlocks fuel s size = .ret (s', p)) : s' = s := by
  have hused : add32 s.mmngrUsedBlocks 0 = s.mmngrUsedBlocks := Nat.mod_eq_of_lt hs.used
  simp only [pmmngrAllocBlocks, hn, mmapFirstFreeS, mmapSetFrom, Nat.not_lt_zero, if_false,
    if_true] at hret
  rw [if_neg (by decide), hused] at hret
  cases hret
  rfl

/-- Giving back what was taken leaves the bits behind the first one set. -/
theorem freeBlocks_restored_iff (hs : PhysWords s) (hsize : size < 4294967296)
    (hret : pmmngrAllocBlocks fuel s size = .ret (s', p)) (hp : p ≠ 0) :
    Restored s (pmmngrFreeBlocks s' p size) ↔ size ≤ 4096 := by
  obtain ⟨n, hn⟩ : ∃ n, ceilDivision size pmmngrBlockSize = n := ⟨_, rfl⟩
  have hblocks := ceilDivision_blocks hsize
  have hsmall := hs.small
  have hword := hs.used
  unfold pmmngrFreeBlocks
  simp only [hn]
  rcases Nat.eq_zero_or_pos n with rfl | hpos
  · rw [allocBlocks_none hs hn hret]
    exact iff_of_true ⟨rfl, rfl⟩ (by omega)
  obtain ⟨hend, hfree, hs'⟩ := allocBlocks_taken hs hn hpos hret hp
  generalize p / pmmngrBlockSize = b at hend hfree hs'
  have htest : ∀ c, mmapTest s' c = (decide (b ≤ c ∧ c < b + n) || mmapTest s c) := by
    rw [hs']
    exact (mmapSetFrom_spec (by omega)).2.2.2
  have hcount : s'.mmngrUsedBlocks = add32 s.mmngrUsedBlocks n := by rw [hs']
  have hdone : RoundsDone s' b n (freeBlocksRounds b n s') :=
    freeBlocksRounds_done (hcount.trans_lt (add32_lt _ _))
  generalize freeBlocksRounds b n s' = t at hdone
  -- every block of the run was counted down
  have hall : ∀ i < n, mmapTest s' (b + i) = true := by
    intro i hi
    rw [htest, decide_eq_true (by omega), Bool.true_or]
  have hused : t.mmngrUsedBlocks = s.mmngrUsedBlocks := by
    have hdown := hdone.used
    have hlt := hdone.word
    rw [usedIn_card_of_all hall, hcount, add32] at hdown
    omega
  constructor
  · intro ⟨hbitmap, _⟩
    by_contra hsize'
    -- the second block of the run is still in use
    have hsecond := hfree (b + 1) (by omega) (by omega)
    rw [mmapTest_eq, ← hbitmap, ← mmapTest_eq, hdone.test, htest,
      decide_eq_false (by omega), decide_eq_true (by omega)] at hsecond
    cases hsecond
  · intro hsize'
    refine ⟨eq_of_bit (by decide) fun c => ?_, hused⟩
    rw [← mmapTest_eq, ← mmapTest_eq, hdone.test, htest]
    by_cases hc : c = b
    · rw [hc, decide_eq_true ⟨rfl, hpos⟩, hfree b (le_refl b) (by omega)]
      rfl
    · rw [decide_eq_false (by omega), decide_eq_false (by omega)]
      rfl

/-- The rounds have cleared the first block and nothing else. -/
theorem RoundsDone.card {t : PhysState} (h : RoundsDone s b n t) (hpos : 0 < n)
    (hb : b < s.mmngrMaxBlocks) :
    (ones t.mmngrBitmap s.mmngrMaxBlocks).card + (if mmapTest s b then 1 else 0) =
      (ones s.mmngrBitmap s.mmngrMaxBlocks).card := by
  have hbitmap : t.mmngrBitmap = clearBit s.mmngrBitmap b := by
    refine eq_of_bit (by decide) fun c => ?_
    rw [← mmapTest_eq, h.test, bit_clearBit (by decide), mmapTest_eq]
    simp only [hpos, and_true]
  rw [hbitmap, mmapTest_eq]
  cases hset : bit s.mmngrBitmap b with
  | true => exact card_ones_clearBit (by decide) hb hset
  | false =>
    have hsame : clearBit s.mmngrBitmap b = s.mmngrBitmap := by
      refine eq_of_bit (by decide) fun c => ?_
      rw [bit_clearBit (by decide)]
      by_cases hc : c = b
      · rw [hc, hset, Bool.and_false]
      · rw [decide_eq_false hc, Bool.not_false, Bool.true_and]
    rw [hsame]
    rfl

/-- The counter follows when the loop meets no used block behind the first one. -/
theorem freeBlocks_counted_iff (h : Counted s) {block : Nat}
    (hend : block / pmmngrBlockSize + ceilDivision size pmmngrBlockSize ≤ s.mmngrMaxBlocks) :
    Counted (pmmngrFreeBlocks s block size) ↔
      ∀ c, block / pmmngrBlockSize < c →
        c < block / pmmngrBlockSize + ceilDivision size pmmngrBlockSize →
        mmapTest s c = false := by
  unfold pmmngrFreeBlocks
  dsimp only
  generalize ceilDivision size pmmngrBlockSize = n at hend ⊢
  generalize block / pmmngrBlockSize = b at hend ⊢
  rcases Nat.eq_zero_or_pos n with rfl | hpos
  · exact iff_of_true h fun c h₁ h₂ => by omega
  obtain ⟨hcount, hsmall⟩ := counted_iff.mp h
  have hle := card_ones_le (m := s.mmngrBitmap) (n := s.mmngrMaxBlocks)
  have hdone : RoundsDone s b n (freeBlocksRounds b n s) := freeBlocksRounds_done (by omega)
  generalize freeBlocksRounds b n s = t at hdone
  have hcard := hdone.card hpos (by omega)
  have hdown := hdone.used
  have hword := hdone.word
  have hrun := usedIn_card_le s b n
  rw [← usedIn_card_iff hpos, counted_iff, hdone.max]
  constructor
  · intro ⟨hused, _⟩
    omega
  · intro hone
    exact ⟨by omega, hsmall⟩

/-- `pmmngr_free_blocks` undoes `pmmngr_alloc_blocks` exactly for one block at most, and leaves
the counter right exactly when no block behind the first of the range is in use. -/
theorem pmmngrFreeBlocks_iff (hs : PhysWords s) (hsize : size < 4294967296) :
    (∀ fuel s' p, pmmngrAllocBlocks fuel s size = .ret (s', p) → p ≠ 0 →
      (Restored s (pmmngrFreeBlocks s' p size) ↔ size ≤ 4096)) ∧
    (Counted s → ∀ block,
      block / pmmngrBlockSize + ceilDivision size pmmngrBlockSize ≤ s.mmngrMaxBlocks →
      (Counted (pmmngrFreeBlocks s block size) ↔
        ∀ c, block / pmmngrBlockSize < c →
          c < block / pmmngrBlockSize + ceilDivision size pmmngrBlockSize →
          mmapTest s c = false)) :=
  ⟨fun _ _ _ hret hp => freeBlocks_restored_iff hs hsize hret hp,
    fun h _ hend => freeBlocks_counted_iff h hend⟩

/-- 32 blocks, of which 1 and 2 are free. -/
def freePair : PhysState where
  mmngrMemorySize := 128
  mmngrUsedBlocks := 30
  mmngrMaxBlocks := 32
  mmngrBitmap _ := 0xFFFFFFF9#32

theorem freePair_counted : Counted freePair := ⟨by decide +kernel, by decide⟩

/-- One block of them is taken and given back. -/
theorem pmmngrFreeBlocks_iff_one : ∃ s', pmmngrAllocBlocks 0 freePair 4096 = .ret (s', 4096) ∧
    Restored freePair (pmmngrFreeBlocks s' 4096 4096) ∧
    Counted (pmmngrFreeBlocks freePair 4096 8192) := by
  have hwords : PhysWords freePair := ⟨by decide, by decide⟩
  obtain ⟨s', hret⟩ : ∃ s', pmmngrAllocBlocks 0 freePair 4096 = .ret (s', 4096) := ⟨_, rfl⟩
  refine ⟨s', hret, ?_, ?_⟩
  · exact ((pmmngrFreeBlocks_iff hwords (by decide)).1 0 s' 4096 hret (by decide)).mpr (by decide)
  · refine ((pmmngrFreeBlocks_iff hwords (by decide)).2 freePair_counted 4096 (by decide)).mpr
      fun c h₁ h₂ => ?_
    have hc : c = 2 := by
      have hceil : ceilDivision 8192 pmmngrBlockSize = 2 := by decide
      simp only [hceil, pmmngrBlockSize] at h₁ h₂
      omega
    rw [hc]
    decide +kernel

/-- Both blocks are taken, and block 2 is not given back. Where blocks 3 and 4 are in use,
giving them back counts both and frees one. -/
theorem pmmngrFreeBlocks_keeps : Counted freePair ∧
    (∃ s', pmmngrAllocBlocks 3 freePair 8192 = .ret (s', 4096) ∧
      ¬ Restored freePair (pmmngrFreeBlocks s' 4096 8192)) ∧
    ¬ Counted (pmmngrFreeBlocks freePair 12288 8192) := by
  refine ⟨freePair_counted, ?_, fun h => ?_⟩
  · obtain ⟨s', hret, hkept⟩ : ∃ s', pmmngrAllocBlocks 3 freePair 8192 = .ret (s', 4096) ∧
        mmapTest (pmmngrFreeBlocks s' 4096 8192) 2 = true := ⟨_, rfl, by decide +kernel⟩
    refine ⟨s', hret, fun ⟨hbitmap, _⟩ => ?_⟩
    have hfree : mmapTest freePair 2 = false := by decide +kernel
    rw [mmapTest_eq, hbitmap, ← mmapTest_eq, hfree] at hkept
    cases hkept
  · have hused := h.used
    revert hused
    decide +kernel

end Taken

end MeOS
