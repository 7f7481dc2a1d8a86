import MeOS.MmngrPhys

/-! # Runs of frames

`pmmngr_alloc_blocks` looks for `count` free blocks in a row. The scan goes over
full words in strides of 32 and through free blocks one at a time, and it does
not always come back to the start of a word: after a free stretch that ends at
a full word it stands at the second block of that word, and strides from there
pass over the first block of the word they arrive at. Such blocks are `Skipped`;
the scan is exact on all others, as long as it does not run out of the bitmap.
-/

namespace MeOS

open Bitmap

/-- How the inner loop of `mmap_first_free_s` ends. -/
inductive RunEnd where
  | found (startBit : Nat)
  | stopped (bit : Nat)
deriving Repr, DecidableEq

/-- `mmap_test` and the other reads of the bitmap stay inside the array. -/
def InBitmap (s : PhysState) (bit : Nat) : Prop := bit / 32 < (s.mmngrMaxBlocks + 31) / 32

instance (s : PhysState) (bit : Nat) : Decidable (InBitmap s bit) :=
  inferInstanceAs (Decidable (bit / 32 < (s.mmngrMaxBlocks + 31) / 32))

/-- The inner loop of `mmap_first_free_s`: go on while blocks are free. -/
def freeRunLoop (fuel : Nat) (s : PhysState) (count startBit bit : Nat) : Outcome RunEnd :=
  match fuel with
  | 0 => .running
  | fuel + 1 =>
    if bit < s.mmngrMaxBlocks then
      let bit := add32 bit 1
      -- the block behind the last one is tested as well
      if ¬ InBitmap s bit then .undefined
      else if mmapTest s bit then .ret (.stopped bit)
      else if add32 (sub32 bit startBit) 1 = count then .ret (.found startBit)
      else freeRunLoop fuel s count startBit bit
    else .ret (.stopped bit)

/-- The outer loop of `mmap_first_free_s`. -/
def firstFreeLoop (fuel : Nat) (s : PhysState) (count bit : Nat) : Outcome Nat :=
  match fuel with
  | 0 => .running
  | fuel + 1 =>
    if bit < s.mmngrMaxBlocks then
      if ¬ InBitmap s bit then .undefined
      else if s.mmngrBitmap (bit / 32) = 0xFFFFFFFF#32 then
        firstFreeLoop fuel s count (add32 bit 32)
      else if mmapTest s bit = false then
        match freeRunLoop fuel s count bit bit with
        | .ret (.found startBit) => .ret startBit
        | .ret (.stopped bit) => firstFreeLoop fuel s count (add32 bit 1)
        | .panic => .panic
        | .undefined => .undefined
        | .running => .running
      else firstFreeLoop fuel s count (add32 bit 1)
    else .ret 0

/-- `mmap_first_free_s`. -/
def mmapFirstFreeS (fuel : Nat) (s : PhysState) (count : Nat) : Outcome Nat :=
  if count = 0 then .ret 4294967295
  else if count = 1 then .ret (mmapFirstFree s)
  else firstFreeLoop fuel s count 0

/-- The loop of `pmmngr_alloc_blocks`: mark `n` blocks from `frame` on. -/
def mmapSetFrom : Nat → Nat → PhysState → PhysState
  | 0, _, s => s
  | n + 1, frame, s => mmapSetFrom n (add32 frame 1) (mmapSet s frame)

/-- `pmmngr_alloc_blocks`; 0 when there is no run. -/
def pmmngrAllocBlocks (fuel : Nat) (s : PhysState) (size : Nat) : Outcome (PhysState × Nat) :=
  let count := ceilDivision size pmmngrBlockSize
  if pmmngrGetFreeBlockCount s < count then .ret (s, 0)
  else
    match mmapFirstFreeS fuel s count with
    | .ret frame =>
      if frame = 0 then .ret (s, 0)
      else
        let s := mmapSetFrom count frame s
        .ret ({ s with mmngrUsedBlocks := add32 s.mmngrUsedBlocks count },
          mul32 frame pmmngrBlockSize)
    | .panic => .panic
    | .undefined => .undefined
    | .running => .running

/-! ## Runs and full words -/

/-- The `n` blocks from `b` on are in memory and free. -/
def FreeRun (s : PhysState) (n b : Nat) : Prop :=
  b + n ≤ s.mmngrMaxBlocks ∧ ∀ c, b ≤ c → c < b + n → mmapTest s c = false

/-- Word `w` of the bitmap is full. -/
def FullWord (s : PhysState) (w : Nat) : Prop := s.mmngrBitmap w = 0xFFFFFFFF#32

instance (s : PhysState) (w : Nat) : Decidable (FullWord s w) :=
  inferInstanceAs (Decidable (s.mmngrBitmap w = 0xFFFFFFFF#32))

/-- The words from `w` to before `v` are full, and the block in front of them is free. -/
def FreeThenFull (s : PhysState) (v w : Nat) : Prop :=
  0 < w ∧ mmapTest s (32 * w - 1) = false ∧ ∀ u, w ≤ u → u < v → FullWord s u

/-- The scan does not look at block `b`: it starts a word behind full words that
a free block is in front of. -/
def Skipped (s : PhysState) (b : Nat) : Prop :=
  b % 32 = 0 ∧ ∃ w, w < b / 32 ∧ FreeThenFull s (b / 32) w

section Words

variable {s : PhysState} {b w v n : Nat}

/-- The blocks of a full word are used. -/
theorem FullWord.used (h : FullWord s w) (hb : b / 32 = w) : mmapTest s b = true := by
  have hlt : b % 32 < 32 := Nat.mod_lt b (by decide)
  have hones : (0xFFFFFFFF#32 : BitVec 32) = BitVec.allOnes 32 := by decide
  rw [mmapTest_eq, bit, hb, h, hones, BitVec.getLsbD_allOnes]
  simpa using hlt

theorem FullWord.not_free (h : FullWord s w) (hb : b / 32 = w) (hfree : mmapTest s b = false) :
    False := by
  rw [h.used hb] at hfree
  cases hfree

/-- One full word more. -/
theorem FreeThenFull.succ (h : FreeThenFull s v w) (hfull : FullWord s v) :
    FreeThenFull s (v + 1) w := by
  obtain ⟨hpos, hfree, hall⟩ := h
  refine ⟨hpos, hfree, fun u h₁ h₂ => ?_⟩
  rcases Nat.lt_succ_iff_lt_or_eq.mp h₂ with hlt | rfl
  · exact hall u h₁ hlt
  · exact hfull

/-- One full word less. -/
theorem FreeThenFull.pred (h : FreeThenFull s (v + 1) w) : FreeThenFull s v w := by
  obtain ⟨hpos, hfree, hall⟩ := h
  exact ⟨hpos, hfree, fun u h₁ h₂ => hall u h₁ (by omega)⟩

/-- A run that does not start at `b` does not start at a used block. -/
theorem FreeRun.first_free (h : FreeRun s n b) (hn : 0 < n) : mmapTest s b = false :=
  h.2 b (le_refl b) (by omega)

end Words

/-! ## The inner loop -/

section Inner

variable {s : PhysState} {n start bit fuel : Nat}

/-- What the inner loop has found out about the blocks from `start` on. -/
inductive RunResult (s : PhysState) (n start : Nat) : Outcome RunEnd → Prop where
  | found (h : FreeRun s n start) : RunResult s n start (.ret (.found start))
  | stopped {e : Nat} (hlt : start < e) (he : e < s.mmngrMaxBlocks) (hused : mmapTest s e = true)
      (hfree : ∀ c, start ≤ c → c < e → mmapTest s c = false) (hshort : e < start + n) :
      RunResult s n start (.ret (.stopped e))
  | outside (hshort : s.mmngrMaxBlocks < start + n)
      (hfree : ∀ c, start ≤ c → c < s.mmngrMaxBlocks → mmapTest s c = false) :
      RunResult s n start .undefined

/-- The inner loop ends: with a run, at a used block, or behind the bitmap. -/
theorem freeRunLoop_spec (hsmall : s.mmngrMaxBlocks ≤ 1048576) (hmul : s.mmngrMaxBlocks % 32 = 0)
    (hstart : start ≤ bit) (hbit : bit < s.mmngrMaxBlocks) (hshort : bit + 1 < start + n)
    (hfree : ∀ c, start ≤ c → c ≤ bit → mmapTest s c = false)
    (hfuel : s.mmngrMaxBlocks - bit < fuel) :
    RunResult s n start (freeRunLoop fuel s n start bit) := by
  induction fuel generalizing bit with
  | zero => omega
  | succ k ih =>
    have hadd : add32 bit 1 = bit + 1 := add32_eq (by omega)
    have hsub : sub32 (bit + 1) start = bit + 1 - start := sub32_eq (by omega) (by omega)
    have hlen : add32 (bit + 1 - start) 1 = bit + 2 - start := by
      rw [add32_eq (by omega)]
      omega
    rw [freeRunLoop, if_pos hbit]
    simp only [hadd, hsub, hlen]
    by_cases hin : InBitmap s (bit + 1)
    swap
    · -- the last block was free, and the one behind it is not in the bitmap
      rw [if_pos hin]
      have hend : bit + 1 = s.mmngrMaxBlocks := by
        simp only [InBitmap] at hin
        omega
      exact .outside (by omega) fun c h₁ h₂ => hfree c h₁ (by omega)
    have hlt : bit + 1 < s.mmngrMaxBlocks := by
      simp only [InBitmap] at hin
      omega
    rw [if_neg (not_not_intro hin)]
    cases htest : mmapTest s (bit + 1) with
    | true =>
      simp only [if_true]
      exact .stopped (by omega) hlt htest (fun c h₁ h₂ => hfree c h₁ (by omega)) hshort
    | false =>
      have hfree' : ∀ c, start ≤ c → c ≤ bit + 1 → mmapTest s c = false := by
        intro c h₁ h₂
        rcases Nat.lt_or_eq_of_le h₂ with h | rfl
        · exact hfree c h₁ (by omega)
        · exact htest
      simp only [Bool.false_eq_true, if_false]
      by_cases hcount : bit + 2 - start = n
      · rw [if_pos hcount]
        exact .found ⟨by omega, fun c h₁ h₂ => hfree' c h₁ (by omega)⟩
      · rw [if_neg hcount]
        exact ih (by omega) hlt (by omega) hfree' (by omega)

end Inner

/-! ## The outer loop -/

section Outer

variable {s : PhysState} {n bit fuel : Nat}

/-- What holds when the outer loop stands at `bit`: every run behind it is
skipped, and it stands in a full word only at the start, or one block further
if it came out of free blocks. -/
structure ScanInv (s : PhysState) (n bit : Nat) : Prop where
  passed : ∀ b < bit, FreeRun s n b → Skipped s b
  full : FullWord s (bit / 32) →
    bit % 32 = 0 ∨ bit % 32 = 1 ∧ ∃ w ≤ bit / 32, FreeThenFull s (bit / 32) w
  start : bit % 32 = 0 → ∀ w ≤ bit / 32, ¬ FreeThenFull s (bit / 32) w
  last : s.mmngrMaxBlocks ≤ bit → mmapTest s (s.mmngrMaxBlocks - 1) = true

theorem ScanInv.init (hzero : mmapTest s 0 = true) : ScanInv s n 0 where
  passed b hb := by omega
  full _ := Or.inl rfl
  start _ w hw h := by
    have hpos := h.1
    omega
  last hmax := by
    rw [show s.mmngrMaxBlocks - 1 = 0 by omega]
    exact hzero

/-- A full word is passed in a stride of 32. -/
theorem ScanInv.stride (h : ScanInv s n bit) (hmul : s.mmngrMaxBlocks % 32 = 0) (hn : 0 < n)
    (hbit : bit < s.mmngrMaxBlocks) (hfull : FullWord s (bit / 32)) : ScanInv s n (bit + 32) := by
  have hdiv : (bit + 32) / 32 = bit / 32 + 1 := by omega
  refine ⟨fun b hb hrun => ?_, fun hnext => ?_, fun hmod w hw hw' => ?_, fun hmax => ?_⟩
  · by_cases hlt : b < bit
    · exact h.passed b hlt hrun
    -- no block of the full word starts a run, so `b` is in the next word
    have hword : b / 32 ≠ bit / 32 := fun heq => hfull.not_free heq (hrun.first_free hn)
    rcases h.full hfull with hmod | ⟨hmod, w, hw, hctx⟩
    · omega
    · have hb32 : b % 32 = 0 ∧ b / 32 = bit / 32 + 1 := by omega
      refine ⟨hb32.1, w, by omega, ?_⟩
      rw [hb32.2]
      exact hctx.succ hfull
  · rcases h.full hfull with hmod | ⟨hmod, w, hw, hctx⟩
    · exact Or.inl (by omega)
    · refine Or.inr ⟨by omega, w, by omega, ?_⟩
      rw [hdiv]
      exact hctx.succ hfull
  · rw [hdiv] at hw hw'
    rcases Nat.lt_or_eq_of_le hw with hlt | rfl
    · exact h.start (by omega) w (by omega) hw'.pred
    · -- the block in front is in the full word
      exact hfull.not_free (b := 32 * (bit / 32 + 1) - 1) (by omega) hw'.2.1
  · exact hfull.used (by omega)

/-- A used block of a word that is not full is passed. -/
theorem ScanInv.step (h : ScanInv s n bit) (hn : 0 < n) (hbit : bit < s.mmngrMaxBlocks)
    (hnot : ¬ FullWord s (bit / 32)) (hused : mmapTest s bit = true) : ScanInv s n (bit + 1) := by
  refine ⟨fun b hb hrun => ?_, fun hfull => ?_, fun hmod w hw hctx => ?_, fun hmax => ?_⟩
  · by_cases hlt : b < bit
    · exact h.passed b hlt hrun
    · obtain rfl : b = bit := by omega
      have hfree := hrun.first_free hn
      rw [hused] at hfree
      cases hfree
  · refine Or.inl ?_
    by_contra hmod
    have hword : (bit + 1) / 32 = bit / 32 := by omega
    exact hnot (hword ▸ hfull)
  · obtain ⟨hpos, hfree, hall⟩ := hctx
    by_cases hweq : w = (bit + 1) / 32
    · have hprev : 32 * w - 1 = bit := by omega
      rw [hprev, hused] at hfree
      cases hfree
    · exact hnot (hall (bit / 32) (by omega) (by omega))
  · rw [show s.mmngrMaxBlocks - 1 = bit by omega]
    exact hused

/-- The inner loop has gone over free blocks up to the used block `e`. -/
theorem ScanInv.stopped {e : Nat} (h : ScanInv s n bit) (hlt : bit < e) (he : e < s.mmngrMaxBlocks)
    (hused : mmapTest s e = true) (hfree : ∀ c, bit ≤ c → c < e → mmapTest s c = false)
    (hshort : e < bit + n) : ScanInv s n (e + 1) := by
  have hprev : mmapTest s (e - 1) = false := hfree (e - 1) (by omega) (by omega)
  -- the block before `e` is free, so a full word that contains `e` starts with it
  have hword : FullWord s (e / 32) → e % 32 = 0 := by
    intro hfull
    by_contra hmod
    exact hfull.not_free (b := e - 1) (by omega) hprev
  refine ⟨fun b hb hrun => ?_, fun hfull => ?_, fun hmod w hw hctx => ?_, fun hmax => ?_⟩
  · by_cases hbb : b < bit
    · exact h.passed b hbb hrun
    · -- a run from here on would contain `e`
      have hclear := hrun.2 e (by omega) (by omega)
      rw [hused] at hclear
      cases hclear
  · by_cases hmod : (e + 1) % 32 = 0
    · exact Or.inl hmod
    · have hdiv : (e + 1) / 32 = e / 32 := by omega
      rw [hdiv] at hfull
      have hstart := hword hfull
      refine Or.inr ⟨by omega, e / 32, by omega, by omega, ?_, fun u h₁ h₂ => by omega⟩
      rw [show 32 * (e / 32) - 1 = e - 1 by omega]
      exact hprev
  · obtain ⟨hpos, hclear, hall⟩ := hctx
    by_cases hweq : w = (e + 1) / 32
    · rw [show 32 * w - 1 = e by omega, hused] at hclear
      cases hclear
    · have hstart := hword (hall (e / 32) (by omega) (by omega))
      omega
  · rw [show s.mmngrMaxBlocks - 1 = e by omega]
    exact hused

/-- What the scan of the bitmap gives. -/
inductive ScanResult (s : PhysState) (n : Nat) : Outcome Nat → Prop where
  | found {b : Nat} (hrun : FreeRun s n b) (hseen : ¬ Skipped s b)
      (hfirst : ∀ c < b, FreeRun s n c → Skipped s c) : ScanResult s n (.ret b)
  | none (hall : ∀ b, FreeRun s n b → Skipped s b)
      (hlast : mmapTest s (s.mmngrMaxBlocks - 1) = true) : ScanResult s n (.ret 0)
  | outside (hall : ∀ b, FreeRun s n b → Skipped s b)
      (hlast : mmapTest s (s.mmngrMaxBlocks - 1) = false) : ScanResult s n .undefined

/-- The scan ends: at the first run it does not skip, behind the last block, or,
when the last block is free, with a read behind the bitmap. -/
theorem firstFreeLoop_spec (hsmall : s.mmngrMaxBlocks ≤ 1048576) (hmul : s.mmngrMaxBlocks % 32 = 0)
    (hn : 2 ≤ n) (hinv : ScanInv s n bit) (hfuel : s.mmngrMaxBlocks - bit + 1 < fuel) :
    ScanResult s n (firstFreeLoop fuel s n bit) := by
  induction fuel generalizing bit with
  | zero => omega
  | succ k ih =>
    rw [firstFreeLoop]
    by_cases hbit : bit < s.mmngrMaxBlocks
    swap
    · rw [if_neg hbit]
      refine .none (fun b hrun => hinv.passed b ?_ hrun) (hinv.last (by omega))
      have hend := hrun.1
      omega
    have hin : InBitmap s bit := by
      simp only [InBitmap]
      omega
    rw [if_pos hbit, if_neg (not_not_intro hin)]
    have hadd₃₂ : add32 bit 32 = bit + 32 := add32_eq (by omega)
    have hadd : add32 bit 1 = bit + 1 := add32_eq (by omega)
    by_cases hfull : s.mmngrBitmap (bit / 32) = 0xFFFFFFFF#32
    · rw [if_pos hfull, hadd₃₂]
      exact ih (hinv.stride hmul (by omega) hbit hfull) (by omega)
    rw [if_neg hfull, hadd]
    cases htest : mmapTest s bit with
    | true =>
      simp only [Bool.true_eq_false, if_false]
      exact ih (hinv.step (by omega) hbit hfull htest) (by omega)
    | false =>
      simp only [if_true]
      have hone : ∀ c, bit ≤ c → c ≤ bit → mmapTest s c = false := by
        intro c h₁ h₂
        rw [Nat.le_antisymm h₂ h₁]
        exact htest
      have hinner : RunResult s n bit (freeRunLoop k s n bit bit) :=
        freeRunLoop_spec hsmall hmul (le_refl bit) hbit (by omega) hone (by omega)
      generalize freeRunLoop k s n bit bit = inner at hinner
      cases hinner with
      | found hrun =>
        refine .found hrun (fun hskip => ?_) hinv.passed
        obtain ⟨hmod, w, hw, hctx⟩ := hskip
        exact hinv.start hmod w (by omega) hctx
      | stopped hlt he hused hfree hshort =>
        rename_i e
        have hadde : add32 e 1 = e + 1 := add32_eq (a := e) (b := 1) (by omega)
        have hnext : ScanInv s n (e + 1) := hinv.stopped hlt he hused hfree hshort
        simp only [hadde]
        exact ih hnext (by omega)
      | outside hshort hfree =>
        have hlast : mmapTest s (s.mmngrMaxBlocks - 1) = false := hfree _ (by omega) (by omega)
        refine .outside (fun b hrun => hinv.passed b ?_ hrun) hlast
        have hend := hrun.1
        omega

/-- The bitmap determines what the scan gives. -/
theorem ScanResult.unique {x y : Outcome Nat} (hx : ScanResult s n x) (hy : ScanResult s n y) :
    x = y := by
  cases hx with
  | @found b hrun hseen hfirst =>
    cases hy with
    | @found c hrun' hseen' hfirst' =>
      have hbc : b = c := by
        rcases Nat.lt_trichotomy b c with hlt | heq | hgt
        · exact absurd (hfirst' b hlt hrun) hseen
        · exact heq
        · exact absurd (hfirst c hgt hrun') hseen'
      rw [hbc]
    | none hall _ => exact absurd (hall _ hrun) hseen
    | outside hall _ => exact absurd (hall _ hrun) hseen
  | none hall hlast =>
    cases hy with
    | found hrun hseen _ => exact absurd (hall _ hrun) hseen
    | none _ _ => rfl
    | outside _ hlast' =>
      rw [hlast] at hlast'
      cases hlast'
  | outside hall hlast =>
    cases hy with
    | found hrun hseen _ => exact absurd (hall _ hrun) hseen
    | none _ hlast' =>
      rw [hlast] at hlast'
      cases hlast'
    | outside _ _ => rfl

/-- With enough fuel the scan for two blocks or more gives one thing. -/
theorem mmapFirstFreeS_spec (hsmall : s.mmngrMaxBlocks ≤ 1048576)
    (hmul : s.mmngrMaxBlocks % 32 = 0) (hzero : mmapTest s 0 = true) (hn : 2 ≤ n) :
    ∃ x, ScanResult s n x ∧ ∀ fuel, s.mmngrMaxBlocks + 2 ≤ fuel → mmapFirstFreeS fuel s n = x := by
  have hscan : ∀ fuel, s.mmngrMaxBlocks + 2 ≤ fuel →
      ScanResult s n (firstFreeLoop fuel s n 0) := fun fuel hfuel =>
    firstFreeLoop_spec hsmall hmul hn (.init hzero) (by omega)
  refine ⟨_, hscan (s.mmngrMaxBlocks + 2) (le_refl _), fun fuel hfuel => ?_⟩
  rw [mmapFirstFreeS, if_neg (by omega), if_neg (by omega)]
  exact (hscan fuel hfuel).unique (hscan _ (le_refl _))

end Outer

/-! ## Allocation -/

section Alloc

variable {s s' : PhysState} {n b size : Nat}

/-- The scan for one block finds one if there is one. -/
theorem mmapFirstFree_ne_zero (hmul : s.mmngrMaxBlocks % 32 = 0) (hzero : mmapTest s 0 = true)
    (hb : b < s.mmngrMaxBlocks) (hfree : mmapTest s b = false) : mmapFirstFree s ≠ 0 := by
  have hnot : s.mmngrBitmap (b / 32) ≠ 0xFFFFFFFF#32 := fun hfull =>
    FullWord.not_free (s := s) (w := b / 32) hfull rfl hfree
  -- the word of `b` gives some block, so the whole search does
  have hclear : ∃ j, firstClearBit (s.mmngrBitmap (b / 32)) = some j := by
    refine Option.ne_none_iff_exists'.mp fun hnone => ?_
    have hall := List.find?_eq_none.mp hnone (b % 32) (List.mem_range.mpr (by omega))
    rw [mmapTest] at hfree
    simp only [bne_eq_false_iff_eq] at hfree
    exact hall (by simp [hfree])
  obtain ⟨j, hj⟩ := hclear
  have hsome : ∃ f, ((List.range (s.mmngrMaxBlocks / 32)).findSome? fun i =>
      if s.mmngrBitmap i ≠ 0xFFFFFFFF#32 then
        (firstClearBit (s.mmngrBitmap i)).map fun j => i * 32 + j
      else none) = some f := by
    refine Option.ne_none_iff_exists'.mp fun hnone => ?_
    have hword := List.findSome?_eq_none_iff.mp hnone (b / 32) (List.mem_range.mpr (by omega))
    rw [if_pos hnot, hj] at hword
    cases hword
  obtain ⟨f, hf⟩ := hsome
  have hval : mmapFirstFree s = f := by rw [mmapFirstFree, hf, Option.getD_some]
  obtain ⟨i, hi, hword⟩ := List.exists_of_findSome?_eq_some hf
  by_cases hfull : s.mmngrBitmap i ≠ 0xFFFFFFFF#32
  · rw [if_pos hfull] at hword
    obtain ⟨k, hk, hfk⟩ := Option.map_eq_some_iff.mp hword
    obtain ⟨hlt, hbit⟩ := firstClearBit_spec hk
    rintro hz
    -- block 0 is used, so it is not the one found
    have hi0 : i = 0 ∧ k = 0 := by omega
    rw [mmapTest_eq, bit, show 0 / 32 = 0 from rfl, show 0 % 32 = 0 from rfl] at hzero
    rw [hi0.1, hi0.2, hzero] at hbit
    cases hbit
  · rw [if_neg hfull] at hword
    cases hword

/-- The free counter counts the free blocks. -/
theorem Counted.free_eq (h : Counted s) : pmmngrGetFreeBlockCount s =
    ((Finset.range s.mmngrMaxBlocks).filter fun b => mmapTest s b = false).card := by
  have hsplit := Finset.card_filter_add_card_filter_not
    (s := Finset.range s.mmngrMaxBlocks) (p := fun b => mmapTest s b = true)
  rw [Finset.card_range] at hsplit
  have hsmall := h.small
  have hused := h.used
  have hsame : ((Finset.range s.mmngrMaxBlocks).filter fun b => ¬ mmapTest s b = true) =
      (Finset.range s.mmngrMaxBlocks).filter fun b => mmapTest s b = false := by
    refine Finset.filter_congr fun b _ => ?_
    simp
  rw [hsame] at hsplit
  rw [pmmngrGetFreeBlockCount, sub32_eq (by omega) (by omega)]
  omega

/-- A run needs that many free blocks. -/
theorem Counted.le_free (h : Counted s) (hrun : FreeRun s n b) :
    n ≤ pmmngrGetFreeBlockCount s := by
  obtain ⟨hend, hfree⟩ := hrun
  have hsub : Finset.Ico b (b + n) ⊆
      (Finset.range s.mmngrMaxBlocks).filter fun c => mmapTest s c = false := by
    intro c hc
    obtain ⟨h₁, h₂⟩ := Finset.mem_Ico.mp hc
    exact Finset.mem_filter.mpr ⟨Finset.mem_range.mpr (by omega), hfree c h₁ h₂⟩
  have hcard := Finset.card_le_card hsub
  rw [Nat.card_Ico, ← h.free_eq] at hcard
  omega

/-- A free counter that is not zero stands for a free block. -/
theorem Counted.exists_free (h : Counted s) (hpos : 0 < pmmngrGetFreeBlockCount s) :
    ∃ b, b < s.mmngrMaxBlocks ∧ mmapTest s b = false := by
  rw [h.free_eq] at hpos
  obtain ⟨b, hb⟩ := Finset.card_pos.mp hpos
  obtain ⟨hlt, hfree⟩ := Finset.mem_filter.mp hb
  exact ⟨b, Finset.mem_range.mp hlt, hfree⟩

/-- The state in which the `n` blocks from `b` on have been taken. -/
structure TakenRun (s : PhysState) (n b : Nat) (s' : PhysState) : Prop where
  size : s'.mmngrMemorySize = s.mmngrMemorySize
  max : s'.mmngrMaxBlocks = s.mmngrMaxBlocks
  used : s'.mmngrUsedBlocks = s.mmngrUsedBlocks + n
  test : ∀ c, mmapTest s' c = (decide (b ≤ c ∧ c < b + n) || mmapTest s c)

@[simp] theorem mmapTest_set {c : Nat} :
    mmapTest (mmapSet s b) c = (decide (c = b) || mmapTest s c) := by
  rw [mmapTest_eq, mmapTest_eq]
  exact bit_setBit (by decide)

/-- The marking loop sets the bits of the run. -/
theorem mmapSetFrom_spec (hend : b + n < 4294967296) :
    (mmapSetFrom n b s).mmngrMemorySize = s.mmngrMemorySize ∧
      (mmapSetFrom n b s).mmngrMaxBlocks = s.mmngrMaxBlocks ∧
      (mmapSetFrom n b s).mmngrUsedBlocks = s.mmngrUsedBlocks ∧
      ∀ c, mmapTest (mmapSetFrom n b s) c = (decide (b ≤ c ∧ c < b + n) || mmapTest s c) := by
  induction n generalizing b s with
  | zero =>
    refine ⟨rfl, rfl, rfl, fun c => ?_⟩
    have hnone : decide (b ≤ c ∧ c < b + 0) = false := decide_eq_false (by omega)
    rw [hnone, mmapSetFrom, Bool.false_or]
  | succ n ih =>
    have hadd : add32 b 1 = b + 1 := add32_eq (by omega)
    obtain ⟨hsize, hmax, hused, htest⟩ := ih (b := b + 1) (s := mmapSet s b) (by omega)
    simp only [mmapSetFrom, hadd]
    refine ⟨hsize, hmax, hused, fun c => ?_⟩
    rw [htest, mmapTest_set]
    by_cases hc : c = b
    · subst hc
      simp
    · have hsame : decide (b + 1 ≤ c ∧ c < b + 1 + n) = decide (b ≤ c ∧ c < b + (n + 1)) :=
        decide_eq_decide.mpr (by omega)
      rw [hsame]
      simp [hc]

/-- The size of an allocation in blocks. -/
theorem ceilDivision_blocks (hsize : size < 4294967296) :
    ceilDivision size pmmngrBlockSize = (size + 4095) / 4096 := by
  simp only [ceilDivision, pmmngrBlockSize]
  split
  · rw [add32_eq (by omega)]
    omega
  · omega

/-- An allocation of `n` blocks that is as it should be: it takes a run of `n`
free blocks if there is one and `n` is not 0, and does nothing otherwise. -/
structure AllocExact (s : PhysState) (n : Nat) (s' : PhysState) (addr : Nat) : Prop where
  some : 1 ≤ n → (∃ b, FreeRun s n b) →
    ∃ b, FreeRun s n b ∧ addr = b * pmmngrBlockSize ∧ TakenRun s n b s'
  none : ¬ (1 ≤ n ∧ ∃ b, FreeRun s n b) → addr = 0 ∧ s' = s

/-- The scan finds what there is: one block, nothing because too few blocks are
free, a run that is not skipped, or nothing with a used block at the end. -/
def ScanExact (s : PhysState) (n : Nat) : Prop :=
  n = 1 ∨ pmmngrGetFreeBlockCount s < n ∨ (∃ b, FreeRun s n b ∧ ¬ Skipped s b) ∨
    (¬ ∃ b, FreeRun s n b) ∧ mmapTest s (s.mmngrMaxBlocks - 1) = true

/-- `pmmngr_alloc_blocks` when its scan finds a run. -/
theorem allocBlocks_found (h : Counted s) (hzero : mmapTest s 0 = true)
    (hn : ceilDivision size pmmngrBlockSize = n) (hpos : 1 ≤ n)
    (hfree : ¬ pmmngrGetFreeBlockCount s < n) (hrun : FreeRun s n b)
    (hscan : Settles (fun fuel => mmapFirstFreeS fuel s n) b) :
    ∃ s', Settles (fun fuel => pmmngrAllocBlocks fuel s size) (s', b * pmmngrBlockSize) ∧
      TakenRun s n b s' := by
  have hsmall := h.small
  have hend := hrun.1
  have hused := h.used
  have hle := Finset.card_filter_le (Finset.range s.mmngrMaxBlocks) fun b => mmapTest s b
  rw [Finset.card_range] at hle
  have hb : b ≠ 0 := by
    rintro rfl
    have hfirst := hrun.first_free hpos
    rw [hzero] at hfirst
    cases hfirst
  obtain ⟨hsize, hmax, hcount, htest⟩ := mmapSetFrom_spec (s := s) (n := n) (b := b) (by omega)
  have hadd : add32 s.mmngrUsedBlocks n = s.mmngrUsedBlocks + n := add32_eq (by omega)
  have hmul : mul32 b pmmngrBlockSize = b * pmmngrBlockSize :=
    mul32_eq (by simp only [pmmngrBlockSize]; omega)
  refine ⟨{ mmapSetFrom n b s with mmngrUsedBlocks := s.mmngrUsedBlocks + n }, ?_,
    hsize, hmax, rfl, htest⟩
  obtain ⟨bound, hbound⟩ := hscan
  refine ⟨bound, fun fuel hfuel => ?_⟩
  have hret : mmapFirstFreeS fuel s n = .ret b := hbound fuel hfuel
  simp only [pmmngrAllocBlocks, hn, if_neg hfree, hret, if_neg hb, hcount, hadd, hmul]

/-- `pmmngr_alloc_blocks` with size 0: the scan answers -1, which is taken for a
block number. -/
theorem allocBlocks_zero (h : Counted s) (hn : ceilDivision size pmmngrBlockSize = 0) :
    Settles (fun fuel => pmmngrAllocBlocks fuel s size) (s, 4294963200) := by
  have hsmall := h.small
  have hle := Finset.card_filter_le (Finset.range s.mmngrMaxBlocks) fun b => mmapTest s b
  rw [Finset.card_range, ← h.used] at hle
  have hused : add32 s.mmngrUsedBlocks 0 = s.mmngrUsedBlocks := add32_eq (by omega)
  have hmul : mul32 4294967295 pmmngrBlockSize = 4294963200 := by decide
  refine ⟨0, fun fuel _ => ?_⟩
  simp [pmmngrAllocBlocks, hn, mmapFirstFreeS, mmapSetFrom, hused, hmul]

theorem AllocExact.of_taken {s' : PhysState} (hpos : 1 ≤ n) (hrun : FreeRun s n b)
    (htaken : TakenRun s n b s') : AllocExact s n s' (b * pmmngrBlockSize) where
  some _ _ := ⟨b, hrun, rfl, htaken⟩
  none hno := absurd ⟨hpos, b, hrun⟩ hno

/-- A call that gives 0 is right exactly when there is no run: a run does not start at
block 0, so its address is not 0. -/
theorem allocExact_zero_iff (hzero : mmapTest s 0 = true) (hpos : 1 ≤ n)
    (hset : Settles (fun fuel => pmmngrAllocBlocks fuel s size) (s, 0)) :
    (∃ s' addr, Settles (fun fuel => pmmngrAllocBlocks fuel s size) (s', addr) ∧
      AllocExact s n s' addr) ↔ ¬ ∃ b, FreeRun s n b := by
  constructor
  · rintro ⟨s', addr, hset', hexact⟩ hex
    obtain ⟨b, hrun, haddr, _⟩ := hexact.some hpos hex
    have heq := congrArg Prod.snd (hset'.unique hset)
    simp only [pmmngrBlockSize] at heq haddr
    have hb : b = 0 := by omega
    have hfirst := hrun.first_free hpos
    rw [hb, hzero] at hfirst
    cases hfirst
  · intro hno
    exact ⟨s, 0, hset, fun _ hex => absurd hex hno, fun _ => ⟨rfl, rfl⟩⟩

/-- `pmmngr_alloc_blocks` is exact if and only if `size` is not 0 and the scan
for its blocks is. -/
theorem pmmngrAllocBlocks_exact_iff (h : Counted s) (hzero : mmapTest s 0 = true)
    (hmul : s.mmngrMaxBlocks % 32 = 0) (hsize : size < 4294967296)
    (hn : n = (size + 4095) / 4096) :
    (∃ s' addr, Settles (fun fuel => pmmngrAllocBlocks fuel s size) (s', addr) ∧
      AllocExact s n s' addr) ↔ n ≠ 0 ∧ ScanExact s n := by
  have hceil : ceilDivision size pmmngrBlockSize = n := by rw [ceilDivision_blocks hsize, hn]
  by_cases hn0 : n = 0
  · refine ⟨?_, fun hcond => absurd hn0 hcond.1⟩
    rintro ⟨s', addr, hset, hexact⟩
    obtain ⟨haddr, _⟩ := hexact.none (by omega)
    have heq := congrArg Prod.snd (hset.unique (allocBlocks_zero h (hceil.trans hn0)))
    simp only at heq
    omega
  have hpos : 1 ≤ n := Nat.pos_of_ne_zero hn0
  by_cases hfree : pmmngrGetFreeBlockCount s < n
  · -- too few blocks are free for a run
    have hrun : Settles (fun fuel => pmmngrAllocBlocks fuel s size) (s, 0) :=
      ⟨0, fun fuel _ => by simp [pmmngrAllocBlocks, hceil, hfree]⟩
    have hnone : ¬ ∃ b, FreeRun s n b := fun ⟨b, hb⟩ => absurd (h.le_free hb) (by omega)
    rw [allocExact_zero_iff hzero hpos hrun]
    exact iff_of_true hnone ⟨hn0, Or.inr (Or.inl hfree)⟩
  by_cases hone : n = 1
  · -- one block is found by `mmap_first_free`
    obtain ⟨c, hc, hcfree⟩ := h.exists_free (by omega)
    obtain ⟨hlt, hclear⟩ := mmapFirstFree_spec (mmapFirstFree_ne_zero hmul hzero hc hcfree)
    have hrun : FreeRun s n (mmapFirstFree s) := by
      refine ⟨by omega, fun d h₁ h₂ => ?_⟩
      rw [show d = mmapFirstFree s by omega]
      exact hclear
    have hscan : Settles (fun fuel => mmapFirstFreeS fuel s n) (mmapFirstFree s) :=
      ⟨0, fun fuel _ => by simp [mmapFirstFreeS, hone]⟩
    obtain ⟨s', hset, htaken⟩ := allocBlocks_found h hzero hceil hpos hfree hrun hscan
    exact iff_of_true ⟨s', _, hset, .of_taken hpos hrun htaken⟩ ⟨hn0, Or.inl hone⟩
  obtain ⟨x, hx, hscan⟩ := mmapFirstFreeS_spec h.small hmul hzero (show 2 ≤ n by omega)
  cases hx with
  | @found b hrun hseen _ =>
    obtain ⟨s', hset, htaken⟩ := allocBlocks_found h hzero hceil hpos hfree hrun ⟨_, hscan⟩
    exact iff_of_true ⟨s', _, hset, .of_taken hpos hrun htaken⟩
      ⟨hn0, Or.inr (Or.inr (Or.inl ⟨b, hrun, hseen⟩))⟩
  | none hall hlast =>
    have hset : Settles (fun fuel => pmmngrAllocBlocks fuel s size) (s, 0) := by
      refine ⟨s.mmngrMaxBlocks + 2, fun fuel hfuel => ?_⟩
      simp only [pmmngrAllocBlocks, hceil, if_neg hfree, hscan fuel hfuel, if_true]
    rw [allocExact_zero_iff hzero hpos hset]
    constructor
    · intro hno
      exact ⟨hn0, Or.inr (Or.inr (Or.inr ⟨hno, hlast⟩))⟩
    · rintro ⟨_, h₁ | h₂ | ⟨b, hrun, hseen⟩ | ⟨hno, _⟩⟩
      · exact absurd h₁ hone
      · exact absurd h₂ hfree
      · exact absurd (hall b hrun) hseen
      · exact hno
  | outside hall hlast =>
    have hundef : ∀ fuel, s.mmngrMaxBlocks + 2 ≤ fuel →
        pmmngrAllocBlocks fuel s size = .undefined := fun fuel hfuel => by
      simp only [pmmngrAllocBlocks, hceil, if_neg hfree, hscan fuel hfuel]
    constructor
    · rintro ⟨s', addr, ⟨bound, hbound⟩, _⟩
      have hret := hbound (max bound (s.mmngrMaxBlocks + 2)) (Nat.le_max_left _ _)
      cases hret.symm.trans (hundef _ (Nat.le_max_right _ _))
    · rintro ⟨_, h₁ | h₂ | ⟨b, hrun, hseen⟩ | ⟨_, hused⟩⟩
      · exact absurd h₁ hone
      · exact absurd h₂ hfree
      · exact absurd (hall b hrun) hseen
      · rw [hlast] at hused
        cases hused

/-- 96 blocks: block 31 is free, the second word is full, and blocks 64 and 65 are
free. -/
def skipBitmap : PhysState where
  mmngrMemorySize := 384
  mmngrUsedBlocks := 93
  mmngrMaxBlocks := 96
  mmngrBitmap i := if i = 0 then 0x7FFFFFFF#32 else if i = 1 then 0xFFFFFFFF#32 else 0xFFFFFFFC#32

theorem skipBitmap_counted : Counted skipBitmap := ⟨by decide +kernel, by decide⟩

theorem pmmngrAllocBlocks_exact_iff_skip :
    (∃ s' addr, Settles (fun fuel => pmmngrAllocBlocks fuel skipBitmap 8192) (s', addr) ∧
      AllocExact skipBitmap 2 s' addr) ↔ 2 ≠ 0 ∧ ScanExact skipBitmap 2 :=
  pmmngrAllocBlocks_exact_iff skipBitmap_counted (by decide +kernel) rfl (by decide) (by decide)

/-- Two blocks are not found although 64 and 65 are free, and a size of 0 is
answered with the address 0xFFFFF000. -/
theorem pmmngrAllocBlocks_skips :
    Counted skipBitmap ∧ mmapTest skipBitmap 0 = true ∧ skipBitmap.mmngrMaxBlocks % 32 = 0 ∧
      FreeRun skipBitmap 2 64 ∧
      Settles (fun fuel => pmmngrAllocBlocks fuel skipBitmap 8192) (skipBitmap, 0) ∧
      (¬ ∃ s' addr, Settles (fun fuel => pmmngrAllocBlocks fuel skipBitmap 8192) (s', addr) ∧
        AllocExact skipBitmap 2 s' addr) ∧
      Settles (fun fuel => pmmngrAllocBlocks fuel skipBitmap 0) (skipBitmap, 0xFFFFF000) := by
  have hzero : mmapTest skipBitmap 0 = true := by decide +kernel
  have hrun : FreeRun skipBitmap 2 64 := by
    refine ⟨by decide, fun c h₁ h₂ => ?_⟩
    rcases (show c = 64 ∨ c = 65 by omega) with rfl | rfl <;> decide +kernel
  have hset : Settles (fun fuel => pmmngrAllocBlocks fuel skipBitmap 8192) (skipBitmap, 0) := by
    obtain ⟨x, _, hscan⟩ :=
      mmapFirstFreeS_spec (n := 2) skipBitmap_counted.small rfl hzero (le_refl 2)
    have hx : x = .ret 0 := by
      rw [← hscan 98 (by decide)]
      decide +kernel
    have hfree : ¬ pmmngrGetFreeBlockCount skipBitmap < 2 := by decide
    have hceil : ceilDivision 8192 pmmngrBlockSize = 2 := by decide
    refine ⟨98, fun fuel hfuel => ?_⟩
    simp only [pmmngrAllocBlocks, hceil, if_neg hfree, hscan fuel hfuel, hx, if_true]
  refine ⟨skipBitmap_counted, hzero, rfl, hrun, hset, ?_, allocBlocks_zero skipBitmap_counted rfl⟩
  rintro ⟨s', addr, hset', hexact⟩
  obtain ⟨b, hb, haddr, _⟩ := hexact.some (by decide) ⟨64, hrun⟩
  have heq := congrArg Prod.snd (hset'.unique hset)
  have hfirst := hb.first_free (by decide)
  simp only [pmmngrBlockSize] at heq haddr
  have hb0 : b = 0 := by omega
  rw [hb0, hzero] at hfirst
  cases hfirst

end Alloc

end MeOS
