import MeOS.MmngrPhys

/-! # Freeing and reserving regions

`pmmngr_free_region` and `pmmngr_reserve_region` go to the next block only when
they have changed one. At the first block that is as it should be they stay for
the rest of their rounds, and the blocks behind it are as they were. So they act
on the whole region exactly when such a block has none behind it that would
have to change. The counter follows the bitmap in any case.
-/

namespace MeOS

open Bitmap

/-- Block `b` belongs to the region. -/
def PhysicalMemoryRegion.Covers (r : PhysicalMemoryRegion) (b : Nat) : Prop :=
  r.base / pmmngrBlockSize ≤ b ∧ b < r.base / pmmngrBlockSize + r.length / pmmngrBlockSize

/-- The counter has changed by the number of blocks whose state has. -/
def CountMoves (s s' : PhysState) : Prop :=
  add32 s'.mmngrUsedBlocks
      ((Finset.range s.mmngrMaxBlocks).filter fun b => mmapTest s b && !mmapTest s' b).card =
    add32 s.mmngrUsedBlocks
      ((Finset.range s.mmngrMaxBlocks).filter fun b => !mmapTest s b && mmapTest s' b).card

/-- The region has been freed as a whole, block 0 apart. -/
structure RegionFreed (s : PhysState) (r : PhysicalMemoryRegion) (s' : PhysState) : Prop where
  free : ∀ b, r.Covers b → b ≠ 0 → mmapTest s' b = false
  outside : ∀ b, ¬ r.Covers b → b ≠ 0 → mmapTest s' b = mmapTest s b
  zero : mmapTest s' 0 = true
  count : CountMoves s s'

/-- The region has been reserved as a whole. -/
structure RegionReserved (s : PhysState) (r : PhysicalMemoryRegion) (s' : PhysState) : Prop where
  used : ∀ b, r.Covers b → mmapTest s' b = true
  outside : ∀ b, ¬ r.Covers b → mmapTest s' b = mmapTest s b
  count : CountMoves s s'

/-! ## The counter -/

/-- Counter and bitmap have moved together. -/
structure CountFollows (s s' : PhysState) : Prop where
  max : s'.mmngrMaxBlocks = s.mmngrMaxBlocks
  used : (s'.mmngrUsedBlocks + (ones s.mmngrBitmap s.mmngrMaxBlocks).card) % 4294967296 =
    (s.mmngrUsedBlocks + (ones s'.mmngrBitmap s.mmngrMaxBlocks).card) % 4294967296

section Follows

variable {s t s' : PhysState} {a b n : Nat}

theorem CountFollows.refl (s : PhysState) : CountFollows s s := ⟨rfl, rfl⟩

theorem CountFollows.trans (h₁ : CountFollows s t) (h₂ : CountFollows t s') :
    CountFollows s s' where
  max := h₂.max.trans h₁.max
  used := by
    have hused₁ := h₁.used
    have hused₂ := h₂.used
    rw [h₁.max] at hused₂
    omega

theorem CountFollows.take (hb : b < s.mmngrMaxBlocks) (hfree : mmapTest s b = false) :
    CountFollows s (s.take b) where
  max := rfl
  used := by
    rw [mmapTest_eq] at hfree
    rw [take_used, take_bitmap, card_ones_setBit (by decide) hb hfree, add32]
    omega

theorem CountFollows.give (hb : b < s.mmngrMaxBlocks) (hset : mmapTest s b = true) :
    CountFollows s (s.give b) where
  max := give_max
  used := by
    rw [mmapTest_eq] at hset
    have hcard := card_ones_clearBit (w := 32) (by decide) hb hset
    rw [give_used, give_bitmap, ← hcard, sub32]
    omega

/-- What is balanced moves by the blocks that change. -/
theorem CountFollows.countMoves (h : CountFollows s s') : CountMoves s s' := by
  have hcard := card_ones_changed s.mmngrBitmap s'.mmngrBitmap s.mmngrMaxBlocks
  have hused := h.used
  simp only [← mmapTest_eq] at hcard
  simp only [CountMoves, add32]
  omega

end Follows

/-! ## The loops -/

/-- Block `b` gets the state `v`, and the counter follows. -/
def PhysState.turn (s : PhysState) (v : Bool) (b : Nat) : PhysState :=
  if v then s.take b else s.give b

/-- From `s` to `s'` the blocks from `a` on get the state `v`, up to the first of the
`n` that has it, which is `k` blocks on. -/
structure Stretch (s : PhysState) (v : Bool) (a n k : Nat) (s' : PhysState) : Prop where
  le : k ≤ n
  passed : ∀ c, a ≤ c → c < a + k → mmapTest s c = !v
  stop : k < n → mmapTest s (a + k) = v
  count : CountFollows s s'
  test : ∀ c, mmapTest s' c = if a ≤ c ∧ c < a + k then v else mmapTest s c

section Loops

variable {s : PhysState} {v : Bool} {a b n : Nat}

theorem turn_max : (s.turn v b).mmngrMaxBlocks = s.mmngrMaxBlocks := by
  cases v with
  | true => exact take_max
  | false => exact give_max

theorem mmapTest_turn {c : Nat} :
    mmapTest (s.turn v b) c = if c = b then v else mmapTest s c := by
  cases v with
  | true =>
    show mmapTest (s.take b) c = _
    rw [mmapTest_take]
    by_cases hc : c = b <;> simp [hc]
  | false =>
    show mmapTest (s.give b) c = _
    rw [mmapTest_give]
    by_cases hc : c = b <;> simp [hc]

theorem CountFollows.turn (hb : b < s.mmngrMaxBlocks) (hother : mmapTest s b = !v) :
    CountFollows s (s.turn v b) := by
  cases v with
  | true => exact .take hb hother
  | false => exact .give hb hother

theorem Stretch.none (h : 0 < n → mmapTest s a = v) : Stretch s v a n 0 s where
  le := Nat.zero_le n
  passed c h₁ h₂ := by omega
  stop := h
  count := .refl s
  test c := by rw [if_neg (by omega)]

/-- A block that is turned, and what is turned behind it. -/
theorem Stretch.cons {k : Nat} {s' : PhysState} (ha : a < s.mmngrMaxBlocks)
    (hother : mmapTest s a = !v) (h : Stretch (s.turn v a) v (a + 1) n k s') :
    Stretch s v a (n + 1) (k + 1) s' where
  le := by
    have hle := h.le
    omega
  passed c h₁ h₂ := by
    by_cases hc : c = a
    · rw [hc, hother]
    · have hpassed := h.passed c (by omega) (by omega)
      rwa [mmapTest_turn, if_neg hc] at hpassed
  stop hlt := by
    have hstop := h.stop (by omega)
    rw [mmapTest_turn, if_neg (by omega)] at hstop
    rw [show a + (k + 1) = a + 1 + k by omega]
    exact hstop
  count := (CountFollows.turn ha hother).trans h.count
  test c := by
    rw [h.test, mmapTest_turn]
    by_cases hc : c = a
    · rw [if_neg (by omega), if_pos hc, if_pos (by omega)]
    · have hsame : (a + 1 ≤ c ∧ c < a + 1 + k) ↔ a ≤ c ∧ c < a + (k + 1) := by omega
      simp only [hsame, if_neg hc]

/-- A loop that turns the block it stands at, and only then goes on, turns the blocks
up to the first that has the state. -/
theorem exists_turned {f : Nat → Nat → PhysState → PhysState} (hzero : ∀ a s, f 0 a s = s)
    (hsucc : ∀ n a s, f (n + 1) a s =
      if mmapTest s a = !v then f n (add32 a 1) (s.turn v a) else f n a s)
    (hmax : a + n ≤ s.mmngrMaxBlocks) (hend : a + n < 4294967296) :
    ∃ k, Stretch s v a n k (f n a s) := by
  -- at a block that has the state it stays
  have hstay : ∀ n a s, mmapTest s a = v → f n a s = s := by
    intro n a s htest
    induction n with
    | zero => exact hzero a s
    | succ n ih => rw [hsucc, if_neg (by simp [htest]), ih]
  induction n generalizing a s with
  | zero =>
    rw [hzero]
    exact ⟨0, .none fun h => absurd h (Nat.lt_irrefl 0)⟩
  | succ n ih =>
    by_cases htest : mmapTest s a = v
    · rw [hstay (n + 1) a s htest]
      exact ⟨0, .none fun _ => htest⟩
    · have hother : mmapTest s a = !v := Bool.eq_not.mpr htest
      obtain ⟨k, hk⟩ := ih (a := a + 1) (s := s.turn v a) (by rw [turn_max]; omega) (by omega)
      rw [hsucc, if_pos hother, add32_eq (by omega)]
      exact ⟨k + 1, .cons (by omega) hother hk⟩

end Loops

/-! ## The regions -/

section Regions

variable {s s' : PhysState} {r : PhysicalMemoryRegion} {v : Bool} {k : Nat}

/-- A region the memory map can hand over: aligned, not empty and inside memory. -/
structure PhysicalMemoryRegion.Fits (s : PhysState) (r : PhysicalMemoryRegion) : Prop where
  base : r.base % pmmngrBlockSize = 0 ∧ r.base < 4294967296
  length : r.length % pmmngrBlockSize = 0 ∧ r.length < 4294967296
  pos : r.length ≠ 0
  inside : r.base / pmmngrBlockSize + r.length / pmmngrBlockSize ≤ s.mmngrMaxBlocks

/-- In the region no block whose state is `v` has one behind it whose state is not. -/
def StaysFrom (s : PhysState) (r : PhysicalMemoryRegion) (v : Bool) : Prop :=
  ∀ b c, r.Covers b → r.Covers c → b < c → mmapTest s b = v → mmapTest s c = v

/-- `Stretch` over the blocks of a region. -/
abbrev TurnedIn (s : PhysState) (v : Bool) (r : PhysicalMemoryRegion) (k : Nat)
    (s' : PhysState) : Prop :=
  Stretch s v (r.base / pmmngrBlockSize) (r.length / pmmngrBlockSize) k s'

/-- If the region has the state as a whole, block 0 apart, it stays from a block that
has it. -/
theorem Stretch.staysFrom (h : TurnedIn s v r k s')
    (hall : ∀ c, r.Covers c → c ≠ 0 → mmapTest s' c = v) : StaysFrom s r v := by
  intro b c hb hc hbc hstate
  have hturned := hall c hc (by omega)
  rw [h.test] at hturned
  by_cases hin : r.base / pmmngrBlockSize ≤ c ∧ c < r.base / pmmngrBlockSize + k
  · have hother := h.passed b hb.1 (by omega)
    rw [hstate] at hother
    simp at hother
  · rwa [if_neg hin] at hturned

theorem Stretch.covered (h : TurnedIn s v r k s') (hstays : StaysFrom s r v) {b : Nat}
    (hb : r.Covers b) : mmapTest s' b = v := by
  obtain ⟨hlo, hhi⟩ := hb
  rw [h.test]
  by_cases hin : b < r.base / pmmngrBlockSize + k
  · rw [if_pos ⟨hlo, hin⟩]
  · rw [if_neg (fun hboth => hin hboth.2)]
    have hlt : k < r.length / pmmngrBlockSize := by omega
    by_cases heq : b = r.base / pmmngrBlockSize + k
    · rw [heq]
      exact h.stop hlt
    · exact hstays _ b ⟨by omega, by omega⟩ ⟨hlo, hhi⟩ (by omega) (h.stop hlt)

theorem Stretch.outside (h : TurnedIn s v r k s') {b : Nat} (hb : ¬ r.Covers b) :
    mmapTest s' b = mmapTest s b := by
  have hle := h.le
  rw [h.test, if_neg fun hin => hb ⟨hin.1, by omega⟩]

/-- `pmmngr_free_region` frees the whole region exactly when no free block of it
has a used one behind it. -/
theorem freeRegion_iff (hr : r.Fits s) :
    (∃ s', pmmngrFreeRegion s r = .ret (s', none) ∧ RegionFreed s r s') ↔
      StaysFrom s r false := by
  have hbase := hr.base
  have hlen := hr.length
  have hpos := hr.pos
  have hin := hr.inside
  have hmem : 0 < s.mmngrMaxBlocks := by
    simp only [pmmngrBlockSize] at hin hlen
    omega
  have halign : ¬ (r.length % pmmngrBlockSize ≠ 0 ∨ r.base % pmmngrBlockSize ≠ 0) := by omega
  obtain ⟨k, hk⟩ : ∃ k, TurnedIn s false r k _ := exists_turned (f := freeBlocksFrom)
    (fun _ _ => rfl) (fun _ _ _ => freeBlocksFrom_succ) hin (by simp only [pmmngrBlockSize]; omega)
  simp only [pmmngrFreeRegion, if_neg hpos, if_neg halign]
  generalize freeBlocksFrom (r.length / pmmngrBlockSize) (r.base / pmmngrBlockSize) s = t at hk
  -- block 0 is taken back
  obtain ⟨s', hrun, hcount, hzero, hkeep⟩ : ∃ s', (if mmapTest t 0 = false then
      Outcome.ret (t.take 0, (none : Option PmemError)) else .ret (t, none)) = .ret (s', none) ∧
      CountFollows s s' ∧ mmapTest s' 0 = true ∧ ∀ c, c ≠ 0 → mmapTest s' c = mmapTest t c := by
    cases hzero : mmapTest t 0 with
    | false =>
      have htake : CountFollows t (t.take 0) := .take (by rw [hk.count.max]; exact hmem) hzero
      refine ⟨t.take 0, rfl, hk.count.trans htake, by simp, fun c hc => ?_⟩
      rw [mmapTest_take, decide_eq_false hc, Bool.false_or]
    | true => exact ⟨t, rfl, hk.count, hzero, fun _ _ => rfl⟩
  constructor
  · rintro ⟨s'', hrun', hfreed⟩
    cases hrun.symm.trans hrun'
    exact hk.staysFrom fun c hc hne => (hkeep c hne).symm.trans (hfreed.free c hc hne)
  · intro hstays
    refine ⟨s', hrun, fun b hb hne => ?_, fun b hb hne => ?_, hzero, hcount.countMoves⟩
    · rw [hkeep b hne, hk.covered hstays hb]
    · rw [hkeep b hne, hk.outside hb]

/-- `pmmngr_reserve_region` reserves the whole region exactly when no used block of
it has a free one behind it. -/
theorem reserveRegion_iff (hr : r.Fits s) :
    (∃ s', pmmngrReserveRegion s r = .ret (s', none) ∧ RegionReserved s r s') ↔
      StaysFrom s r true := by
  have hbase := hr.base
  have hlen := hr.length
  have halign : ¬ (r.length % pmmngrBlockSize ≠ 0 ∨ r.base % pmmngrBlockSize ≠ 0) := by omega
  obtain ⟨k, hk⟩ : ∃ k, TurnedIn s true r k _ := exists_turned (f := reserveBlocksFrom)
    (fun _ _ => rfl) (fun _ _ _ => reserveBlocksFrom_succ) hr.inside
    (by simp only [pmmngrBlockSize]; omega)
  simp only [pmmngrReserveRegion, if_neg hr.pos, if_neg halign]
  constructor
  · rintro ⟨s', hrun, hreserved⟩
    cases hrun
    exact hk.staysFrom fun c hc _ => hreserved.used c hc
  · intro hstays
    exact ⟨_, rfl, fun b hb => hk.covered hstays hb, fun b hb => hk.outside hb,
      hk.count.countMoves⟩

/-- Freeing and reserving act on the whole region, and leave the others and the
counter right, exactly when the region does not stop them. -/
theorem regions_whole_iff (hr : r.Fits s) :
    ((∃ s', pmmngrFreeRegion s r = .ret (s', none) ∧ RegionFreed s r s') ↔
        StaysFrom s r false) ∧
      ((∃ s', pmmngrReserveRegion s r = .ret (s', none) ∧ RegionReserved s r s') ↔
        StaysFrom s r true) :=
  ⟨freeRegion_iff hr, reserveRegion_iff hr⟩

/-- 32 blocks, of which 1 and 3 are free. -/
def twoHoles : PhysState where
  mmngrMemorySize := 128
  mmngrUsedBlocks := 30
  mmngrMaxBlocks := 32
  mmngrBitmap _ := 0xFFFFFFF5#32

theorem regions_whole_iff_twoHoles :
    ((∃ s', pmmngrFreeRegion twoHoles ⟨8192, 8192⟩ = .ret (s', none) ∧
        RegionFreed twoHoles ⟨8192, 8192⟩ s') ↔ StaysFrom twoHoles ⟨8192, 8192⟩ false) ∧
      ((∃ s', pmmngrReserveRegion twoHoles ⟨8192, 8192⟩ = .ret (s', none) ∧
        RegionReserved twoHoles ⟨8192, 8192⟩ s') ↔ StaysFrom twoHoles ⟨8192, 8192⟩ true) :=
  regions_whole_iff ⟨by decide, by decide, by decide, by decide⟩

/-- Freeing blocks 1 to 3 leaves block 2 in use, and reserving blocks 2 and 3
leaves block 3 free. -/
theorem regions_stop :
    Counted twoHoles ∧ mmapTest twoHoles 0 = true ∧
      (∃ s', pmmngrFreeRegion twoHoles ⟨4096, 12288⟩ = .ret (s', none) ∧
        mmapTest s' 2 = true ∧ ¬ RegionFreed twoHoles ⟨4096, 12288⟩ s') ∧
      ∃ s', pmmngrReserveRegion twoHoles ⟨8192, 8192⟩ = .ret (s', none) ∧
        mmapTest s' 3 = false ∧ ¬ RegionReserved twoHoles ⟨8192, 8192⟩ s' := by
  refine ⟨⟨by decide +kernel, by decide⟩, by decide +kernel, ⟨twoHoles, rfl, ?_⟩, ?_⟩
  · have hset : mmapTest twoHoles 2 = true := by decide +kernel
    refine ⟨hset, fun h => ?_⟩
    have hclear := h.free 2 ⟨by decide, by decide⟩ (by decide)
    rw [hset] at hclear
    cases hclear
  · have hclear : mmapTest twoHoles 3 = false := by decide +kernel
    refine ⟨twoHoles, rfl, hclear, fun h => ?_⟩
    have hset := h.used 3 ⟨by decide, by decide⟩
    rw [hclear] at hset
    cases hset

end Regions

end MeOS
