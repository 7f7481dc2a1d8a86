import Mathlib.Data.Finset.Card
import Mathlib.Data.BitVec

/-! # Bitmaps made of words

A bitmap is a sequence of words of `w` bits; bit `b` is bit `b % w` of word
`b / w`. Setting and clearing one bit change exactly that one, and so the number
of bits that are set below a bound by one at most.
-/

namespace Bitmap

variable {w : Nat}

/-- Bit `b`. -/
def bit (m : Nat → BitVec w) (b : Nat) : Bool := (m (b / w)).getLsbD (b % w)

/-- The word that has bit `b` only. -/
def mask (w b : Nat) : BitVec w := 1#w <<< (b % w)

/-- Set bit `b`. -/
def setBit (m : Nat → BitVec w) (b : Nat) : Nat → BitVec w :=
  Function.update m (b / w) (m (b / w) ||| mask w b)

/-- Clear bit `b`. -/
def clearBit (m : Nat → BitVec w) (b : Nat) : Nat → BitVec w :=
  Function.update m (b / w) (m (b / w) &&& ~~~ mask w b)

/-- The bits that are set below `n`. -/
def ones (m : Nat → BitVec w) (n : Nat) : Finset Nat := (Finset.range n).filter fun b => bit m b

section Bits

variable {m : Nat → BitVec w} {b c n : Nat}

theorem mask_getLsbD (hw : 0 < w) (i : Nat) :
    (mask w b).getLsbD i = decide (i = b % w) := by
  have hlt := Nat.mod_lt b hw
  unfold mask
  rw [BitVec.getLsbD_shiftLeft, BitVec.getLsbD_one]
  by_cases hi : i = b % w
  · subst hi
    simp [hlt, hw]
  · by_cases hib : i < b % w
    · simp [hi, hib]
    · have hsub : i - b % w ≠ 0 := by omega
      simp [hi, hsub]

/-- Two bits are the same when their words and their places in the word are. -/
theorem eq_of_div_mod (hd : b / w = c / w) (hm : b % w = c % w) : b = c := by
  rw [← Nat.div_add_mod b w, ← Nat.div_add_mod c w, hd, hm]

/-- Setting a bit sets exactly that one. -/
theorem bit_setBit (hw : 0 < w) : bit (setBit m b) c = (decide (c = b) || bit m c) := by
  unfold bit setBit
  by_cases hd : c / w = b / w
  · rw [hd, Function.update_self, BitVec.getLsbD_or, mask_getLsbD hw]
    by_cases hcb : c = b
    · subst hcb
      simp
    · have hm : c % w ≠ b % w := fun hm => hcb (eq_of_div_mod hd hm)
      simp [hcb, hm]
  · have hcb : c ≠ b := fun heq => hd (heq ▸ rfl)
    rw [Function.update_of_ne hd]
    simp [hcb]

/-- Clearing a bit clears exactly that one. -/
theorem bit_clearBit (hw : 0 < w) : bit (clearBit m b) c = (!decide (c = b) && bit m c) := by
  unfold bit clearBit
  by_cases hd : c / w = b / w
  · rw [hd, Function.update_self, BitVec.getLsbD_and, BitVec.getLsbD_not, mask_getLsbD hw]
    have hlt := Nat.mod_lt c hw
    by_cases hcb : c = b
    · subst hcb
      simp
    · have hm : c % w ≠ b % w := fun hm => hcb (eq_of_div_mod hd hm)
      simp [hcb, hm, hlt]
  · have hcb : c ≠ b := fun heq => hd (heq ▸ rfl)
    rw [Function.update_of_ne hd]
    simp [hcb]

/-- A bit is set when its word and the mask have a bit in common. -/
theorem and_mask_ne_zero (hw : 0 < w) : (m (b / w) &&& mask w b) ≠ 0#w ↔ bit m b = true := by
  unfold bit
  constructor
  · intro hne
    by_contra hbit
    apply hne
    apply BitVec.eq_of_getLsbD_eq
    intro i _
    rw [BitVec.getLsbD_and, mask_getLsbD hw]
    by_cases hi : i = b % w
    · subst hi
      rw [Bool.eq_false_iff.mpr hbit]
      simp
    · simp [hi]
  · intro hbit heq
    have hself : (m (b / w) &&& mask w b).getLsbD (b % w) = true := by
      rw [BitVec.getLsbD_and, mask_getLsbD hw, hbit]
      simp
    rw [heq] at hself
    simp at hself

/-- A bitmap is determined by its bits. -/
theorem eq_of_bit (hw : 0 < w) {m' : Nat → BitVec w} (h : ∀ b, bit m b = bit m' b) : m = m' := by
  funext i
  apply BitVec.eq_of_getLsbD_eq
  intro j hj
  have hbit := h (w * i + j)
  unfold bit at hbit
  have hdiv : (w * i + j) / w = i := by
    rw [Nat.mul_add_div hw, Nat.div_eq_of_lt hj, Nat.add_zero]
  have hmod : (w * i + j) % w = j := by
    rw [Nat.mul_add_mod, Nat.mod_eq_of_lt hj]
  rwa [hdiv, hmod] at hbit

theorem mem_ones : b ∈ ones m n ↔ b < n ∧ bit m b = true := by
  unfold ones
  rw [Finset.mem_filter, Finset.mem_range]

/-- Setting a clear bit adds one. -/
theorem card_ones_setBit (hw : 0 < w) (hb : b < n) (hclear : bit m b = false) :
    (ones (setBit m b) n).card = (ones m n).card + 1 := by
  have hins : ones (setBit m b) n = insert b (ones m n) := by
    ext c
    rw [Finset.mem_insert, mem_ones, mem_ones, bit_setBit hw]
    by_cases hcb : c = b
    · subst hcb
      simp [hb]
    · simp [hcb]
  have hout : b ∉ ones m n := by
    rw [mem_ones, hclear]
    simp
  rw [hins, Finset.card_insert_of_notMem hout]

/-- Clearing a set bit takes one away. -/
theorem card_ones_clearBit (hw : 0 < w) (hb : b < n) (hset : bit m b = true) :
    (ones (clearBit m b) n).card + 1 = (ones m n).card := by
  have herase : ones (clearBit m b) n = (ones m n).erase b := by
    ext c
    rw [Finset.mem_erase, mem_ones, mem_ones, bit_clearBit hw]
    by_cases hcb : c = b
    · subst hcb
      simp
    · simp [hcb]
  have hmem : b ∈ ones m n := mem_ones.mpr ⟨hb, hset⟩
  rw [herase]
  exact Finset.card_erase_add_one hmem

theorem card_ones_le : (ones m n).card ≤ n := by
  unfold ones
  exact (Finset.card_filter_le _ _).trans (Finset.card_range n).le

/-- Two bitmaps differ in their number of set bits by the bits that differ. -/
theorem card_ones_changed (m m' : Nat → BitVec w) (n : Nat) :
    (ones m n).card + ((Finset.range n).filter fun b => !bit m b && bit m' b).card =
      (ones m' n).card + ((Finset.range n).filter fun b => bit m b && !bit m' b).card := by
  have hsplit : ∀ p q : Nat → BitVec w, (ones p n).card =
      ((Finset.range n).filter fun b => bit p b && bit q b).card +
        ((Finset.range n).filter fun b => bit p b && !bit q b).card := by
    intro p q
    have h := Finset.card_filter_add_card_filter_not (s := ones p n) (p := fun b => bit q b = true)
    rw [ones, Finset.filter_filter, Finset.filter_filter] at h
    rw [ones, ← h]
    congr 2 <;> refine Finset.filter_congr fun b _ => ?_ <;> simp
  have hcomm : ∀ f g : Nat → Bool, ((Finset.range n).filter fun b => f b && g b) =
      (Finset.range n).filter fun b => g b && f b := fun f g =>
    Finset.filter_congr fun b _ => by rw [Bool.and_comm]
  rw [hsplit m m', hsplit m' m, hcomm (bit m') (bit m), hcomm (bit m') fun b => !bit m b]
  omega

/-- All bits are set. -/
theorem card_ones_full (h : ∀ b, b < n → bit m b = true) : (ones m n).card = n := by
  unfold ones
  rw [Finset.filter_true_of_mem, Finset.card_range]
  intro b hb
  exact h b (Finset.mem_range.mp hb)

end Bits

end Bitmap
