import MeOS.Utility
import Mathlib.Logic.Function.Iterate

/-! # Blocks of memory on the machine

`memset` and `memcpy` as they run, on 32-bit pointers that may wrap: the byte loops lower the length
they were entered with, and the word loops count up to a fourth of what is left. Ranges that do not
wrap are set and copied as in `Utility`.
-/

namespace MeOS.BlockCopy

open Bytes

/-! ## The loops -/

/-- The variables of `memset` in its byte loop, and the memory. -/
structure Fill where
  mem : Mem
  ptr : Nat
  length : Nat

/-- A turn of the byte loop of `memset`. -/
def memsetByte (val : UInt8) (s : Fill) : Fill where
  mem := store8 s.mem s.ptr val
  ptr := add32 s.ptr 1
  length := sub32 s.length 1

/-- `val32`. -/
def val32 (val : UInt8) : Nat :=
  val.toNat &&& 0xFF ||| val.toNat <<< 8 &&& 0xFF00 ||| val.toNat <<< 16 &&& 0xFF0000 |||
    val.toNat <<< 24 &&& 0xFF000000

/-- A turn of the word loop of `memset`. -/
def memsetWord (newPtr val32 : Nat) (m : Mem) (i : Nat) : Mem :=
  store32 m (add32 newPtr (mul32 4 i)) val32

/-- `memset(base, val, length)`. -/
def memset (m : Mem) (base : Nat) (val : UInt8) (length : Nat) : Mem :=
  let index := length % 4
  let s := (memsetByte val)^[index] ⟨m, base, length⟩
  (List.range (s.length / 4)).foldl (memsetWord s.ptr (val32 val)) s.mem

/-- The variables of `memcpy` in its byte loop, and the memory. -/
structure Copy where
  mem : Mem
  ptrD : Nat
  ptrS : Nat
  length : Nat

/-- A turn of the byte loop of `memcpy`. -/
def memcpyByte (s : Copy) : Copy where
  mem := store8 s.mem s.ptrD (s.mem s.ptrS)
  ptrS := add32 s.ptrS 1
  ptrD := add32 s.ptrD 1
  length := sub32 s.length 1

/-- A turn of the word loop of `memcpy`. -/
def memcpyWord (newPtrD newPtrS : Nat) (m : Mem) (i : Nat) : Mem :=
  store32 m (add32 newPtrD (mul32 4 i)) (load32 m (add32 newPtrS (mul32 4 i)))

/-- `memcpy(dest, source, length)`. -/
def memcpy (m : Mem) (dest source length : Nat) : Mem :=
  let index := length % 4
  let s := memcpyByte^[index] ⟨m, dest, source, length⟩
  (List.range (s.length / 4)).foldl (memcpyWord s.ptrD s.ptrS) s.mem

/-! ## Pointers -/

section

variable {p i j n length : Nat}

/-- A pointer after `j` turns is still the address, or at the end of memory. -/
theorem add32_step : add32 (add32 p j) 1 = add32 p (j + 1) := by
  unfold add32
  omega

/-- The `i`-th word behind `j` bytes. -/
theorem word_address (h : p + (j + 4 * (i + 1)) ≤ 4294967296) :
    add32 (add32 p j) (mul32 4 i) = p + (j + 4 * i) := by
  rw [add32_eq (a := p) (by omega), mul32_eq (by omega), add32_eq (by omega), Nat.add_assoc]

/-- The length after a turn, where one is left. -/
theorem length_step (hlength : length < 4294967296) (hj : j + 1 ≤ length) :
    sub32 (length - j) 1 = length - (j + 1) := by
  rw [sub32_eq (by omega) (by omega), Nat.sub_sub]

end

/-! ## `memset` -/

section

variable {m : Mem} {base length index j n : Nat} {val : UInt8}

/-- The word of four equal bytes. -/
theorem val32_eq (val : UInt8) :
    val32 val = val.toNat + 256 * val.toNat + 65536 * val.toNat + 16777216 * val.toNat := by
  have hbytes : ∀ b : Fin 256,
      (b.val &&& 0xFF ||| b.val <<< 8 &&& 0xFF00 ||| b.val <<< 16 &&& 0xFF0000 |||
        b.val <<< 24 &&& 0xFF000000) =
      b.val + 256 * b.val + 65536 * b.val + 16777216 * b.val := by decide +kernel
  exact hbytes ⟨val.toNat, val.toNat_lt⟩

/-- After `j` turns of the byte loop as many bytes are set. -/
theorem memsetByte_turns (hptr : base < 4294967296) (hbase : base + j ≤ 4294967296)
    (hlength : length < 4294967296) (hj : j ≤ length) :
    (memsetByte val)^[j] ⟨m, base, length⟩ = ⟨fill m base j val, add32 base j, length - j⟩ := by
  induction j with
  | zero =>
    rw [Function.iterate_zero_apply, fill_zero, add32_eq hptr]
    rfl
  | succ j ih =>
    have haddress : add32 base j = base + j := add32_eq (by omega)
    rw [Function.iterate_succ_apply', ih (by omega) (by omega)]
    simp only [memsetByte]
    rw [add32_step, length_step hlength hj, haddress, store8_eq_fill, fill_append]

/-- After `i` turns of the word loop four times as many more. -/
theorem memsetWord_turns (hbase : base + (index + 4 * n) ≤ 4294967296) :
    (List.range n).foldl (memsetWord (add32 base index) (val32 val)) (fill m base index val) =
      fill m base (index + 4 * n) val := by
  induction n with
  | zero => rfl
  | succ n ih =>
    rw [List.range_succ, List.foldl_append, ih (by omega), List.foldl_cons, List.foldl_nil,
      memsetWord, word_address hbase, val32_eq, store32_eq_fill, fill_append, Nat.add_assoc,
      Nat.mul_succ]

/-- `memset` on a range that does not wrap. -/
theorem memset_eq_fill (hptr : base < 4294967296) (hlength : length < 4294967296)
    (hbase : base + length ≤ 4294967296) : memset m base val length = fill m base length val := by
  have hturns : length % 4 + 4 * ((length - length % 4) / 4) = length := by omega
  simp only [memset]
  rw [memsetByte_turns hptr (by omega) hlength (Nat.mod_le _ _)]
  simp only
  rw [memsetWord_turns (by omega), hturns]

end

/-! ## `memcpy` -/

section

variable {m : Mem} {dest source length index j n : Nat}

/-- After `j` turns of the byte loop as many bytes are copied. -/
theorem memcpyByte_turns (hd : dest < 4294967296) (hs : source < 4294967296)
    (hdest : dest + j ≤ 4294967296) (hsource : source + j ≤ 4294967296)
    (hlength : length < 4294967296) (hj : j ≤ length)
    (hapart : dest + j ≤ source ∨ source + j ≤ dest) :
    memcpyByte^[j] ⟨m, dest, source, length⟩ =
      ⟨blit m dest m source j, add32 dest j, add32 source j, length - j⟩ := by
  induction j with
  | zero =>
    rw [Function.iterate_zero_apply, blit_zero, add32_eq hd, add32_eq hs]
    rfl
  | succ j ih =>
    have hdst : add32 dest j = dest + j := add32_eq (by omega)
    have hsrc : add32 source j = source + j := add32_eq (by omega)
    -- the byte to copy is the old one
    have hold : blit m dest m source j (source + j) = m (source + j) :=
      blit_frame m m source (by omega)
    rw [Function.iterate_succ_apply',
      ih (by omega) (by omega) (by omega) (by omega)]
    simp only [memcpyByte]
    rw [add32_step, add32_step, length_step hlength hj, hdst, hsrc, hold, store8_eq_blit,
      blit_append]

/-- After `i` turns of the word loop four times as many more. -/
theorem memcpyWord_turns (hdest : dest + (index + 4 * n) ≤ 4294967296)
    (hsource : source + (index + 4 * n) ≤ 4294967296)
    (hapart : dest + (index + 4 * n) ≤ source ∨ source + (index + 4 * n) ≤ dest) :
    (List.range n).foldl (memcpyWord (add32 dest index) (add32 source index))
        (blit m dest m source index) = blit m dest m source (index + 4 * n) := by
  induction n with
  | zero => rfl
  | succ n ih =>
    -- the word to copy is the old one
    have hold : load32 (blit m dest m source (index + 4 * n)) (source + (index + 4 * n)) =
        load32 m (source + (index + 4 * n)) :=
      load32_congr fun x hlo hhi => blit_frame m m source (by omega)
    rw [List.range_succ, List.foldl_append, ih (by omega) (by omega) (by omega), List.foldl_cons,
      List.foldl_nil, memcpyWord, word_address hdest, word_address hsource, hold, store32_eq_blit,
      blit_append, Nat.add_assoc, Nat.mul_succ]

/-- `memcpy` between ranges that neither wrap nor overlap. -/
theorem memcpy_eq_blit (hd : dest < 4294967296) (hs : source < 4294967296)
    (hlength : length < 4294967296) (hdest : dest + length ≤ 4294967296)
    (hsource : source + length ≤ 4294967296)
    (hapart : dest + length ≤ source ∨ source + length ≤ dest) :
    memcpy m dest source length = blit m dest m source length := by
  have hturns : length % 4 + 4 * ((length - length % 4) / 4) = length := by omega
  simp only [memcpy]
  rw [memcpyByte_turns hd hs (by omega) (by omega) hlength (Nat.mod_le _ _) (by omega)]
  simp only
  rw [memcpyWord_turns (by omega) (by omega) (by omega), hturns]

end

/-! ## What the two do -/

/-- On such ranges the pointers may as well be numbers. -/
theorem memset_unbounded (m : Mem) (base length : UInt32) (val : UInt8)
    (hbase : base.toNat + length.toNat ≤ 4294967296) :
    memset m base.toNat val length.toNat = MeOS.memset m base.toNat val length.toNat := by
  rw [memset_eq_fill base.toNat_lt length.toNat_lt hbase, MeOS.memset_eq]

theorem memcpy_unbounded (m : Mem) (dest source length : UInt32)
    (hdest : dest.toNat + length.toNat ≤ 4294967296)
    (hsource : source.toNat + length.toNat ≤ 4294967296)
    (hapart : dest.toNat + length.toNat ≤ source.toNat ∨
      source.toNat + length.toNat ≤ dest.toNat) :
    memcpy m dest.toNat source.toNat length.toNat =
      MeOS.memcpy m dest.toNat source.toNat length.toNat := by
  rw [memcpy_eq_blit dest.toNat_lt source.toNat_lt length.toNat_lt hdest hsource hapart,
    MeOS.memcpy_eq m _ _ _ hapart]

/-- `memset` sets exactly the bytes of its range, and `memcpy` copies exactly those of its. -/
theorem blocks_exact (m : Mem) (base dest source length : UInt32) (val : UInt8) :
    (base.toNat + length.toNat ≤ 4294967296 →
      (∀ k, k < length.toNat → memset m base.toNat val length.toNat (base.toNat + k) = val) ∧
      ∀ x, x < base.toNat ∨ base.toNat + length.toNat ≤ x →
        memset m base.toNat val length.toNat x = m x) ∧
    (dest.toNat + length.toNat ≤ 4294967296 → source.toNat + length.toNat ≤ 4294967296 →
      (dest.toNat + length.toNat ≤ source.toNat ∨ source.toNat + length.toNat ≤ dest.toNat) →
      (∀ k, k < length.toNat →
        memcpy m dest.toNat source.toNat length.toNat (dest.toNat + k) = m (source.toNat + k)) ∧
      ∀ x, x < dest.toNat ∨ dest.toNat + length.toNat ≤ x →
        memcpy m dest.toNat source.toNat length.toNat x = m x) := by
  refine ⟨fun hbase => ?_, fun hdest hsource hapart => ?_⟩
  · rw [memset_eq_fill base.toNat_lt length.toNat_lt hbase]
    exact ⟨fun k hk => fill_inside m val (by omega) (by omega),
      fun x hx => fill_frame m val hx⟩
  · rw [memcpy_eq_blit dest.toNat_lt source.toNat_lt length.toNat_lt hdest hsource hapart]
    exact ⟨fun k hk => blit_at m _ m _ hk, fun x hx => blit_frame m m _ hx⟩

/-- Seven bytes, at addresses that are not multiples of 4. -/
theorem blocks_exact_seven :
    ((∀ k, k < 7 → memset (fun x => UInt8.ofNat x) 5 255 7 (5 + k) = 255) ∧
      ∀ x, x < 5 ∨ 12 ≤ x → memset (fun x => UInt8.ofNat x) 5 255 7 x = UInt8.ofNat x) ∧
    (∀ k, k < 7 → memcpy (fun x => UInt8.ofNat x) 5 13 7 (5 + k) = UInt8.ofNat (13 + k)) ∧
      ∀ x, x < 5 ∨ 12 ≤ x → memcpy (fun x => UInt8.ofNat x) 5 13 7 x = UInt8.ofNat x :=
  ⟨(blocks_exact (fun x => UInt8.ofNat x) 5 5 13 7 255).1 (by decide),
    (blocks_exact (fun x => UInt8.ofNat x) 5 5 13 7 255).2 (by decide) (by decide) (by decide)⟩

end MeOS.BlockCopy
