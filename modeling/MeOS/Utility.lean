import MeOS.Types

/-! # `utility.cpp`: memory fill and copy

`memset` and `memcpy` of the kernel treat `length % 4` leading bytes one by one
and the rest in 32-bit words. On ranges that do not overlap they have the
byte-wise meaning `Bytes.fill` and `Bytes.blit`.
-/

namespace MeOS

open Bytes

/-- The byte loop of `memset`. -/
def memsetBytes (m : Mem) (ptr : Nat) (val : UInt8) : Nat → Mem
  | 0 => m
  | n + 1 => memsetBytes (store8 m ptr val) (ptr + 1) val n

/-- The word loop of `memset`. -/
def memsetWords (m : Mem) (ptr val32 : Nat) : Nat → Mem
  | 0 => m
  | n + 1 => memsetWords (store32 m ptr val32) (ptr + 4) val32 n

/-- `memset(base, val, length)`. -/
def memset (m : Mem) (base : Nat) (val : UInt8) (length : Nat) : Mem :=
  let index := length % 4
  let val32 := val.toNat + 256 * val.toNat + 65536 * val.toNat + 16777216 * val.toNat
  memsetWords (memsetBytes m base val index) (base + index) val32 ((length - index) / 4)

/-- The byte loop of `memcpy`. -/
def memcpyBytes (m : Mem) (dest source : Nat) : Nat → Mem
  | 0 => m
  | n + 1 => memcpyBytes (store8 m dest (m source)) (dest + 1) (source + 1) n

/-- The word loop of `memcpy`. -/
def memcpyWords (m : Mem) (dest source : Nat) : Nat → Mem
  | 0 => m
  | n + 1 => memcpyWords (store32 m dest (load32 m source)) (dest + 4) (source + 4) n

/-- `memcpy(dest, source, length)`. -/
def memcpy (m : Mem) (dest source length : Nat) : Mem :=
  let index := length % 4
  memcpyWords (memcpyBytes m dest source index) (dest + index) (source + index)
    ((length - index) / 4)

/-! ## `memset` is a fill -/

theorem memsetBytes_eq (m : Mem) (ptr : Nat) (val : UInt8) (n : Nat) :
    memsetBytes m ptr val n = fill m ptr n val := by
  induction n generalizing m ptr with
  | zero => exact (fill_zero m ptr val).symm
  | succ n ih => rw [memsetBytes, ih, store8_eq_fill, fill_append, Nat.add_comm 1 n]

theorem memsetWords_eq (m : Mem) (ptr : Nat) (val : UInt8) (n : Nat) :
    memsetWords m ptr
        (val.toNat + 256 * val.toNat + 65536 * val.toNat + 16777216 * val.toNat) n =
      fill m ptr (4 * n) val := by
  induction n generalizing m ptr with
  | zero => exact (fill_zero m ptr val).symm
  | succ n ih => rw [memsetWords, ih, store32_eq_fill, fill_append, Nat.mul_succ, Nat.add_comm 4]

/-- `memset` sets exactly the bytes of its range. -/
theorem memset_eq (m : Mem) (base : Nat) (val : UInt8) (length : Nat) :
    memset m base val length = fill m base length val := by
  have hlength : length % 4 + 4 * ((length - length % 4) / 4) = length := by omega
  simp only [memset, memsetBytes_eq, memsetWords_eq, fill_append, hlength]

/-! ## `memcpy` is a copy

The source range is only read before it could be overwritten: the statements
ask that the two ranges be disjoint. -/

theorem memcpyBytes_eq (m : Mem) (dest source n : Nat)
    (h : dest + n ≤ source ∨ source + n ≤ dest) :
    memcpyBytes m dest source n = blit m dest m source n := by
  induction n generalizing m dest source with
  | zero => exact (blit_zero m dest m source).symm
  | succ n ih =>
    have hsource (k : Nat) (hk : k < n) :
        store8 m dest (m source) (source + 1 + k) = m (source + 1 + k) :=
      store8_ne m _ (by omega)
    rw [memcpyBytes, ih _ _ _ (by omega), blit_source hsource, store8_eq_blit, blit_append,
      Nat.add_comm 1 n]

theorem memcpyWords_eq (m : Mem) (dest source n : Nat)
    (h : dest + 4 * n ≤ source ∨ source + 4 * n ≤ dest) :
    memcpyWords m dest source n = blit m dest m source (4 * n) := by
  induction n generalizing m dest source with
  | zero => exact (blit_zero m dest m source).symm
  | succ n ih =>
    have hsource (k : Nat) (hk : k < 4 * n) :
        store32 m dest (load32 m source) (source + 4 + k) = m (source + 4 + k) :=
      store32_frame m _ (by omega)
    rw [memcpyWords, ih _ _ _ (by omega), blit_source hsource, store32_eq_blit, blit_append,
      Nat.mul_succ, Nat.add_comm 4]

/-- `memcpy` between disjoint ranges copies exactly the bytes of its range. -/
theorem memcpy_eq (m : Mem) (dest source length : Nat)
    (h : dest + length ≤ source ∨ source + length ≤ dest) :
    memcpy m dest source length = blit m dest m source length := by
  have hlength : length % 4 + 4 * ((length - length % 4) / 4) = length := by omega
  have hsource (k : Nat) (hk : k < 4 * ((length - length % 4) / 4)) :
      blit m dest m source (length % 4) (source + length % 4 + k) =
        m (source + length % 4 + k) :=
    blit_frame m m source (by omega)
  simp only [memcpy]
  rw [memcpyBytes_eq m dest source _ (by omega), memcpyWords_eq _ _ _ _ (by omega),
    blit_source hsource, blit_append, hlength]

section Copy

variable {m : Mem} {dest source n x : Nat}

theorem memcpyBytes_frame (h : x < dest ∨ dest + n ≤ x) : memcpyBytes m dest source n x = m x := by
  induction n generalizing m dest source with
  | zero => rfl
  | succ n ih =>
    rw [memcpyBytes, ih (by omega), store8_ne m _ (by omega)]

theorem memcpyWords_frame (h : x < dest ∨ dest + 4 * n ≤ x) :
    memcpyWords m dest source n x = m x := by
  induction n generalizing m dest source with
  | zero => rfl
  | succ n ih =>
    rw [memcpyWords, ih (by omega), store32_frame m _ (by omega)]

/-- Wherever the source lies, a copy changes the bytes of its range only. -/
theorem memcpy_frame (h : x < dest ∨ dest + n ≤ x) : memcpy m dest source n x = m x := by
  unfold memcpy
  rw [memcpyWords_frame (by omega), memcpyBytes_frame (by omega)]

end Copy

-- from here on the two are known by what they do
attribute [irreducible] memset memcpy

end MeOS
