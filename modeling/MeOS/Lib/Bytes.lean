import Mathlib.Tactic

/-! # Byte memory

A memory is a function from addresses to bytes. Multi-byte cells are little
endian: the byte at the lowest address is the least significant one. The
`load`/`store` pairs come with the two facts a client needs: a load sees the
last store to the same cell, and it does not see a store to a disjoint one.

`blit` and `fill` are the whole-range counterparts: a copied range and a range
set to one value.
-/

namespace Bytes

/-- Byte-addressed memory. -/
abbrev Mem := Nat → UInt8

/-- The `i`-th byte of a little-endian number. -/
def byteOf (v i : Nat) : UInt8 := UInt8.ofNat (v / 256 ^ i)

@[simp] theorem byteOf_toNat (v i : Nat) : (byteOf v i).toNat = v / 256 ^ i % 256 := by
  simp [byteOf]

/-! ## Cells -/

/-- Set one byte. -/
def store8 (m : Mem) (a : Nat) (v : UInt8) : Mem := Function.update m a v

/-- Read two bytes, low byte first. -/
def load16 (m : Mem) (a : Nat) : Nat := (m a).toNat + 256 * (m (a + 1)).toNat

/-- Write two bytes, low byte first. -/
def store16 (m : Mem) (a v : Nat) : Mem := fun x =>
  if a ≤ x ∧ x < a + 2 then byteOf v (x - a) else m x

/-- Read four bytes, low byte first. -/
def load32 (m : Mem) (a : Nat) : Nat :=
  (m a).toNat + 256 * (m (a + 1)).toNat + 65536 * (m (a + 2)).toNat +
    16777216 * (m (a + 3)).toNat

/-- Write four bytes, low byte first. -/
def store32 (m : Mem) (a v : Nat) : Mem := fun x =>
  if a ≤ x ∧ x < a + 4 then byteOf v (x - a) else m x

@[simp] theorem store8_same (m : Mem) (a : Nat) (v : UInt8) : store8 m a v a = v := by
  simp [store8]

@[simp] theorem store8_ne (m : Mem) {a x : Nat} (v : UInt8) (h : x ≠ a) :
    store8 m a v x = m x := by
  simp [store8, Function.update_of_ne h]

/-- A byte outside the written cell keeps its value. -/
theorem store16_frame (m : Mem) {a x : Nat} (v : Nat) (h : x < a ∨ a + 2 ≤ x) :
    store16 m a v x = m x := by
  have hout : ¬ (a ≤ x ∧ x < a + 2) := by omega
  simp [store16, hout]

/-- A byte outside the written cell keeps its value. -/
theorem store32_frame (m : Mem) {a x : Nat} (v : Nat) (h : x < a ∨ a + 4 ≤ x) :
    store32 m a v x = m x := by
  have hout : ¬ (a ≤ x ∧ x < a + 4) := by omega
  simp [store32, hout]

theorem load16_lt (m : Mem) (a : Nat) : load16 m a < 65536 := by
  have h0 := (m a).toNat_lt
  have h1 := (m (a + 1)).toNat_lt
  simp only [load16]
  omega

theorem load32_lt (m : Mem) (a : Nat) : load32 m a < 4294967296 := by
  have h0 := (m a).toNat_lt
  have h1 := (m (a + 1)).toNat_lt
  have h2 := (m (a + 2)).toNat_lt
  have h3 := (m (a + 3)).toNat_lt
  simp only [load32]
  omega

/-- A load depends on the bytes of its cell only. -/
theorem load16_congr {m m' : Mem} {a : Nat} (h : ∀ x, a ≤ x → x < a + 2 → m' x = m x) :
    load16 m' a = load16 m a := by
  simp only [load16, h a (by omega) (by omega), h (a + 1) (by omega) (by omega)]

/-- A load depends on the bytes of its cell only. -/
theorem load32_congr {m m' : Mem} {a : Nat} (h : ∀ x, a ≤ x → x < a + 4 → m' x = m x) :
    load32 m' a = load32 m a := by
  simp only [load32, h a (by omega) (by omega), h (a + 1) (by omega) (by omega),
    h (a + 2) (by omega) (by omega), h (a + 3) (by omega) (by omega)]

@[simp] theorem load16_store16 (m : Mem) (a v : Nat) :
    load16 (store16 m a v) a = v % 65536 := by
  have h0 : store16 m a v a = byteOf v 0 := by simp [store16]
  have h1 : store16 m a v (a + 1) = byteOf v 1 := by simp [store16]
  simp only [load16, h0, h1, byteOf_toNat]
  omega

theorem load16_store8_apart (m : Mem) {a b : Nat} (v : UInt8) (h : b < a ∨ a + 2 ≤ b) :
    load16 (store8 m b v) a = load16 m a :=
  load16_congr fun x hlo hhi => store8_ne m v (by omega)

theorem load16_store16_apart (m : Mem) {a b : Nat} (v : Nat) (h : b + 2 ≤ a ∨ a + 2 ≤ b) :
    load16 (store16 m b v) a = load16 m a :=
  load16_congr fun x hlo hhi => store16_frame m v (by omega)

@[simp] theorem load32_store32 (m : Mem) (a v : Nat) :
    load32 (store32 m a v) a = v % 4294967296 := by
  have h0 : store32 m a v a = byteOf v 0 := by simp [store32]
  have h1 : store32 m a v (a + 1) = byteOf v 1 := by simp [store32]
  have h2 : store32 m a v (a + 2) = byteOf v 2 := by simp [store32]
  have h3 : store32 m a v (a + 3) = byteOf v 3 := by simp [store32]
  simp only [load32, h0, h1, h2, h3, byteOf_toNat]
  omega

/-- The bytes of a word put together from four bytes. -/
theorem byteOf_word (b : Nat → UInt8) {i : Nat} (hi : i < 4) :
    byteOf ((b 0).toNat + 256 * (b 1).toNat + 65536 * (b 2).toNat + 16777216 * (b 3).toNat) i =
      b i := by
  have digit (d₀ d₁ d₂ d₃ : Nat) (h₀ : d₀ < 256) (h₁ : d₁ < 256) (h₂ : d₂ < 256)
      (h₃ : d₃ < 256) :
      (d₀ + 256 * d₁ + 65536 * d₂ + 16777216 * d₃) % 256 = d₀ ∧
      (d₀ + 256 * d₁ + 65536 * d₂ + 16777216 * d₃) / 256 % 256 = d₁ ∧
      (d₀ + 256 * d₁ + 65536 * d₂ + 16777216 * d₃) / 65536 % 256 = d₂ ∧
      (d₀ + 256 * d₁ + 65536 * d₂ + 16777216 * d₃) / 16777216 % 256 = d₃ := by omega
  have hd := digit _ _ _ _ (b 0).toNat_lt (b 1).toNat_lt (b 2).toNat_lt (b 3).toNat_lt
  apply UInt8.toNat_inj.mp
  rw [byteOf_toNat]
  obtain rfl | rfl | rfl | rfl : i = 0 ∨ i = 1 ∨ i = 2 ∨ i = 3 := by omega
  · simpa using hd.1
  · exact hd.2.1
  · exact hd.2.2.1
  · exact hd.2.2.2

/-- Two memories that give the same words at a cell agree on its bytes. -/
theorem eq_of_load32_eq {m m' : Mem} {a : Nat} (h : load32 m' a = load32 m a) :
    ∀ i, i < 4 → m' (a + i) = m (a + i) := by
  have b0 := (m a).toNat_lt
  have b1 := (m (a + 1)).toNat_lt
  have b2 := (m (a + 2)).toNat_lt
  have b3 := (m (a + 3)).toNat_lt
  have c0 := (m' a).toNat_lt
  have c1 := (m' (a + 1)).toNat_lt
  have c2 := (m' (a + 2)).toNat_lt
  have c3 := (m' (a + 3)).toNat_lt
  simp only [load32] at h
  intro i hi
  apply UInt8.toNat_inj.mp
  obtain rfl | rfl | rfl | rfl : i = 0 ∨ i = 1 ∨ i = 2 ∨ i = 3 := by omega
  · rw [Nat.add_zero]
    omega
  all_goals omega

/-- Storing what was loaded elsewhere copies the four bytes. -/
theorem store32_load32 (m : Mem) (dst : Nat) (src : Mem) (s x : Nat) :
    store32 m dst (load32 src s) x =
      if dst ≤ x ∧ x < dst + 4 then src (s + (x - dst)) else m x := by
  by_cases hin : dst ≤ x ∧ x < dst + 4
  · have hload : load32 (store32 m dst (load32 src s)) dst = load32 src s := by
      rw [load32_store32, Nat.mod_eq_of_lt (load32_lt src s)]
    have hshift : load32 (fun y => src (s + (y - dst))) dst = load32 src s := by
      simp [load32]
    have hbytes := eq_of_load32_eq (hload.trans hshift.symm) (x - dst) (by omega)
    have hx : dst + (x - dst) = x := by omega
    rw [hx] at hbytes
    rw [if_pos hin]
    exact hbytes
  · rw [if_neg hin, store32_frame m _ (by omega)]

/-! ## Ranges -/

/-- Copy `n` bytes of `src` from `s` to address `dst`. -/
def blit (m : Mem) (dst : Nat) (src : Mem) (s n : Nat) : Mem := fun x =>
  if dst ≤ x ∧ x < dst + n then src (s + (x - dst)) else m x

/-- Set `n` bytes from `dst` to `v`. -/
def fill (m : Mem) (dst n : Nat) (v : UInt8) : Mem := fun x =>
  if dst ≤ x ∧ x < dst + n then v else m x

theorem blit_inside (m : Mem) {dst x : Nat} (src : Mem) (s : Nat) {n : Nat}
    (hlo : dst ≤ x) (hhi : x < dst + n) : blit m dst src s n x = src (s + (x - dst)) := by
  simp [blit, hlo, hhi]

theorem blit_frame (m : Mem) {dst x : Nat} (src : Mem) (s : Nat) {n : Nat}
    (h : x < dst ∨ dst + n ≤ x) : blit m dst src s n x = m x := by
  have hout : ¬ (dst ≤ x ∧ x < dst + n) := by omega
  simp [blit, hout]

/-- A copied byte, by its place in the range. -/
theorem blit_at (m : Mem) (dst : Nat) (src : Mem) (s : Nat) {n k : Nat} (hk : k < n) :
    blit m dst src s n (dst + k) = src (s + k) := by
  rw [blit_inside m src s (Nat.le_add_right dst k) (Nat.add_lt_add_left hk dst),
    Nat.add_sub_cancel_left]

/-- A copied half-word. -/
theorem load16_blit_at {m src : Mem} {dst s n k : Nat} (hk : k + 2 ≤ n) :
    load16 (blit m dst src s n) (dst + k) = load16 src (s + k) := by
  simp only [load16, Nat.add_assoc]
  rw [blit_at m dst src s (by omega), blit_at m dst src s (by omega)]

/-- A half-word outside of a copied range. -/
theorem load16_blit_apart {m src : Mem} {dst s n a : Nat} (h : a + 2 ≤ dst ∨ dst + n ≤ a) :
    load16 (blit m dst src s n) a = load16 m a :=
  load16_congr fun x hlo hhi => blit_frame m src s (by omega)

theorem fill_inside (m : Mem) {dst x n : Nat} (v : UInt8) (hlo : dst ≤ x)
    (hhi : x < dst + n) : fill m dst n v x = v := by
  simp [fill, hlo, hhi]

theorem fill_frame (m : Mem) {dst x n : Nat} (v : UInt8) (h : x < dst ∨ dst + n ≤ x) :
    fill m dst n v x = m x := by
  have hout : ¬ (dst ≤ x ∧ x < dst + n) := by omega
  simp [fill, hout]

/-- Nothing is set. -/
@[simp] theorem fill_zero (m : Mem) (dst : Nat) (v : UInt8) : fill m dst 0 v = m :=
  funext fun x => fill_frame m v (by omega)

/-- Two ranges, one behind the other, are one. -/
theorem fill_append (m : Mem) (dst n k : Nat) (v : UInt8) :
    fill (fill m dst n v) (dst + n) k v = fill m dst (n + k) v := by
  funext x
  by_cases hlast : dst + n ≤ x ∧ x < dst + n + k
  · rw [fill_inside _ v hlast.1 hlast.2, fill_inside m v (by omega) (by omega)]
  · rw [fill_frame _ v (by omega)]
    by_cases hfirst : dst ≤ x ∧ x < dst + n
    · rw [fill_inside m v hfirst.1 hfirst.2, fill_inside m v hfirst.1 (by omega)]
    · rw [fill_frame m v (by omega), fill_frame m v (by omega)]

/-- A stored byte is a range of one. -/
theorem store8_eq_fill (m : Mem) (a : Nat) (v : UInt8) : store8 m a v = fill m a 1 v := by
  funext x
  by_cases hx : x = a
  · rw [hx, store8_same, fill_inside m v (Nat.le_refl a) (by omega)]
  · rw [store8_ne m v hx, fill_frame m v (by omega)]

/-- A stored word with four equal bytes is a range of four. -/
theorem store32_eq_fill (m : Mem) (a : Nat) (v : UInt8) :
    store32 m a (v.toNat + 256 * v.toNat + 65536 * v.toNat + 16777216 * v.toNat) =
      fill m a 4 v := by
  funext x
  by_cases hx : a ≤ x ∧ x < a + 4
  · rw [fill_inside m v hx.1 hx.2]
    simp only [store32, hx, and_self, if_true]
    exact byteOf_word (fun _ => v) (by omega)
  · rw [store32_frame m _ (by omega), fill_frame m v (by omega)]

/-- Nothing is copied. -/
@[simp] theorem blit_zero (m : Mem) (dst : Nat) (src : Mem) (s : Nat) : blit m dst src s 0 = m :=
  funext fun x => blit_frame m src s (by omega)

/-- Two copied ranges, one behind the other, are one. -/
theorem blit_append (m : Mem) (dst : Nat) (src : Mem) (s n k : Nat) :
    blit (blit m dst src s n) (dst + n) src (s + n) k = blit m dst src s (n + k) := by
  funext x
  by_cases hlast : dst + n ≤ x ∧ x < dst + n + k
  · rw [blit_inside _ src _ hlast.1 hlast.2, blit_inside m src s (by omega) (by omega)]
    congr 1
    omega
  · rw [blit_frame _ src _ (by omega)]
    by_cases hfirst : dst ≤ x ∧ x < dst + n
    · rw [blit_inside m src s hfirst.1 hfirst.2, blit_inside m src s hfirst.1 (by omega)]
    · rw [blit_frame m src s (by omega), blit_frame m src s (by omega)]

/-- A copied byte is a range of one. -/
theorem store8_eq_blit (m : Mem) (a : Nat) (src : Mem) (s : Nat) :
    store8 m a (src s) = blit m a src s 1 := by
  funext x
  by_cases hx : x = a
  · rw [hx, store8_same, blit_inside m src s (Nat.le_refl a) (by omega), Nat.sub_self,
      Nat.add_zero]
  · rw [store8_ne m _ hx, blit_frame m src s (by omega)]

/-- A copied word is a range of four. -/
theorem store32_eq_blit (m : Mem) (a : Nat) (src : Mem) (s : Nat) :
    store32 m a (load32 src s) = blit m a src s 4 :=
  funext fun x => store32_load32 m a src s x

/-- What is copied may be read behind copies to a range apart from it. -/
theorem blit_source {m src src' : Mem} {dst s n : Nat}
    (h : ∀ k, k < n → src' (s + k) = src (s + k)) :
    blit m dst src' s n = blit m dst src s n := by
  funext x
  by_cases hx : dst ≤ x ∧ x < dst + n
  · rw [blit_inside m src' s hx.1 hx.2, blit_inside m src s hx.1 hx.2, h _ (by omega)]
  · rw [blit_frame m src' s (by omega), blit_frame m src s (by omega)]

/-- A word that is copied keeps its value. -/
theorem load32_copy {m d : Mem} {a b : Nat} (h : ∀ i, i < 4 → m (a + i) = d (b + i)) :
    load32 m a = load32 d b := by
  have h₀ := h 0 (by decide)
  simp only [Nat.add_zero] at h₀
  simp only [load32, h₀, h 1 (by decide), h 2 (by decide), h 3 (by decide)]

/-- A copied word. -/
theorem load32_blit_at {m src : Mem} {dst s n k : Nat} (hk : k + 4 ≤ n) :
    load32 (blit m dst src s n) (dst + k) = load32 src (s + k) := by
  refine load32_copy fun i hi => ?_
  rw [Nat.add_assoc, Nat.add_assoc]
  exact blit_at m dst src s (by omega)

/-- Writing back a block that was edited in another place. -/
theorem blit_edited {d d' m : Mem} {dst a n : Nat} (hin : ∀ k, k < n → m (a + k) = d' (dst + k))
    (hout : ∀ x, x < dst ∨ dst + n ≤ x → d' x = d x) : blit d dst m a n = d' := by
  funext x
  by_cases hx : x < dst ∨ dst + n ≤ x
  · rw [blit_frame _ _ _ hx, hout x hx]
  · rw [blit_inside _ _ _ (by omega) (by omega), hin _ (by omega), Nat.add_sub_of_le (by omega)]

/-- Storing a word in a copy of a block is like storing it in the block. -/
theorem store32_copy {m d : Mem} {a b i k : Nat} (v : Nat) (h : m (a + k) = d (b + k)) :
    store32 m (a + i) v (a + k) = store32 d (b + i) v (b + k) := by
  have hsub : a + k - (a + i) = b + k - (b + i) := by omega
  have hiff : (a + i ≤ a + k ∧ a + k < a + i + 4) ↔ (b + i ≤ b + k ∧ b + k < b + i + 4) := by
    omega
  simp only [store32, hsub, hiff, h]

end Bytes
