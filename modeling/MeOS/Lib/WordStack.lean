import MeOS.Lib.Bytes

/-! # Stacks of words

A stack of 32-bit words in byte memory grows downwards, at addresses that wrap at
`size`. `Stacked size m a ws` says that the words `ws` lie from `a` upwards. As long as
the words fit in the address space, a push puts one in front, and a store into the stack
replaces one.
-/

namespace WordStack

open Bytes

/-- The address of word `i` of a stack that begins at `a`. -/
def slot (size a i : Nat) : Nat := (a + 4 * i) % size

/-- The address below `a`. -/
def below (size a : Nat) : Nat := (a + (size - 4)) % size

/-- A word of the address space. -/
structure Aligned (size a : Nat) : Prop where
  quads : size % 4 = 0
  lt : a < size
  quad : a % 4 = 0

/-- The words `ws` lie from `a` upwards. -/
def Stacked (size : Nat) (m : Mem) (a : Nat) (ws : List Nat) : Prop :=
  ∀ i w, ws[i]? = some w → load32 m (slot size a i) = w

section

variable {size a b i j v w : Nat} {m : Mem} {ws xs ys : List Nat}

/-! ## Addresses -/

theorem slot_zero (h : a < size) : slot size a 0 = a := by
  rw [slot, Nat.mul_zero, Nat.add_zero, Nat.mod_eq_of_lt h]

theorem slot_slot : slot size (slot size a i) j = slot size a (i + j) := by
  simp only [slot]
  rw [Nat.mod_add_mod]
  congr 1
  omega

theorem slot_below (h : 4 ≤ size) : slot size (below size a) (i + 1) = slot size a i := by
  simp only [slot, below]
  rw [Nat.mod_add_mod, show a + (size - 4) + 4 * (i + 1) = a + 4 * i + size by omega,
    Nat.add_mod_right]

theorem below_slot (h : 4 ≤ size) : below size (slot size a (i + 1)) = slot size a i := by
  simp only [slot, below]
  rw [Nat.mod_add_mod, show a + 4 * (i + 1) + (size - 4) = a + 4 * i + size by omega,
    Nat.add_mod_right]

theorem Aligned.slot (h : Aligned size a) (i : Nat) : Aligned size (slot size a i) where
  quads := h.quads
  lt := Nat.mod_lt _ (Nat.zero_lt_of_lt h.lt)
  quad := by
    have hdvd : 4 ∣ size := Nat.dvd_of_mod_eq_zero h.quads
    have hquad := h.quad
    rw [WordStack.slot, Nat.mod_mod_of_dvd _ hdvd]
    omega

theorem Aligned.below (h : Aligned size a) : Aligned size (below size a) where
  quads := h.quads
  lt := Nat.mod_lt _ (Nat.zero_lt_of_lt h.lt)
  quad := by
    have hdvd : 4 ∣ size := Nat.dvd_of_mod_eq_zero h.quads
    have hquad := h.quad
    have hquads := h.quads
    rw [WordStack.below, Nat.mod_mod_of_dvd _ hdvd]
    omega

/-- The words of a stack that fits have addresses of their own. -/
theorem slot_injective (hi : 4 * i < size) (hj : 4 * j < size)
    (h : slot size a i = slot size a j) : i = j := by
  have hmod : 4 * i ≡ 4 * j [MOD size] := Nat.ModEq.add_left_cancel' a h
  have heq := Nat.ModEq.eq_of_lt_of_lt hmod hi hj
  omega

/-! ## Words -/

/-- A store to another word. -/
theorem load32_store32_other (ha : a % 4 = 0) (hb : b % 4 = 0) (hne : a ≠ b) :
    load32 (store32 m b v) a = load32 m a := by
  refine load32_congr fun x hlo hhi => ?_
  exact store32_frame m v (by omega)

theorem Stacked.append (hx : Stacked size m a xs)
    (hy : Stacked size m (slot size a xs.length) ys) : Stacked size m a (xs ++ ys) := by
  intro i w hw
  by_cases hi : i < xs.length
  · rw [List.getElem?_append_left hi] at hw
    exact hx i w hw
  · rw [List.getElem?_append_right (by omega)] at hw
    have h := hy _ _ hw
    rw [slot_slot, Nat.add_sub_of_le (by omega)] at h
    exact h

/-- The words that are there already. -/
theorem stacked_loaded (m : Mem) (a n : Nat) :
    Stacked size m a ((List.range n).map fun i => load32 m (slot size a i)) := by
  intro i w hw
  rw [List.getElem?_map, Option.map_eq_some_iff] at hw
  obtain ⟨k, hk, rfl⟩ := hw
  obtain ⟨_, hik⟩ := List.getElem?_eq_some_iff.mp hk
  rw [List.getElem_range] at hik
  rw [hik]

/-- A store into a stack replaces a word. -/
theorem Stacked.store (h : Stacked size m a ws) (ha : Aligned size a)
    (hfit : 4 * ws.length ≤ size) (hi : i < ws.length) (hv : v < 4294967296) :
    Stacked size (store32 m (slot size a i) v) a (ws.set i v) := by
  intro j w hw
  by_cases hij : i = j
  · subst hij
    rw [List.getElem?_set_self hi] at hw
    cases hw
    rw [load32_store32, Nat.mod_eq_of_lt hv]
  · rw [List.getElem?_set_ne hij] at hw
    have hj : j < ws.length := (List.getElem?_eq_some_iff.mp hw).1
    have hne : slot size a j ≠ slot size a i := by
      intro heq
      exact hij (slot_injective (by omega) (by omega) heq).symm
    rw [load32_store32_other (ha.slot j).quad (ha.slot i).quad hne]
    exact h j w hw

/-- A push puts a word in front. -/
theorem Stacked.push (h : Stacked size m a ws) (ha : Aligned size a)
    (hfit : 4 * (ws.length + 1) ≤ size) (hv : v < 4294967296) :
    Stacked size (store32 m (below size a) v) (below size a) (v :: ws) := by
  have hbelow := ha.below
  -- whatever is below the stack, with the stack, is a stack that is one word longer
  have hlonger : Stacked size m (below size a) (load32 m (below size a) :: ws) := by
    intro i w hw
    cases i with
    | zero =>
      cases hw
      rw [slot_zero hbelow.lt]
    | succ i =>
      rw [slot_below (by omega)]
      exact h i w hw
  have hstore := hlonger.store hbelow (by simpa using hfit) (i := 0) (by simp) hv
  rw [slot_zero hbelow.lt] at hstore
  exact hstore

end

end WordStack
