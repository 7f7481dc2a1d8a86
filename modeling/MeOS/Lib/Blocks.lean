import MeOS.Lib.Bytes

/-! # Files of blocks

A file is a list of places in a memory, and its content the blocks of `n` bytes there.
When no block of a file lies over another, writing a block replaces one block of one file,
and every other byte stays.
-/

namespace Blocks

open Bytes

variable {β : Type*} {n a b i p s : Nat} {m m' src : Mem} {places : List Nat}

/-- The `n` bytes at `a`. -/
def block (n : Nat) (m : Mem) (a : Nat) : Fin n → UInt8 := fun k => m (a + k)

/-- Blocks of `n` bytes at the two places share no byte. -/
def Apart (n a b : Nat) : Prop := a + n ≤ b ∨ b + n ≤ a

/-- The blocks at the places. -/
def content (n : Nat) (m : Mem) (places : List Nat) : List (Fin n → UInt8) :=
  places.map (block n m)

/-- The byte at `x` is one of a block. -/
def Covers (n : Nat) (places : List Nat) (x : Nat) : Prop := ∃ a ∈ places, a ≤ x ∧ x < a + n

/-! ## Writing a block -/

@[simp] theorem length_content : (content n m places).length = places.length :=
  List.length_map _

theorem getElem?_content : (content n m places)[i]? = (places[i]?).map (block n m) :=
  List.getElem?_map

theorem block_congr (h : ∀ x, a ≤ x → x < a + n → m' x = m x) : block n m' a = block n m a := by
  funext k
  have hk := k.isLt
  exact h _ (by omega) (by omega)

/-- Only the bytes it covers matter to a content. -/
theorem content_congr (h : ∀ x, Covers n places x → m' x = m x) :
    content n m' places = content n m places := by
  refine List.map_congr_left fun a ha => block_congr fun x hlo hhi => ?_
  exact h x ⟨a, ha, hlo, hhi⟩

theorem block_blit_self : block n (blit m a src s n) a = block n src s := by
  funext k
  exact blit_at m a src s k.isLt

theorem block_blit_apart (h : Apart n a b) : block n (blit m a src s n) b = block n m b := by
  refine block_congr fun x hlo hhi => blit_frame m src s ?_
  unfold Apart at h
  omega

/-- A block written at another place is not seen. -/
theorem content_blit_apart (h : ∀ b ∈ places, Apart n a b) :
    content n (blit m a src s n) places = content n m places :=
  List.map_congr_left fun b hb => block_blit_apart (h b hb)

/-- A block written at one of the places is replaced. -/
theorem content_blit_at (hi : places[i]? = some a)
    (h : ∀ j b, places[j]? = some b → j ≠ i → Apart n a b) :
    content n (blit m a src s n) places = (content n m places).set i (block n src s) := by
  apply List.ext_getElem?
  intro j
  rw [getElem?_content, List.getElem?_set, getElem?_content, length_content]
  by_cases hj : i = j
  · subst hj
    have hlt := (List.getElem?_eq_some_iff.mp hi).1
    rw [if_pos rfl, if_pos hlt, hi, Option.map_some, block_blit_self]
  · rw [if_neg hj]
    cases hb : places[j]? with
    | none => rfl
    | some b =>
      rw [Option.map_some, Option.map_some, block_blit_apart (h j b hb fun h => hj h.symm)]

theorem blit_outside {x : Nat} (ha : a ∈ places) (h : ¬ Covers n places x) :
    blit m a src s n x = m x := by
  refine blit_frame m src s ?_
  by_contra hin
  exact h ⟨a, ha, by omega, by omega⟩

/-! ## Writing several blocks -/

/-- The elements of a list from index `p` on are replaced by `new`. -/
def overwrite (l : List β) (p : Nat) : List β → List β
  | [] => l
  | x :: xs => overwrite (l.set p x) (p + 1) xs

section Overwrite

variable {l new : List β}

theorem overwrite_concat (x : β) :
    overwrite l p (new ++ [x]) = (overwrite l p new).set (p + new.length) x := by
  induction new generalizing l p with
  | nil => rfl
  | cons y ys ih =>
    rw [List.cons_append, overwrite, overwrite, ih, List.length_cons]
    congr 1
    omega

@[simp] theorem length_overwrite : (overwrite l p new).length = l.length := by
  induction new generalizing l p with
  | nil => rfl
  | cons y ys ih => rw [overwrite, ih, List.length_set]

/-- In front of the new elements and behind them the list is as it was. -/
theorem getElem?_overwrite_outside (h : i < p ∨ p + new.length ≤ i) :
    (overwrite l p new)[i]? = l[i]? := by
  induction new generalizing l p with
  | nil => rfl
  | cons y ys ih =>
    rw [List.length_cons] at h
    rw [overwrite, ih (by omega), List.getElem?_set_ne (by omega)]

/-- The new elements. -/
theorem getElem?_overwrite_inside (hroom : p + new.length ≤ l.length) (hi : i < new.length) :
    (overwrite l p new)[p + i]? = new[i]? := by
  induction new generalizing l p i with
  | nil => exact absurd hi (Nat.not_lt_zero i)
  | cons y ys ih =>
    rw [List.length_cons] at hroom hi
    rw [overwrite]
    cases i with
    | zero =>
      rw [getElem?_overwrite_outside (by omega), Nat.add_zero, List.getElem?_cons_zero]
      exact List.getElem?_set_self (by omega)
    | succ i =>
      have hindex : p + (i + 1) = p + 1 + i := by omega
      rw [List.getElem?_cons_succ, hindex]
      exact ih (by rw [List.length_set]; omega) (by omega)

/-- What was written is what is found. -/
theorem take_drop_overwrite (hroom : p + new.length ≤ l.length) :
    ((overwrite l p new).drop p).take new.length = new := by
  apply List.ext_getElem?
  intro i
  by_cases hi : i < new.length
  · rw [List.getElem?_take_of_lt hi, List.getElem?_drop, getElem?_overwrite_inside hroom hi]
  · rw [List.getElem?_take_eq_none (by omega), List.getElem?_eq_none (by omega)]

/-- A range apart from what is written stays. -/
theorem take_drop_overwrite_apart {q k : Nat} (h : q + k ≤ p ∨ p + new.length ≤ q) :
    ((overwrite l p new).drop q).take k = (l.drop q).take k := by
  apply List.ext_getElem?
  intro i
  by_cases hi : i < k
  · rw [List.getElem?_take_of_lt hi, List.getElem?_take_of_lt hi, List.getElem?_drop,
      List.getElem?_drop, getElem?_overwrite_outside (by omega)]
  · rw [List.getElem?_take_eq_none (by omega), List.getElem?_take_eq_none (by omega)]

end Overwrite

end Blocks
