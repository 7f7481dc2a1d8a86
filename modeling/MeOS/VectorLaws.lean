import MeOS.OrderedVector
import MeOS.Lib.SortedLists

/-! # The laws of ordered vectors

What `ordered_vector_find`, `ordered_vector_insert` and `ordered_vector_remove` do to vectors in
ascending order, for elements in any strict weak order. The search takes its bounds as unsigned
numbers: below the first element they wrap. An insertion into a full vector doubles its cells, also
if there are none of them, or too many.
-/

namespace MeOS.VectorLaws

open SortedLists

/-! ## Search -/

section

variable {α : Type} {v : OrderedVector α} {data : List α} {cmp : α → Ordering}
variable {fuel last size : Nat}

/-- With the upper bound in front of the first element the next read is outside of the vector. -/
theorem searchLoop_outside (hsmall : data.length < 2147483648) :
    searchLoop cmp data (fuel + 1) 0 (sub32 0 1) = .undefined := by
  have hnone : data[2147483647]? = none := List.getElem?_eq_none (by omega)
  rw [show sub32 0 1 = 4294967295 from rfl, searchLoop, if_pos (by decide),
    show add32 0 4294967295 / 2 = 2147483647 from rfl]
  simp only [hnone]

/-- Below all elements the upper bound comes there. -/
theorem searchLoop_wraps (hgt : ∀ z ∈ data, cmp z = .gt) (hlast : last < data.length)
    (hsmall : data.length < 2147483648) (hfuel : last + 2 ≤ fuel) :
    searchLoop cmp data fuel 0 last = .undefined := by
  induction fuel generalizing last with
  | zero => omega
  | succ fuel ih =>
    have hmid : add32 0 last / 2 = last / 2 := by
      rw [add32_eq (by omega), Nat.zero_add]
    have hin : last / 2 < data.length := by omega
    rw [searchLoop, if_pos (Nat.zero_le last)]
    simp only [hmid, List.getElem?_eq_getElem hin, hgt _ (List.getElem_mem hin)]
    rcases Nat.eq_zero_or_pos (last / 2) with hzero | hpos
    · obtain ⟨fuel, rfl⟩ : ∃ n, fuel = n + 1 := ⟨fuel - 1, by omega⟩
      rw [hzero]
      exact searchLoop_outside hsmall
    · rw [sub32_eq (by omega) (by omega)]
      exact ih (by omega) (by omega)

/-- So it does in an empty vector. -/
theorem search_below (hgt : ∀ z ∈ v.data, cmp z = .gt) (hsmall : v.count < 2147483648) :
    search cmp v = .undefined := by
  have hcount : v.count = v.data.length := rfl
  unfold search
  rcases Nat.eq_zero_or_pos v.count with hzero | hpos
  · rw [hzero]
    exact searchLoop_outside (by omega)
  · rw [sub32_eq (by omega) (by omega)]
    exact searchLoop_wraps hgt (by omega) (by omega) (by omega)

/-- Different elements of `size` bytes each fill at most half of the addresses. -/
theorem count_lt (bytes : α → Fin (256 ^ size)) (hbytes : Function.Injective bytes)
    (hnodup : data.Nodup) (hmemory : data.length * size ≤ 4294967296) :
    data.length < 2147483648 := by
  by_cases hsize : size < 4
  · have hcard : (data.map bytes).length ≤ Fintype.card (Fin (256 ^ size)) :=
      (hnodup.map hbytes).length_le_card
    rw [List.length_map, Fintype.card_fin] at hcard
    calc data.length ≤ 256 ^ size := hcard
      _ ≤ 256 ^ 3 := Nat.pow_le_pow_right (by decide) (by omega)
      _ < 2147483648 := by decide
  · have hfour : data.length * 4 ≤ data.length * size := Nat.mul_le_mul_left _ (by omega)
    omega

end

section

variable {α : Type} [LT α] [DecidableLT α] {v : OrderedVector α} {x : α}

/-- `ordered_vector_find` ends within the elements, at the one that is neither below nor above the
target or, if there is none, with `(uint32)-1`. -/
def FindsRight (v : OrderedVector α) (x : α) : Prop :=
  ∃ index, orderedVectorFind v x = .ret index ∧
    (∀ i y, v.data[i]? = some y → ¬ y < x → ¬ x < y → index = i) ∧
    ((¬ ∃ y ∈ v.data, ¬ y < x ∧ ¬ x < y) → index = notFound)

/-- The comparison of the search. -/
def compareTo (x : α) : α → Ordering := fun y => if x < y then .gt else if y < x then .lt else .eq

theorem find_eq_search (v : OrderedVector α) (x : α) :
    orderedVectorFind v x = search (compareTo x) v >>= fun stop => match stop with
      | .found mid => .ret mid
      | .crossed _ _ => .ret notFound := rfl

theorem compareTo_gt {y : α} (h : x < y) : compareTo x y = .gt := if_pos h

theorem compareTo_eq {y : α} (h : ¬ x < y) (h' : ¬ y < x) : compareTo x y = .eq := by
  rw [compareTo, if_neg h, if_neg h']

variable [IsStrictWeakOrder α (· < ·)]

theorem compareTo_lt {y : α} (h : y < x) : compareTo x y = .lt := by
  rw [compareTo, if_neg (asymm h), if_pos h]

/-- With an element that is not above the target the search is right. -/
theorem findsRight_of_front {pre post : List α} (hsorted : v.data.Pairwise (· < ·))
    (hsmall : v.count < 2147483648) (hsplit : SplitsAt v.data x pre post) (hpre : pre ≠ []) :
    FindsRight v x := by
  have hdata := hsplit.eq
  have hback : ∀ z ∈ post, compareTo x z = .gt := fun z hz => compareTo_gt (hsplit.back z hz)
  rcases front_cases hsorted hsplit with hbelow | ⟨front, y, rfl, hfront, hxy, hyx⟩
  · have hsearch : search (compareTo x) v = .ret (.crossed pre.length (pre.length - 1)) :=
      search_crossed hdata (fun z hz => compareTo_lt (hbelow z hz)) hback
        (List.length_pos_iff.mpr hpre) hsmall
    have hnone : ∀ y ∈ v.data, ¬ y < x → ¬ x < y → False := by
      intro y hy hyx hxy
      rw [hdata] at hy
      rcases List.mem_append.mp hy with hy | hy
      · exact hyx (hbelow y hy)
      · exact hxy (hsplit.back y hy)
    refine ⟨notFound, by rw [find_eq_search, hsearch]; rfl, ?_, fun _ => rfl⟩
    intro i y hy hyx hxy
    exact (hnone y (List.mem_of_getElem? hy) hyx hxy).elim
  · have hsplit' : v.data = front ++ y :: post := by
      rw [hdata, List.append_assoc]
      rfl
    have hsearch : search (compareTo x) v = .ret (.found front.length) :=
      search_found hsplit' (fun z hz => compareTo_lt (hfront z hz)) (compareTo_eq hxy hyx) hback
        hsmall
    have hin : front.length < v.data.length := by
      rw [hsplit', List.length_append, List.length_cons]
      omega
    refine ⟨front.length, by rw [find_eq_search, hsearch]; rfl, ?_, fun hnone => ?_⟩
    · intro i z hz hzx hxz
      rw [hsplit'] at hz
      -- in front of it all elements are below the target, behind it above
      rcases Nat.lt_trichotomy i front.length with hlt | heq | hlt
      · rw [List.getElem?_append_left hlt] at hz
        exact absurd (hfront z (List.mem_of_getElem? hz)) hzx
      · exact heq.symm
      · rw [List.getElem?_append_right (Nat.le_of_lt hlt)] at hz
        obtain ⟨j, hj⟩ : ∃ j, i - front.length = j + 1 := ⟨i - front.length - 1, by omega⟩
        rw [hj, List.getElem?_cons_succ] at hz
        exact absurd (hsplit.back z (List.mem_of_getElem? hz)) hxz
    · exact absurd ⟨y, by rw [hsplit']; simp, hyx, hxy⟩ hnone

/-- The search is right exactly if some element is not above the target. -/
theorem findsRight_iff (v : OrderedVector α) (x : α) (size : Nat) (bytes : α → Fin (256 ^ size))
    (hbytes : Function.Injective bytes) (hmemory : v.data.length * size ≤ 4294967296)
    (hsorted : v.data.Pairwise (· < ·)) : FindsRight v x ↔ ∃ y ∈ v.data, ¬ x < y := by
  have hsmall : v.count < 2147483648 := count_lt bytes hbytes (nodup_of_lt hsorted) hmemory
  obtain ⟨pre, post, hsplit⟩ := (ascending_of_lt hsorted).split x
  by_cases hpre : pre = []
  · have hdata : v.data = post := by
      rw [hsplit.eq, hpre]
      rfl
    refine iff_of_false ?_ ?_
    · rintro ⟨index, hindex, _⟩
      rw [find_eq_search, search_below
        (fun z hz => compareTo_gt (hsplit.back z (hdata ▸ hz))) hsmall] at hindex
      cases hindex
    · rintro ⟨y, hy, hxy⟩
      exact hxy (hsplit.back y (hdata ▸ hy))
  · refine iff_of_true (findsRight_of_front hsorted hsmall hsplit hpre) ?_
    obtain ⟨y, front, rfl⟩ := List.exists_cons_of_ne_nil hpre
    refine ⟨y, ?_, hsplit.front y List.mem_cons_self⟩
    rw [hsplit.eq]
    exact List.mem_append_left _ List.mem_cons_self

/-- The value of a byte. -/
def byteValue (a : Fin 256) : Fin (256 ^ 1) := ⟨a.val, by have := a.isLt; omega⟩

theorem findsRight_iff_bytes :
    FindsRight (⟨[5, 7], 2⟩ : OrderedVector (Fin 256)) 7 ↔ ∃ y ∈ [(5 : Fin 256), 7], ¬ 7 < y :=
  findsRight_iff ⟨[5, 7], 2⟩ 7 1 byteValue
    (fun a b h => Fin.ext (congrArg (fun c : Fin (256 ^ 1) => c.val) h)) (by decide) (by decide)

/-- A target below all elements is searched for outside of the vector, and any target in an empty
one. -/
theorem find_fails : ¬ FindsRight (⟨[5, 7], 2⟩ : OrderedVector Nat) 3 ∧
    ¬ FindsRight (⟨[], 1⟩ : OrderedVector Nat) 3 := by
  have hbelow : orderedVectorFind (⟨[5, 7], 2⟩ : OrderedVector Nat) 3 = .undefined := by decide
  have hempty : orderedVectorFind (⟨[], 1⟩ : OrderedVector Nat) 3 = .undefined := by decide
  constructor
  · rintro ⟨index, hindex, _⟩
    rw [hbelow] at hindex
    cases hindex
  · rintro ⟨index, hindex, _⟩
    rw [hempty] at hindex
    cases hindex

end

/-! ## Insertion and removal -/

/-- A vector with all cells of the block that `data` points to. -/
structure VectorBlock (α : Type) where
  cells : List α
  count : Nat
  rSize : Nat
deriving Repr, DecidableEq

/-- The elements are in the first cells. -/
def VectorBlock.elements {α : Type} (v : VectorBlock α) : List α := v.cells.take v.count

/-- The vector without the other cells. -/
def VectorBlock.vector {α : Type} (v : VectorBlock α) : OrderedVector α := ⟨v.elements, v.rSize⟩

section

variable {α : Type}

/-- `ordered_vector_reserve`. What `realloc` leaves behind the old cells is not known; a block has
the cells that fit its bytes. -/
def vectorReserve (realloc : Nat → Bool) (junk : Nat → α) (size : Nat) (v : VectorBlock α)
    (numElements : Nat) : Outcome (VectorBlock α) :=
  let bytes := mul32 numElements size
  if realloc bytes then
    let room := bytes / size
    let fresh := (List.range' v.cells.length (room - v.cells.length)).map junk
    .ret { v with cells := v.cells.take room ++ fresh, rSize := numElements }
  else .panic

/-- The loop of `ordered_vector_insert` and the store behind it, with the cells written. -/
def insertLoop [LT α] [DecidableLT α] (x : α) :
    Nat → List α → List Nat → Outcome (List α × List Nat)
  | 0, cells, writes =>
    if 0 < cells.length then .ret (cells.set 0 x, writes ++ [0]) else .undefined
  | i + 1, cells, writes =>
    match cells[i]? with
    | none => .undefined
    | some y =>
      if i + 1 < cells.length then
        if x < y then insertLoop x i (cells.set (i + 1) y) (writes ++ [i + 1])
        else .ret (cells.set (i + 1) x, writes ++ [i + 1])
      else .undefined

/-- `ordered_vector_insert`. -/
def vectorInsert [LT α] [DecidableLT α] (realloc : Nat → Bool) (junk : Nat → α) (size : Nat)
    (v : VectorBlock α) (x : α) : Outcome (VectorBlock α × List Nat) := do
  let v ← if v.count = v.rSize then vectorReserve realloc junk size v (mul32 2 v.count)
    else .ret v
  let r ← insertLoop x v.count v.cells []
  .ret ({ v with cells := r.1, count := add32 v.count 1 }, r.2)

/-- The loop of `ordered_vector_remove`, with `n` turns left from cell `i` on. -/
def removeLoop : Nat → Nat → List α → List Nat → Outcome (List α × List Nat)
  | 0, _, cells, writes => .ret (cells, writes)
  | n + 1, i, cells, writes =>
    match cells[i + 1]? with
    | none => .undefined
    | some y => removeLoop n (i + 1) (cells.set i y) (writes ++ [i])

/-- `ordered_vector_remove`. -/
def vectorRemove (v : VectorBlock α) (index : Nat) : Outcome (VectorBlock α × Bool × List Nat) :=
  if index ≥ v.count then .ret (v, false, [])
  else do
    let count := v.count - 1
    let r ← removeLoop (count - index) index v.cells []
    .ret ({ v with cells := r.1, count := count }, true, r.2)

/-- A vector in ascending order, in a block of memory that has its reserved cells. -/
structure WellFormed [LT α] (size : Nat) (v : VectorBlock α) : Prop where
  count : v.count ≤ v.rSize
  cells : v.rSize ≤ v.cells.length
  bytes : 0 < size
  memory : v.rSize * size < 4294967296
  sorted : Ascending v.elements

/-- An insertion leaves an ascending vector with the element more, behind all that are not above
it, and writes reserved cells only. -/
def InsertsRight [LT α] [DecidableLT α] (realloc : Nat → Bool) (junk : Nat → α) (size : Nat)
    (v : VectorBlock α) (x : α) : Prop :=
  ∃ w writes, vectorInsert realloc junk size v x = .ret (w, writes) ∧
    Ascending w.elements ∧ w.elements.Perm (x :: v.elements) ∧
    (∃ pre post, SplitsAt v.elements x pre post ∧ w.elements = pre ++ x :: post) ∧
    w.count = v.count + 1 ∧ w.count ≤ w.rSize ∧ ∀ i ∈ writes, i < w.rSize

/-- A removal takes the element at the index out, or there is none and nothing changes. -/
def RemovesRight (v : VectorBlock α) (index : Nat) : Prop :=
  (index < v.count → ∃ w writes, vectorRemove v index = .ret (w, true, writes) ∧
    w.elements = v.elements.eraseIdx index ∧ w.count = v.count - 1 ∧ w.rSize = v.rSize ∧
    ∀ i ∈ writes, i < v.rSize) ∧
  (v.count ≤ index → vectorRemove v index = .ret (v, false, []))

/-- There is a reserved cell, or twice the cells can be had. -/
def HasRoom (size : Nat) (v : VectorBlock α) : Prop :=
  v.count < v.rSize ∨ 0 < v.count ∧ 2 * v.count * size < 4294967296

instance (size : Nat) (v : VectorBlock α) : Decidable (HasRoom size v) :=
  inferInstanceAs (Decidable (_ ∨ _))

variable {v : VectorBlock α} {cells : List α} {writes : List Nat} {x : α} {i n size index : Nat}
variable {realloc : Nat → Bool} {junk : Nat → α}

/-- The loop of the removal is the shift. -/
theorem removeLoop_eq (writes : List Nat) (h : i + n < cells.length) :
    ∃ new, removeLoop n i cells writes = .ret (removeShift cells i n, writes ++ new) ∧
      ∀ j ∈ new, j < i + n := by
  induction n generalizing i cells writes with
  | zero => exact ⟨[], by rw [List.append_nil]; rfl, nofun⟩
  | succ n ih =>
    have hin : i + 1 < cells.length := by omega
    obtain ⟨new, heq, hnew⟩ := @ih (cells.set i cells[i + 1]) (i + 1) (writes ++ [i])
      (by rw [List.length_set]; omega)
    refine ⟨i :: new, ?_, fun j hj => ?_⟩
    · simp only [removeLoop, removeShift, List.getElem?_eq_getElem hin]
      rw [heq, List.append_assoc]
      rfl
    · rcases List.mem_cons.mp hj with rfl | hj
      · omega
      · have := hnew j hj
        omega

/-- The cells behind the elements do not take part in the shift. -/
theorem removeShift_append (tail : List α) (h : i + n < cells.length) :
    removeShift (cells ++ tail) i n = removeShift cells i n ++ tail := by
  induction n generalizing i cells with
  | zero => rfl
  | succ n ih =>
    have hin : i + 1 < cells.length := by omega
    have hget : (cells ++ tail)[i + 1]? = some cells[i + 1] := by
      rw [List.getElem?_append_left hin, List.getElem?_eq_getElem hin]
    simp only [removeShift, hget, List.getElem?_eq_getElem hin]
    rw [List.set_append_left _ _ (by omega), ih (by rw [List.length_set]; omega)]

/-- The cells of a vector are its elements and the others. -/
theorem elements_length (hcount : v.count ≤ v.cells.length) : v.elements.length = v.count := by
  rw [VectorBlock.elements, List.length_take]
  exact Nat.min_eq_left hcount

/-- The loop of the insertion is the shift. -/
theorem insertLoop_eq [LT α] [DecidableLT α] (x : α) (writes : List Nat) (h : i < cells.length) :
    ∃ new, insertLoop x i cells writes = .ret (insertShift x cells i, writes ++ new) ∧
      ∀ j ∈ new, j ≤ i := by
  induction i generalizing cells writes with
  | zero => exact ⟨[0], by simp only [insertLoop, insertShift, if_pos h], by simp⟩
  | succ i ih =>
    have hin : i < cells.length := by omega
    simp only [insertLoop, insertShift, List.getElem?_eq_getElem hin, if_pos h]
    by_cases hlt : x < cells[i]
    · obtain ⟨new, heq, hnew⟩ := @ih (cells.set (i + 1) cells[i]) (writes ++ [i + 1])
        (by rw [List.length_set]; exact hin)
      refine ⟨(i + 1) :: new, ?_, fun j hj => ?_⟩
      · rw [if_pos hlt, if_pos hlt, heq, List.append_assoc]
        rfl
      · rcases List.mem_cons.mp hj with rfl | hj
        · exact Nat.le_refl _
        · exact (hnew j hj).trans (Nat.le_succ i)
    · refine ⟨[i + 1], ?_, fun j hj => ?_⟩
      · rw [if_neg hlt, if_neg hlt]
      · rw [List.mem_singleton.mp hj]

/-- With a cell behind the elements the new one gets to its place. -/
theorem insertLoop_places [LT α] [DecidableLT α] {pre post : List α}
    (hcount : v.count < cells.length) (hcells : cells.take v.count = v.elements)
    (hlength : v.elements.length = v.count) (hsplit : SplitsAt v.elements x pre post) :
    ∃ after new, insertLoop x v.count cells [] = .ret (after, new) ∧
      after.take (v.count + 1) = pre ++ x :: post ∧ ∀ j ∈ new, j ≤ v.count := by
  obtain ⟨new, heq, hnew⟩ := insertLoop_eq x [] hcount
  refine ⟨insertShift x cells v.count, new, heq, ?_, hnew⟩
  have hlen : pre.length + post.length = v.count := by
    rw [← hlength, hsplit.eq, List.length_append]
  have hform : cells = pre ++ post ++ cells[v.count] :: cells.drop (v.count + 1) := by
    rw [← hsplit.eq, ← hcells, List.cons_getElem_drop_succ, List.take_append_drop]
  have hshift : insertShift x cells v.count = pre ++ x :: (post ++ cells.drop (v.count + 1)) := by
    have h := insertShift_eq hsplit.back (fun y hy => hsplit.front y (List.mem_of_getLast? hy))
      cells[v.count] (cells.drop (v.count + 1))
    rwa [← hform, hlen] at h
  have hfront : v.count + 1 = (pre ++ x :: post).length := by
    simp only [List.length_append, List.length_cons]
    omega
  have hfree : pre ++ x :: (post ++ cells.drop (v.count + 1)) =
      pre ++ x :: post ++ cells.drop (v.count + 1) := by simp
  rw [hshift, hfree]
  exact List.take_left' hfront.symm

/-- With fewer cells than elements there is nothing to read, or nothing to write. -/
theorem insertLoop_short [LT α] [DecidableLT α] (h : cells.length ≤ i - 1) :
    insertLoop x i cells writes = .undefined := by
  cases i with
  | zero => simp only [insertLoop, if_neg (show ¬ 0 < cells.length by omega)]
  | succ i =>
    have hnone : cells[i]? = none := List.getElem?_eq_none (by omega)
    simp only [insertLoop, hnone]

/-- The block that the reservation gets has the cells that fit its bytes. -/
theorem vectorReserve_eq (junk : Nat → α) (v : VectorBlock α)
    (hrealloc : realloc (mul32 n size) = true) :
    ∃ fresh, vectorReserve realloc junk size v n =
        .ret { v with cells := v.cells.take (mul32 n size / size) ++ fresh, rSize := n } ∧
      (v.cells.take (mul32 n size / size) ++ fresh).length = mul32 n size / size := by
  refine ⟨_, if_pos hrealloc, ?_⟩
  rw [List.length_append, List.length_take, List.length_map, List.length_range']
  omega

section

variable [LT α] [DecidableLT α] {w : VectorBlock α} {pre post : List α}

/-- An insertion into cells of which one at least is free. -/
theorem vectorInsert_of_cells (hlength : v.elements.length = v.count) (hcount : w.count = v.count)
    (helements : w.elements = v.elements) (hroom : v.count < w.rSize)
    (hcells : w.rSize ≤ w.cells.length) (hsmall : w.rSize < 4294967296)
    (hsplit : SplitsAt v.elements x pre post)
    (hinsert : vectorInsert realloc junk size v x = (do
      let r ← insertLoop x w.count w.cells []
      .ret ({ w with cells := r.1, count := add32 w.count 1 }, r.2))) :
    ∃ u writes, vectorInsert realloc junk size v x = .ret (u, writes) ∧
      u.elements = pre ++ x :: post ∧ u.count = v.count + 1 ∧ u.rSize = w.rSize ∧
      ∀ j ∈ writes, j ≤ v.count := by
  rw [← hcount] at hlength hroom ⊢
  rw [← helements] at hsplit hlength
  obtain ⟨after, new, hloop, hafter, hnew⟩ :=
    insertLoop_places (hroom.trans_le hcells) rfl hlength hsplit
  have hadd : add32 w.count 1 = w.count + 1 := add32_eq (by omega)
  refine ⟨{ w with cells := after, count := w.count + 1 }, new, ?_, hafter, rfl, rfl, hnew⟩
  rw [hinsert, hloop, ← hadd]
  rfl

/-- What an insertion does if there is room. -/
theorem vectorInsert_eq (junk : Nat → α) (hv : WellFormed size v)
    (hrealloc : v.count = v.rSize → realloc (mul32 (mul32 2 v.count) size) = true)
    (h : HasRoom size v) (hsplit : SplitsAt v.elements x pre post) :
    ∃ u writes, vectorInsert realloc junk size v x = .ret (u, writes) ∧
      u.elements = pre ++ x :: post ∧ u.count = v.count + 1 ∧
      u.rSize = (if v.count = v.rSize then 2 * v.count else v.rSize) ∧
      ∀ j ∈ writes, j ≤ v.count := by
  have hlength := elements_length (hv.count.trans hv.cells)
  have hbytes : v.rSize * 1 ≤ v.rSize * size := Nat.mul_le_mul_left _ hv.bytes
  have hmemory := hv.memory
  by_cases hfull : v.count = v.rSize
  · obtain ⟨hpos, hfits⟩ : 0 < v.count ∧ 2 * v.count * size < 4294967296 :=
      h.resolve_left (by omega)
    have hcells : 2 * v.count * 1 ≤ 2 * v.count * size := Nat.mul_le_mul_left _ hv.bytes
    have hdouble : mul32 2 v.count = 2 * v.count := mul32_eq (by omega)
    have hblock : mul32 (2 * v.count) size / size = 2 * v.count := by
      rw [mul32_eq hfits, Nat.mul_div_cancel _ hv.bytes]
    obtain ⟨fresh, hreserve, hfresh⟩ := vectorReserve_eq junk v
      (hdouble ▸ hrealloc hfull)
    rw [hblock] at hreserve hfresh
    rw [if_pos hfull]
    refine vectorInsert_of_cells
      (w := { v with cells := v.cells.take (2 * v.count) ++ fresh, rSize := 2 * v.count })
      hlength rfl ?_ (show v.count < 2 * v.count by omega) (le_of_eq hfresh.symm)
      (show 2 * v.count < 4294967296 by omega) hsplit ?_
    · -- the elements are among the cells that are kept
      show (v.cells.take (2 * v.count) ++ fresh).take v.count = v.cells.take v.count
      have hle : v.count ≤ (v.cells.take (2 * v.count)).length := by
        have := hv.cells
        rw [List.length_take]
        omega
      rw [List.take_append_of_le_length hle, List.take_take, Nat.min_eq_left (by omega)]
    · unfold vectorInsert
      rw [if_pos hfull, hdouble, hreserve]
      rfl
  · have := hv.count
    rw [if_neg hfull]
    refine vectorInsert_of_cells (w := v) hlength rfl rfl (by omega) hv.cells (by omega) hsplit ?_
    unfold vectorInsert
    rw [if_neg hfull]
    rfl

/-- An insertion is right if there is room. -/
theorem insertsRight_of_room [IsStrictWeakOrder α (· < ·)] (hv : WellFormed size v)
    (hrealloc : v.count = v.rSize → realloc (mul32 (mul32 2 v.count) size) = true)
    (h : HasRoom size v) : InsertsRight realloc junk size v x := by
  obtain ⟨pre, post, hsplit⟩ := hv.sorted.split x
  obtain ⟨u, writes, hinsert, helements, hcount, hsize, hwrites⟩ :=
    vectorInsert_eq junk hv hrealloc h hsplit
  have hroom : v.count < u.rSize := by
    have hle := hv.count
    rw [hsize]
    split
    · next hfull =>
        have : 0 < v.count := (h.resolve_left (by omega)).1
        omega
    · omega
  refine ⟨u, writes, hinsert, ?_, ?_, ⟨pre, post, hsplit, helements⟩, hcount,
    hcount.trans_le hroom, fun j hj => (hwrites j hj).trans_lt hroom⟩
  · rw [helements]
    exact Ascending.insert hv.sorted hsplit
  · rw [helements]
    exact hsplit.perm

/-- Without room the block is too short for the elements. -/
theorem vectorInsert_noRoom (hv : WellFormed size v)
    (hrealloc : v.count = v.rSize → realloc (mul32 (mul32 2 v.count) size) = true)
    (h : ¬ HasRoom size v) : vectorInsert realloc junk size v x = .undefined := by
  have hfull : v.count = v.rSize := by
    have := hv.count
    have : ¬ v.count < v.rSize := fun hlt => h (.inl hlt)
    omega
  obtain ⟨fresh, hreserve, hfresh⟩ := vectorReserve_eq junk v (hrealloc hfull)
  have hshort : mul32 (mul32 2 v.count) size / size ≤ v.count - 1 := by
    have hmul : mul32 (mul32 2 v.count) size = 2 * v.count * size % 4294967296 := by
      rw [mul32, mul32, Nat.mod_mul_mod]
    have hmemory : v.count * size < 4294967296 := hfull ▸ hv.memory
    rcases Nat.eq_zero_or_pos v.count with hzero | hpos
    · rw [hmul, hzero]
      simp
    · -- the wrapped size is below that of the elements
      have hlarge : 4294967296 ≤ 2 * v.count * size :=
        Nat.not_lt.mp fun hlt => h (.inr ⟨hpos, hlt⟩)
      have hdouble : 2 * v.count * size = 2 * (v.count * size) := Nat.mul_assoc ..
      have hlt : mul32 (mul32 2 v.count) size / size < v.count :=
        Nat.div_lt_of_lt_mul (by rw [hmul, Nat.mul_comm size]; omega)
      omega
  unfold vectorInsert
  rw [if_pos hfull, hreserve]
  show (do let r ← insertLoop x v.count _ []; _) = _
  rw [insertLoop_short (hfresh.trans_le hshort)]
  rfl

end

/-- Removal is right in every vector. -/
theorem removesRight (hcount : v.count ≤ v.rSize) (hcells : v.rSize ≤ v.cells.length)
    (index : Nat) : RemovesRight v index := by
  constructor
  · intro hindex
    have hlength := elements_length (hcount.trans hcells)
    obtain ⟨new, hloop, hnew⟩ := removeLoop_eq [] (show index + (v.count - 1 - index) < v.cells.length by omega)
    -- the shift among the elements is that of the vector without the other cells
    have hshift : removeShift v.cells index (v.count - 1 - index) =
        removeShift v.elements index (v.count - 1 - index) ++ v.cells.drop v.count := by
      rw [← removeShift_append _ (by omega), VectorBlock.elements, List.take_append_drop]
    have hremove : orderedVectorRemove v.vector index =
        (⟨v.elements.eraseIdx index, v.rSize⟩, true) :=
      orderedVectorRemove_eraseIdx (v := v.vector) (by
        show index < v.elements.length
        omega)
    have herase : (removeShift v.elements index (v.count - 1 - index)).take (v.count - 1) =
        v.elements.eraseIdx index := by
      have hvector : v.vector.count = v.count := hlength
      have hdata := congrArg (fun r => r.1.data) hremove
      simp only [orderedVectorRemove, hvector, if_neg (Nat.not_le.mpr hindex)] at hdata
      exact hdata
    refine ⟨{ v with
      cells := removeShift v.cells index (v.count - 1 - index), count := v.count - 1 }, new,
      ?_, ?_, rfl, rfl, fun j hj => ?_⟩
    · simp only [vectorRemove, if_neg (Nat.not_le.mpr hindex), hloop]
      rfl
    · show (removeShift v.cells index (v.count - 1 - index)).take (v.count - 1) = _
      have hlong : v.count - 1 ≤
          (removeShift v.elements index (v.count - 1 - index)).length := by
        have hle := congrArg List.length herase
        rw [List.length_take, List.length_eraseIdx_of_lt (by omega), hlength] at hle
        omega
      rw [hshift, List.take_append_of_le_length hlong, herase]
    · have := hnew j hj
      omega
  · intro hindex
    exact if_pos hindex

section

variable [LT α] [DecidableLT α] [IsStrictWeakOrder α (· < ·)]

/-- Without the other cells this is the insertion into an `OrderedVector`. -/
theorem vectorInsert_vector (hv : WellFormed size v)
    (hrealloc : v.count = v.rSize → realloc (mul32 (mul32 2 v.count) size) = true)
    (h : HasRoom size v) : ∃ u writes, vectorInsert realloc junk size v x = .ret (u, writes) ∧
      orderedVectorInsert v.vector x = .ret u.vector := by
  obtain ⟨pre, post, hsplit⟩ := hv.sorted.split x
  obtain ⟨u, writes, hinsert, helements, _, hsize, _⟩ :=
    vectorInsert_eq junk hv hrealloc h hsplit
  refine ⟨u, writes, hinsert, ?_⟩
  have hlength := elements_length (hv.count.trans hv.cells)
  have hle := hv.count
  have hshift : insertShift x (v.elements ++ [x]) v.vector.count = pre ++ x :: post := by
    have hplace := insertShift_eq hsplit.back
      (fun y hy => hsplit.front y (List.mem_of_getLast? hy)) x []
    rw [← List.length_append, ← hsplit.eq, List.append_nil] at hplace
    exact hplace
  have hvector : v.vector.count = v.count := hlength
  have hcells : v.vector.rSize = v.rSize := rfl
  have hu : u.vector = ⟨pre ++ x :: post, if v.count = v.rSize then 2 * v.count else v.rSize⟩ := by
    rw [VectorBlock.vector, helements, hsize]
  unfold orderedVectorInsert
  rw [hvector, hcells]
  by_cases hfull : v.count = v.rSize
  · obtain ⟨hpos, hfits⟩ := h.resolve_left (by omega)
    have hbytes : 2 * v.count * 1 ≤ 2 * v.count * size := Nat.mul_le_mul_left _ hv.bytes
    have hdouble : mul32 2 v.count = 2 * v.count := mul32_eq (by omega)
    have hreserve : orderedVectorReserve v.vector (2 * v.count) =
        .ret { v.vector with rSize := 2 * v.count } := if_neg (by omega)
    rw [if_pos hfull] at hu
    rw [if_pos hfull, hdouble, hreserve, hu]
    show (if v.vector.count < 2 * v.count then _ else _) = _
    rw [if_pos (by omega)]
    exact congrArg (fun d => Outcome.ret (OrderedVector.mk d (2 * v.count))) hshift
  · rw [if_neg hfull] at hu
    rw [if_neg hfull, hu]
    show (if v.vector.count < v.rSize then _ else _) = _
    rw [if_pos (by omega)]
    exact congrArg (fun d => Outcome.ret (OrderedVector.mk d v.rSize)) hshift

/-- Insertion and removal are right if and only if the insertion finds a reserved cell, or doubles
cells whose bytes can be counted. -/
theorem insertRemove_iff (realloc : Nat → Bool) (junk : Nat → α) (size : Nat) (v : VectorBlock α)
    (x : α) (hv : WellFormed size v)
    (hrealloc : v.count = v.rSize → realloc (mul32 (mul32 2 v.count) size) = true) :
    (InsertsRight realloc junk size v x ∧ ∀ index, RemovesRight v index) ↔ HasRoom size v := by
  constructor
  · rintro ⟨⟨w, writes, hinsert, _⟩, _⟩
    by_contra h
    rw [vectorInsert_noRoom hv hrealloc h] at hinsert
    cases hinsert
  · intro h
    exact ⟨insertsRight_of_room hv hrealloc h, removesRight hv.count hv.cells⟩

end

theorem insertRemove_iff_full :
    (InsertsRight (fun n => decide (0 < n)) (fun _ => 0) 4 ⟨[5, 7, 7], 3, 3⟩ 7 ∧
      ∀ index, RemovesRight (⟨[5, 7, 7], 3, 3⟩ : VectorBlock Nat) index) ↔
    HasRoom 4 (⟨[5, 7, 7], 3, 3⟩ : VectorBlock Nat) :=
  insertRemove_iff _ _ 4 _ 7 ⟨by decide, by decide, by decide, by decide, by decide⟩
    (fun _ => by decide)

/-- A full vector of `2^29 + 1` words: the size of the doubled block wraps to 8 bytes. -/
def longVector : VectorBlock Nat := ⟨List.replicate 536870913 0, 536870913, 536870913⟩

/-- The insertion looks for the elements behind the 8 bytes. A vector without reserved cells, if
it gets a block of 0 bytes, has its element stored behind it. -/
theorem insert_fails :
    (WellFormed 4 longVector ∧
      ∀ x, ¬ InsertsRight (fun n => decide (0 < n)) (fun _ => 0) 4 longVector x) ∧
    ∀ x, ¬ InsertsRight (fun _ => true) (fun _ => 0) 4 ⟨[], 0, 0⟩ x := by
  have hlong : WellFormed 4 longVector := by
    refine ⟨Nat.le_refl _, ?_, by decide, by decide, ?_⟩
    · rw [longVector, List.length_replicate]
    · rw [longVector, VectorBlock.elements, List.take_replicate]
      exact List.pairwise_replicate.mpr (.inr (lt_irrefl 0))
  refine ⟨⟨hlong, ?_⟩, ?_⟩
  · rintro x ⟨w, writes, hinsert, _⟩
    rw [vectorInsert_noRoom hlong (fun _ => by decide) (by decide)] at hinsert
    cases hinsert
  · rintro x ⟨w, writes, hinsert, _⟩
    cases hinsert

end

end MeOS.VectorLaws
