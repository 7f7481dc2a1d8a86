import MeOS.Types
import Mathlib.Data.List.Perm.Basic

/-! # `ordered_vector.h`: vectors kept in ascending order

The elements live in an array of `rSize` reserved cells, the first `count` of
them in use. `data` lists the cells in use: a read behind them is outside what
the source defines. Allocation succeeds, except that `realloc` to 0 bytes gives
a null pointer.
-/

namespace MeOS

/-- `ordered_vector<T>`. -/
structure OrderedVector (α : Type) where
  data : List α
  rSize : Nat
deriving Repr, DecidableEq

namespace OrderedVector

variable {α : Type}

/-- `v->count`. -/
def count (v : OrderedVector α) : Nat := v.data.length

end OrderedVector

section

variable {α : Type}

/-- `ordered_vector_init`. -/
def orderedVectorInit : OrderedVector α := ⟨[], 1⟩

/-- `ordered_vector_reserve`. -/
def orderedVectorReserve (v : OrderedVector α) (numElements : Nat) :
    Outcome (OrderedVector α) :=
  if numElements = 0 then .panic else .ret { v with rSize := numElements }

/-- The loop of `ordered_vector_insert`: shift larger elements up by one cell,
from cell `i - 1` down, and put `x` in the cell that is left. -/
def insertShift [LT α] [DecidableLT α] (x : α) : List α → Nat → List α
  | buf, 0 => buf.set 0 x
  | buf, i + 1 =>
    match buf[i]? with
    | some y => if x < y then insertShift x (buf.set (i + 1) y) i else buf.set (i + 1) x
    | none => buf

/-- `ordered_vector_insert`. -/
def orderedVectorInsert [LT α] [DecidableLT α] (v : OrderedVector α) (x : α) :
    Outcome (OrderedVector α) := do
  let v ← if v.count = v.rSize then orderedVectorReserve v (mul32 2 v.count) else pure v
  -- cell `count` is written first, whatever it held
  if v.count < v.rSize then
    pure { v with data := insertShift x (v.data ++ [x]) v.count }
  else .undefined

/-- The loop of `ordered_vector_remove`: `n` times `data[i] = data[i + 1]`. -/
def removeShift : List α → Nat → Nat → List α
  | buf, _, 0 => buf
  | buf, i, n + 1 =>
    match buf[i + 1]? with
    | some y => removeShift (buf.set i y) (i + 1) n
    | none => buf

/-- `ordered_vector_remove`. -/
def orderedVectorRemove (v : OrderedVector α) (index : Nat) : OrderedVector α × Bool :=
  if index ≥ v.count then
    (v, false)
  else
    let count := v.count - 1
    ({ v with data := (removeShift v.data index (count - index)).take count }, true)

/-- How a binary search ends: at an element, or with crossed bounds. -/
inductive SearchEnd where
  | found (mid : Nat)
  | crossed (first last : Nat)
deriving Repr, DecidableEq

/-- The search loop of the source on unsigned indices; `cmp` says how an element
compares to the target. -/
def searchLoop (cmp : α → Ordering) (data : List α) : Nat → Nat → Nat → Outcome SearchEnd
  | 0, _, _ => .running
  | fuel + 1, first, last =>
    if first ≤ last then
      let mid := add32 first last / 2
      match data[mid]? with
      | none => .undefined
      | some y =>
        match cmp y with
        | .lt => searchLoop cmp data fuel (add32 mid 1) last
        | .gt => searchLoop cmp data fuel first (sub32 mid 1)
        | .eq => .ret (.found mid)
    else .ret (.crossed first last)

/-- The search over a whole vector. -/
def search (cmp : α → Ordering) (v : OrderedVector α) : Outcome SearchEnd :=
  searchLoop cmp v.data (v.count + 1) 0 (sub32 v.count 1)

/-- `(uint32)-1`. -/
abbrev notFound : Nat := 4294967295

/-- `ordered_vector_find`. -/
def orderedVectorFind [LT α] [DecidableLT α] (v : OrderedVector α) (x : α) : Outcome Nat := do
  match ← search (fun y => if x < y then .gt else if y < x then .lt else .eq) v with
  | .found mid => pure mid
  | .crossed _ _ => pure notFound

end

/-! ## Insertion and removal -/

section Shift

variable {α : Type} {pre post : List α} {x y : α}

/-- The insertion loop puts `x` behind the last element that is not larger. -/
theorem insertShift_eq [LT α] [DecidableLT α] (hpost : ∀ y ∈ post, x < y)
    (hpre : ∀ y ∈ pre.getLast?, ¬ x < y) (s : α) (tail : List α) :
    insertShift x (pre ++ post ++ s :: tail) (pre.length + post.length) =
      pre ++ x :: (post ++ tail) := by
  induction post using List.reverseRecOn generalizing s tail with
  | nil =>
    rcases List.eq_nil_or_concat' pre with rfl | ⟨front, z, rfl⟩
    · simp [insertShift]
    · have hz : ¬ x < z := hpre z (by simp)
      have hlen : (front ++ [z]).length + ([] : List α).length = front.length + 1 := by simp
      rw [hlen, insertShift]
      simp [hz, List.set_append_right]
  | append_singleton rest q ih =>
    have hq : x < q := hpost q (by simp)
    have hlen : pre.length + (rest ++ [q]).length = pre.length + rest.length + 1 := by
      simp [Nat.add_assoc]
    have hget : (pre ++ (rest ++ [q]) ++ s :: tail)[pre.length + rest.length]? = some q := by
      simp
    have hset : (pre ++ (rest ++ [q]) ++ s :: tail).set (pre.length + rest.length + 1) q =
        pre ++ rest ++ q :: (q :: tail) := by
      have hsplit : pre ++ (rest ++ [q]) ++ s :: tail = (pre ++ rest ++ [q]) ++ s :: tail := by
        simp
      rw [hsplit, List.set_append_right _ _ (by simp; omega)]
      simp [Nat.add_assoc]
    rw [hlen, insertShift]
    simp only [hget, hq, if_true, hset]
    rw [ih fun y hy => hpost y (by simp [hy])]
    simp

/-- The removal loop moves the rest of the elements down by one cell. -/
theorem removeShift_eq (pre : List α) (y : α) (post : List α) :
    ∃ z, removeShift (pre ++ y :: post) pre.length post.length = pre ++ post ++ [z] := by
  induction post generalizing pre y with
  | nil => exact ⟨y, by simp [removeShift]⟩
  | cons c cs ih =>
    obtain ⟨z, hz⟩ := ih (pre ++ [c]) c
    refine ⟨z, ?_⟩
    have hget : (pre ++ y :: c :: cs)[pre.length + 1]? = some c := by
      simp
    have hset : (pre ++ y :: c :: cs).set pre.length c = (pre ++ [c]) ++ c :: cs := by
      simp
    simp only [List.length_cons, removeShift, hget, hset]
    simpa using hz

/-- A cell written over its right neighbour, then left out, leaves the neighbour out. -/
theorem eraseIdx_set_succ (buf : List α) (i : Nat) (h : i + 1 < buf.length) :
    (buf.set (i + 1) buf[i]).eraseIdx i = buf.eraseIdx (i + 1) := by
  induction buf generalizing i with
  | nil => rfl
  | cons b rest ih =>
    cases i with
    | zero =>
      cases rest with
      | nil => simp at h
      | cons c rest => rfl
    | succ i => simpa using ih i (by simpa using h)

/-- Whatever the order of the buffer, the insertion loop puts `x` in place of the
element it starts at. -/
theorem insertShift_perm [LT α] [DecidableLT α] (buf : List α) (i : Nat) (h : i < buf.length) :
    (insertShift x buf i).Perm (x :: buf.eraseIdx i) := by
  induction i generalizing buf with
  | zero => exact List.set_perm_cons_eraseIdx h x
  | succ i ih =>
    have hi : i < buf.length := by omega
    unfold insertShift
    rw [List.getElem?_eq_getElem hi]
    dsimp only
    split
    · have hset := ih (buf.set (i + 1) buf[i]) (by rw [List.length_set]; exact hi)
      rwa [eraseIdx_set_succ buf i h] at hset
    · exact List.set_perm_cons_eraseIdx h x

end Shift

section Specs

variable {α : Type} {v : OrderedVector α} {pre post : List α} {x y : α}

/-- `ordered_vector_insert` into a vector with a reserved cell. -/
theorem orderedVectorInsert_eq [LT α] [DecidableLT α] (hdata : v.data = pre ++ post)
    (hpost : ∀ y ∈ post, x < y) (hpre : ∀ y ∈ pre.getLast?, ¬ x < y)
    (hpos : 0 < v.rSize) (hcount : v.count ≤ v.rSize) (hlt : v.count < 2147483648) :
    ∃ rSize, orderedVectorInsert v x = .ret ⟨pre ++ x :: post, rSize⟩ ∧
      v.count < rSize := by
  have hshift : insertShift x (v.data ++ [x]) v.count = pre ++ x :: post := by
    have h := insertShift_eq hpost hpre x []
    simpa [OrderedVector.count, hdata] using h
  by_cases hfull : v.count = v.rSize
  · have hmul : mul32 2 v.count = 2 * v.count := mul32_eq (by omega)
    have hne : ¬ 2 * v.count = 0 := by omega
    have hroom : v.count < 2 * v.count := by omega
    refine ⟨2 * v.count, ?_, hroom⟩
    have hcell : ({ v with rSize := 2 * v.count } : OrderedVector α).count = v.count := rfl
    simp [orderedVectorInsert, orderedVectorReserve, hfull.symm, hmul, hne, hcell, hroom, hshift]
  · have hroom : v.count < v.rSize := by omega
    refine ⟨v.rSize, ?_, hroom⟩
    simp [orderedVectorInsert, hfull, hroom, hshift]

/-- `ordered_vector_remove` of an element. -/
theorem orderedVectorRemove_eq (hdata : v.data = pre ++ y :: post) :
    orderedVectorRemove v pre.length = (⟨pre ++ post, v.rSize⟩, true) := by
  obtain ⟨z, hz⟩ := removeShift_eq pre y post
  have hcount : v.count = pre.length + post.length + 1 := by
    simp [OrderedVector.count, hdata, Nat.add_assoc]
  have hlt : ¬ pre.length ≥ pre.length + post.length + 1 := by omega
  have hsteps : pre.length + post.length + 1 - 1 - pre.length = post.length := by omega
  have htake : pre.length + post.length + 1 - 1 = (pre ++ post).length := by simp
  simp only [orderedVectorRemove, hcount, if_neg hlt, hsteps, hdata, hz]
  rw [htake, List.take_left]

/-- `ordered_vector_insert` that returns has added `x`, in whatever order the
elements stood. -/
theorem orderedVectorInsert_perm [LT α] [DecidableLT α] {w : OrderedVector α}
    (h : orderedVectorInsert v x = .ret w) :
    w.data.Perm (x :: v.data) ∧ w.count ≤ w.rSize ∧
      (v.rSize < 4294967296 → w.rSize < 4294967296) := by
  have hshift : (insertShift x (v.data ++ [x]) v.count).Perm (x :: v.data) := by
    have hperm := insertShift_perm (x := x) (v.data ++ [x]) v.count (by
      simp [OrderedVector.count])
    rwa [show (v.data ++ [x]).eraseIdx v.count = v.data by
      simp [OrderedVector.count, List.eraseIdx_append_of_length_le]] at hperm
  have hcount : (insertShift x (v.data ++ [x]) v.count).length = v.count + 1 := by
    rw [hshift.length_eq]
    rfl
  -- the vector after the reservation holds the same elements
  have hplace : ∀ r, (if v.count < r then
      (.ret { data := insertShift x (v.data ++ [x]) v.count, rSize := r } : Outcome _)
        else .undefined) = .ret w → w.data.Perm (x :: v.data) ∧ w.count ≤ w.rSize ∧ w.rSize = r := by
    intro r hr
    split at hr
    · next hlt =>
        cases hr
        refine ⟨hshift, ?_, rfl⟩
        show (insertShift x (v.data ++ [x]) v.count).length ≤ r
        omega
    · cases hr
  unfold orderedVectorInsert at h
  by_cases hfull : v.count = v.rSize
  · rw [if_pos hfull] at h
    unfold orderedVectorReserve at h
    split at h
    · cases h
    · obtain ⟨hperm, hroom, hsize⟩ := hplace _ h
      refine ⟨hperm, hroom, fun _ => ?_⟩
      rw [hsize]
      exact mul32_lt 2 v.count
  · rw [if_neg hfull] at h
    obtain ⟨hperm, hroom, hsize⟩ := hplace _ h
    exact ⟨hperm, hroom, fun hlt => hsize ▸ hlt⟩

/-- `ordered_vector_remove` takes out the element at the index, if there is one. -/
theorem orderedVectorRemove_eraseIdx {index : Nat} (h : index < v.count) :
    orderedVectorRemove v index = ({ v with data := v.data.eraseIdx index }, true) := by
  have hindex : index < v.data.length := h
  have hsplit : v.data = v.data.take index ++ v.data[index] :: v.data.drop (index + 1) := by
    rw [List.cons_getElem_drop_succ, List.take_append_drop]
  have hlen : (v.data.take index).length = index := by
    rw [List.length_take]
    exact Nat.min_eq_left (Nat.le_of_lt h)
  have hremove := orderedVectorRemove_eq hsplit
  rw [hlen] at hremove
  rw [hremove, List.eraseIdx_eq_take_drop_succ]

/-! ## Search -/

variable {cmp : α → Ordering} {fuel first last : Nat}

/-- The middle of a range of indices that do not wrap. -/
theorem mid_bounds (hle : first ≤ last) (hlast : last < 2147483648) :
    add32 first last / 2 = (first + last) / 2 ∧ first ≤ (first + last) / 2 ∧
      (first + last) / 2 ≤ last := by
  rw [add32_eq (by omega)]
  omega

/-- The search finds the one element that compares equal. -/
theorem searchLoop_found (hlt : ∀ z ∈ pre, cmp z = .lt) (heq : cmp y = .eq)
    (hgt : ∀ z ∈ post, cmp z = .gt) (hfirst : first ≤ pre.length) (hlast : pre.length ≤ last)
    (hin : last < (pre ++ y :: post).length) (hsmall : last < 2147483648)
    (hfuel : last + 1 - first < fuel) :
    searchLoop cmp (pre ++ y :: post) fuel first last = .ret (.found pre.length) := by
  induction fuel generalizing first last with
  | zero => omega
  | succ fuel ih =>
    have hle : first ≤ last := by omega
    obtain ⟨hmid, hlo, hhi⟩ := mid_bounds hle hsmall
    rw [searchLoop, if_pos hle]
    simp only [hmid]
    -- the sought element is in front of the middle, at it, or behind it
    rcases Nat.lt_trichotomy ((first + last) / 2) pre.length with h | h | h
    · have hget : (pre ++ y :: post)[(first + last) / 2]? = some pre[(first + last) / 2] := by
        rw [List.getElem?_append_left h, List.getElem?_eq_getElem h]
      simp only [hget, hlt _ (List.getElem_mem h)]
      rw [add32_eq (by omega)]
      exact ih (by omega) hlast hin hsmall (by omega)
    · have hget : (pre ++ y :: post)[(first + last) / 2]? = some y := by
        rw [h]
        simp
      simp only [hget, heq]
      rw [h]
    · obtain ⟨j, hj⟩ : ∃ j, (first + last) / 2 = pre.length + 1 + j :=
        ⟨(first + last) / 2 - (pre.length + 1), by omega⟩
      have hjlt : j < post.length := by
        simp only [List.length_append, List.length_cons] at hin
        omega
      have hget : (pre ++ y :: post)[(first + last) / 2]? = some post[j] := by
        rw [hj, List.getElem?_append_right (by omega)]
        have hidx : pre.length + 1 + j - pre.length = j + 1 := by omega
        rw [hidx, List.getElem?_cons_succ, List.getElem?_eq_getElem hjlt]
      simp only [hget, hgt _ (List.getElem_mem hjlt)]
      rw [sub32_eq (by omega) (by omega)]
      exact ih hfirst (by omega) (by omega) (by omega) (by omega)

/-- With no element equal, the bounds cross around the place of the target,
given that there is an element below it. -/
theorem searchLoop_crossed (hlt : ∀ z ∈ pre, cmp z = .lt) (hgt : ∀ z ∈ post, cmp z = .gt)
    (hpos : 0 < pre.length) (hfirst : first ≤ pre.length) (hlast : pre.length ≤ last + 1)
    (hin : last < (pre ++ post).length) (hsmall : last < 2147483648)
    (hfuel : last + 1 - first < fuel) :
    searchLoop cmp (pre ++ post) fuel first last =
      .ret (.crossed pre.length (pre.length - 1)) := by
  induction fuel generalizing first last with
  | zero => omega
  | succ fuel ih =>
    by_cases hle : first ≤ last
    · obtain ⟨hmid, hlo, hhi⟩ := mid_bounds hle hsmall
      rw [searchLoop, if_pos hle]
      simp only [hmid]
      by_cases h : (first + last) / 2 < pre.length
      · have hget : (pre ++ post)[(first + last) / 2]? = some pre[(first + last) / 2] := by
          rw [List.getElem?_append_left h, List.getElem?_eq_getElem h]
        simp only [hget, hlt _ (List.getElem_mem h)]
        rw [add32_eq (by omega)]
        exact ih (by omega) hlast hin hsmall (by omega)
      · have hj : (first + last) / 2 - pre.length < post.length := by
          simp only [List.length_append] at hin
          omega
        have hget : (pre ++ post)[(first + last) / 2]? =
            some post[(first + last) / 2 - pre.length] := by
          rw [List.getElem?_append_right (by omega), List.getElem?_eq_getElem hj]
        simp only [hget, hgt _ (List.getElem_mem hj)]
        rw [sub32_eq (by omega) (by omega)]
        exact ih hfirst (by omega) (by omega) (by omega) (by omega)
    · -- the bounds have crossed: `first = last + 1` is the number of smaller elements
      have hf : first = pre.length := by omega
      have hl : last = pre.length - 1 := by omega
      rw [searchLoop, if_neg hle, hf, hl]

/-- `search` on a vector with an element that compares equal. -/
theorem search_found (hdata : v.data = pre ++ y :: post) (hlt : ∀ z ∈ pre, cmp z = .lt)
    (heq : cmp y = .eq) (hgt : ∀ z ∈ post, cmp z = .gt) (hsmall : v.count < 2147483648) :
    search cmp v = .ret (.found pre.length) := by
  have hcount : v.count = pre.length + post.length + 1 := by
    simp [OrderedVector.count, hdata, Nat.add_assoc]
  rw [search, sub32_eq (by omega) (by omega), hdata]
  refine searchLoop_found hlt heq hgt (by omega) (by omega) ?_ (by omega) (by omega)
  simp only [List.length_append, List.length_cons]
  omega

/-- `search` on a vector without one. -/
theorem search_crossed (hdata : v.data = pre ++ post) (hlt : ∀ z ∈ pre, cmp z = .lt)
    (hgt : ∀ z ∈ post, cmp z = .gt) (hpos : 0 < pre.length) (hsmall : v.count < 2147483648) :
    search cmp v = .ret (.crossed pre.length (pre.length - 1)) := by
  have hcount : v.count = pre.length + post.length := by
    simp [OrderedVector.count, hdata]
  rw [search, sub32_eq (by omega) (by omega), hdata]
  refine searchLoop_crossed hlt hgt hpos (by omega) (by omega) ?_ (by omega) (by omega)
  simp only [List.length_append]
  omega

/-- The search ends only at an element that compares equal. -/
theorem searchLoop_eq {mid : Nat} {data : List α}
    (h : searchLoop cmp data fuel first last = .ret (.found mid)) :
    ∃ y, data[mid]? = some y ∧ cmp y = .eq := by
  induction fuel generalizing first last with
  | zero => cases h
  | succ fuel ih =>
    rw [searchLoop] at h
    dsimp only at h
    split at h
    · split at h
      · cases h
      · next y hy =>
          split at h
          · exact ih h
          · exact ih h
          · next heq =>
              cases h
              exact ⟨y, hy, heq⟩
    · cases h

/-- `ordered_vector_find` gives the index of an element that is neither below nor
above, or no index. -/
theorem orderedVectorFind_eq [LT α] [DecidableLT α] {index : Nat}
    (h : orderedVectorFind v x = .ret index) :
    index = notFound ∨ ∃ y, v.data[index]? = some y ∧ ¬ x < y ∧ ¬ y < x := by
  unfold orderedVectorFind at h
  obtain ⟨stop, hstop, h⟩ := Outcome.bind_eq_ret.mp h
  cases stop with
  | found mid =>
    cases h
    obtain ⟨y, hy, hcmp⟩ := searchLoop_eq hstop
    refine Or.inr ⟨y, hy, ?_⟩
    by_cases h₁ : x < y
    · rw [if_pos h₁] at hcmp
      cases hcmp
    · by_cases h₂ : y < x
      · rw [if_neg h₁, if_pos h₂] at hcmp
        cases hcmp
      · exact ⟨h₁, h₂⟩
  | crossed first last =>
    cases h
    exact Or.inl rfl

end Specs

end MeOS
