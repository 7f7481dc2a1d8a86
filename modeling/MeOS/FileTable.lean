import MeOS.PageCache
import Mathlib.Data.List.Basic

/-! # `vector.h` and the tables of `open_file_table.cpp`

The entries of a vector live in an array of `rSize` reserved cells, the first
`count` of them in use. `data` lists the cells in use. Allocation succeeds,
except that `realloc` to 0 bytes gives a null pointer, on which
`vector_reserve` calls `PANIC`.

The table functions find their entry by index or by node. `lft_insert` and
`gft_insert` choose the place of a new entry in the same way.
-/

namespace MeOS

/-! ## `vector<T>` -/

/-- `vector<T>`. -/
structure Vector (α : Type) where
  data : List α
  rSize : Nat
deriving Repr, DecidableEq

namespace Vector

variable {α : Type}

/-- `v->count`. -/
def count (v : Vector α) : Nat := v.data.length

/-- Store `x` at `index`. -/
def put (v : Vector α) (index : Nat) (x : α) : Vector α :=
  { v with data := v.data.set index x }

/-- Change the entry at `index`. -/
def modify (v : Vector α) (index : Nat) (f : α → α) : Vector α :=
  { v with data := v.data.modify index f }

/-- The array has room for what it holds, and its size is a word. -/
structure Fits (v : Vector α) : Prop where
  le : v.count ≤ v.rSize
  word : v.rSize < 4294967296

end Vector

section

variable {α : Type}

/-- `vector_init`. -/
def vectorInit (initialLength : Nat) : Vector α :=
  ⟨[], if initialLength = 0 then 1 else initialLength⟩

/-- `vector_reserve`. -/
def vectorReserve (v : Vector α) (numElements : Nat) : Outcome (Vector α) :=
  if numElements = 0 then .panic else .ret { v with rSize := numElements }

/-- The first part of `vector_insert_back`: a full array is made larger. -/
def vectorGrow (v : Vector α) : Outcome (Vector α) :=
  if v.count = v.rSize then vectorReserve v (mul32 2 v.count) else .ret v

/-- `vector_insert_back`. -/
def vectorInsertBack (v : Vector α) (x : α) : Outcome (Vector α) := do
  let v ← vectorGrow v
  if v.count < v.rSize then .ret { v with data := v.data ++ [x] } else .undefined

/-- `vector_find_first`. -/
def vectorFindFirst (v : Vector α) (fp : α → Bool) : Nat :=
  (v.data.findIdx? fp).getD invalidFd

/-- The body of `lft_insert` and of `gft_insert`: the entry goes past the last one, or in the
place of an invalid one, or in a larger array. -/
def tableInsert (v : Vector α) (isInvalid : α → Bool) (entry : α) : Outcome (Vector α × Nat) :=
  if v.count < v.rSize ∨ vectorFindFirst v isInvalid ≥ v.rSize then do
    let v ← vectorInsertBack v entry
    let index := v.count - 1
    .ret (v.put index entry, index)
  else
    let index := vectorFindFirst v isInvalid
    .ret (v.put index entry, index)

end

/-! ## Local file tables -/

/-- `local_file_entry`. -/
structure Lfe where
  flags : Nat
  gfd : Nat
deriving Repr, DecidableEq

/-- `create_lfe`. -/
def createLfe (gfd flags : Nat) : Lfe := { flags := flags, gfd := gfd }

/-- `lfe_is_invalid`. -/
def lfeIsInvalid (e : Lfe) : Bool := e.gfd == invalidFd

/-- `lft_insert`. -/
def lftInsert (gft : Vector Gfe) (lft : Vector Lfe) (entry : Lfe) : Outcome (Vector Lfe × Nat) :=
  if entry.gfd ≥ gft.count then .ret (lft, invalidFd) else tableInsert lft lfeIsInvalid entry

/-- `VFS_CAP_NONE`. -/
abbrev vfsCapNone : Nat := 1

/-- `lft_remove`. -/
def lftRemove (lft : Vector Lfe) (index : Nat) : Vector Lfe × ErrorT :=
  if index ≥ lft.count then (lft, .occur)
  else (lft.modify index fun _ => { flags := vfsCapNone, gfd := invalidFd }, .ok)

/-- `lft_get`. -/
def lftGet (lft : Vector Lfe) (index : Nat) : Option Lfe := lft.data[index]?

/-! ## The global file table -/

/-- `create_gfe`. -/
def createGfe (file : Nat) : Gfe := { fileNode := file, openCount := 0, pages := [] }

/-- `gft_insert`. -/
def gftInsert (gft : Vector Gfe) (entry : Gfe) : Outcome (Vector Gfe × Nat) :=
  tableInsert gft gfeIsInvalid entry

/-- `gft_get_n`. -/
def gftGetN (gft : Vector Gfe) (node : Nat) : Nat :=
  (gft.data.findIdx? fun e => e.fileNode == node).getD invalidFd

/-- `gft[index].open_count++`. -/
def gftOpen (gft : Vector Gfe) (index : Nat) : Vector Gfe :=
  gft.modify index fun e => { e with openCount := add32 e.openCount 1 }

/-- `gft_insert_s`. -/
def gftInsertS (gft : Vector Gfe) (entry : Gfe) : Outcome (Vector Gfe × Nat) := do
  let entryIndex := gftGetN gft entry.fileNode
  let (gft, entryIndex) ←
    (if entryIndex = invalidFd then gftInsert gft entry else .ret (gft, entryIndex))
  .ret (gftOpen gft entryIndex, entryIndex)

/-- `gft_remove`. -/
def gftRemove (gft : Vector Gfe) (index : Nat) : Vector Gfe × ErrorT :=
  if index ≥ gft.count then (gft, .occur)
  else (gft.modify index fun e => { e with fileNode := 0, openCount := 0 }, .ok)

/-- `gft_get`. -/
def gftAt (gft : Vector Gfe) (index : Nat) : Option Gfe := gft.data[index]?

/-- `gfe_increase_open_count`. -/
def gfeIncreaseOpenCount (gft : Vector Gfe) (index : Nat) : Vector Gfe × ErrorT :=
  match gftAt gft index with
  | none => (gft, .occur)
  | some entry => if gfeIsInvalid entry then (gft, .occur) else (gftOpen gft index, .ok)

/-- `gfe_decrement_open_count`. -/
def gfeDecrementOpenCount (gft : Vector Gfe) (index : Nat) : Vector Gfe × ErrorT :=
  match gftAt gft index with
  | none => (gft, .occur)
  | some entry =>
    if gfeIsInvalid entry then (gft, .occur)
    else (gft.modify index fun e => { e with openCount := sub32 e.openCount 1 }, .ok)

/-! ## Vectors -/

section Vectors

variable {α : Type} {v v' : Vector α} {x : α} {fp : α → Bool} {i j : Nat}

@[simp] theorem put_count : (v.put i x).count = v.count := by
  simp [Vector.put, Vector.count]

@[simp] theorem modify_count {f : α → α} : (v.modify i f).count = v.count := by
  simp [Vector.modify, Vector.count]

theorem modify_same {f : α → α} (h : v.data[i]? = some x) :
    (v.modify i f).data[i]? = some (f x) := by
  unfold Vector.modify
  rw [List.getElem?_modify_eq, h]
  rfl

theorem modify_other {f : α → α} (hij : i ≠ j) : (v.modify i f).data[j]? = v.data[j]? := by
  unfold Vector.modify
  rw [List.getElem?_modify_ne _ _ hij]

theorem lt_count_iff : i < v.count ↔ ∃ x, v.data[i]? = some x := by
  unfold Vector.count
  constructor
  · intro hi
    exact ⟨_, List.getElem?_eq_getElem hi⟩
  · intro ⟨x, hx⟩
    exact (List.getElem?_eq_some_iff.mp hx).1

/-- A search that fails has looked at every entry. -/
theorem findFirst_none (h : v.data.findIdx? fp = none) (hi : v.data[i]? = some x) :
    fp x = false := by
  have hall := List.findIdx?_eq_none_iff.mp h
  have := hall x (List.mem_of_getElem? hi)
  simpa using this

/-- What a search finds is an entry of its kind. -/
theorem findFirst_some (h : v.data.findIdx? fp = some i) :
    ∃ x, v.data[i]? = some x ∧ fp x = true ∧ i < v.count := by
  rcases List.findIdx?_eq_some_iff_getElem.mp h with ⟨hlt, hfp, _⟩
  exact ⟨_, List.getElem?_eq_getElem hlt, hfp, hlt⟩

/-- The entries stay when the array is made larger. -/
theorem vectorGrow_spec (h : vectorGrow v = .ret v') (hv : v.Fits) :
    v'.data = v.data ∧ v'.rSize < 4294967296 := by
  unfold vectorGrow at h
  by_cases hfull : v.count = v.rSize
  · rw [if_pos hfull] at h
    unfold vectorReserve at h
    by_cases hzero : mul32 2 v.count = 0
    · rw [if_pos hzero] at h
      cases h
    · rw [if_neg hzero] at h
      cases h
      exact ⟨rfl, mul32_lt _ _⟩
  · rw [if_neg hfull] at h
    cases h
    exact ⟨rfl, hv.word⟩

/-- `vector_insert_back` puts the entry past the last one. -/
theorem vectorInsertBack_spec (h : vectorInsertBack v x = .ret v') (hv : v.Fits) :
    v'.data = v.data ++ [x] ∧ v'.Fits := by
  unfold vectorInsertBack at h
  rcases Outcome.bind_eq_ret.mp h with ⟨u, hu, hrest⟩
  rcases vectorGrow_spec hu hv with ⟨hdata, hword⟩
  by_cases hroom : u.count < u.rSize
  · rw [if_pos hroom] at hrest
    cases hrest
    refine ⟨by rw [← hdata], ⟨?_, hword⟩⟩
    unfold Vector.count at hroom ⊢
    rw [List.length_append, List.length_singleton]
    exact hroom
  · rw [if_neg hroom] at hrest
    cases hrest

/-- An array that is not half of the address space can be made larger. -/
theorem vectorGrow_returns (hv : v.Fits) (hpos : 0 < v.rSize) (hsmall : v.count < 2147483648) :
    ∃ v', vectorGrow v = .ret v' ∧ v'.count < v'.rSize := by
  have hle := hv.le
  unfold vectorGrow
  by_cases hfull : v.count = v.rSize
  · have hmul : mul32 2 v.count = 2 * v.count := mul32_eq (by omega)
    have hne : 2 * v.count ≠ 0 := by omega
    have hroom : v.count < 2 * v.count := by omega
    unfold vectorReserve
    rw [if_pos hfull, hmul, if_neg hne]
    exact ⟨_, rfl, hroom⟩
  · rw [if_neg hfull]
    exact ⟨v, rfl, by omega⟩

/-- `vector_insert_back` returns while the array is not half of the address space. -/
theorem vectorInsertBack_returns (hv : v.Fits) (hpos : 0 < v.rSize)
    (hsmall : v.count < 2147483648) : ∃ v', vectorInsertBack v x = .ret v' := by
  rcases vectorGrow_returns hv hpos hsmall with ⟨u, hu, hroom⟩
  unfold vectorInsertBack
  rw [hu, Outcome.ret_bind, if_pos hroom]
  exact ⟨_, rfl⟩

/-- Where an entry was put: past the last one, or in the place of an invalid one. -/
structure Inserted (v : Vector α) (isInvalid : α → Bool) (entry : α) (v' : Vector α) (i : Nat) :
    Prop where
  fresh : v.data[i]? = none ∨ ∃ x, v.data[i]? = some x ∧ isInvalid x = true
  same : v'.data[i]? = some entry
  other : ∀ j, j ≠ i → v'.data[j]? = v.data[j]?
  fits : v'.Fits

/-- The place that `lft_insert` and `gft_insert` choose. -/
theorem tableInsert_spec {isInvalid : α → Bool} (h : tableInsert v isInvalid x = .ret (v', i))
    (hv : v.Fits) : Inserted v isInvalid x v' i := by
  unfold tableInsert at h
  by_cases hback : v.count < v.rSize ∨ vectorFindFirst v isInvalid ≥ v.rSize
  · rw [if_pos hback] at h
    rcases Outcome.bind_eq_ret.mp h with ⟨u, hu, hrest⟩
    rcases vectorInsertBack_spec hu hv with ⟨hdata, hfits⟩
    dsimp only at hrest
    have hcount : u.count = v.count + 1 := by
      unfold Vector.count
      rw [hdata, List.length_append, List.length_singleton]
    have hput : u.put (u.count - 1) x = u := by
      have hset : u.data.set (u.count - 1) x = u.data := by
        rw [hcount, hdata]
        unfold Vector.count
        simp
      unfold Vector.put
      rw [hset]
    rw [hput, hcount] at hrest
    cases hrest
    refine ⟨Or.inl ?_, ?_, ?_, hfits⟩
    · unfold Vector.count
      simp
    · rw [hdata]
      unfold Vector.count
      simp
    · intro j hj
      rw [hdata]
      rcases Nat.lt_trichotomy j v.data.length with hlt | heq | hgt
      · exact List.getElem?_append_left hlt
      · exact absurd heq hj
      · rw [List.getElem?_eq_none (by simp; omega), List.getElem?_eq_none (by omega)]
  · rw [if_neg hback] at h
    cases h
    rw [not_or] at hback
    -- a search that finds nothing answers with an index past every array
    have hword := hv.word
    cases hfind : v.data.findIdx? isInvalid with
    | none =>
      have hnone : vectorFindFirst v isInvalid = 4294967295 := by
        unfold vectorFindFirst
        rw [hfind]
        rfl
      omega
    | some k =>
      have hk : vectorFindFirst v isInvalid = k := by
        unfold vectorFindFirst
        rw [hfind]
        rfl
      rw [hk]
      rcases findFirst_some hfind with ⟨y, hy, hinv, hlt⟩
      refine ⟨Or.inr ⟨y, hy, hinv⟩, ?_, ?_, ?_⟩
      · exact List.getElem?_set_self hlt
      · intro j hj
        exact List.getElem?_set_ne (Ne.symm hj)
      · refine ⟨?_, hword⟩
        rw [put_count]
        exact hv.le

/-- An entry is put somewhere while the array is not half of the address space. -/
theorem tableInsert_returns (x : α) (isInvalid : α → Bool) (hv : v.Fits) (hpos : 0 < v.rSize)
    (hsmall : v.count < 2147483648) : ∃ v' i, tableInsert v isInvalid x = .ret (v', i) := by
  unfold tableInsert
  by_cases hback : v.count < v.rSize ∨ vectorFindFirst v isInvalid ≥ v.rSize
  · rcases vectorInsertBack_returns (x := x) hv hpos hsmall with ⟨u, hu⟩
    rw [if_pos hback, hu, Outcome.ret_bind]
    exact ⟨_, _, rfl⟩
  · rw [if_neg hback]
    exact ⟨_, _, rfl⟩

/-- An array that is searched for a place for one more entry is not left without room. -/
theorem Inserted.rSize_pos {isInvalid : α → Bool} (h : Inserted v isInvalid x v' i) :
    0 < v'.rSize := by
  have hlt : i < v'.count := lt_count_iff.mpr ⟨x, h.same⟩
  have := h.fits.le
  omega

end Vectors

end MeOS
