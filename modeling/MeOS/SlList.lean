import MeOS.Types
import MeOS.Lib.Links
import MeOS.Lib.Queue

/-! # `list.h`

Singly linked lists. A node is allocated for each element that is inserted and
deleted when it is removed; where the new node is put is an argument here.
`SlHolds m l xs` says that the list object `l` holds exactly the nodes `xs`.
-/

namespace MeOS

open Links

variable {T : Type}

/-- The memory of `list_node`s: the fields of the node at each address. -/
structure SlNodes (T : Type) where
  data : Nat → T
  next : Nat → Nat

/-- `list`. -/
structure SlList where
  head : Nat
  tail : Nat
  count : Nat
deriving Repr, DecidableEq

/-- `node->next = a`. -/
def SlNodes.setNext (m : SlNodes T) (node a : Nat) : SlNodes T :=
  { m with next := Function.update m.next node a }

/-- `node->data = x`. -/
def SlNodes.setData (m : SlNodes T) (node : Nat) (x : T) : SlNodes T :=
  { m with data := Function.update m.data node x }

/-! ## The operations of the source -/

/-- `list_init`. -/
def listInit : SlList := { head := 0, tail := 0, count := 0 }

/-- `list_insert_back`; `node` is the address of the new node. -/
def listInsertBack (m : SlNodes T) (l : SlList) (node : Nat) (element : T) :
    SlNodes T × SlList :=
  let m := (m.setNext node 0).setData node element
  if l.count = 0 then
    (m, { head := node, tail := node, count := add32 l.count 1 })
  else
    (m.setNext l.tail node, { l with tail := node, count := add32 l.count 1 })

/-- `list_remove_front`. -/
def listRemoveFront (m : SlNodes T) (l : SlList) : SlList :=
  if l.count = 0 then
    l
  else
    let l := { l with head := m.next l.head, count := sub32 l.count 1 }
    if l.count = 0 then { l with head := 0, tail := 0 } else l

/-- The last part of `list_remove`: one element is its own tail, and none has no nodes. -/
def SlList.settle (l : SlList) : SlList :=
  if l.count = 1 then { l with tail := l.head }
  else if l.count = 0 then { l with head := 0, tail := 0 }
  else l

/-- `list_remove`: remove the node after `prev`. -/
def listRemove (m : SlNodes T) (l : SlList) (prev : Nat) : SlNodes T × SlList × Bool :=
  if prev = 0 then
    (m, l, false)
  else if l.count = 0 then
    (m, l, false)
  else if l.count = 1 then
    (m, listInit, true)
  else
    let temp := m.next prev
    let tail := if temp = l.tail then prev else l.tail
    let l := { l with tail := tail, count := sub32 l.count 1 }
    (m.setNext prev (m.next temp), l.settle, true)

/-- The nodes of a list in order, read off the memory. -/
def listNodes (m : SlNodes T) (l : SlList) : List Nat := walk m.next l.count l.head

/-! ## The nodes of a list -/

/-- The list object `l` holds the nodes `xs`. -/
structure SlHolds (m : SlNodes T) (l : SlList) (xs : List Nat) : Prop where
  count : l.count = xs.length
  seg : Seg m.next l.head xs 0
  tail : l.tail = xs.getLastD 0
  nodup : xs.Nodup
  addr : ∀ a ∈ xs, 0 < a ∧ a < 4294967296

section Specs

variable {m m' : SlNodes T} {l : SlList} {xs u v : List Nat} {n p t : Nat} {x : T}

theorem SlHolds.init : SlHolds m listInit [] where
  count := rfl
  seg := rfl
  tail := rfl
  nodup := List.nodup_nil
  addr := by
    intro a ha
    cases ha

theorem SlHolds.length_lt (h : SlHolds m l xs) : xs.length < 4294967296 :=
  length_lt_of_addr (by decide) h.nodup h.addr

/-- A list does not notice changes of nodes it does not hold. -/
theorem SlHolds.congr (h : SlHolds m l xs) (hn : ∀ a ∈ xs, m'.next a = m.next a) :
    SlHolds m' l xs where
  count := h.count
  seg := h.seg.congr hn
  tail := h.tail
  nodup := h.nodup
  addr := h.addr

/-- Reading the memory gives the nodes back. -/
theorem Seg.walk_eq {next : Nat → Nat} {a : Nat} (h : Seg next a xs 0) :
    walk next xs.length a = xs := by
  induction xs generalizing a with
  | nil => rfl
  | cons b xs ih =>
    rcases h with ⟨rfl, hrest⟩
    show a :: walk next xs.length (next a) = a :: xs
    rw [ih hrest]

theorem SlHolds.nodes_eq (h : SlHolds m l xs) : listNodes m l = xs := by
  unfold listNodes
  rw [h.count]
  exact Seg.walk_eq h.seg

/-- `list_insert_back` appends the new node. -/
theorem listInsertBack_spec (h : SlHolds m l xs) (hn : n ∉ xs)
    (haddr : 0 < n ∧ n < 4294967296) :
    ∃ m' l', listInsertBack m l n x = (m', l') ∧ SlHolds m' l' (xs ++ [n]) ∧
      m'.data = Function.update m.data n x ∧ ∀ a, a ∉ xs → a ≠ n → m'.next a = m.next a := by
  have hnodup : (xs ++ [n]).Nodup := Queue.nodup_push h.nodup hn
  have haddrs : ∀ a ∈ xs ++ [n], 0 < a ∧ a < 4294967296 := by
    intro a ha
    rcases List.mem_append.mp ha with hold | hnew
    · exact h.addr a hold
    · rw [List.mem_singleton.mp hnew]
      exact haddr
  have hcount : add32 l.count 1 = (xs ++ [n]).length := by
    have hlen := length_lt_of_addr (by decide) hnodup haddrs
    rw [List.length_append, List.length_singleton] at hlen ⊢
    rw [h.count, add32_eq (by omega)]
  cases xs using List.reverseRecOn with
  | nil =>
    have heq : listInsertBack m l n x =
        ((m.setNext n 0).setData n x, { head := n, tail := n, count := add32 l.count 1 }) := by
      have hzero : l.count = 0 := h.count
      unfold listInsertBack
      rw [if_pos hzero]
    refine ⟨_, _, heq, ?_, rfl, ?_⟩
    · constructor
      · exact hcount
      · refine ⟨rfl, ?_⟩
        exact Function.update_self _ _ _
      · rfl
      · exact hnodup
      · exact haddrs
    · intro a _ han
      exact Function.update_of_ne han _ _
  | append_singleton ys y _ =>
    have hpos : l.count ≠ 0 := by
      rw [h.count]
      simp
    have htail : l.tail = y := by
      rw [h.tail]
      exact List.getLastD_concat
    have heq : listInsertBack m l n x =
        (((m.setNext n 0).setData n x).setNext y n,
          { l with tail := n, count := add32 l.count 1 }) := by
      unfold listInsertBack
      rw [if_neg hpos, htail]
    have hyn : y ≠ n := fun hyn => hn (by simp [hyn])
    have hy : y ∉ ys := by
      intro hmem
      exact List.disjoint_of_nodup_append h.nodup hmem List.mem_cons_self
    refine ⟨_, _, heq, ?_, rfl, ?_⟩
    · constructor
      · exact hcount
      · -- the last node points to the new one, which points to nothing
        refine seg_append.mpr ⟨n, ?_, rfl, ?_⟩
        · exact (h.seg.update hn).redirect hy n
        · show Function.update (Function.update m.next n 0) y n n = 0
          rw [Function.update_of_ne (Ne.symm hyn), Function.update_self]
      · exact List.getLastD_concat.symm
      · exact hnodup
      · exact haddrs
    · intro a ha han
      have hay : a ≠ y := fun hay => ha (by simp [hay])
      show Function.update (Function.update m.next n 0) y n a = m.next a
      rw [Function.update_of_ne hay, Function.update_of_ne han]

/-- `list_remove_front` takes the first node away. -/
theorem listRemoveFront_spec (h : SlHolds m l (n :: xs)) : SlHolds m (listRemoveFront m l) xs := by
  have hlen := h.length_lt
  have hcount := h.count
  rw [List.length_cons] at hlen hcount
  have hpred : sub32 l.count 1 = xs.length := by
    rw [sub32_eq (by omega) (by omega)]
    omega
  have hhead : m.next l.head = xs.headD 0 := by
    rw [h.seg.1]
    exact h.seg.2.head
  have hseg : Seg m.next (m.next l.head) xs 0 := by
    rw [h.seg.1]
    exact h.seg.2
  have haddr : ∀ a ∈ xs, 0 < a ∧ a < 4294967296 :=
    fun a ha => h.addr a (List.mem_cons_of_mem n ha)
  cases xs with
  | nil =>
    have hzero : sub32 l.count 1 = 0 := hpred
    have heq : listRemoveFront m l = { head := 0, tail := 0, count := 0 } := by
      unfold listRemoveFront
      simp only [hzero, if_true, if_neg (show l.count ≠ 0 by omega)]
    rw [heq]
    exact SlHolds.init
  | cons y ys =>
    have hne : sub32 l.count 1 ≠ 0 := by
      rw [hpred]
      simp
    have heq : listRemoveFront m l = { l with head := m.next l.head, count := sub32 l.count 1 } := by
      unfold listRemoveFront
      simp only [if_neg hne, if_neg (show l.count ≠ 0 by omega)]
    rw [heq]
    refine ⟨hpred, hseg, ?_, (List.nodup_cons.mp h.nodup).2, haddr⟩
    show l.tail = _
    rw [h.tail]
    simp

/-- `list_remove` takes the node after `prev` away. -/
theorem listRemove_spec (h : SlHolds m l (u ++ p :: t :: v)) :
    ∃ m' l', listRemove m l p = (m', l', true) ∧ SlHolds m' l' (u ++ p :: v) ∧
      m'.data = m.data ∧ ∀ a, a ≠ p → m'.next a = m.next a := by
  have hlen := h.length_lt
  have hcount := h.count
  simp only [List.length_append, List.length_cons] at hlen hcount
  have hpred : sub32 l.count 1 = u.length + v.length + 1 := by
    rw [sub32_eq (by omega) (by omega)]
    omega
  rcases seg_append.mp h.seg with ⟨c, hu, rfl, ht, hv⟩
  rcases List.nodup_append.mp h.nodup with ⟨hnu, hnptv, hdis⟩
  rcases List.nodup_cons.mp hnptv with ⟨hptv, hntv⟩
  have hp : c ≠ 0 := by
    have := h.addr c (by simp)
    omega
  have hpu : c ∉ u := fun hmem => hdis c hmem c List.mem_cons_self rfl
  have hpv : c ∉ v := fun hmem => hptv (List.mem_cons_of_mem t hmem)
  have hseg : Seg (Function.update m.next c (m.next (m.next c))) l.head (u ++ c :: v) 0 := by
    refine seg_append.mpr ⟨c, hu.update hpu, rfl, ?_⟩
    rw [Function.update_self, ht]
    exact hv.update hpv
  have hnodup : (u ++ c :: v).Nodup := by
    rw [List.nodup_append]
    refine ⟨hnu, List.nodup_cons.mpr ⟨hpv, (List.nodup_cons.mp hntv).2⟩, ?_⟩
    intro a ha b hb
    apply hdis a ha b
    rcases List.mem_cons.mp hb with rfl | hbv
    · exact List.mem_cons_self
    · exact List.mem_cons_of_mem _ (List.mem_cons_of_mem t hbv)
  have haddr : ∀ a ∈ u ++ c :: v, 0 < a ∧ a < 4294967296 := by
    intro a ha
    apply h.addr a
    rcases List.mem_append.mp ha with hau | hav
    · exact List.mem_append_left _ hau
    · apply List.mem_append_right
      rcases List.mem_cons.mp hav with rfl | hav
      · exact List.mem_cons_self
      · exact List.mem_cons_of_mem _ (List.mem_cons_of_mem t hav)
  -- the removed node is the last one exactly when nothing follows it
  have htail : (if t = l.tail then c else l.tail) = (u ++ c :: v).getLastD 0 := by
    cases v using List.reverseRecOn with
    | nil =>
      have hlast : l.tail = t := by
        rw [h.tail, show u ++ [c, t] = (u ++ [c]) ++ [t] by simp]
        exact List.getLastD_concat
      rw [if_pos hlast.symm]
      exact List.getLastD_concat.symm
    | append_singleton w y _ =>
      have hlast : l.tail = y := by
        rw [h.tail, show u ++ c :: t :: (w ++ [y]) = (u ++ c :: t :: w) ++ [y] by simp]
        exact List.getLastD_concat
      have hty : t ≠ l.tail := by
        rw [hlast]
        intro hty
        exact (List.nodup_cons.mp hntv).1 (by simp [hty])
      rw [if_neg hty, hlast, show u ++ c :: (w ++ [y]) = (u ++ c :: w) ++ [y] by simp]
      exact List.getLastD_concat.symm
  have hone : u.length + v.length + 1 = 1 → l.head = (u ++ c :: v).getLastD 0 := by
    intro hlen1
    have hu0 : u = [] := List.length_eq_zero_iff.mp (by omega)
    have hv0 : v = [] := List.length_eq_zero_iff.mp (by omega)
    subst hu0 hv0
    exact hu
  have heq : listRemove m l c = (m.setNext c (m.next (m.next c)),
      { head := l.head, tail := (u ++ c :: v).getLastD 0, count := u.length + v.length + 1 },
      true) := by
    unfold listRemove SlList.settle
    rw [if_neg hp, if_neg (by omega), if_neg (by omega)]
    dsimp only
    rw [ht, hpred, htail]
    by_cases hlen1 : u.length + v.length + 1 = 1
    · rw [if_pos hlen1, hone hlen1]
    · rw [if_neg hlen1, if_neg (by omega)]
  refine ⟨_, _, heq, ⟨?_, hseg, rfl, hnodup, haddr⟩, rfl, ?_⟩
  · simp only [List.length_append, List.length_cons]
    omega
  · intro a ha
    exact Function.update_of_ne ha _ _

end Specs

end MeOS
