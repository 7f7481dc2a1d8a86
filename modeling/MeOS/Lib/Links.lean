import Mathlib.Data.List.Nodup
import Mathlib.Data.List.Chain
import Mathlib.Data.Finset.Card
import Mathlib.Order.Interval.Finset.Nat

/-! # Chains of doubly linked nodes

A memory of nodes is given by two functions, the `next` and the `prev` pointer
of every address. `Chain next prev p xs e` says that the addresses `xs` follow
each other in it, in both directions: `p` stands before the first and `e` after
the last. Chains that share no address do not notice changes of each other.
-/

namespace Links

variable {α : Type*}

/-- `xs` are linked in order, with `p` before the first and `e` after the last. -/
def Chain (next prev : α → α) : α → List α → α → Prop
  | _, [], _ => True
  | p, a :: xs, e => prev a = p ∧ next a = xs.headD e ∧ Chain next prev a xs e

/-- Follow `next` for `n` nodes. -/
def walk (next : α → α) : Nat → α → List α
  | 0, _ => []
  | n + 1, a => a :: walk next n (next a)

section Basic

variable {next prev next' prev' : α → α} {p e : α} {u v xs : List α}

@[simp] theorem chain_nil : Chain next prev p [] e := trivial

theorem chain_cons {a : α} :
    Chain next prev p (a :: xs) e ↔ prev a = p ∧ next a = xs.headD e ∧ Chain next prev a xs e :=
  Iff.rfl

/-- A chain splits where a list splits. -/
theorem chain_append :
    Chain next prev p (u ++ v) e ↔
      Chain next prev p u (v.headD e) ∧ Chain next prev (u.getLastD p) v e := by
  induction u generalizing p with
  | nil => simp
  | cons a u ih =>
    rw [List.cons_append, chain_cons, chain_cons, ih]
    -- What follows `a` is the head of the rest, which may be that of `v`.
    have hhead : (u ++ v).headD e = u.headD (v.headD e) := by
      cases u with
      | nil => rfl
      | cons b u => rfl
    rw [hhead, List.getLastD_cons]
    constructor
    · intro h
      exact ⟨⟨h.1, h.2.1, h.2.2.1⟩, h.2.2.2⟩
    · intro h
      exact ⟨h.1.1, h.1.2.1, h.1.2.2, h.2⟩

/-- Only the pointers of its own nodes matter to a chain. -/
theorem Chain.congr (h : Chain next prev p xs e) (hn : ∀ a ∈ xs, next' a = next a)
    (hp : ∀ a ∈ xs, prev' a = prev a) : Chain next' prev' p xs e := by
  induction xs generalizing p with
  | nil => trivial
  | cons a xs ih =>
    rcases chain_cons.mp h with ⟨hprev, hnext, hrest⟩
    constructor
    · rw [hp a List.mem_cons_self]
      exact hprev
    constructor
    · rw [hn a List.mem_cons_self]
      exact hnext
    · exact ih hrest (fun b hb => hn b (List.mem_cons_of_mem a hb))
        (fun b hb => hp b (List.mem_cons_of_mem a hb))

/-- Following `next` from the head lists the chain. -/
theorem Chain.walk_eq (h : Chain next prev p xs e) : walk next xs.length (xs.headD e) = xs := by
  induction xs generalizing p with
  | nil => rfl
  | cons a xs ih =>
    rcases chain_cons.mp h with ⟨_, hnext, hrest⟩
    show a :: walk next xs.length (next a) = a :: xs
    rw [hnext, ih hrest]

end Basic

/-! ## Changing single pointers -/

section Update

variable [DecidableEq α] {next prev : α → α} {p e a : α} {u v xs : List α}

/-- A `next` pointer outside the chain may change. -/
theorem Chain.update_next (h : Chain next prev p xs e) (ha : a ∉ xs) (b : α) :
    Chain (Function.update next a b) prev p xs e := by
  apply h.congr
  · intro c hc
    have hne : c ≠ a := fun heq => ha (heq ▸ hc)
    exact Function.update_of_ne hne b next
  · intro c _
    rfl

/-- A `prev` pointer outside the chain may change. -/
theorem Chain.update_prev (h : Chain next prev p xs e) (ha : a ∉ xs) (b : α) :
    Chain next (Function.update prev a b) p xs e := by
  apply h.congr
  · intro c _
    rfl
  · intro c hc
    have hne : c ≠ a := fun heq => ha (heq ▸ hc)
    exact Function.update_of_ne hne b prev

/-- Redirecting the `next` pointer of the last node changes what follows. -/
theorem Chain.redirect_last (h : Chain next prev p (u ++ [a]) e) (ha : a ∉ u) (b : α) :
    Chain (Function.update next a b) prev p (u ++ [a]) b := by
  rw [chain_append] at h ⊢
  rcases h with ⟨hu, hlast⟩
  constructor
  · exact hu.update_next ha b
  · rcases chain_cons.mp hlast with ⟨hprev, _, _⟩
    exact ⟨hprev, Function.update_self a b next, trivial⟩

/-- Redirecting the `prev` pointer of the first node changes what comes before. -/
theorem Chain.redirect_first (h : Chain next prev p (a :: v) e) (ha : a ∉ v) (b : α) :
    Chain next (Function.update prev a b) b (a :: v) e := by
  rcases chain_cons.mp h with ⟨_, hnext, hrest⟩
  exact ⟨Function.update_self a b prev, hnext, hrest.update_prev ha b⟩

end Update

/-! ## Counting nodes -/

/-- There are fewer nodes than addresses below a bound. -/
theorem length_lt_of_addr {xs : List Nat} {n : Nat} (hn : 0 < n) (hnodup : xs.Nodup)
    (haddr : ∀ a ∈ xs, 0 < a ∧ a < n) : xs.length < n := by
  have hsub : xs.toFinset ⊆ Finset.Ioo 0 n := by
    intro a ha
    rw [Finset.mem_Ioo]
    exact haddr a (List.mem_toFinset.mp ha)
  have hcard := Finset.card_le_card hsub
  rw [List.toFinset_card_of_nodup hnodup, Nat.card_Ioo] at hcard
  omega

/-! ## Singly linked nodes -/

/-- Following `next` from `a` passes the nodes `xs` and arrives at `b`. -/
def Seg (next : α → α) : α → List α → α → Prop
  | a, [], b => a = b
  | a, x :: xs, b => a = x ∧ Seg next (next x) xs b

section Segments

variable {next next' : α → α} {a b c : α} {u v xs : List α}

theorem seg_cons {x : α} : Seg next a (x :: xs) b ↔ a = x ∧ Seg next (next x) xs b := Iff.rfl

/-- The first node, or the end. -/
theorem Seg.head (h : Seg next a xs b) : a = xs.headD b := by
  cases xs with
  | nil => exact h
  | cons x xs => exact h.1

/-- Segments follow each other. -/
theorem seg_append : Seg next a (u ++ v) b ↔ ∃ c, Seg next a u c ∧ Seg next c v b := by
  induction u generalizing a with
  | nil =>
    constructor
    · intro h
      exact ⟨a, rfl, h⟩
    · intro ⟨c, hu, hv⟩
      exact hu ▸ hv
  | cons x u ih =>
    rw [List.cons_append, seg_cons, ih]
    constructor
    · intro ⟨hx, c, hu, hv⟩
      exact ⟨c, ⟨hx, hu⟩, hv⟩
    · intro ⟨c, ⟨hx, hu⟩, hv⟩
      exact ⟨hx, c, hu, hv⟩

/-- Only the pointers of its own nodes matter to a segment. -/
theorem Seg.congr (h : Seg next a xs b) (hn : ∀ x ∈ xs, next' x = next x) :
    Seg next' a xs b := by
  induction xs generalizing a with
  | nil => exact h
  | cons x xs ih =>
    refine ⟨h.1, ?_⟩
    rw [hn x List.mem_cons_self]
    exact ih h.2 fun y hy => hn y (List.mem_cons_of_mem x hy)

/-- A chain is a segment in the direction of `next`. -/
theorem Chain.seg {prev : α → α} {p : α} (h : Chain next prev p xs b) :
    Seg next (xs.headD b) xs b := by
  induction xs generalizing p with
  | nil => rfl
  | cons x xs ih =>
    rcases chain_cons.mp h with ⟨_, hnext, hrest⟩
    refine ⟨rfl, ?_⟩
    rw [hnext]
    exact ih hrest

/-- No node of a chain has one that comes later before it. -/
theorem Chain.pairwise_prev {prev : α → α} {p : α} (h : Chain next prev p xs b)
    (hnodup : (p :: xs).Nodup) : xs.Pairwise fun x y => prev x ≠ y := by
  induction xs generalizing p with
  | nil => exact List.Pairwise.nil
  | cons x xs ih =>
    rcases chain_cons.mp h with ⟨hprev, _, hrest⟩
    rcases List.nodup_cons.mp hnodup with ⟨hp, hxs⟩
    apply List.Pairwise.cons _ (ih hrest hxs)
    intro y hy heq
    apply hp
    rw [← hprev, heq]
    exact List.mem_cons_of_mem x hy

/-- Only the node before `x` in a chain points to it. -/
theorem Chain.eq_before {prev : α → α} {p x : α} (h : Chain next prev p (u ++ x :: v) b)
    (ha : a ∈ u ++ x :: v) (hnext : next a = x) (hx : x ≠ b) : a = u.getLastD p := by
  have hprev : prev x = u.getLastD p := (chain_cons.mp (chain_append.mp h).2).1
  rcases List.append_of_mem ha with ⟨l, r, hsplit⟩
  rw [hsplit] at h
  rcases chain_cons.mp (chain_append.mp h).2 with ⟨_, hhead, hrest⟩
  cases r with
  | nil => exact absurd (hnext.symm.trans hhead) hx
  | cons y r =>
    obtain rfl : x = y := hnext.symm.trans hhead
    exact (chain_cons.mp hrest).1.symm.trans hprev

/-- A pointer outside the segment may change. -/
theorem Seg.update [DecidableEq α] (h : Seg next a xs b) {x y : α} (hx : x ∉ xs) :
    Seg (Function.update next x y) a xs b := by
  apply h.congr
  intro z hz
  have hne : z ≠ x := fun heq => hx (heq ▸ hz)
  exact Function.update_of_ne hne _ _

/-- Redirecting the last node of a segment. -/
theorem Seg.redirect [DecidableEq α] {x : α} (h : Seg next a (u ++ [x]) b) (hx : x ∉ u) (c : α) :
    Seg (Function.update next x c) a (u ++ [x]) c := by
  rcases seg_append.mp h with ⟨d, hu, hd, _⟩
  refine seg_append.mpr ⟨d, hu.update hx, hd, ?_⟩
  exact Function.update_self _ _ _

end Segments

/-! ## Paths without a common target -/

/-- When no two nodes have the same successor, paths that start at different nodes without
predecessors never meet. -/
theorem paths_disjoint {R : α → α → Prop} (hinj : ∀ a b c, R a c → R b c → a = b)
    {a b : α} {u v : List α} (hu : List.IsChain R (a :: u)) (hv : List.IsChain R (b :: v))
    (ha : ∀ c, ¬ R c a) (hb : ∀ c, ¬ R c b) (hne : a ≠ b) : List.Disjoint (a :: u) (b :: v) := by
  rw [List.isChain_iff_getElem] at hu hv
  -- a node they share has a predecessor that they share
  have hmeet : ∀ i j (hi : i < (a :: u).length) (hj : j < (b :: v).length),
      (a :: u)[i] ≠ (b :: v)[j] := by
    intro i
    induction i with
    | zero =>
      intro j hi hj heq
      cases j with
      | zero => exact hne heq
      | succ j =>
        have hlink := hv j hj
        rw [← heq] at hlink
        exact ha _ hlink
    | succ i ih =>
      intro j hi hj heq
      have hlink := hu i hi
      rw [heq] at hlink
      cases j with
      | zero => exact hb _ hlink
      | succ j => exact ih j (by omega) (by omega) (hinj _ _ _ hlink (hv j hj))
  intro x hx hy
  obtain ⟨i, hi, rfl⟩ := List.mem_iff_getElem.mp hx
  obtain ⟨j, hj, heq⟩ := List.mem_iff_getElem.mp hy
  exact hmeet i j hi hj heq.symm

end Links
