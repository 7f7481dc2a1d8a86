import MeOS.Types
import MeOS.Lib.Links
import MeOS.Lib.Queue

/-! # `dl_list.h`

Doubly linked lists whose nodes are moved between lists without being
allocated anew. Nodes live at addresses of a memory; address 0 is the null
pointer. `Lists m l xs` says that the list object `l` holds exactly the nodes
`xs`, in this order; each operation is described once by what it does to `xs`
and by the nodes it leaves alone.
-/

namespace MeOS

open Links

variable {T : Type}

/-- The memory of `dl_list_node`s: the fields of the node at each address. -/
structure DlNodes (T : Type) where
  data : Nat → T
  next : Nat → Nat
  prev : Nat → Nat

/-- `dl_list`. -/
structure DlList where
  head : Nat
  tail : Nat
  count : Nat
deriving Repr, DecidableEq

/-- `node->next = a`. -/
def DlNodes.setNext (m : DlNodes T) (node a : Nat) : DlNodes T :=
  { m with next := Function.update m.next node a }

/-- `node->prev = a`. -/
def DlNodes.setPrev (m : DlNodes T) (node a : Nat) : DlNodes T :=
  { m with prev := Function.update m.prev node a }

/-- `node->next = node->prev = 0`. -/
def DlNodes.clear (m : DlNodes T) (node : Nat) : DlNodes T := (m.setPrev node 0).setNext node 0

/-! ## The operations of the source -/

/-- `dl_list_init`. -/
def dlListInit : DlList := { head := 0, tail := 0, count := 0 }

/-- The search loop of `dl_list_find_node`; a list has `fuel` nodes at most. -/
def dlListFindFrom [DecidableEq T] (m : DlNodes T) (item : T) : Nat → Nat → Nat
  | 0, _ => 0
  | fuel + 1, temp =>
    if temp = 0 then 0
    else if m.data temp = item then temp
    else dlListFindFrom m item fuel (m.next temp)

/-- `dl_list_find_node`; 0 when no node holds `item`. -/
def dlListFindNode [DecidableEq T] (m : DlNodes T) (l : DlList) (item : T) : Nat :=
  if l.count = 0 then 0 else dlListFindFrom m item l.count l.head

/-- `dl_list_remove_node`; the result is the removed node, or 0. -/
def dlListRemoveNode (m : DlNodes T) (l : DlList) (node : Nat) : DlNodes T × DlList × Nat :=
  if l.count = 0 then
    (m, l, 0)
  else if l.count = 1 then
    -- the only element: `node` is taken for it without a look at the list
    (m.clear node, dlListInit, node)
  else if node = l.head then
    let l' := { l with head := m.next node, count := sub32 l.count 1 }
    ((m.setPrev (m.next node) 0).clear node, l', node)
  else if node = l.tail then
    let l' := { l with tail := m.prev node, count := sub32 l.count 1 }
    ((m.setNext (m.prev node) 0).clear node, l', node)
  else
    let m := m.setNext (m.prev node) (m.next node)
    let m := m.setPrev (m.next node) (m.prev node)
    (m.clear node, { l with count := sub32 l.count 1 }, node)

/-- `dl_list_remove_front_node`. -/
def dlListRemoveFrontNode (m : DlNodes T) (l : DlList) : Outcome (DlNodes T × DlList × Nat) :=
  if l.count = 0 then
    .ret (m, l, 0)
  else if l.count = 1 then
    .ret (m.clear l.head, dlListInit, l.head)
  else
    let head := m.next l.head
    let count := sub32 l.count 1
    -- the source calls this "Can never be here"
    if count = 0 then .panic
    else .ret ((m.setPrev head 0).clear l.head, { l with head := head, count := count }, l.head)

/-- `dl_list_insert_back_node`. -/
def dlListInsertBackNode (m : DlNodes T) (l : DlList) (node : Nat) : DlNodes T × DlList :=
  let m := m.setNext node 0
  if l.count = 0 then
    (m.setPrev node 0, { head := node, tail := node, count := add32 l.count 1 })
  else
    ((m.setNext l.tail node).setPrev node l.tail, { l with tail := node, count := add32 l.count 1 })

/-- `dl_list_head_to_tail`. -/
def dlListHeadToTail (m : DlNodes T) (l : DlList) : DlNodes T × DlList :=
  if l.count = 0 ∨ l.count = 1 then
    (m, l)
  else
    let tempHead := l.head
    if m.prev l.tail = l.head then
      let m := m.setPrev l.tail 0
      let m := m.setNext l.tail tempHead
      let m := m.setNext tempHead 0
      let m := m.setPrev tempHead l.tail
      (m, { l with head := l.tail, tail := tempHead })
    else
      let head := m.next l.head
      let m := m.setPrev head 0
      let m := m.setNext tempHead 0
      let m := m.setPrev tempHead l.tail
      let m := m.setNext l.tail tempHead
      (m, { l with head := head, tail := tempHead })

/-- The nodes of a list in order, read off the memory. -/
def dlListNodes (m : DlNodes T) (l : DlList) : List Nat := walk m.next l.count l.head

theorem dlListNodes_mk (m : DlNodes T) (head tail count : Nat) :
    dlListNodes m ⟨head, tail, count⟩ = walk m.next count head := rfl

/-! ## The nodes of a list -/

/-- The list object `l` holds the nodes `xs`. -/
structure Lists (m : DlNodes T) (l : DlList) (xs : List Nat) : Prop where
  count : l.count = xs.length
  head : l.head = xs.headD 0
  tail : l.tail = xs.getLastD 0
  chain : Chain m.next m.prev 0 xs 0
  nodup : xs.Nodup
  addr : ∀ a ∈ xs, 0 < a ∧ a < 4294967296

section Lists

variable {m m' : DlNodes T} {l : DlList} {xs u v : List Nat} {n : Nat}

theorem Lists.init : Lists m dlListInit [] where
  count := rfl
  head := rfl
  tail := rfl
  chain := trivial
  nodup := List.nodup_nil
  addr := by
    intro a ha
    cases ha

/-- Reading the memory gives the nodes back. -/
theorem Lists.nodes_eq (h : Lists m l xs) : dlListNodes m l = xs := by
  unfold dlListNodes
  rw [h.count, h.head]
  exact h.chain.walk_eq

/-- The count of a list never wraps. -/
theorem Lists.length_lt (h : Lists m l xs) : xs.length < 4294967296 :=
  length_lt_of_addr (by decide) h.nodup h.addr

theorem Lists.zero_notMem (h : Lists m l xs) : 0 ∉ xs :=
  fun h0 => Nat.lt_irrefl 0 (h.addr 0 h0).1

/-- A list does not notice changes of nodes it does not hold. -/
theorem Lists.congr (h : Lists m l xs) (hn : ∀ a ∈ xs, m'.next a = m.next a)
    (hp : ∀ a ∈ xs, m'.prev a = m.prev a) : Lists m' l xs where
  count := h.count
  head := h.head
  tail := h.tail
  chain := h.chain.congr hn hp
  nodup := h.nodup
  addr := h.addr

/-- The neighbours of a node are nodes of the list, or null. -/
theorem Lists.neighbours (h : Lists m l xs) (hn : n ∈ xs) :
    (m.prev n = 0 ∨ m.prev n ∈ xs) ∧ (m.next n = 0 ∨ m.next n ∈ xs) := by
  rcases List.append_of_mem hn with ⟨u, v, rfl⟩
  rcases chain_cons.mp (chain_append.mp h.chain).2 with ⟨hprev, hnext, _⟩
  constructor
  · rw [hprev]
    cases u using List.reverseRecOn with
    | nil => exact Or.inl rfl
    | append_singleton u a _ => exact Or.inr (by simp)
  · rw [hnext]
    cases v with
    | nil => exact Or.inl rfl
    | cons a v => exact Or.inr (by simp)

/-- The tail is a node of the list, or null. -/
theorem Lists.tail_mem (h : Lists m l xs) : l.tail = 0 ∨ l.tail ∈ xs := by
  rw [h.tail]
  cases xs using List.reverseRecOn with
  | nil => exact Or.inl rfl
  | append_singleton u a _ => exact Or.inr (by simp)

/-- Following one pointer too few leaves out the last node. -/
theorem Lists.walk_front {a : Nat} (h : Lists m l (u ++ [a])) :
    walk m.next u.length l.head = u := by
  have hfront := (chain_append.mp h.chain).1.walk_eq
  rw [h.head]
  cases u with
  | nil => rfl
  | cons b u => exact hfront

/-- A list of no nodes holds none. -/
theorem Lists.count_eq_zero (h : Lists m l xs) : l.count = 0 ↔ xs = [] := by
  rw [h.count]
  exact List.length_eq_zero_iff

end Lists

/-! ## Frames

What an operation on a list leaves alone: the data of every node, and the
pointers of the nodes that are neither in the list nor the one it moves. -/

/-- Only pointers of nodes in `xs` differ. -/
structure NodesKept (m m' : DlNodes T) (xs : List Nat) : Prop where
  data : m'.data = m.data
  next : ∀ a, a ∉ xs → m'.next a = m.next a
  prev : ∀ a, a ∉ xs → m'.prev a = m.prev a

section Frames

variable {m m' : DlNodes T} {xs ys : List Nat} {n b : Nat}

theorem NodesKept.refl : NodesKept m m xs := ⟨rfl, fun _ _ => rfl, fun _ _ => rfl⟩

/-- Two lists without a common node do not disturb each other. -/
theorem NodesKept.lists (h : NodesKept m m' xs) {l : DlList} (hl : Lists m l ys)
    (hdis : ∀ a ∈ ys, a ∉ xs) : Lists m' l ys :=
  hl.congr (fun a ha => h.next a (hdis a ha)) (fun a ha => h.prev a (hdis a ha))

theorem NodesKept.setNext (h : NodesKept m m' xs) (hn : n ∈ xs) :
    NodesKept m (m'.setNext n b) xs where
  data := h.data
  next := by
    intro a ha
    have hne : a ≠ n := fun heq => ha (heq ▸ hn)
    show Function.update m'.next n b a = m.next a
    rw [Function.update_of_ne hne]
    exact h.next a ha
  prev := h.prev

theorem NodesKept.setPrev (h : NodesKept m m' xs) (hn : n ∈ xs) :
    NodesKept m (m'.setPrev n b) xs where
  data := h.data
  next := h.next
  prev := by
    intro a ha
    have hne : a ≠ n := fun heq => ha (heq ▸ hn)
    show Function.update m'.prev n b a = m.prev a
    rw [Function.update_of_ne hne]
    exact h.prev a ha

theorem NodesKept.clear (h : NodesKept m m' xs) (hn : n ∈ xs) :
    NodesKept m (m'.clear n) xs :=
  (h.setPrev hn).setNext hn

theorem NodesKept.trans {m'' : DlNodes T} (h : NodesKept m m' xs) (h' : NodesKept m' m'' ys) :
    NodesKept m m'' (xs ++ ys) where
  data := h'.data.trans h.data
  next := by
    intro a ha
    rw [List.mem_append, not_or] at ha
    exact (h'.next a ha.2).trans (h.next a ha.1)
  prev := by
    intro a ha
    rw [List.mem_append, not_or] at ha
    exact (h'.prev a ha.2).trans (h.prev a ha.1)

/-- Whatever list it is called with, `dl_list_remove_node` writes the node and its
neighbours only. -/
theorem removeNode_kept (m : DlNodes T) (l : DlList) (n : Nat) :
    NodesKept m (dlListRemoveNode m l n).1 [n, m.prev n, m.next n] := by
  have hnext : (m.setNext (m.prev n) (m.next n)).next n = m.next n := by
    show Function.update m.next (m.prev n) (m.next n) n = m.next n
    by_cases hself : n = m.prev n
    · rw [← hself, Function.update_self]
    · rw [Function.update_of_ne hself]
  unfold dlListRemoveNode
  split
  · exact NodesKept.refl
  split
  · exact NodesKept.refl.clear (by simp)
  split
  · exact (NodesKept.refl.setPrev (by simp)).clear (by simp)
  split
  · exact (NodesKept.refl.setNext (by simp)).clear (by simp)
  · dsimp only
    rw [hnext]
    exact ((NodesKept.refl.setNext (by simp)).setPrev (by simp)).clear (by simp)

/-- `dl_list_insert_back_node` writes the node and the tail only. -/
theorem insertBackNode_kept (m : DlNodes T) (l : DlList) (n : Nat) :
    NodesKept m (dlListInsertBackNode m l n).1 [n, l.tail] := by
  unfold dlListInsertBackNode
  dsimp only
  split
  · exact (NodesKept.refl.setNext (by simp)).setPrev (by simp)
  · exact ((NodesKept.refl.setNext (by simp)).setNext (by simp)).setPrev (by simp)

end Frames

/-! ## What each operation does -/

section Specs

variable {m : DlNodes T} {l : DlList} {xs u v : List Nat} {n : Nat}

theorem clear_next : (m.clear n).next = Function.update m.next n 0 := rfl

theorem clear_prev : (m.clear n).prev = Function.update m.prev n 0 := rfl

/-- The `clear` of a removed node is not seen by the rest. -/
theorem chain_clear (h : Chain m.next m.prev 0 xs 0) (hn : n ∉ xs) :
    Chain (m.clear n).next (m.clear n).prev 0 xs 0 := by
  rw [clear_next, clear_prev]
  exact (h.update_next hn 0).update_prev hn 0

/-- The only node of a list. -/
theorem removeNode_single (h : Lists m l [n]) :
    dlListRemoveNode m l n = (m.clear n, dlListInit, n) := by
  have hcount : l.count = 1 := h.count
  unfold dlListRemoveNode
  rw [if_neg (by omega), if_pos hcount]

/-- A node that is not in a list of several: the count goes down, the ends stay. -/
theorem removeNode_foreign {a c : Nat} (h : Lists m l (a :: u ++ [c]))
    (hn : n ∉ a :: u ++ [c]) :
    ∃ m', dlListRemoveNode m l n = (m', ⟨l.head, l.tail, sub32 l.count 1⟩, n) := by
  have hcount : l.count = u.length + 2 := by
    rw [h.count]
    simp
  have hhead : n ≠ l.head := by
    intro heq
    apply hn
    rw [heq, h.head]
    exact List.mem_cons_self
  have htail : n ≠ l.tail := by
    intro heq
    apply hn
    rw [heq, h.tail, List.getLastD_concat]
    simp
  have hlist : (dlListRemoveNode m l n).2 = (⟨l.head, l.tail, sub32 l.count 1⟩, n) := by
    unfold dlListRemoveNode
    rw [if_neg (by omega), if_neg (by omega), if_neg hhead, if_neg htail]
  exact ⟨(dlListRemoveNode m l n).1, Prod.ext rfl hlist⟩

/-- Taking a node away lowers the count. -/
theorem Lists.pred_count {y : List Nat} (h : Lists m l xs) (hlen : xs.length = y.length + 1) :
    sub32 l.count 1 = y.length := by
  have hlt := h.length_lt
  have hcount := h.count
  rw [sub32_eq (by omega) (by omega)]
  omega

/-- The first of several nodes. -/
theorem removeNode_head {c : Nat} (h : Lists m l (n :: c :: v)) :
    ∃ m' l', dlListRemoveNode m l n = (m', l', n) ∧ Lists m' l' (c :: v) ∧
      NodesKept m m' (n :: c :: v) := by
  have hcount : l.count = v.length + 2 := h.count
  have hhead : n = l.head := h.head.symm
  rcases chain_cons.mp h.chain with ⟨_, hnext, hrest⟩
  have hnext' : m.next n = c := hnext
  rcases List.nodup_cons.mp h.nodup with ⟨hn, hnodup⟩
  have heq : dlListRemoveNode m l n =
      ((m.setPrev (m.next n) 0).clear n,
        { l with head := m.next n, count := sub32 l.count 1 }, n) := by
    unfold dlListRemoveNode
    rw [if_neg (by omega), if_neg (by omega), if_pos hhead]
  refine ⟨_, _, heq, ?_, ?_⟩
  · constructor
    · exact h.pred_count rfl
    · exact hnext'
    · exact h.tail.trans (by simp)
    · -- `c` is the new head, so nothing stands before it
      rw [hnext']
      apply chain_clear _ hn
      exact hrest.redirect_first (List.nodup_cons.mp hnodup).1 0
    · exact hnodup
    · intro a ha
      exact h.addr a (List.mem_cons_of_mem n ha)
  · rw [hnext']
    apply NodesKept.clear _ List.mem_cons_self
    exact NodesKept.refl.setPrev (by simp)

/-- The last of several nodes. -/
theorem removeNode_tail {b : Nat} (h : Lists m l (u ++ [b, n])) :
    ∃ m' l', dlListRemoveNode m l n = (m', l', n) ∧ Lists m' l' (u ++ [b]) ∧
      NodesKept m m' (u ++ [b, n]) := by
  have hcount : l.count = u.length + 2 := by
    rw [h.count]
    simp
  have hchain : Chain m.next m.prev 0 ((u ++ [b]) ++ [n]) 0 := by
    simpa using h.chain
  -- the removed node is the last, and the one before it becomes the tail
  rcases chain_append.mp hchain with ⟨hfront, hlast⟩
  have hprev : m.prev n = b := by
    have := (chain_cons.mp hlast).1
    simpa using this
  have hnodup : ((u ++ [b]) ++ [n]).Nodup := by simpa using h.nodup
  have hn : n ∉ u ++ [b] := by
    intro hmem
    exact List.disjoint_of_nodup_append hnodup hmem List.mem_cons_self
  have hb : b ∉ u := by
    intro hmem
    have hub := (List.nodup_append.mp hnodup).1
    exact List.disjoint_of_nodup_append hub hmem List.mem_cons_self
  have hhead : n ≠ l.head := by
    intro heq
    apply hn
    rw [heq, h.head]
    cases u with
    | nil => simp
    | cons a u => simp
  have htail : n = l.tail := by
    rw [h.tail]
    simp
  -- neither the only node nor the head: the third branch of the source
  have heq : dlListRemoveNode m l n =
      ((m.setNext (m.prev n) 0).clear n,
        { l with tail := m.prev n, count := sub32 l.count 1 }, n) := by
    unfold dlListRemoveNode
    rw [if_neg (by omega), if_neg (by omega), if_neg hhead, if_pos htail]
  refine ⟨_, _, heq, ?_, ?_⟩
  · constructor
    · exact h.pred_count (by simp)
    · show l.head = _
      rw [h.head]
      cases u with
      | nil => rfl
      | cons a u => rfl
    · show m.prev n = _
      rw [hprev]
      simp
    · rw [hprev]
      apply chain_clear _ hn
      exact hfront.redirect_last hb 0
    · exact (List.nodup_append.mp hnodup).1
    · intro a ha
      apply h.addr a
      simp only [List.mem_append, List.mem_cons] at ha ⊢
      tauto
  · rw [hprev]
    apply NodesKept.clear _ (by simp)
    exact NodesKept.refl.setNext (by simp)

/-- A node between two others. -/
theorem removeNode_inner {b c : Nat} (h : Lists m l (u ++ b :: n :: c :: v)) :
    ∃ m' l', dlListRemoveNode m l n = (m', l', n) ∧ Lists m' l' (u ++ b :: c :: v) ∧
      NodesKept m m' (u ++ b :: n :: c :: v) := by
  have hcount : l.count = u.length + v.length + 3 := by
    rw [h.count]
    simp
    omega
  have hchain : Chain m.next m.prev 0 ((u ++ [b]) ++ n :: c :: v) 0 := by
    simpa using h.chain
  have hnodup : ((u ++ [b]) ++ n :: c :: v).Nodup := by simpa using h.nodup
  rcases chain_append.mp hchain with ⟨hfront, hback⟩
  rcases chain_cons.mp hback with ⟨hprev, hnext, hrest⟩
  have hprev' : m.prev n = b := by simpa using hprev
  have hnext' : m.next n = c := hnext
  rcases List.nodup_append.mp hnodup with ⟨hub, hncv, hdis⟩
  rcases List.nodup_cons.mp hncv with ⟨hn, hcv⟩
  have hbu : b ∉ u := by
    intro hmem
    exact List.disjoint_of_nodup_append hub hmem List.mem_cons_self
  have hnf : n ∉ u ++ [b] := fun hmem => hdis n hmem n List.mem_cons_self rfl
  have hcf : c ∉ u ++ [b] := fun hmem => hdis c hmem c (by simp) rfl
  have hbb : b ∉ c :: v := fun hmem => hdis b (by simp) b (List.mem_cons_of_mem n hmem) rfl
  have hhead : n ≠ l.head := by
    intro heq
    apply hnf
    rw [heq, h.head]
    cases u with
    | nil => simp
    | cons a u => simp
  have htail : n ≠ l.tail := by
    intro heq
    apply hn
    rw [heq, h.tail]
    cases v using List.reverseRecOn with
    | nil => simp
    | append_singleton v d _ =>
      have : (u ++ b :: n :: c :: (v ++ [d])).getLastD 0 = d := by
        rw [show u ++ b :: n :: c :: (v ++ [d]) = (u ++ b :: n :: c :: v) ++ [d] by simp]
        exact List.getLastD_concat
      rw [this]
      simp
  -- the write of `b`'s pointer does not change those of `n`
  have hnb : n ≠ b := fun heq => hnf (by simp [heq])
  have hkeep : (m.setNext b c).next n = c := by
    show Function.update m.next b c n = c
    rw [Function.update_of_ne hnb]
    exact hnext'
  have heq : dlListRemoveNode m l n =
      (((m.setNext b c).setPrev c b).clear n, { l with count := sub32 l.count 1 }, n) := by
    unfold dlListRemoveNode
    rw [if_neg (by omega), if_neg (by omega), if_neg hhead, if_neg htail]
    simp only [hprev', hnext', hkeep]
    show (((m.setNext b c).setPrev c (m.prev n)).clear n, _, n) = _
    rw [hprev']
  refine ⟨_, _, heq, ?_, ?_⟩
  · have hgoal : (u ++ [b]) ++ c :: v = u ++ b :: c :: v := by simp
    have hlast : (u ++ [b]).getLastD 0 = b := by simp
    constructor
    · exact h.pred_count (by simp; omega)
    · show l.head = _
      rw [h.head]
      cases u with
      | nil => rfl
      | cons a u => rfl
    · show l.tail = _
      rw [h.tail]
      cases v using List.reverseRecOn with
      | nil => simp
      | append_singleton v d _ => simp
    · rw [← hgoal]
      apply chain_clear
      · rw [chain_append]
        constructor
        · exact (hfront.redirect_last hbu c).update_prev hcf b
        · rw [hlast]
          exact (hrest.update_next hbb c).redirect_first (List.nodup_cons.mp hcv).1 b
      · rw [List.mem_append]
        rintro (hmem | hmem)
        · exact hnf hmem
        · exact hn hmem
    · rw [← hgoal]
      apply List.nodup_append.mpr
      refine ⟨hub, hcv, ?_⟩
      intro a ha d hd
      exact hdis a ha d (List.mem_cons_of_mem n hd)
    · intro a ha
      apply h.addr a
      simp only [List.mem_append, List.mem_cons] at ha ⊢
      tauto
  · apply NodesKept.clear _ (by simp)
    apply NodesKept.setPrev _ (by simp)
    exact NodesKept.refl.setNext (by simp)

/-- `dl_list_remove_node` takes a node of the list out of it. -/
theorem removeNode_spec (h : Lists m l (u ++ n :: v)) :
    ∃ m' l', dlListRemoveNode m l n = (m', l', n) ∧ Lists m' l' (u ++ v) ∧
      NodesKept m m' (u ++ n :: v) := by
  cases u using List.reverseRecOn with
  | nil =>
    cases v with
    | nil =>
      refine ⟨_, _, removeNode_single h, Lists.init, ?_⟩
      exact NodesKept.refl.clear (by simp)
    | cons c v => exact removeNode_head h
  | append_singleton u b _ =>
    cases v with
    | nil => simpa using removeNode_tail (by simpa using h)
    | cons c v => simpa using removeNode_inner (by simpa using h)

/-- `dl_list_remove_front_node` is `dl_list_remove_node` of the head; its `PANIC`
is not reached. -/
theorem removeFrontNode_eq (h : Lists m l (n :: v)) :
    dlListRemoveFrontNode m l = .ret (dlListRemoveNode m l n) := by
  have hhead : l.head = n := h.head
  cases v with
  | nil =>
    have hcount : l.count = 1 := h.count
    unfold dlListRemoveFrontNode
    rw [if_neg (by omega), if_pos hcount, hhead, removeNode_single h]
  | cons c v =>
    have hcount : l.count = v.length + 2 := h.count
    have hpred : sub32 l.count 1 = v.length + 1 := h.pred_count (y := c :: v) rfl
    unfold dlListRemoveFrontNode dlListRemoveNode
    rw [if_neg (by omega), if_neg (by omega), if_neg (by omega), if_neg (by omega),
      if_neg (by omega), if_pos hhead.symm, hhead]

/-- `dl_list_insert_back_node` appends a node that is in no list. -/
theorem insertBackNode_spec (h : Lists m l xs) (hn : n ∉ xs) (haddr : 0 < n ∧ n < 4294967296) :
    ∃ m' l', dlListInsertBackNode m l n = (m', l') ∧ Lists m' l' (xs ++ [n]) ∧
      NodesKept m m' (xs ++ [n]) := by
  have hlt := h.length_lt
  have hcount := h.count
  -- the source treats the empty list apart, so the cases are on the last node
  cases xs using List.reverseRecOn with
  | nil =>
    have hzero : l.count = 0 := hcount
    have heq : dlListInsertBackNode m l n =
        (m.clear n, { head := n, tail := n, count := 1 }) := by
      unfold dlListInsertBackNode
      simp only [hzero, if_true]
      rfl
    refine ⟨_, _, heq, ?_, NodesKept.refl.clear (by simp)⟩
    constructor
    · rfl
    · rfl
    · rfl
    · exact ⟨Function.update_self n 0 m.prev, Function.update_self n 0 m.next, trivial⟩
    · exact List.nodup_singleton n
    · intro a ha
      rw [List.nil_append, List.mem_singleton] at ha
      exact ha ▸ haddr
  | append_singleton u b _ =>
    have htail : l.tail = b := by
      rw [h.tail]
      simp
    rw [List.length_append, List.length_singleton] at hcount hlt
    have hnb : n ≠ b := fun heq => hn (by simp [heq])
    have hbu : b ∉ u := by
      intro hmem
      exact List.disjoint_of_nodup_append h.nodup hmem List.mem_cons_self
    have hnodup : (u ++ [b] ++ [n]).Nodup := Queue.nodup_push h.nodup hn
    have haddrs : ∀ a ∈ u ++ [b] ++ [n], 0 < a ∧ a < 4294967296 := by
      intro a ha
      rcases List.mem_append.mp ha with ha | ha
      · exact h.addr a ha
      · exact List.mem_singleton.mp ha ▸ haddr
    -- the addresses are words, so the count does not wrap
    have hlen := length_lt_of_addr (by decide) hnodup haddrs
    have heq : dlListInsertBackNode m l n =
        (((m.setNext n 0).setNext b n).setPrev n b,
          { l with tail := n, count := add32 l.count 1 }) := by
      unfold dlListInsertBackNode
      rw [if_neg (by omega), htail]
    refine ⟨_, _, heq, ?_, ?_⟩
    · constructor
      · show add32 l.count 1 = _
        simp only [List.length_append, List.length_singleton] at hlen ⊢
        rw [add32_eq (by omega), hcount]
      · show l.head = _
        rw [h.head]
        cases u with
        | nil => rfl
        | cons a u => rfl
      · show n = _
        exact List.getLastD_concat.symm
      · rw [chain_append]
        constructor
        · exact ((h.chain.update_next hn 0).redirect_last hbu n).update_prev hn b
        · have hlast : (u ++ [b]).getLastD 0 = b := List.getLastD_concat
          rw [hlast]
          constructor
          · exact Function.update_self n b m.prev
          constructor
          · show Function.update (Function.update m.next n 0) b n n = 0
            rw [Function.update_of_ne hnb, Function.update_self]
          · trivial
      · exact hnodup
      · exact haddrs
    · exact ((NodesKept.refl.setNext (by simp)).setNext (by simp)).setPrev (by simp)

/-- With one node or none there is nothing to move. -/
theorem headToTail_short (h : Lists m l xs) (hlen : xs.length ≤ 1) :
    dlListHeadToTail m l = (m, l) := by
  have hcount := h.count
  unfold dlListHeadToTail
  rw [if_pos (by omega)]

/-- The test on `tail->prev` asks whether there are exactly two nodes. -/
theorem prev_tail_eq_head {c : Nat} (h : Lists m l (n :: c :: v)) :
    m.prev l.tail = l.head ↔ v = [] := by
  rw [show l.head = n from h.head]
  cases v using List.reverseRecOn with
  | nil =>
    rw [show l.tail = c from h.tail]
    rcases chain_cons.mp h.chain with ⟨_, _, hrest⟩
    exact iff_of_true (chain_cons.mp hrest).1 rfl
  | append_singleton v d _ =>
    have htail : l.tail = d := by
      rw [h.tail, show n :: c :: (v ++ [d]) = (n :: c :: v) ++ [d] by simp]
      exact List.getLastD_concat
    have hchain : Chain m.next m.prev 0 ((n :: c :: v) ++ [d]) 0 := h.chain
    have hprev : m.prev d = (c :: v).getLastD n := by
      exact (chain_cons.mp (chain_append.mp hchain).2).1
    -- the node before the last is not the head
    have hmem : (c :: v).getLastD n ∈ c :: v := by
      rw [List.getLastD_cons]
      cases v using List.reverseRecOn with
      | nil => simp
      | append_singleton w b _ => simp
    have hne : (c :: v).getLastD n ≠ n := by
      intro heq
      rw [heq] at hmem
      apply (List.nodup_cons.mp h.nodup).1
      simp only [List.mem_cons, List.mem_append] at hmem ⊢
      tauto
    rw [htail, hprev]
    simpa using hne

/-- `dl_list_head_to_tail` makes the writes of taking the head out and putting it
back at the end. -/
theorem headToTail_eq {c : Nat} (h : Lists m l (n :: c :: v)) :
    dlListHeadToTail m l =
      dlListInsertBackNode (dlListRemoveNode m l n).1 (dlListRemoveNode m l n).2.1 n := by
  have hcount : l.count = v.length + 2 := h.count
  have hlt := h.length_lt
  have hhead : l.head = n := h.head
  have hpred : sub32 l.count 1 = v.length + 1 := h.pred_count (y := c :: v) rfl
  have hback : add32 (sub32 l.count 1) 1 = l.count := by
    rw [hpred, hcount, add32_eq (by simpa using hlt)]
  have hnext : m.next n = c := (chain_cons.mp h.chain).2.1
  have hrem : dlListRemoveNode m l n =
      ((m.setPrev c 0).clear n, { l with head := c, count := sub32 l.count 1 }, n) := by
    unfold dlListRemoveNode
    rw [if_neg (by omega), if_neg (by omega), if_pos hhead.symm, hnext]
  have hcn : c ≠ n := by
    intro heq
    exact (List.nodup_cons.mp h.nodup).1 (heq ▸ List.mem_cons_self)
  have htn : l.tail ≠ n := by
    intro heq
    have hmem : l.tail ∈ c :: v := by
      rw [h.tail, List.getLastD_cons, List.getLastD_cons]
      cases v using List.reverseRecOn with
      | nil => simp
      | append_singleton w b _ => simp
    exact (List.nodup_cons.mp h.nodup).1 (heq ▸ hmem)
  rw [hrem]
  have hfew : ¬ (l.count = 0 ∨ l.count = 1) := by omega
  have hsome : ¬ sub32 l.count 1 = 0 := by
    rw [hpred]
    exact Nat.succ_ne_zero _
  unfold dlListHeadToTail dlListInsertBackNode
  dsimp only
  rw [if_neg hfew, if_neg hsome, hback, hhead]
  by_cases htwo : m.prev l.tail = n
  · -- two nodes: the old tail becomes the head
    have hv : v = [] := by
      rw [← hhead] at htwo
      exact (prev_tail_eq_head h).mp htwo
    subst hv
    have htail : l.tail = c := h.tail
    rw [if_pos htwo, htail]
    simp only [DlNodes.setNext, DlNodes.setPrev, DlNodes.clear, Function.update_idem]
    rw [Function.update_comm hcn]
  · rw [if_neg htwo, hnext]
    simp only [DlNodes.setNext, DlNodes.setPrev, DlNodes.clear, Function.update_idem]

/-- `dl_list_head_to_tail` turns the list by one. -/
theorem headToTail_spec (h : Lists m l (n :: v)) :
    ∃ m' l', dlListHeadToTail m l = (m', l') ∧ Lists m' l' (v ++ [n]) ∧
      NodesKept m m' (n :: v) := by
  cases v with
  | nil => exact ⟨m, l, headToTail_short h (Nat.le_refl 1), h, NodesKept.refl⟩
  | cons c v =>
    rcases removeNode_head h with ⟨m₁, l₁, hrem, hl₁, hk₁⟩
    rcases List.nodup_cons.mp h.nodup with ⟨hn, _⟩
    rcases insertBackNode_spec hl₁ hn (h.addr n List.mem_cons_self) with ⟨m₂, l₂, hins, hl₂, hk₂⟩
    refine ⟨m₂, l₂, ?_, hl₂, ?_⟩
    · rw [headToTail_eq h, hrem]
      exact hins
    · have hmem : ∀ a, a ∉ n :: c :: v → a ∉ c :: v ++ [n] := by
        intro a ha hback
        apply ha
        simp only [List.mem_append, List.mem_cons] at hback ⊢
        tauto
      constructor
      · exact hk₂.data.trans hk₁.data
      · intro a ha
        exact (hk₂.next a (hmem a ha)).trans (hk₁.next a ha)
      · intro a ha
        exact (hk₂.prev a (hmem a ha)).trans (hk₁.prev a ha)

/-- The search loop comes to the first node that holds `item`, or to the end. -/
theorem findFrom_eq [DecidableEq T] {item : T} {p fuel : Nat}
    (hchain : Chain m.next m.prev p xs 0) (haddr : ∀ a ∈ xs, 0 < a) (hfuel : xs.length ≤ fuel) :
    dlListFindFrom m item fuel (xs.headD 0) = (xs.find? fun a => m.data a = item).getD 0 := by
  induction xs generalizing p fuel with
  | nil =>
    cases fuel with
    | zero => rfl
    | succ fuel => rfl
  | cons a xs ih =>
    rcases chain_cons.mp hchain with ⟨_, hnext, hrest⟩
    have hpos : a ≠ 0 := Nat.pos_iff_ne_zero.mp (haddr a List.mem_cons_self)
    obtain ⟨fuel, rfl⟩ : ∃ k, fuel = k + 1 := ⟨fuel - 1, by rw [List.length_cons] at hfuel; omega⟩
    show (if a = 0 then 0 else if m.data a = item then a
      else dlListFindFrom m item fuel (m.next a)) = _
    rw [if_neg hpos]
    by_cases hitem : m.data a = item
    · rw [if_pos hitem, List.find?_cons_of_pos (by simpa using hitem)]
      rfl
    · rw [if_neg hitem, hnext, List.find?_cons_of_neg (by simpa using hitem)]
      exact ih hrest (fun b hb => haddr b (List.mem_cons_of_mem a hb))
        (Nat.le_of_succ_le_succ hfuel)

/-- `dl_list_find_node` finds the first node that holds `item`. -/
theorem findNode_eq [DecidableEq T] (h : Lists m l xs) (item : T) :
    dlListFindNode m l item = (xs.find? fun a => m.data a = item).getD 0 := by
  unfold dlListFindNode
  by_cases hzero : l.count = 0
  · rw [if_pos hzero, h.count_eq_zero.mp hzero]
    rfl
  · rw [if_neg hzero, h.head]
    exact findFrom_eq h.chain (fun a ha => (h.addr a ha).1) (Nat.le_of_eq h.count.symm)

/-- `dl_list_find_node` finds the one node that holds `item`. -/
theorem findNode_spec [DecidableEq T] {item : T} (h : Lists m l xs) (hn : n ∈ xs)
    (hdata : m.data n = item) (huniq : ∀ a ∈ xs, m.data a = item → a = n) :
    dlListFindNode m l item = n := by
  rw [findNode_eq h]
  cases hfind : xs.find? fun a => m.data a = item with
  | none => exact absurd hdata (by simpa using List.find?_eq_none.mp hfind n hn)
  | some a =>
    have hitem : m.data a = item := by simpa using List.find?_some hfind
    exact huniq a (List.mem_of_find?_eq_some hfind) hitem

/-- `dl_list_remove_node` leaves null links in the node. -/
theorem removeNode_links (h : Lists m l xs) (hsome : xs ≠ []) (n : Nat) :
    (dlListRemoveNode m l n).1.next n = 0 ∧ (dlListRemoveNode m l n).1.prev n = 0 := by
  have hcount : ¬ l.count = 0 := fun hzero => hsome (h.count_eq_zero.mp hzero)
  have hclear : ∀ m' : DlNodes T, (m'.clear n).next n = 0 ∧ (m'.clear n).prev n = 0 :=
    fun m' => ⟨Function.update_self n 0 m'.next, Function.update_self n 0 m'.prev⟩
  unfold dlListRemoveNode
  rw [if_neg hcount]
  split
  · exact hclear m
  split
  · exact hclear _
  split
  · exact hclear _
  · exact hclear _

end Specs

end MeOS
