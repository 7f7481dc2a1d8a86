import MeOS.SlList

/-! # The singly linked list as a sequence

The operations of `list.h` with the nodes they free. What is in a node behind `delete` is not
known: the operations are those of an allocator that leaves anything there.
-/

namespace MeOS.SlListRefine

open Links

variable {T : Type}

/-! ## The operations of the source -/

/-- A list, the memory of its nodes, and the nodes that have been deleted. -/
structure ListState (T : Type) where
  nodes : SlNodes T
  list : SlList
  freed : List Nat

/-- `delete node`. -/
def ListState.delete (junk : Nat → T × Nat) (s : ListState T) (node : Nat) : ListState T :=
  { s with
    nodes := (s.nodes.setNext node (junk node).2).setData node (junk node).1
    freed := s.freed ++ [node] }

/-- `list_insert_front`; `node` is the address of the new node. -/
def listInsertFront (s : ListState T) (node : Nat) (element : T) : ListState T :=
  let m := (s.nodes.setNext node 0).setData node element
  if s.list.count = 0 then
    { s with nodes := m, list := ⟨node, node, add32 s.list.count 1⟩ }
  else
    { s with
      nodes := m.setNext node s.list.head
      list := { s.list with head := node, count := add32 s.list.count 1 } }

/-- `list_insert_back`. -/
def insertBack (s : ListState T) (node : Nat) (element : T) : ListState T :=
  let r := listInsertBack s.nodes s.list node element
  { s with nodes := r.1, list := r.2 }

/-- `list_insert_back_node`. -/
def listInsertBackNode (s : ListState T) (node : Nat) : ListState T :=
  let m := s.nodes.setNext node 0
  if s.list.count = 0 then
    { s with nodes := m, list := ⟨node, node, add32 s.list.count 1⟩ }
  else
    { s with
      nodes := m.setNext s.list.tail node
      list := { s.list with tail := node, count := add32 s.list.count 1 } }

/-- The end of the removal of the first node: a list of none has no nodes. -/
def emptied (l : SlList) : SlList := if l.count = 0 then { l with head := 0, tail := 0 } else l

/-- `list_remove_front`. -/
def removeFront (junk : Nat → T × Nat) (s : ListState T) : ListState T :=
  if s.list.count = 0 then s
  else
    let temp := s.list.head
    let l := { s.list with head := s.nodes.next s.list.head, count := sub32 s.list.count 1 }
    let s := { s with list := l }.delete junk temp
    { s with list := emptied s.list }

/-- `list_remove_front_node`. -/
def listRemoveFrontNode (s : ListState T) : ListState T × Nat :=
  if s.list.count = 0 then (s, 0)
  else
    let temp := s.list.head
    let l := { s.list with head := s.nodes.next s.list.head, count := sub32 s.list.count 1 }
    ({ s with nodes := s.nodes.setNext temp 0, list := emptied l }, temp)

/-- `list_remove`: remove and delete the node after `prev`. -/
def remove (junk : Nat → T × Nat) (s : ListState T) (prev : Nat) : ListState T × Bool :=
  if prev = 0 then (s, false)
  else if s.list.count = 0 then (s, false)
  else if s.list.count = 1 then ({ s with list := listInit }.delete junk prev, true)
  else
    let temp := s.nodes.next prev
    let m := s.nodes.setNext prev (s.nodes.next temp)
    let tail := if temp = s.list.tail then prev else s.list.tail
    let s := { s with nodes := m, list := { s.list with tail := tail } }.delete junk temp
    let l := { s.list with count := sub32 s.list.count 1 }
    ({ s with list := l.settle }, true)

/-- `list_remove_node`: take the node after `prev` out. -/
def listRemoveNode (s : ListState T) (prev : Nat) : ListState T × Nat :=
  if prev = 0 then (s, 0)
  else if s.list.count = 0 then (s, 0)
  else if s.list.count = 1 then
    ({ s with nodes := s.nodes.setNext prev 0, list := listInit }, prev)
  else
    let temp := s.nodes.next prev
    let tail := if temp = s.list.tail then prev else s.list.tail
    let m := s.nodes.setNext prev (s.nodes.next temp)
    let l := { s.list with tail := tail, count := sub32 s.list.count 1 }
    ({ s with nodes := m.setNext temp 0, list := l.settle }, temp)

/-- `list_head_to_tail`. -/
def listHeadToTail (s : ListState T) : ListState T :=
  if s.list.count = 0 ∨ s.list.count = 1 then s
  else
    let m := s.nodes.setNext s.list.tail s.list.head
    let tail := s.list.head
    let head := m.next s.list.head
    { s with nodes := m.setNext tail 0, list := { s.list with head := head, tail := tail } }

/-- The loop of `list_clear`. -/
def clearLoop (junk : Nat → T × Nat) : Nat → ListState T → Outcome (ListState T)
  | 0, _ => .running
  | fuel + 1, s => if 0 < s.list.count then clearLoop junk fuel (removeFront junk s) else .ret s

/-- `list_clear`. -/
def listClear (junk : Nat → T × Nat) (s : ListState T) (fuel : Nat) : Outcome (ListState T) := do
  let s ← clearLoop junk fuel s
  .ret { s with list := { s.list with head := 0, tail := 0 } }

/-! ## What they do to the sequence -/

/-- The list holds the nodes `ys` now, and the nodes `gone` have been deleted. Links have changed
at the nodes `linked` only, and data at the nodes `written`. -/
structure Became (s s' : ListState T) (ys linked written gone : List Nat) : Prop where
  holds : SlHolds s'.nodes s'.list ys
  freed : s'.freed = s.freed ++ gone
  links : ∀ a, a ∉ linked → s'.nodes.next a = s.nodes.next a
  data : ∀ a, a ∉ written → s'.nodes.data a = s.nodes.data a

section

variable {junk : Nat → T × Nat} {s s' : ListState T} {xs ys u v : List Nat} {n p t : Nat}
variable {element : T}

/-- Nothing happens. -/
theorem Became.refl (h : SlHolds s.nodes s.list xs) (linked : List Nat) :
    Became s s xs linked [] [] :=
  ⟨h, (List.append_nil _).symm, fun _ _ => rfl, fun _ _ => rfl⟩

/-- `delete` of a node that is not in the list any more. -/
theorem Became.delete {linked gone : List Nat} (h : Became s s' ys linked gone gone) (hn : n ∉ ys)
    (hlinked : n ∈ linked) :
    Became s (s'.delete junk n) ys linked (gone ++ [n]) (gone ++ [n]) where
  holds := h.holds.congr fun a ha => Function.update_of_ne (ne_of_mem_of_not_mem ha hn) _ _
  freed := by
    show s'.freed ++ [n] = _
    rw [h.freed, List.append_assoc]
  links := by
    intro a ha
    have hne : a ≠ n := (ne_of_mem_of_not_mem hlinked ha).symm
    exact (Function.update_of_ne hne _ _).trans (h.links a ha)
  data := by
    intro a ha
    rw [List.mem_append, not_or, List.mem_singleton] at ha
    exact (Function.update_of_ne ha.2 _ _).trans (h.data a ha.1)

/-- The count of a list with one node more. -/
theorem count_succ (h : SlHolds s.nodes s.list xs) (hn : n ∉ xs)
    (haddr : 0 < n ∧ n < 4294967296) : add32 s.list.count 1 = xs.length + 1 := by
  have hlen : (n :: xs).length < 4294967296 :=
    length_lt_of_addr (by decide) (List.nodup_cons.mpr ⟨hn, h.nodup⟩) fun a ha => by
      rcases List.mem_cons.mp ha with rfl | ha
      · exact haddr
      · exact h.addr a ha
  rw [List.length_cons] at hlen
  rw [h.count, add32_eq hlen]

/-- `list_insert_front` puts the new node in front. -/
theorem insertFront_became (h : SlHolds s.nodes s.list xs) (hn : n ∉ xs)
    (haddr : 0 < n ∧ n < 4294967296) :
    Became s (listInsertFront s n element) (n :: xs) (n :: xs) [n] [] ∧
      (listInsertFront s n element).nodes.data n = element := by
  have hcount := count_succ h hn haddr
  have haddrs : ∀ a ∈ n :: xs, 0 < a ∧ a < 4294967296 := by
    intro a ha
    rcases List.mem_cons.mp ha with rfl | ha
    · exact haddr
    · exact h.addr a ha
  have hdata : ∀ a, a ∉ [n] → Function.update s.nodes.data n element a = s.nodes.data a :=
    fun a ha => Function.update_of_ne (by simpa using ha) _ _
  cases xs with
  | nil =>
    have hzero : s.list.count = 0 := h.count
    unfold listInsertFront
    rw [if_pos hzero]
    refine ⟨⟨⟨hcount, ⟨rfl, Function.update_self _ _ _⟩, rfl, List.nodup_singleton n, haddrs⟩,
      (List.append_nil _).symm, fun a ha => ?_, hdata⟩, Function.update_self _ _ _⟩
    exact Function.update_of_ne (by simpa using ha) _ _
  | cons y ys =>
    have hsome : s.list.count ≠ 0 := by
      rw [h.count, List.length_cons]
      omega
    have hnext : ∀ a, a ≠ n →
        Function.update (Function.update s.nodes.next n 0) n s.list.head a = s.nodes.next a :=
      fun a ha => (Function.update_of_ne ha _ _).trans (Function.update_of_ne ha _ _)
    unfold listInsertFront
    rw [if_neg hsome]
    refine ⟨⟨⟨hcount, ⟨rfl, ?_⟩, ?_, List.nodup_cons.mpr ⟨hn, h.nodup⟩, haddrs⟩,
      (List.append_nil _).symm, fun a ha => ?_, hdata⟩, Function.update_self _ _ _⟩
    · -- the new node points to the old head
      show Seg _ (Function.update (Function.update s.nodes.next n 0) n s.list.head n) _ 0
      rw [Function.update_self]
      exact h.seg.congr fun a ha => hnext a (ne_of_mem_of_not_mem ha hn)
    · show s.list.tail = _
      rw [h.tail]
      simp
    · exact hnext a (ne_of_mem_of_not_mem List.mem_cons_self ha).symm

/-- `list_insert_back` puts the new node behind. -/
theorem insertBack_became (element : T) (h : SlHolds s.nodes s.list xs) (hn : n ∉ xs)
    (haddr : 0 < n ∧ n < 4294967296) :
    Became s (insertBack s n element) (xs ++ [n]) (xs ++ [n]) [n] [] ∧
      (insertBack s n element).nodes.data n = element := by
  obtain ⟨m', l', heq, hholds, hdata, hnext⟩ := listInsertBack_spec (x := element) h hn haddr
  unfold insertBack
  rw [heq]
  refine ⟨⟨hholds, (List.append_nil _).symm, fun a ha => ?_, fun a ha => ?_⟩, ?_⟩
  · rw [List.mem_append, not_or, List.mem_singleton] at ha
    exact hnext a ha.1 ha.2
  · show m'.data a = _
    rw [hdata, Function.update_of_ne (by simpa using ha)]
  · show m'.data n = element
    rw [hdata, Function.update_self]

/-- A node with its data is a new node with that data. -/
theorem insertBackNode_eq (s : ListState T) (n : Nat) :
    listInsertBackNode s n = insertBack s n (s.nodes.data n) := by
  have hdata : (s.nodes.setNext n 0).setData n (s.nodes.data n) = s.nodes.setNext n 0 := by
    show (⟨Function.update s.nodes.data n (s.nodes.data n), _⟩ : SlNodes T) = _
    rw [Function.update_eq_self]
    rfl
  unfold listInsertBackNode insertBack listInsertBack
  dsimp only
  rw [hdata]
  split <;> rfl

/-- `list_insert_back_node` puts the node behind. -/
theorem insertBackNode_became (h : SlHolds s.nodes s.list xs) (hn : n ∉ xs)
    (haddr : 0 < n ∧ n < 4294967296) :
    Became s (listInsertBackNode s n) (xs ++ [n]) (xs ++ [n]) [] [] := by
  rw [insertBackNode_eq]
  obtain ⟨hbecame, hdata⟩ := insertBack_became (s.nodes.data n) h hn haddr
  refine ⟨hbecame.holds, hbecame.freed, hbecame.links, fun a _ => ?_⟩
  by_cases han : a = n
  · rw [han]
    exact hdata
  · exact hbecame.data a (by simpa using han)

/-- A null link in a node that is not in the list any more. -/
theorem Became.setNext {linked written gone : List Nat} (h : Became s s' ys linked written gone)
    (hn : n ∉ ys) (hlinked : n ∈ linked) (b : Nat) :
    Became s { s' with nodes := s'.nodes.setNext n b } ys linked written gone where
  holds := h.holds.congr fun a ha => Function.update_of_ne (ne_of_mem_of_not_mem ha hn) _ _
  freed := h.freed
  links := by
    intro a ha
    have hne : a ≠ n := (ne_of_mem_of_not_mem hlinked ha).symm
    exact (Function.update_of_ne hne _ _).trans (h.links a ha)
  data := h.data

/-- The first node of a list. -/
theorem head_eq (h : SlHolds s.nodes s.list (n :: v)) : s.list.head = n := h.seg.1

theorem count_ne_zero (h : SlHolds s.nodes s.list (n :: v)) : s.list.count ≠ 0 := by
  rw [h.count, List.length_cons]
  omega

/-- The list without its first node. -/
theorem front_became (h : SlHolds s.nodes s.list (n :: v)) :
    Became s { s with list := listRemoveFront s.nodes s.list } v (n :: v) [] [] :=
  ⟨listRemoveFront_spec h, (List.append_nil _).symm, fun _ _ => rfl, fun _ _ => rfl⟩

/-- `list_remove_front` takes the first node away and deletes it. -/
theorem removeFront_became (junk : Nat → T × Nat) (h : SlHolds s.nodes s.list (n :: v)) :
    Became s (removeFront junk s) v (n :: v) [n] [n] := by
  have heq : removeFront junk s =
      { s with list := listRemoveFront s.nodes s.list }.delete junk n := by
    unfold removeFront listRemoveFront
    simp only [if_neg (count_ne_zero h), head_eq h, ListState.delete, emptied]
  rw [heq]
  exact (front_became h).delete (List.nodup_cons.mp h.nodup).1 List.mem_cons_self

/-- `list_remove_front_node` takes it away, with a null link. -/
theorem removeFrontNode_became (h : SlHolds s.nodes s.list (n :: v)) :
    Became s (listRemoveFrontNode s).1 v (n :: v) [] [] ∧ (listRemoveFrontNode s).2 = n ∧
      (listRemoveFrontNode s).1.nodes.next n = 0 := by
  have heq : listRemoveFrontNode s =
      ({ s with nodes := s.nodes.setNext n 0, list := listRemoveFront s.nodes s.list }, n) := by
    unfold listRemoveFrontNode listRemoveFront
    simp only [if_neg (count_ne_zero h), head_eq h, emptied]
  rw [heq]
  exact ⟨(front_became h).setNext (List.nodup_cons.mp h.nodup).1 List.mem_cons_self 0, rfl,
    Function.update_self _ _ _⟩

/-- The list without the node behind `p`. -/
theorem behind_became (h : SlHolds s.nodes s.list (u ++ p :: t :: v)) :
    Became s { s with
        nodes := (listRemove s.nodes s.list p).1
        list := (listRemove s.nodes s.list p).2.1 } (u ++ p :: v) (u ++ p :: t :: v) [] [] := by
  obtain ⟨m', l', heq, hholds, hdata, hnext⟩ := listRemove_spec h
  rw [heq]
  refine ⟨hholds, (List.append_nil _).symm, fun a ha => hnext a ?_, fun a _ => congrFun hdata a⟩
  exact (ne_of_mem_of_not_mem (by simp) ha).symm

/-- What the two removals ask of the list, and the node that they remove. -/
theorem behind_facts (h : SlHolds s.nodes s.list (u ++ p :: t :: v)) :
    p ≠ 0 ∧ s.list.count ≠ 0 ∧ s.list.count ≠ 1 ∧ s.nodes.next p = t ∧ t ∉ u ++ p :: v := by
  have hcount : s.list.count = u.length + v.length + 2 := by
    rw [h.count, List.length_append, List.length_cons, List.length_cons]
    omega
  have hp : 0 < p := (h.addr p (by simp)).1
  obtain ⟨c, _, rfl, ht, _⟩ := seg_append.mp h.seg
  have hnodup : (u ++ [c] ++ t :: v).Nodup := by simpa using h.nodup
  obtain ⟨_, htv, hdis⟩ := List.nodup_append.mp hnodup
  refine ⟨by omega, by omega, by omega, ht, fun hmem => ?_⟩
  have hmem' : t ∈ u ++ [c] ∨ t ∈ v := by
    rw [← List.mem_append]
    simpa using hmem
  rcases hmem' with hmem' | hmem'
  · exact hdis t hmem' t List.mem_cons_self rfl
  · exact (List.nodup_cons.mp htv).1 hmem'

/-- `list_remove` takes the node behind `p` away and deletes it. -/
theorem remove_became (h : SlHolds s.nodes s.list (u ++ p :: t :: v)) :
    Became s (remove junk s p).1 (u ++ p :: v) (u ++ p :: t :: v) [t] [t] ∧
      (remove junk s p).2 = true := by
  obtain ⟨hp, hcount, hone, hnext, ht⟩ := behind_facts h
  have heq : remove junk s p = ({ s with
      nodes := (listRemove s.nodes s.list p).1
      list := (listRemove s.nodes s.list p).2.1 }.delete junk t, true) := by
    unfold remove listRemove
    simp only [if_neg hp, if_neg hcount, if_neg hone, hnext, ListState.delete]
  rw [heq]
  exact ⟨(behind_became h).delete ht (by simp), rfl⟩

/-- `list_remove_node` takes it away, with a null link. -/
theorem removeNode_became (h : SlHolds s.nodes s.list (u ++ p :: t :: v)) :
    Became s (listRemoveNode s p).1 (u ++ p :: v) (u ++ p :: t :: v) [] [] ∧
      (listRemoveNode s p).2 = t ∧ (listRemoveNode s p).1.nodes.next t = 0 := by
  obtain ⟨hp, hcount, hone, hnext, ht⟩ := behind_facts h
  have heq : listRemoveNode s p = ({ s with
      nodes := (listRemove s.nodes s.list p).1.setNext t 0
      list := (listRemove s.nodes s.list p).2.1 }, t) := by
    unfold listRemoveNode listRemove
    simp only [if_neg hp, if_neg hcount, if_neg hone, hnext]
  rw [heq]
  exact ⟨(behind_became h).setNext ht (by simp) 0, rfl, Function.update_self _ _ _⟩

/-- `list_head_to_tail` takes the first node away and puts it behind. -/
theorem headToTail_eq_insert {y : Nat} (h : SlHolds s.nodes s.list (n :: y :: v)) :
    listHeadToTail s =
      listInsertBackNode { s with list := listRemoveFront s.nodes s.list } n := by
  have hlt := h.length_lt
  have hcount : s.list.count = v.length + 2 := h.count
  rw [List.length_cons, List.length_cons] at hlt
  have hpred : sub32 s.list.count 1 = v.length + 1 := by
    rw [sub32_eq (by omega) (by omega)]
    omega
  have hback : add32 (sub32 s.list.count 1) 1 = s.list.count := by
    rw [hpred, hcount, add32_eq (by omega)]
  have htail : s.list.tail ≠ n := by
    have hmem : s.list.tail ∈ y :: v := by
      rw [h.tail, List.getLastD_cons, List.getLastD_cons]
      cases v using List.reverseRecOn with
      | nil => simp
      | append_singleton w b _ => simp
    exact ne_of_mem_of_not_mem hmem (List.nodup_cons.mp h.nodup).1
  have hfew : ¬ (s.list.count = 0 ∨ s.list.count = 1) := by omega
  have hsome : ¬ sub32 s.list.count 1 = 0 := by omega
  have hfront : listRemoveFront s.nodes s.list =
      { s.list with head := s.nodes.next n, count := sub32 s.list.count 1 } := by
    unfold listRemoveFront
    simp only [if_neg (count_ne_zero h), if_neg hsome, head_eq h]
  rw [hfront]
  unfold listHeadToTail listInsertBackNode
  rw [if_neg hfew, if_neg hsome]
  simp only [SlNodes.setNext, head_eq h, hback, Function.update_of_ne htail.symm]
  rw [Function.update_comm htail]

/-- `list_head_to_tail` turns the sequence by one. -/
theorem headToTail_became (h : SlHolds s.nodes s.list xs) :
    Became s (listHeadToTail s) (xs.rotate 1) xs [] [] := by
  match xs, h with
  | [], h =>
    have heq : listHeadToTail s = s := if_pos (.inl h.count)
    rw [heq]
    exact Became.refl h _
  | [n], h =>
    have heq : listHeadToTail s = s := if_pos (.inr h.count)
    rw [heq, List.rotate_cons_succ, List.rotate_zero]
    exact Became.refl h _
  | n :: y :: v, h =>
    obtain ⟨hholds, _, hlinks, hdata⟩ := insertBackNode_became
      (s := { s with list := listRemoveFront s.nodes s.list }) (front_became h).holds
      (List.nodup_cons.mp h.nodup).1 (h.addr n List.mem_cons_self)
    rw [headToTail_eq_insert h, List.rotate_cons_succ, List.rotate_zero]
    refine ⟨hholds, ?_, fun a ha => hlinks a ?_, hdata⟩
    · rw [insertBackNode_eq]
      exact (List.append_nil _).symm
    · intro hmem
      apply ha
      simp only [List.mem_append, List.mem_cons] at hmem ⊢
      tauto

/-- The loop of `list_clear` deletes all nodes, the first one first. -/
theorem clearLoop_settles (junk : Nat → T × Nat) (h : SlHolds s.nodes s.list xs) :
    ∃ s', Settles (fun fuel => clearLoop junk fuel s) s' ∧ Became s s' [] xs xs xs := by
  induction xs generalizing s with
  | nil =>
    refine ⟨s, .succ ?_, Became.refl h []⟩
    have hzero : ¬ 0 < s.list.count := by
      rw [h.count]
      exact Nat.lt_irrefl 0
    simp only [clearLoop, if_neg hzero]
    exact Settles.ret
  | cons n v ih =>
    have hfront := removeFront_became junk h
    obtain ⟨s', hs', hrest⟩ := ih hfront.holds
    refine ⟨s', .succ ?_, hrest.holds, ?_, fun a ha => ?_, fun a ha => ?_⟩
    · simp only [clearLoop, if_pos (Nat.pos_of_ne_zero (count_ne_zero h))]
      exact hs'
    · rw [hrest.freed, hfront.freed, List.append_assoc]
      rfl
    · exact (hrest.links a fun hmem => ha (List.mem_cons_of_mem n hmem)).trans (hfront.links a ha)
    · rw [List.mem_cons, not_or] at ha
      exact (hrest.data a ha.2).trans (hfront.data a (by simpa using ha.1))

/-- `list_clear` leaves an empty list. -/
theorem clear_settles (h : SlHolds s.nodes s.list xs) :
    ∃ s', Settles (listClear junk s) s' ∧ Became s s' [] xs xs xs := by
  obtain ⟨s', hs', hholds, hfreed, hlinks, hdata⟩ := clearLoop_settles junk h
  refine ⟨{ s' with list := { s'.list with head := 0, tail := 0 } }, ?_,
    ⟨hholds.count, rfl, rfl, List.nodup_nil, nofun⟩, hfreed, hlinks, hdata⟩
  unfold listClear
  exact hs'.bind (g := fun s _ =>
    .ret { s with list := { s.list with head := 0, tail := 0 } }) Settles.ret

/-- The two removals at the front, of a list that may be empty. -/
theorem front_removals (junk : Nat → T × Nat) (h : SlHolds s.nodes s.list xs) :
    Became s (removeFront junk s) xs.tail xs (xs.take 1) (xs.take 1) ∧
      Became s (listRemoveFrontNode s).1 xs.tail xs [] [] ∧
      (listRemoveFrontNode s).2 = xs.headD 0 := by
  cases xs with
  | nil =>
    have hcount : s.list.count = 0 := h.count
    have heq : removeFront junk s = s := if_pos hcount
    have heq' : listRemoveFrontNode s = (s, 0) := if_pos hcount
    rw [heq, heq']
    exact ⟨Became.refl h [], Became.refl h [], rfl⟩
  | cons n v =>
    obtain ⟨hbecame, hresult, _⟩ := removeFrontNode_became h
    exact ⟨removeFront_became junk h, hbecame, hresult⟩

/-- The operations of `list.h` on a list are those on the sequence of its nodes. Nodes are deleted
by `list_remove_front`, `list_remove` and `list_clear` only: those that are taken away. -/
structure Refines (junk : Nat → T × Nat) (s : ListState T) (xs : List Nat) : Prop where
  insertFront : ∀ n element, n ∉ xs → 0 < n ∧ n < 4294967296 →
    Became s (listInsertFront s n element) (n :: xs) (n :: xs) [n] [] ∧
      (listInsertFront s n element).nodes.data n = element
  insertBack : ∀ n element, n ∉ xs → 0 < n ∧ n < 4294967296 →
    Became s (insertBack s n element) (xs ++ [n]) (xs ++ [n]) [n] [] ∧
      (SlListRefine.insertBack s n element).nodes.data n = element
  insertBackNode : ∀ n, n ∉ xs → 0 < n ∧ n < 4294967296 →
    Became s (listInsertBackNode s n) (xs ++ [n]) (xs ++ [n]) [] []
  removeFront : Became s (removeFront junk s) xs.tail xs (xs.take 1) (xs.take 1)
  removeFrontNode : Became s (listRemoveFrontNode s).1 xs.tail xs [] [] ∧
    (listRemoveFrontNode s).2 = xs.headD 0
  remove : ∀ u p t v, xs = u ++ p :: t :: v →
    Became s (remove junk s p).1 (u ++ p :: v) xs [t] [t] ∧
      (SlListRefine.remove junk s p).2 = true
  removeNode : ∀ u p t v, xs = u ++ p :: t :: v →
    Became s (listRemoveNode s p).1 (u ++ p :: v) xs [] [] ∧ (listRemoveNode s p).2 = t ∧
      (listRemoveNode s p).1.nodes.next t = 0
  headToTail : Became s (listHeadToTail s) (xs.rotate 1) xs [] []
  clear : ∃ s', Settles (listClear junk s) s' ∧ Became s s' [] xs xs xs

theorem slList_refines (junk : Nat → T × Nat) (s : ListState T) (xs : List Nat)
    (h : SlHolds s.nodes s.list xs) : Refines junk s xs where
  insertFront := fun _ _ hn haddr => insertFront_became h hn haddr
  insertBack := fun _ element hn haddr => insertBack_became element h hn haddr
  insertBackNode := fun _ hn haddr => insertBackNode_became h hn haddr
  removeFront := (front_removals junk h).1
  removeFrontNode := (front_removals junk h).2
  remove := by
    rintro u p t v rfl
    exact remove_became h
  removeNode := by
    rintro u p t v rfl
    exact removeNode_became h
  headToTail := headToTail_became h
  clear := clear_settles h

/-- A list of the nodes 4 and 8. -/
def twoNodeList : ListState Nat where
  nodes := ⟨id, fun a => if a = 4 then 8 else 0⟩
  list := ⟨4, 8, 2⟩
  freed := []

theorem slList_refines_two : Refines (fun _ => (7, 7)) twoNodeList [4, 8] :=
  slList_refines (fun _ => (7, 7)) twoNodeList [4, 8]
    ⟨rfl, ⟨rfl, rfl, rfl⟩, rfl, by decide, by decide⟩

end

end MeOS.SlListRefine
