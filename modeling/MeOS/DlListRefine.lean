import MeOS.DlList

/-! # The doubly linked list as a sequence

Each operation of `dl_list.h` on a list of nodes is an operation on their sequence.
-/

namespace MeOS.DlListRefine

variable {T : Type} {m : DlNodes T} {l : DlList} {xs u v : List Nat} {n : Nat}

/-- A node has been appended; the links of the others outside are as they were. -/
def Appended (m : DlNodes T) (l : DlList) (xs : List Nat) (n : Nat) : Prop :=
  Lists (dlListInsertBackNode m l n).1 (dlListInsertBackNode m l n).2 (xs ++ [n]) ∧
    NodesKept m (dlListInsertBackNode m l n).1 (xs ++ [n])

/-- A node has been taken out. It has null links, the nodes outside of the list are as they were. -/
structure TakenOut (m : DlNodes T) (xs ys : List Nat) (n : Nat)
    (r : DlNodes T × DlList × Nat) : Prop where
  result : r.2.2 = n
  lists : Lists r.1 r.2.1 ys
  links : r.1.next n = 0 ∧ r.1.prev n = 0
  kept : NodesKept m r.1 xs

/-- The first node is the last one now. -/
def Turned (m : DlNodes T) (l : DlList) (xs : List Nat) : Prop :=
  Lists (dlListHeadToTail m l).1 (dlListHeadToTail m l).2 (xs.rotate 1) ∧
    NodesKept m (dlListHeadToTail m l).1 xs

theorem appended (h : Lists m l xs) (hn : n ∉ xs) (haddr : 0 < n ∧ n < 4294967296) :
    Appended m l xs n := by
  obtain ⟨m', l', heq, hlists, hkept⟩ := insertBackNode_spec h hn haddr
  unfold Appended
  rw [heq]
  exact ⟨hlists, hkept⟩

/-- The node at a place is taken out. -/
theorem takenOut_of_split (h : Lists m l (u ++ n :: v)) :
    TakenOut m (u ++ n :: v) (u ++ v) n (dlListRemoveNode m l n) := by
  have hlinks := removeNode_links h (by simp) n
  obtain ⟨m', l', heq, hlists, hkept⟩ := removeNode_spec h
  rw [heq] at hlinks ⊢
  exact ⟨rfl, hlists, hlinks, hkept⟩

/-- A member is taken out of the sequence. -/
theorem takenOut (h : Lists m l xs) (hn : n ∈ xs) :
    TakenOut m xs (xs.erase n) n (dlListRemoveNode m l n) := by
  obtain ⟨u, v, rfl⟩ := List.append_of_mem hn
  have hu : n ∉ u := fun hmem =>
    List.disjoint_of_nodup_append h.nodup hmem List.mem_cons_self
  have herase : (u ++ n :: v).erase n = u ++ v := by
    rw [List.erase_append_right _ hu, List.erase_cons_head]
  rw [herase]
  exact takenOut_of_split h

/-- `dl_list_remove_front_node` takes the first node out, if there is one. -/
theorem removeFrontNode_settles (h : Lists m l xs) :
    ∃ r, dlListRemoveFrontNode m l = .ret r ∧
      (xs = [] → r = (m, l, 0)) ∧ ∀ n v, xs = n :: v → TakenOut m xs v n r := by
  cases xs with
  | nil =>
    have hempty : dlListRemoveFrontNode m l = .ret (m, l, 0) := by
      unfold dlListRemoveFrontNode
      rw [if_pos (h.count_eq_zero.mpr rfl)]
    exact ⟨_, hempty, fun _ => rfl, nofun⟩
  | cons n v =>
    refine ⟨_, removeFrontNode_eq h, nofun, fun n' v' heq => ?_⟩
    obtain ⟨rfl, rfl⟩ := List.cons.inj heq
    exact takenOut_of_split (u := []) h

theorem turned (h : Lists m l xs) : Turned m l xs := by
  unfold Turned
  cases xs with
  | nil =>
    rw [headToTail_short h (Nat.zero_le 1)]
    exact ⟨h, NodesKept.refl⟩
  | cons n v =>
    obtain ⟨m', l', heq, hlists, hkept⟩ := headToTail_spec h
    have hrotate : (n :: v).rotate 1 = v ++ [n] := by
      rw [List.rotate_cons_succ, List.rotate_zero]
    rw [heq, hrotate]
    exact ⟨hlists, hkept⟩

/-- The operations of `dl_list.h` on a list are those on the sequence of its nodes: a node from
outside is appended, a member deleted, the first one taken, the sequence turned by one, the first
node with an item found; `dl_list_remove_front_node` does not come to its `PANIC`. -/
structure Refines [DecidableEq T] (m : DlNodes T) (l : DlList) (xs : List Nat) : Prop where
  insertBackNode : ∀ n, n ∉ xs → 0 < n ∧ n < 4294967296 → Appended m l xs n
  removeNode : ∀ n ∈ xs, TakenOut m xs (xs.erase n) n (dlListRemoveNode m l n)
  removeFrontNode : ∃ r, dlListRemoveFrontNode m l = .ret r ∧
    (xs = [] → r = (m, l, 0)) ∧ ∀ n v, xs = n :: v → TakenOut m xs v n r
  headToTail : Turned m l xs
  findNode : ∀ item, dlListFindNode m l item = (xs.find? fun a => m.data a = item).getD 0

theorem dlList_refines [DecidableEq T] (m : DlNodes T) (l : DlList) (xs : List Nat)
    (h : Lists m l xs) : Refines m l xs where
  insertBackNode := fun _ hn haddr => appended h hn haddr
  removeNode := fun _ hn => takenOut h hn
  removeFrontNode := removeFrontNode_settles h
  headToTail := turned h
  findNode := fun item => findNode_eq h item

/-- Nodes 4 and 8, linked to each other. -/
def twoNodes : DlNodes Nat where
  data := id
  next := fun a => if a = 4 then 8 else 0
  prev := fun a => if a = 8 then 4 else 0

theorem dlList_refines_two : Refines twoNodes ⟨4, 8, 2⟩ [4, 8] :=
  dlList_refines twoNodes ⟨4, 8, 2⟩ [4, 8]
    ⟨rfl, rfl, rfl, ⟨rfl, rfl, rfl, rfl, trivial⟩, by decide, by decide⟩

end MeOS.DlListRefine
