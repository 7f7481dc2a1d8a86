import Mathlib.Data.Set.Card
import Mathlib.Data.Set.Card.Arithmetic
import Mathlib.Data.List.Perm.Basic
import MeOS.Lib.Queue

/-! # Catalogues

A list of nodes stands for a set of keys: every key is that of one node, and
apart from these the list has a number of spare nodes, which stand for nothing.
What appending a node and taking one out do to the keys is said here for any
nodes, keys and notion of spare.
-/

namespace Catalogue

variable {α κ : Type*}

/-- Apart from `n` spare nodes, `l` has one node for each of `keys`. -/
def StandsFor (key : α → κ) (spare : α → Prop) (keys : Set κ) (n : Nat) (l : List α) : Prop :=
  ∃ spares nodes, l.Perm (spares ++ nodes) ∧ spares.length = n ∧ (∀ x ∈ spares, spare x) ∧
    (nodes.map key).Nodup ∧ ∀ k, k ∈ nodes.map key ↔ k ∈ keys

namespace StandsFor

variable {key : α → κ} {spare spare' : α → Prop} {keys : Set κ} {n i : Nat} {l : List α} {x : α}

/-- There are as many nodes as keys and spare ones. -/
theorem length (h : StandsFor key spare keys n l) : l.length = keys.ncard + n := by
  classical
  rcases h with ⟨spares, nodes, hperm, hlen, -, hnodup, hkeys⟩
  have hset : keys = ↑(nodes.map key).toFinset := by
    ext k
    rw [List.coe_toFinset]
    exact (hkeys k).symm
  have hcard : keys.ncard = nodes.length := by
    rw [hset, Set.ncard_coe_finset, List.toFinset_card_of_nodup hnodup, List.length_map]
  rw [hperm.length_eq, List.length_append, hlen, hcard]
  exact Nat.add_comm _ _

/-- A node that is not spare stands for its key. -/
theorem key_mem (h : StandsFor key spare keys n l) (hx : x ∈ l) (hno : ¬ spare x) :
    key x ∈ keys := by
  rcases h with ⟨spares, nodes, hperm, -, hspares, -, hkeys⟩
  rcases List.mem_append.mp (hperm.mem_iff.mp hx) with hsp | hnode
  · exact absurd (hspares x hsp) hno
  · exact (hkeys _).mp (List.mem_map_of_mem hnode)

theorem mono (h : StandsFor key spare keys n l) (hspare : ∀ x ∈ l, spare x → spare' x) :
    StandsFor key spare' keys n l := by
  rcases h with ⟨spares, nodes, hperm, hlen, hspares, hnodes⟩
  refine ⟨spares, nodes, hperm, hlen, fun x hx => ?_, hnodes⟩
  exact hspare x (hperm.mem_iff.mpr (List.mem_append_left _ hx)) (hspares x hx)

theorem nil : StandsFor key spare ∅ 0 ([] : List α) :=
  ⟨[], [], .refl _, rfl, fun _ hx => absurd hx List.not_mem_nil, List.nodup_nil, by simp⟩

/-- A spare node is appended. -/
theorem append_spare (h : StandsFor key spare keys n l) (hx : spare x) :
    StandsFor key spare keys (n + 1) (l ++ [x]) := by
  rcases h with ⟨spares, nodes, hperm, hlen, hspares, hnodes⟩
  refine ⟨x :: spares, nodes, ?_, by rw [List.length_cons, hlen], ?_, hnodes⟩
  · exact (List.perm_append_singleton x l).trans (hperm.cons x)
  · intro y hy
    rcases List.mem_cons.mp hy with rfl | hrest
    · exact hx
    · exact hspares y hrest

/-- A node with a new key is appended. -/
theorem append_node (h : StandsFor key spare keys n l) (hnew : key x ∉ keys) :
    StandsFor key spare (insert (key x) keys) n (l ++ [x]) := by
  rcases h with ⟨spares, nodes, hperm, hlen, hspares, hnodup, hkeys⟩
  refine ⟨spares, nodes ++ [x], ?_, hlen, hspares, ?_, fun k => ?_⟩
  · rw [← List.append_assoc]
    exact hperm.append_right [x]
  · rw [List.map_append, List.map_singleton]
    exact Queue.nodup_push hnodup fun hmem => hnew ((hkeys _).mp hmem)
  · rw [List.map_append, List.map_singleton, List.mem_append, List.mem_singleton, hkeys k,
      Set.mem_insert_iff]
    exact or_comm

/-- A node that is not spare is taken out, and its key with it. -/
theorem eraseIdx (h : StandsFor key spare keys n l) (hi : l[i]? = some x) (hno : ¬ spare x) :
    StandsFor key spare (keys \ {key x}) n (l.eraseIdx i) := by
  rcases h with ⟨spares, nodes, hperm, hlen, hspares, hnodup, hkeys⟩
  rcases List.getElem?_eq_some_iff.mp hi with ⟨hlt, rfl⟩
  have hx : l[i] ∈ nodes := by
    rcases List.mem_append.mp (hperm.mem_iff.mp (List.getElem_mem hlt)) with hsp | hnode
    · exact absurd (hspares _ hsp) hno
    · exact hnode
  rcases List.append_of_mem hx with ⟨front, back, rfl⟩
  have hkey : key l[i] ∉ (front ++ back).map key := by
    rw [List.map_append, List.map_cons] at hnodup
    rw [List.map_append]
    exact (List.nodup_middle.mp hnodup).notMem
  refine ⟨spares, front ++ back, ?_, hlen, hspares, ?_, fun k => ?_⟩
  · -- take the node out on both sides
    have hall : (l[i] :: l.eraseIdx i).Perm (l[i] :: (spares ++ (front ++ back))) := by
      refine (List.getElem_cons_eraseIdx_perm hlt).trans (hperm.trans ?_)
      rw [← List.append_assoc, ← List.append_assoc]
      exact List.perm_middle
    exact hall.cons_inv
  · rw [List.map_append, List.map_cons] at hnodup
    rw [List.map_append]
    exact (List.nodup_middle.mp hnodup).of_cons
  · rw [Set.mem_sdiff, Set.mem_singleton_iff, ← hkeys k]
    constructor
    · intro hk
      refine ⟨?_, fun heq => hkey (heq ▸ hk)⟩
      rw [List.map_append] at hk
      rw [List.map_append, List.map_cons]
      exact List.perm_middle.mem_iff.mpr (List.mem_cons_of_mem _ hk)
    · rintro ⟨hk, hne⟩
      rw [List.map_append, List.map_cons] at hk
      rw [List.map_append]
      exact (List.mem_cons.mp (List.perm_middle.mem_iff.mp hk)).resolve_left hne

/-- A list with different keys stands for those that are not spare. -/
theorem of_keys {p : κ → Bool} (hnodup : (l.map key).Nodup)
    (hspare : ∀ x ∈ l, p (key x) = true → spare x) :
    StandsFor key spare {k | k ∈ l.map key ∧ p k = false} ((l.map key).filter p).length l := by
  refine ⟨l.filter fun x => p (key x), l.filter fun x => !p (key x), ?_, ?_, ?_, ?_, fun k => ?_⟩
  · exact (List.filter_append_perm (fun x => p (key x)) l).symm
  · rw [List.filter_map, List.length_map]
    rfl
  · intro x hx
    rw [List.mem_filter] at hx
    exact hspare x hx.1 hx.2
  · exact hnodup.sublist (List.filter_sublist.map key)
  · constructor
    · intro hk
      rcases List.mem_map.mp hk with ⟨x, hx, rfl⟩
      rw [List.mem_filter, Bool.not_eq_true'] at hx
      exact ⟨List.mem_map_of_mem hx.1, hx.2⟩
    · rintro ⟨hk, hp⟩
      rcases List.mem_map.mp hk with ⟨x, hx, rfl⟩
      refine List.mem_map_of_mem (List.mem_filter.mpr ⟨hx, ?_⟩)
      rw [hp]
      rfl

end StandsFor

end Catalogue
