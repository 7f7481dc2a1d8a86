import MeOS.PeImports

/-! # `vfs_find_relative_node`

A path is looked up one component at a time: the slash behind a component is overwritten with a
zero while the children are compared with it, and put back before anything else is done.

Nodes are named by their addresses. The names of nodes are in the same memory as the path.
-/

namespace MeOS.VfsLookup

open Bytes

/-! ## The functions -/

/-- The nodes, as far as a lookup sees them: where the name of a node is, and its children in the
order of their list. -/
structure VfsTree where
  name : Nat → Nat
  children : Nat → List Nat
  notNull : ∀ node, 0 ∉ children node

/-- `strchr`. -/
def strchr (m : Mem) (c : UInt8) : Nat → Nat → Outcome Nat
  | _, 0 => .running
  | str, fuel + 1 =>
    if m str ≠ 0 then
      if m str = c then .ret str else strchr m c (str + 1) fuel
    else .ret 0

/-- The loop of `vfs_find_child`. -/
def findChildLoop (vfs : VfsTree) (m : Mem) (name : Nat) : List Nat → Nat → Outcome Nat
  | [], _ => .ret 0
  | child :: rest, fuel => do
    let res ← strcmp m name (vfs.name child) fuel
    if res = 0 then .ret child else findChildLoop vfs m name rest fuel

/-- `vfs_find_child`. -/
def vfsFindChild (vfs : VfsTree) (m : Mem) (node name fuel : Nat) : Outcome Nat :=
  findChildLoop vfs m name (vfs.children node) fuel

/-- The loop of `vfs_find_relative_node`. -/
def findNodeLoop (vfs : VfsTree) : Mem → Nat → Nat → Nat → Outcome (Mem × Nat)
  | _, _, _, 0 => .running
  | m, next, path, fuel + 1 => do
    let slash ← strchr m 47 path fuel
    if slash = 0 then do
      let next ← vfsFindChild vfs m next path fuel
      .ret (m, next)
    else do
      let next ← vfsFindChild vfs (store8 m slash 0) next path fuel
      let m := store8 (store8 m slash 0) slash 47
      if next = 0 then .ret (m, 0) else findNodeLoop vfs m next (slash + 1) fuel

/-- `vfs_find_relative_node`: the memory it leaves and the node. -/
def vfsFindRelativeNode (vfs : VfsTree) (m : Mem) (start path fuel : Nat) : Outcome (Mem × Nat) :=
  if path = 0 then .ret (m, 0) else findNodeLoop vfs m start path fuel

/-! ## What a path means -/

section

variable {vfs : VfsTree} {m : Mem} {a path start : Nat} {b c : UInt8}
  {s t component rest : List UInt8}

/-- The first child with the name. -/
def childNamed (vfs : VfsTree) (m : Mem) (node : Nat) (component : List UInt8) : Option Nat :=
  (vfs.children node).find? fun child => StrAt m (vfs.name child) component

/-- The node that a path leads to: one step down for each part between two slashes. -/
def nodeAt (vfs : VfsTree) (m : Mem) (start : Nat) (s : List UInt8) : Option Nat :=
  (s.splitOn 47).foldlM (childNamed vfs m) start

/-- Every node has a name, and no slash of the path is one of its bytes. -/
def NamesApart (vfs : VfsTree) (m : Mem) (path : Nat) (s : List UInt8) : Prop :=
  ∀ node, ∀ child ∈ vfs.children node, ∃ t, StrAt m (vfs.name child) t ∧
    ∀ x, path ≤ x → x < path + s.length → m x = 47 →
      x < vfs.name child ∨ vfs.name child + t.length < x

/-! ## Strings with a slash -/

/-- The character behind the first part of a string. -/
theorem strAt_append (hs : StrAt m a (component ++ b :: rest)) :
    m (a + component.length) = b ∧ StrAt m (a + component.length + 1) rest := by
  induction component generalizing a with
  | nil => exact ⟨hs.1, hs.2.2⟩
  | cons d component ih =>
    have hnext := ih hs.2.2
    rw [List.length_cons, show a + (component.length + 1) = a + 1 + component.length by omega]
    exact hnext

/-- With a zero behind it, the first part of a string is a string. -/
theorem strAt_cut (hs : StrAt m a (component ++ b :: rest)) :
    StrAt (store8 m (a + component.length) 0) a component := by
  induction component generalizing a with
  | nil => exact store8_same m a 0
  | cons d component ih =>
    rcases hs with ⟨hd, hne, hrest⟩
    have hnext := ih hrest
    rw [show a + 1 + component.length = a + (d :: component).length by
      rw [List.length_cons]; omega] at hnext
    refine ⟨?_, hne, hnext⟩
    rw [store8_ne m 0 (by rw [List.length_cons]; omega), hd]

/-- A string without the character. -/
theorem strchr_absent (hs : StrAt m a s) (hc : c ∉ s) : Settles (strchr m c a) 0 := by
  induction s generalizing a with
  | nil =>
    have hend : m a = 0 := hs
    refine .succ ?_
    simp only [strchr, hend, ne_eq, not_true_eq_false, if_false]
    exact Settles.ret
  | cons d s ih =>
    rcases hs with ⟨hd, hne, hrest⟩
    rcases not_or.mp (mt List.mem_cons.mpr hc) with ⟨hdc, hcs⟩
    refine .succ ?_
    simp only [strchr, hd, ne_eq, hne, not_false_eq_true, if_true, if_neg (Ne.symm hdc)]
    exact ih hrest hcs

/-- The first place of the character. -/
theorem strchr_found (hs : StrAt m a (component ++ c :: rest)) (hc : c ∉ component) :
    Settles (strchr m c a) (a + component.length) := by
  induction component generalizing a with
  | nil =>
    rcases hs with ⟨hd, hne, _⟩
    refine .succ ?_
    simp only [strchr, hd, ne_eq, hne, not_false_eq_true, if_true]
    exact Settles.ret
  | cons d component ih =>
    rcases hs with ⟨hd, hne, hrest⟩
    rcases not_or.mp (mt List.mem_cons.mpr hc) with ⟨hdc, hcs⟩
    refine .succ ?_
    simp only [strchr, hd, ne_eq, hne, not_false_eq_true, if_true, if_neg (Ne.symm hdc)]
    have hnext := ih hrest hcs
    rwa [show a + 1 + component.length = a + (d :: component).length by
      rw [List.length_cons]; omega] at hnext

/-- A byte that is overwritten and put back. -/
theorem store8_restored (m : Mem) (a : Nat) (v : UInt8) : store8 (store8 m a v) a (m a) = m := by
  simp [store8]

/-! ## One step down -/

/-- The search among the children is for the first with the name. -/
theorem findChildLoop_settles {l : List Nat} (hname : StrAt m a component)
    (hnames : ∀ child ∈ l, ∃ t, StrAt m (vfs.name child) t) :
    Settles (findChildLoop vfs m a l)
      ((l.find? fun child => StrAt m (vfs.name child) component).getD 0) := by
  induction l with
  | nil => exact Settles.ret
  | cons child l ih =>
    rcases List.forall_mem_cons.mp hnames with ⟨⟨t, ht⟩, hrest⟩
    obtain ⟨res, hres, hzero⟩ := strcmp_settles (a := a) ht
    -- the comparison stops at the end of the child's name, so it is read from there
    have hsame : StrAt m a t ↔ StrAt m (vfs.name child) component := by
      constructor
      · intro h
        rwa [hname.unique h]
      · intro h
        rwa [ht.unique h]
    by_cases hfound : StrAt m (vfs.name child) component
    · rw [List.find?_cons_of_pos (by simpa using hfound)]
      exact hres.bind (g := fun r fuel =>
        if r = 0 then .ret child else findChildLoop vfs m a l fuel)
        (Settles.pos (hzero.mpr (hsame.mpr hfound)) Settles.ret)
    · rw [List.find?_cons_of_neg (by simpa using hfound)]
      exact hres.bind (g := fun r fuel =>
        if r = 0 then .ret child else findChildLoop vfs m a l fuel)
        (Settles.neg (fun h => hfound (hsame.mp (hzero.mp h))) (ih hrest))

/-- A write that no name of a child contains is not seen by the search. -/
theorem childNamed_store8 (node x : Nat) (v : UInt8) (component : List UInt8)
    (hnames : ∀ child ∈ vfs.children node, ∃ t, StrAt m (vfs.name child) t ∧
      (x < vfs.name child ∨ vfs.name child + t.length < x)) :
    (∀ child ∈ vfs.children node, ∃ t, StrAt (store8 m x v) (vfs.name child) t) ∧
      childNamed vfs (store8 m x v) node component = childNamed vfs m node component := by
  have hkept : ∀ child ∈ vfs.children node, ∃ t, StrAt m (vfs.name child) t ∧
      StrAt (store8 m x v) (vfs.name child) t := by
    intro child hchild
    obtain ⟨t, ht, hout⟩ := hnames child hchild
    exact ⟨t, ht, ht.move fun i hi => store8_ne m v (by omega)⟩
  refine ⟨fun child hchild => (hkept child hchild).imp fun _ h => h.2, ?_⟩
  refine List.find?_congr fun child hchild => ?_
  obtain ⟨t, ht, ht'⟩ := hkept child hchild
  rw [decide_eq_decide]
  constructor
  · intro h
    rwa [h.unique ht']
  · intro h
    rwa [h.unique ht]

/-- The condition on the names holds for the rest of the path. -/
theorem NamesApart.tail (h : NamesApart vfs m path (component ++ b :: rest)) :
    NamesApart vfs m (path + component.length + 1) rest := by
  intro node child hchild
  obtain ⟨t, ht, hout⟩ := h node child hchild
  refine ⟨t, ht, fun x hlo hhi => hout x (by omega) ?_⟩
  rw [List.length_append, List.length_cons]
  omega

/-- A turn of the loop, from the place of the slash on. -/
def findNodeTurn (vfs : VfsTree) (m : Mem) (next path slash fuel : Nat) : Outcome (Mem × Nat) :=
  if slash = 0 then do
    let next ← vfsFindChild vfs m next path fuel
    .ret (m, next)
  else do
    let next ← vfsFindChild vfs (store8 m slash 0) next path fuel
    let m := store8 (store8 m slash 0) slash 47
    if next = 0 then .ret (m, 0) else findNodeLoop vfs m next (slash + 1) fuel

/-- A path of one component leads to the child with that name. -/
theorem nodeAt_last (hslash : (47 : UInt8) ∉ s) :
    nodeAt vfs m start s = childNamed vfs m start s := by
  rw [nodeAt, List.splitOn_eq_singleton hslash, List.foldlM_cons]
  simp

/-- The first component of a path leads to the node that the others start from. -/
theorem nodeAt_component (habsent : (47 : UInt8) ∉ component) :
    nodeAt vfs m start (component ++ 47 :: rest) =
      (childNamed vfs m start component).bind fun next => nodeAt vfs m next rest := by
  rw [nodeAt, List.splitOn_append_cons_self_of_not_mem habsent, List.foldlM_cons]
  rfl

/-- With its slash cut off, the first component is looked for among the children. -/
theorem findChild_component (hs : StrAt m path (component ++ 47 :: rest))
    (hnames : NamesApart vfs m path (component ++ 47 :: rest)) :
    Settles (vfsFindChild vfs (store8 m (path + component.length) 0) start path)
      ((childNamed vfs m start component).getD 0) := by
  have hout : ∀ child ∈ vfs.children start, ∃ t, StrAt m (vfs.name child) t ∧
      (path + component.length < vfs.name child ∨
        vfs.name child + t.length < path + component.length) := by
    intro child hchild
    obtain ⟨t, ht, hout⟩ := hnames start child hchild
    refine ⟨t, ht, hout _ (by omega) ?_ (strAt_append hs).1⟩
    rw [List.length_append, List.length_cons]
    omega
  obtain ⟨hstrings, hsame⟩ := childNamed_store8 start _ 0 component hout
  rw [← hsame]
  exact findChildLoop_settles (strAt_cut hs) hstrings

/-- The loop goes down the components of the path and leaves the memory as it was. -/
theorem findNodeLoop_settles (hs : StrAt m path s) (hpath : path ≠ 0)
    (hnames : NamesApart vfs m path s) :
    Settles (findNodeLoop vfs m start path) (m, (nodeAt vfs m start s).getD 0) := by
  -- on the length of the path; a turn takes a component and its slash away
  induction hn : s.length using Nat.strong_induction_on generalizing s path start with
  | _ n ih =>
    by_cases hslash : (47 : UInt8) ∈ s
    · obtain ⟨component, rest, rfl, habsent⟩ := List.eq_append_cons_of_mem hslash
      obtain ⟨hat, hrest⟩ := strAt_append hs
      have hback : store8 (store8 m (path + component.length) 0) (path + component.length) 47 =
          m := by
        rw [← hat]
        exact store8_restored m _ 0
      refine .succ ((strchr_found hs habsent).bind (g := findNodeTurn vfs m start path)
        (Settles.neg (by omega) ?_))
      refine (findChild_component hs hnames).bind (g := fun next fuel =>
        if next = 0 then .ret (store8 (store8 m _ 0) _ 47, 0)
        else findNodeLoop vfs (store8 (store8 m _ 0) _ 47) next _ fuel) ?_
      rw [hback, nodeAt_component habsent]
      cases hfound : childNamed vfs m start component with
      | none => exact Settles.pos rfl Settles.ret
      | some next =>
        have hne : next ≠ 0 := by
          rintro rfl
          exact vfs.notNull start (List.mem_of_find?_eq_some hfound)
        refine Settles.neg hne (ih rest.length ?_ hrest (by omega) hnames.tail rfl)
        rw [← hn, List.length_append, List.length_cons]
        omega
    · have hchild := findChildLoop_settles (l := vfs.children start) hs fun child hchild =>
        (hnames start child hchild).imp fun _ h => h.1
      rw [nodeAt_last hslash]
      refine .succ ((strchr_absent hs hslash).bind (g := findNodeTurn vfs m start path)
        (Settles.pos rfl ?_))
      exact hchild.bind (g := fun next _ => .ret (m, next)) Settles.ret

/-- The node found is the one the path leads to, or 0, and the memory is what it was before. -/
theorem vfsFindRelativeNode_spec (vfs : VfsTree) (m : Mem) (start path : Nat) (s : List UInt8)
    (hpath : path ≠ 0) (hs : StrAt m path s) (hnames : NamesApart vfs m path s) :
    Settles (vfsFindRelativeNode vfs m start path) (m, (nodeAt vfs m start s).getD 0) :=
  Settles.neg hpath (findNodeLoop_settles hs hpath hnames)

/-- The path `d//x` at 100, with an empty component. -/
def slashedPath : Mem := fun x =>
  match x with
  | 100 => 100
  | 101 => 47
  | 102 => 47
  | 103 => 120
  | 10 => 100
  | 20 => 120
  | _ => 0

/-- Node 1 has the children 2 and 3, both named `d`; 2 has a child without a name, and that one a
child `x`. -/
def smallTree : VfsTree where
  name := fun node => match node with
    | 2 => 10
    | 3 => 10
    | 5 => 20
    | _ => 30
  children := fun node => match node with
    | 1 => [2, 3]
    | 2 => [4]
    | 4 => [5]
    | _ => []
  notNull := by
    intro node
    match node with
    | 0 => decide
    | 1 => decide
    | 2 => decide
    | 3 => decide
    | 4 => decide
    | n + 5 => exact List.not_mem_nil

theorem smallTree_apart : NamesApart smallTree slashedPath 100 [100, 47, 47, 120] := by
  have hname (child : Nat) : ∃ t, StrAt slashedPath (smallTree.name child) t ∧
      smallTree.name child + t.length < 100 := by
    by_cases hd : child = 2 ∨ child = 3
    · refine ⟨[100], ?_⟩
      rcases hd with rfl | rfl <;> decide
    · by_cases hx : child = 5
      · rw [hx]
        exact ⟨[120], by decide⟩
      · have hother : smallTree.name child = 30 := by
          simp only [smallTree]
          split <;> omega
        rw [hother]
        exact ⟨[], by decide⟩
  intro node child _
  obtain ⟨t, ht, hlow⟩ := hname child
  exact ⟨t, ht, fun x hlo _ _ => .inr (by omega)⟩

theorem vfsFindRelativeNode_slashedPath :
    Settles (vfsFindRelativeNode smallTree slashedPath 1 100) (slashedPath, 5) :=
  vfsFindRelativeNode_spec smallTree slashedPath 1 100 [100, 47, 47, 120] (by decide) (by decide)
    smallTree_apart

end

end MeOS.VfsLookup
