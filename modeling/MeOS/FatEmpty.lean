import MeOS.FatChildren

/-! # Empty directories

`fat_fs_delete_node` takes a directory for empty when its node has no more than
two children. Over any history of creating and deleting the children stand for
the entries (`TreeInv`), but how many of them stand for `.` and `..` depends on
how the directory came about and on what was created in it.
-/

namespace MeOS

open Bytes EndMarked Runs Catalogue

/-! ## Histories -/

/-- The file system, and its directories by the addresses of their nodes. -/
structure VfsTree where
  fat : FatState
  branch : Nat → Option Branch

/-- The clusters of the directories. -/
def VfsTree.directories (T : VfsTree) : Directories :=
  ⟨T.fat, fun c => ∃ k B, T.branch k = some B ∧ c ∈ B.node.data.layout⟩

/-- A step of the tree, and whether it makes a directory. The caller attaches what was
created and detaches what was deleted. -/
inductive TreeStep (mp : MountPoint) (n : Nat) : VfsTree → Bool → VfsTree → Prop where
  | createFile {T : VfsTree} {B : Branch} {s' : FatState} {directory' node : FatNode}
      {name : List UInt8} {fuel attrs k c j i : Nat} (hB : T.branch k = some B)
      (hfile : attrs &&& 7 ≠ vfsDirectory)
      (hfinds : Finds T.fat.disk mp (fun _ => true) B.node.data.layout c j i)
      (hreserves : ReservesInFat T.directories mp n)
      (hrun : fatFsCreateNode fuel T.fat mp B.node name attrs =
        .ret (s', directory', some node)) :
      TreeStep mp n T false ⟨s', Function.update T.branch k
        (some ⟨directory'.addChild node, B.dots, B.labels, B.made⟩)⟩
  | createDirectory {T : VfsTree} {B : Branch} {s' : FatState} {directory' node : FatNode}
      {name : List UInt8} {fuel attrs k k' c j i : Nat} (hB : T.branch k = some B)
      (hfresh : T.branch k' = none) (hdirectory : attrs &&& 7 = vfsDirectory)
      (hfinds : Finds T.fat.disk mp (fun _ => true) B.node.data.layout c j i)
      (hreserves : ReservesInFat T.directories mp n)
      (hrun : fatFsCreateNode fuel T.fat mp B.node name attrs =
        .ret (s', directory', some node)) :
      TreeStep mp n T true ⟨s', Function.update (Function.update T.branch k
        (some ⟨directory'.addChild node, B.dots, B.labels, B.made + 1⟩)) k'
          (some ⟨node, 0, false, 0⟩)⟩
  | createNone {T : VfsTree} {B : Branch} {s' : FatState} {directory' : FatNode}
      {name : List UInt8} {fuel attrs k c j i : Nat} (hB : T.branch k = some B)
      (hfinds : Finds T.fat.disk mp (fun _ => true) B.node.data.layout c j i)
      (hreserves : ReservesInFat T.directories mp n)
      (hrun : fatFsCreateNode fuel T.fat mp B.node name attrs = .ret (s', directory', none)) :
      TreeStep mp n T false ⟨s', Function.update T.branch k
        (some ⟨directory', B.dots, B.labels, B.made⟩)⟩
  | deleteFile {T : VfsTree} {B : Branch} {s' : FatState} {child : FatNode} {fuel k i : Nat}
      (hB : T.branch k = some B) (hchild : B.node.children[i]? = some child)
      (hdot : ¬ DotChild (Listing T.fat.disk mp B.node.data.layout) child)
      (hfile : child.attributes &&& 7 ≠ vfsDirectory)
      (hstay : ∀ x, child.data.layout.head? = some x → StaysInFat T.fat.disk mp n x)
      (hrun : fatFsDeleteNode fuel T.fat mp child = .ret (s', .ok)) :
      TreeStep mp n T false ⟨s', Function.update T.branch k (some (B.detach i))⟩
  | deleteDirectory {T : VfsTree} {B E : Branch} {s' : FatState} {child : FatNode}
      {fuel k k' i : Nat} (hB : T.branch k = some B) (hchild : B.node.children[i]? = some child)
      (hdot : ¬ DotChild (Listing T.fat.disk mp B.node.data.layout) child)
      (hE : T.branch k' = some E) (hne : k ≠ k') (hplace : E.node.place = child.place)
      (hstay : ∀ x, E.node.data.layout.head? = some x → StaysInFat T.fat.disk mp n x)
      (hrun : fatFsDeleteNode fuel T.fat mp E.node = .ret (s', .ok)) :
      TreeStep mp n T false ⟨s', Function.update (Function.update T.branch k' none) k
        (some (B.detach i))⟩
  | refuse {T : VfsTree} {E : Branch} {s' : FatState} {fuel k : Nat} {res : ErrorT}
      (hE : T.branch k = some E) (hfull : HasChildren E.node)
      (hrun : fatFsDeleteNode fuel T.fat mp E.node = .ret (s', res)) :
      TreeStep mp n T false ⟨s', T.branch⟩

/-- No cluster belongs to two directories, nothing in use stands behind an end mark, and
the children of every directory stand for its entries. -/
structure TreeInv (mp : MountPoint) (n : Nat) (T : VfsTree) : Prop where
  dirs : DirInv mp n T.directories
  apart : ∀ k k' B B' c, T.branch k = some B → T.branch k' = some B' →
    c ∈ B.node.data.layout → c ∈ B'.node.data.layout → k = k'
  branch : ∀ k B, T.branch k = some B → BranchInv T.fat.disk mp B

/-- What is found after an update is what was put there, or was there before. -/
theorem update_eq_some {α : Type} {f : Nat → Option α} {v : Option α} {x : α} {k key : Nat}
    (h : Function.update f k v key = some x) :
    (key = k ∧ v = some x) ∨ (key ≠ k ∧ f key = some x) := by
  by_cases hkey : key = k
  · rw [hkey, Function.update_self] at h
    exact Or.inl ⟨hkey, h⟩
  · rw [Function.update_of_ne hkey] at h
    exact Or.inr ⟨hkey, h⟩

section Names

variable {name bytes : List UInt8} {e : Slot} {attrs : Nat}

/-- No encoded name starts with a dot. -/
theorem generateShortName_head (h : fatFsGenerateShortName name = some bytes) :
    bytes.head? ≠ some dot := by
  have hbase : ((name.take 8).takeWhile (· ≠ dot)).head?.getD space ≠ dot := by
    cases hb : ((name.take 8).takeWhile (· ≠ dot)).head? with
    | none => decide
    | some c =>
      have hc := List.mem_takeWhile_imp (List.mem_of_head? hb)
      simpa using hc
  unfold fatFsGenerateShortName at h
  dsimp only at h
  split at h
  · cases h
  · split at h
    · rw [← Option.some.inj h, padded_head 11 (by decide)]
      exact fun heq => hbase (Option.some.inj heq)
    · rw [← Option.some.inj h, List.head?_append, padded_head 8 (by decide)]
      exact fun heq => hbase (Option.some.inj heq)

theorem NewEntry.not_dot {r : Nat} (h : NewEntry name r e) : ¬ IsDot e := by
  have hhead := generateShortName_head h.name
  rintro (hself | hparent)
  · rw [hself] at hhead
    exact hhead (by decide)
  · rw [hparent] at hhead
    exact hhead (by decide)

/-- The attributes of a new entry are never those of a label. -/
theorem shown_new (h : e 11 = UInt8.ofNat (vfsToFatAttributes attrs)) : Shown e := by
  unfold Shown
  rw [h]
  unfold vfsToFatAttributes
  dsimp only
  split_ifs <;> decide

end Names

section Step

variable {T T' : VfsTree} {B B' E : Branch} {s' : FatState} {mp : MountPoint}
  {directory' node child : FatNode} {name : List UInt8} {fuel attrs n k k' c j i : Nat}
  {res : ErrorT} {makes : Bool}

theorem TreeInv.layout (hB : T.branch k = some B) :
    ∀ c ∈ B.node.data.layout, T.directories.dirs c :=
  fun _ hc => ⟨k, B, hB, hc⟩

/-- A node is made in a directory, and with an accepted name. -/
theorem createNode_accepts {s : FatState} {directory : FatNode}
    (hrun : fatFsCreateNode fuel s mp directory name attrs = .ret (s', directory', some node)) :
    directory.attributes &&& 7 = vfsDirectory ∧
      fatFsValidate83Name s.behindTable name = true := by
  unfold fatFsCreateNode at hrun
  split at hrun
  · injection hrun with hpair
    cases (Prod.mk.inj (Prod.mk.inj hpair).2).2
  · rename_i hdir
    split at hrun
    · injection hrun with hpair
      cases (Prod.mk.inj (Prod.mk.inj hpair).2).2
    · rename_i hname
      rw [not_or, not_not, not_not] at hdir
      exact ⟨hdir.2, by simpa using hname⟩

/-- A directory that is replaced by one in the same clusters. -/
theorem branch_update (hB : T.branch k = some B)
    (hlayout : B'.node.data.layout = B.node.data.layout) {key : Nat} {N : Branch}
    (hN : Function.update T.branch k (some B') key = some N) :
    ∃ N', T.branch key = some N' ∧ N.node.data.layout = N'.node.data.layout := by
  rcases update_eq_some hN with ⟨rfl, hval⟩ | ⟨-, hold⟩
  · rw [← Option.some.inj hval]
    exact ⟨B, hB, hlayout⟩
  · exact ⟨N, hold, rfl⟩

theorem directories_update (hB : T.branch k = some B)
    (hlayout : B'.node.data.layout = B.node.data.layout) :
    (VfsTree.directories ⟨s', Function.update T.branch k (some B')⟩).dirs c →
      T.directories.dirs c := by
  rintro ⟨key, N, hN, hc⟩
  rcases branch_update hB hlayout hN with ⟨N', hN', hlay⟩
  exact ⟨key, N', hN', hlay ▸ hc⟩

/-- A directory is replaced by one in the same clusters, while nothing changes in the others. -/
theorem TreeInv.update (hT : TreeInv mp n T) (hB : T.branch k = some B)
    (hlayout : B'.node.data.layout = B.node.data.layout)
    (hdirs : DirInv mp n ⟨s', T.directories.dirs⟩) (hB' : BranchInv s'.disk mp B')
    (hrest : ∀ c, T.directories.dirs c → c ∉ B.node.data.layout →
      clusterListing s'.disk mp c = clusterListing T.fat.disk mp c) :
    TreeInv mp n ⟨s', Function.update T.branch k (some B')⟩ := by
  refine ⟨hdirs.mono fun c => directories_update hB hlayout, ?_, ?_⟩
  · intro key key' N M c hN hM hc hc'
    rcases branch_update hB hlayout hN with ⟨N', hN', hlay⟩
    rcases branch_update hB hlayout hM with ⟨M', hM', hlay'⟩
    exact hT.apart key key' N' M' c hN' hM' (hlay ▸ hc) (hlay' ▸ hc')
  · intro key N hN
    rcases update_eq_some hN with ⟨-, hval⟩ | ⟨hkey, hold⟩
    · rw [← Option.some.inj hval]
      exact hB'
    · refine (hT.branch key N hold).congr (listing_kept fun c hc => ?_)
      exact hrest c ⟨key, N, hold, hc⟩ fun hc' => hkey (hT.apart key k N B c hold hB hc hc')

/-- A directory is forgotten. -/
theorem TreeInv.remove (hT : TreeInv mp n T) :
    TreeInv mp n ⟨T.fat, Function.update T.branch k none⟩ := by
  have hold : ∀ key N, Function.update T.branch k none key = some N → T.branch key = some N := by
    intro key N hN
    rcases update_eq_some hN with ⟨-, hval⟩ | ⟨-, hold⟩
    · cases hval
    · exact hold
  refine ⟨hT.dirs.mono ?_, ?_, fun key N hN => hT.branch key N (hold key N hN)⟩
  · rintro c ⟨key, N, hN, hc⟩
    exact ⟨key, N, hold key N hN, hc⟩
  · intro key key' N M c hN hM hc hc'
    exact hT.apart key key' N M c (hold key N hN) (hold key' M hM) hc hc'

/-- A directory in clusters of its own is added. -/
theorem TreeInv.add (hT : TreeInv mp n T)
    (hdirs : DirInv mp n ⟨T.fat, fun c => T.directories.dirs c ∨ c ∈ B.node.data.layout⟩)
    (hapart : ∀ c ∈ B.node.data.layout, ¬ T.directories.dirs c)
    (hB : BranchInv T.fat.disk mp B) :
    TreeInv mp n ⟨T.fat, Function.update T.branch k (some B)⟩ := by
  have hcases : ∀ key N, Function.update T.branch k (some B) key = some N →
      (key = k ∧ N = B) ∨ T.branch key = some N := by
    intro key N hN
    rcases update_eq_some hN with ⟨hkey, hval⟩ | ⟨-, hold⟩
    · exact Or.inl ⟨hkey, (Option.some.inj hval).symm⟩
    · exact Or.inr hold
  refine ⟨hdirs.mono ?_, ?_, ?_⟩
  · rintro c ⟨key, N, hN, hc⟩
    rcases hcases key N hN with ⟨-, rfl⟩ | hN
    · exact Or.inr hc
    · exact Or.inl ⟨key, N, hN, hc⟩
  · intro key key' N M c hN hM hc hc'
    rcases hcases key N hN with ⟨hk, hNB⟩ | hN'
    · rcases hcases key' M hM with ⟨hk', -⟩ | hM'
      · rw [hk, hk']
      · rw [hNB] at hc
        exact absurd ⟨key', M, hM', hc'⟩ (hapart c hc)
    · rcases hcases key' M hM with ⟨-, hMB⟩ | hM'
      · rw [hMB] at hc'
        exact absurd ⟨key, N, hN', hc⟩ (hapart c hc')
      · exact hT.apart key key' N M c hN' hM' hc hc'
  · intro key N hN
    rcases hcases key N hN with ⟨-, rfl⟩ | hN
    · exact hB
    · exact hT.branch key N hN

/-- A node is deleted and detached. -/
theorem TreeInv.delete (hv : Volume mp n) (hT : TreeInv mp n T) (hB : T.branch k = some B)
    (hchild : B.node.children[i]? = some child)
    (hdot : ¬ DotChild (Listing T.fat.disk mp B.node.data.layout) child)
    (hplace : node.place = child.place) (hempty : ¬ HasChildren node)
    (hstay : ∀ x, node.data.layout.head? = some x → StaysInFat T.fat.disk mp n x)
    (hrun : fatFsDeleteNode fuel T.fat mp node = .ret (s', res)) :
    TreeInv mp n ⟨s', Function.update T.branch k (some (B.detach i))⟩ := by
  rcases (hT.branch k B hB).child_listed hchild hdot with ⟨e, hmem⟩
  rw [← hplace] at hmem
  rcases mem_listing.mp hmem with ⟨hc, hvis, rfl⟩
  have hnode : InUse T.directories mp node :=
    ⟨TreeInv.layout hB _ hc, hvis.1, hvis.2.1⟩
  rcases dirStep_law hv hT.dirs (.delete hnode hempty hstay hrun) with ⟨hdirs, hlaw⟩
  refine hT.update hB rfl hdirs ?_ ?_
  · refine (hT.branch k B hB).detach hchild hdot ?_
    rw [← hplace]
    ext ⟨c, j, e⟩
    rw [mem_listing_iff, Set.mem_sep_iff, mem_listing_iff, and_assoc]
    refine and_congr_right fun hc' => ?_
    rw [hlaw c (TreeInv.layout hB c hc')]
    exact Iff.rfl
  · intro c hdir hno
    rw [hlaw c hdir]
    refine Set.sep_eq_self_iff_mem_true.mpr fun p _ => ?_
    rintro ⟨rfl, -⟩
    exact hno hc

/-- A node is created and attached. -/
theorem TreeInv.create (hv : Volume mp n) (hT : TreeInv mp n T) (hB : T.branch k = some B)
    (hfinds : Finds T.fat.disk mp (fun _ => true) B.node.data.layout c j i)
    (hreserves : ReservesInFat T.directories mp n)
    (hrun : fatFsCreateNode fuel T.fat mp B.node name attrs = .ret (s', directory', some node)) :
    ∃ r e, Creates mp n T.directories s' B.node directory' node name attrs c j r e ∧
      TreeInv mp n ⟨s', Function.update T.branch k (some ⟨directory'.addChild node, B.dots,
        B.labels, B.made + if attrs &&& 7 = vfsDirectory then 1 else 0⟩)⟩ := by
  rcases createNode_accepts hrun with ⟨hdir, hname⟩
  rcases creates_of_run hv hT.dirs hdir hname (TreeInv.layout hB) hfinds hreserves hrun with
    ⟨r, e, hcreates⟩
  -- the new entry is one more of the branch's entries, and its node one more child
  have hc : c ∈ B.node.data.layout := hfinds.spec.1
  refine ⟨r, e, hcreates, hT.update hB (congrArg FatNodeData.layout hcreates.kept)
    (hcreates.inv.mono fun c hc => Or.inl hc) ?_ ?_⟩
  · refine (hT.branch k B hB).attach (Prod.ext hcreates.place.1 hcreates.place.2)
      (shown_new hcreates.tree.entry) hcreates.entry.not_dot ?_ ?_ hcreates.kept
      hcreates.tree.parent
    · rintro e' ⟨-, hmem⟩
      exact hcreates.vacant e' hmem
    · ext ⟨c', j', e'⟩
      rw [Set.mem_ofPred_eq, mem_listing_iff, mem_listing_iff]
      constructor
      · rintro ⟨hc', hmem⟩
        rw [hcreates.listing c' (TreeInv.layout hB c' hc')] at hmem
        rcases hmem with hmem | ⟨rfl, heq⟩
        · exact Or.inl ⟨hc', hmem⟩
        · exact Or.inr (Prod.ext rfl heq)
      · rintro (⟨hc', hmem⟩ | heq)
        · refine ⟨hc', ?_⟩
          rw [hcreates.listing c' (TreeInv.layout hB c' hc')]
          exact Or.inl hmem
        · simp only [Prod.mk.injEq] at heq
          rcases heq with ⟨rfl, rfl, rfl⟩
          refine ⟨hc, ?_⟩
          rw [hcreates.listing c' (TreeInv.layout hB c' hc)]
          exact Or.inr ⟨rfl, rfl⟩
  · intro c' hc' hno
    rw [hcreates.listing c' hc']
    ext p
    constructor
    · rintro (hmem | ⟨rfl, -⟩)
      · exact hmem
      · exact absurd hc hno
    · exact Or.inl

/-- Nothing is created. -/
theorem TreeInv.createNone (hv : Volume mp n) (hT : TreeInv mp n T) (hB : T.branch k = some B)
    (hfinds : Finds T.fat.disk mp (fun _ => true) B.node.data.layout c j i)
    (hreserves : ReservesInFat T.directories mp n)
    (hrun : fatFsCreateNode fuel T.fat mp B.node name attrs = .ret (s', directory', none)) :
    directory' = B.node ∧ DirInv mp n ⟨s', T.directories.dirs⟩ ∧
      ∀ x, T.directories.dirs x → clusterListing s'.disk mp x = clusterListing T.fat.disk mp x := by
  have herror : ∀ e, DirInv mp n ⟨T.fat.setLastError e, T.directories.dirs⟩ := by
    intro e
    have hcalm := hT.dirs.steady.calm
    exact ⟨⟨hT.dirs.steady.inv, hT.dirs.steady.free, hcalm.frames, hcalm.device, hcalm.tables⟩,
      hT.dirs.data, hT.dirs.closed⟩
  by_cases hdir : B.node.attributes &&& 7 = vfsDirectory
  swap
  · -- the parent is no directory
    unfold fatFsCreateNode at hrun
    rw [if_pos (Or.inr hdir)] at hrun
    injection hrun with hpair
    simp only [Prod.mk.injEq, and_true] at hpair
    rcases hpair with ⟨rfl, rfl⟩
    exact ⟨rfl, herror _, fun x _ => rfl⟩
  by_cases hname : fatFsValidate83Name T.fat.behindTable name = true
  swap
  · -- the name is refused
    unfold fatFsCreateNode at hrun
    rw [if_neg (by simp [hv.toMounted.attributes, hdir]), if_pos (by simpa using hname)] at hrun
    injection hrun with hpair
    simp only [Prod.mk.injEq, and_true] at hpair
    rcases hpair with ⟨rfl, rfl⟩
    exact ⟨rfl, herror _, fun x _ => rfl⟩
  rcases dirStep_law hv hT.dirs
    (.createNone hdir hname (TreeInv.layout hB) hfinds hreserves hrun) with ⟨hdirs, hlaw⟩
  refine ⟨?_, hdirs, hlaw⟩
  rw [← (funext hT.dirs.steady.calm.device : T.fat.device = fun _ => true)] at hfinds
  rcases createNode_found hT.dirs.steady hv.toMounted hdir hname hfinds hrun with
    ⟨idx, i, -, -, -, ⟨-, -, hsame, -⟩ | ⟨-, node, e, hsome, -⟩⟩
  · exact hsame
  · cases hsome

/-- In one step every directory that was there keeps what was read of it; without a
directory that is made, there is no other one. -/
def KeepsBranches (T T' : VfsTree) : Prop :=
  ∀ key N', T'.branch key = some N' → ∃ N, T.branch key = some N ∧
    N'.node.attributes = N.node.attributes ∧ N'.dots = N.dots ∧ N'.labels = N.labels ∧
      N'.made = N.made

theorem keepsBranches_update (hB : T.branch k = some B)
    (hattr : B'.node.attributes = B.node.attributes)
    (hghost : B'.dots = B.dots ∧ B'.labels = B.labels ∧ B'.made = B.made) :
    KeepsBranches T ⟨s', Function.update T.branch k (some B')⟩ := by
  intro key N' hN'
  rcases update_eq_some hN' with ⟨rfl, hval⟩ | ⟨-, hold⟩
  · rw [← Option.some.inj hval]
    exact ⟨B, hB, hattr, hghost⟩
  · exact ⟨N', hold, rfl, rfl, rfl, rfl⟩

/-- A step keeps the invariant. -/
theorem treeStep_inv (hv : Volume mp n) (hT : TreeInv mp n T) (hstep : TreeStep mp n T makes T') :
    TreeInv mp n T' ∧ (makes = false → KeepsBranches T T') := by
  cases hstep with
  | createFile hB hfile hfinds hreserves hrun =>
    rcases hT.create hv hB hfinds hreserves hrun with ⟨r, e, hcreates, hinv⟩
    rw [if_neg hfile] at hinv
    refine ⟨hinv, fun _ => keepsBranches_update hB ?_ ⟨rfl, rfl, rfl⟩⟩
    have hparent := hcreates.tree.parent
    rw [if_neg hfile] at hparent
    rw [hparent]
    rfl
  | @createDirectory B s' directory' node name fuel attrs k k' c j i hB hfresh hdirectory hfinds
      hreserves hrun =>
    refine ⟨?_, fun hno => Bool.noConfusion hno⟩
    rcases hT.create hv hB hfinds hreserves hrun with ⟨r, e, hcreates, hinv⟩
    rw [if_pos hdirectory] at hinv
    have hlay : ∀ x ∈ node.data.layout, x = r := by
      rw [hcreates.layout]
      exact fun x hx => List.mem_singleton.mp hx
    have hsub : ∀ x, (VfsTree.directories ⟨s', Function.update T.branch k
        (some ⟨directory'.addChild node, B.dots, B.labels, B.made + 1⟩)⟩).dirs x →
        T.directories.dirs x :=
      fun x => directories_update hB (congrArg FatNodeData.layout hcreates.kept)
    refine hinv.add (B := ⟨node, 0, false, 0⟩) (hcreates.inv.mono ?_) ?_ ?_
    · rintro x (hx | hx)
      · exact Or.inl (hsub x hx)
      · refine Or.inr ⟨hdirectory, ?_⟩
        rw [hlay x hx]
        exact hcreates.layout
    · -- the new cluster was free, so it belongs to no other directory
      intro x hx hdir
      rw [hlay x hx] at hdir
      exact hcreates.fresh (hsub r hdir)
    · have hj := hfinds.spec.2.1
      have hdots := hcreates.tree.dots hdirectory
      rw [hcreates.cluster] at hdots
      refine branchInv_new hcreates.layout ?_ hcreates.tree.children hdots fun j' hj' => ?_
      · rw [hcreates.place.2]
        omega
      · have hblock := hcreates.block j' hj'
        simpa only [hdirectory, true_and] using hblock
  | createNone hB hfinds hreserves hrun =>
    rcases hT.createNone hv hB hfinds hreserves hrun with ⟨rfl, hdirs, hsame⟩
    refine ⟨hT.update hB rfl hdirs ?_ fun c hc _ => hsame c hc,
      fun _ => keepsBranches_update hB rfl ⟨rfl, rfl, rfl⟩⟩
    exact (hT.branch _ _ hB).congr (listing_kept fun c hc => hsame c (TreeInv.layout hB c hc))
  | deleteFile hB hchild hdot hfile hstay hrun =>
    exact ⟨hT.delete hv hB hchild hdot rfl (fun hfull => hfile hfull.1) hstay hrun,
      fun _ => keepsBranches_update hB rfl ⟨rfl, rfl, rfl⟩⟩
  | @deleteDirectory B E s' child fuel k k' i hB hchild hdot hE hne hplace hstay hrun =>
    have hB' : Function.update T.branch k' none k = some B := by
      rw [Function.update_of_ne hne]
      exact hB
    -- a delete that returns no failure has passed the test of the children
    have hempty : ¬ HasChildren E.node := by
      intro hfull
      unfold HasChildren at hfull
      unfold fatFsDeleteNode at hrun
      rw [if_pos hfull] at hrun
      injection hrun with hpair
      cases (Prod.mk.inj hpair).2
    refine ⟨(hT.remove (k := k')).delete hv hB' hchild hdot hplace hempty hstay hrun, fun _ => ?_⟩
    have hkeeps : KeepsBranches ⟨T.fat, Function.update T.branch k' none⟩
        ⟨s', Function.update (Function.update T.branch k' none) k (some (B.detach i))⟩ :=
      keepsBranches_update hB' rfl ⟨rfl, rfl, rfl⟩
    intro key N' hN'
    rcases hkeeps key N' hN' with ⟨N, hN, hrest⟩
    rcases update_eq_some hN with ⟨-, hval⟩ | ⟨-, hold⟩
    · cases hval
    · exact ⟨N, hold, hrest⟩
  | refuse hE hfull hrun =>
    rcases dirStep_law hv hT.dirs (.refuse hfull hrun) with ⟨hdirs, hlaw⟩
    refine ⟨⟨hdirs, hT.apart, fun key N hN => ?_⟩, fun _ key N hN => ⟨N, hN, rfl, rfl, rfl, rfl⟩⟩
    exact (hT.branch key N hN).congr (listing_kept fun c hc => hlaw c ⟨key, N, hN, hc⟩)

end Step

/-! ## The law -/

/-- A tree whose directories were just read. -/
structure TreeInit (mp : MountPoint) (n : Nat) (T : VfsTree) : Prop where
  dirs : DirInv mp n T.directories
  apart : ∀ k k' B B' c, T.branch k = some B → T.branch k' = some B' →
    c ∈ B.node.data.layout → c ∈ B'.node.data.layout → k = k'
  read : ∀ k B, T.branch k = some B → AsRead T.fat.disk mp B

/-- The histories of creating and deleting. -/
def treeSystem (mp : MountPoint) (n : Nat) : System VfsTree where
  Init := TreeInit mp n
  Next T T' := ∃ makes, TreeStep mp n T makes T'

/-- The directory was read with `.` and `..` and without labels, and none was made in it. -/
structure Plain (B : Branch) : Prop where
  dots : B.dots = 2
  labels : B.labels = false
  made : B.made = 0

/-- The histories of such directories in which no directory is created. -/
def filesSystem (mp : MountPoint) (n : Nat) : System VfsTree where
  Init T := TreeInit mp n T ∧
    ∀ k B, T.branch k = some B → B.node.attributes &&& 7 = vfsDirectory → Plain B
  Next T T' := TreeStep mp n T false T'

/-- Deleting the node fails at once and leaves the disk. -/
def DeleteRefused (s : FatState) (mp : MountPoint) (node : FatNode) : Prop :=
  ∀ fuel, ∃ s', fatFsDeleteNode fuel s mp node = .ret (s', .occur) ∧ s'.disk = s.disk

/-- The number of children that stand for no other entry agrees with the limit of two: an
empty directory has no more of them, and with one of the others there are more children. -/
def CountsRight (d : Mem) (mp : MountPoint) (B : Branch) : Prop :=
  (others d mp B.node.data.layout = ∅ → B.dots + 2 * B.made ≤ 2) ∧
    ((others d mp B.node.data.layout).Nonempty →
      2 < (shownOthers d mp B.node.data.layout).card + (B.dots + 2 * B.made))

section Law

variable {T T' : VfsTree} {B : Branch} {s : FatState} {mp : MountPoint} {node : FatNode} {n k : Nat}

theorem treeInv_inductive (hv : Volume mp n) : (treeSystem mp n).Inductive (TreeInv mp n) where
  init _ h := ⟨h.dirs, h.apart, fun k B hB => (h.read k B hB).inv⟩
  next _ _ hT hstep := by
    rcases hstep with ⟨makes, hstep⟩
    exact (treeStep_inv hv hT hstep).1

theorem filesInv_inductive (hv : Volume mp n) : (filesSystem mp n).Inductive fun T =>
    TreeInv mp n T ∧
      ∀ k B, T.branch k = some B → B.node.attributes &&& 7 = vfsDirectory → Plain B where
  init _ h := ⟨⟨h.1.dirs, h.1.apart, fun k B hB => (h.1.read k B hB).inv⟩, h.2⟩
  next _ _ hT hstep := by
    rcases treeStep_inv hv hT.1 hstep with ⟨hinv, hkeeps⟩
    refine ⟨hinv, fun k B hB hdir => ?_⟩
    rcases hkeeps rfl k B hB with ⟨N, hN, hattr, hdots, hlabels, hmade⟩
    rw [hattr] at hdir
    have hplain := hT.2 k N hN hdir
    exact ⟨hdots.trans hplain.dots, hlabels.trans hplain.labels, hmade.trans hplain.made⟩

/-- When nothing fails, it is the test of the children that refuses. -/
theorem refused_iff (h : Steady 1 s) (hmp : Mounted mp) (hj : node.data.metadataIndex < 128) :
    DeleteRefused s mp node ↔ HasChildren node := by
  constructor
  · intro hrefused
    by_contra hempty
    rcases deleteNode_run h hmp hempty hj with ⟨w, hgoes, -⟩
    rcases hrefused 0 with ⟨s', hrun, -⟩
    rw [hgoes] at hrun
    cases hhead : node.data.layout.head? with
    | none =>
      rw [hhead] at hrun
      cases hrun
    | some x =>
      rw [hhead] at hrun
      cases hrun
  · intro hfull fuel
    refine ⟨s.setLastError .vfsBadArguments, ?_, rfl⟩
    unfold HasChildren at hfull
    unfold fatFsDeleteNode
    rw [if_pos hfull]

/-- What the children of a directory amount to. -/
theorem TreeInv.children_length (hT : TreeInv mp n T) (hB : T.branch k = some B) :
    B.node.children.length = (shownOthers T.fat.disk mp B.node.data.layout).card +
      (B.dots + 2 * B.made) := by
  have hclosed : ∀ c ∈ B.node.data.layout, Closed slotKind 128 (slots T.fat.disk mp c) :=
    fun c hc => hT.dirs.closed c (TreeInv.layout hB c hc)
  have hkeys : childKeys (Listing T.fat.disk mp B.node.data.layout) =
      ↑(shownOthers T.fat.disk mp B.node.data.layout) := by
    ext p
    rw [Finset.mem_coe]
    exact (mem_shownOthers hclosed).symm
  rw [(hT.branch k B hB).children.length, hkeys, Set.ncard_coe_finset]

/-- A directory without entries has none that are shown. -/
theorem shownOthers_empty {d : Mem} {layout : List Nat} (h : others d mp layout = ∅) :
    (shownOthers d mp layout).card = 0 := by
  unfold shownOthers
  rw [h]
  rfl

/-- Without labels all entries are shown. -/
theorem TreeInv.shown (hT : TreeInv mp n T) (hB : T.branch k = some B)
    (hlabels : B.labels = false) :
    shownOthers T.fat.disk mp B.node.data.layout = others T.fat.disk mp B.node.data.layout := by
  refine Finset.filter_true_of_mem fun p hp => ?_
  have hclosed : ∀ c ∈ B.node.data.layout, Closed slotKind 128 (slots T.fat.disk mp c) :=
    fun c hc => hT.dirs.closed c (TreeInv.layout hB c hc)
  rcases (mem_others hclosed).mp hp with ⟨e, hmem, hdot⟩
  obtain rfl := (mem_listing.mp hmem).2.2
  exact (hT.branch k B hB).shown hlabels _ hmem hdot

theorem TreeInv.refused_iff (hv : Volume mp n) (hT : TreeInv mp n T) (hB : T.branch k = some B)
    (hdir : B.node.attributes &&& 7 = vfsDirectory) : DeleteRefused T.fat mp B.node ↔
      2 < (shownOthers T.fat.disk mp B.node.data.layout).card + (B.dots + 2 * B.made) := by
  rw [MeOS.refused_iff (s := T.fat) (hT.dirs.steady.mono (by decide)) hv.toMounted
      (hT.branch k B hB).index,
    HasChildren, hT.children_length hB]
  exact and_iff_right hdir

/-- In every state of a history, deleting a directory is refused exactly when it has an
entry in use other than `.` and `..`, if and only if the directory `CountsRight`; and it is so
throughout a history without directories that are created. -/
theorem directory_refused_iff (hv : Volume mp n) :
    (∀ T, (treeSystem mp n).Reachable T → ∀ k B, T.branch k = some B →
      B.node.attributes &&& 7 = vfsDirectory →
      ((DeleteRefused T.fat mp B.node ↔ (others T.fat.disk mp B.node.data.layout).Nonempty) ↔
        CountsRight T.fat.disk mp B)) ∧
    (∀ T, (filesSystem mp n).Reachable T → ∀ k B, T.branch k = some B →
      B.node.attributes &&& 7 = vfsDirectory →
      (DeleteRefused T.fat mp B.node ↔ (others T.fat.disk mp B.node.data.layout).Nonempty)) := by
  constructor
  · intro T hreach k B hB hdir
    have hT := (treeInv_inductive hv).holds hreach
    rw [hT.refused_iff hv hB hdir]
    unfold CountsRight
    rcases Finset.eq_empty_or_nonempty (others T.fat.disk mp B.node.data.layout) with
      hnone | hsome
    · have hcard := shownOthers_empty hnone
      simp only [hnone, Finset.not_nonempty_empty, hcard, forall_true_left, false_imp_iff,
        and_true, iff_false]
      omega
    · simp only [hsome, hsome.ne_empty, false_imp_iff, true_and, iff_true, forall_true_left]
  · intro T hreach k B hB hdir
    rcases (filesInv_inductive hv).holds hreach with ⟨hT, hplain⟩
    have hB' := hplain k B hB hdir
    rw [hT.refused_iff hv hB hdir, hT.shown hB hB'.labels, hB'.dots, hB'.made,
      ← Finset.card_pos]
    omega

end Law

/-! ## A volume with one directory -/

/-- The bytes of an entry for a directory. -/
def directoryEntry (name : List UInt8) (cluster : UInt8) : List UInt8 :=
  padded 11 name ++ 16 :: List.replicate 14 0 ++ [cluster, 0, 0, 0, 0, 0]

/-- A volume with an empty directory `P` in cluster 3. -/
def folderDisk : Mem :=
  storeBytes (storeBytes (storeBytes (storeBytes (fun _ => 0)
    16384 (List.replicate 4 [0xF8, 0xFF, 0xFF, 0x0F]).flatten)
    24576 (directoryEntry [80] 3)) 28672 (directoryEntry [dot] 3)) 28704
      (directoryEntry [dot, dot] 0)

/-- Its node, with its layout loaded. -/
def folderNode : FatNode :=
  ⟨[80], 26, 14, 0, ⟨[3], true, 2, 0⟩, [⟨[dot], 26, 14, 0, ⟨[3], false, 3, 0⟩, []⟩,
    ⟨[dot, dot], 26, 14, 0, ⟨[0], false, 3, 1⟩, []⟩]⟩

/-- The tree with that directory only. -/
def folderTree : VfsTree :=
  ⟨freshState folderDisk, Function.update (fun _ => none) 0 (some ⟨folderNode, 2, false, 0⟩)⟩

theorem folderDisk_head {j : Nat} (hj : j < 128) :
    slots folderDisk smallMount 3 j 0 = if j < 2 then dot else 0 := by
  rw [slots_head]
  change folderDisk (28672 + 32 * j) = _
  by_cases hj₂ : j < 2
  · rcases (by omega : j = 0 ∨ j = 1) with rfl | rfl
    · rfl
    · rfl
  · rw [if_neg hj₂]
    unfold folderDisk
    have h₁ : (directoryEntry [dot, dot] 0).length = 32 := by decide
    have h₂ : (directoryEntry [dot] 3).length = 32 := by decide
    have h₃ : (directoryEntry [80] 3).length = 32 := by decide
    have h₄ : (List.replicate 4 [(0xF8 : UInt8), 0xFF, 0xFF, 0x0F]).flatten.length = 16 := by decide
    rw [storeBytes_frame (by omega), storeBytes_frame (by omega), storeBytes_frame (by omega),
      storeBytes_frame (by omega)]

theorem folderDisk_places : shownPlaces folderDisk smallMount 3 = [(3, 0), (3, 1)] := by
  have hsplit : List.range 128 = [0, 1] ++ List.range' 2 126 := by decide
  have hrest : ∀ j ∈ List.range' 2 126, ¬ (Visible slotKind 128 (slots folderDisk smallMount 3) j ∧
      Shown (slots folderDisk smallMount 3 j)) := by
    rintro j hj ⟨hvis, -⟩
    have hlo := (List.mem_range'_1.mp hj).1
    have hhead := folderDisk_head hvis.1
    rw [if_neg (by omega)] at hhead
    exact ((kind_live_iff _).mp hvis.2.1).1 hhead
  have hfirst : [0, 1].filter (fun j => decide (Visible slotKind 128
      (slots folderDisk smallMount 3) j ∧ Shown (slots folderDisk smallMount 3 j))) = [0, 1] := by
    decide
  unfold shownPlaces
  rw [hsplit, List.filter_append, hfirst, List.filter_eq_nil_iff.mpr (by simpa using hrest)]
  rfl

theorem folderTree_branch {k : Nat} {B : Branch} (h : folderTree.branch k = some B) :
    k = 0 ∧ B = ⟨folderNode, 2, false, 0⟩ := by
  have hk : Function.update (fun _ => none) 0 (some ⟨folderNode, 2, false, 0⟩) k = some B := h
  rcases update_eq_some hk with ⟨hkey, hval⟩ | ⟨-, hold⟩
  · exact ⟨hkey, (Option.some.inj hval).symm⟩
  · cases hold

theorem folderTree_dirs {c : Nat} (h : folderTree.directories.dirs c) : c = 3 := by
  rcases h with ⟨k, B, hB, hc⟩
  rw [(folderTree_branch hB).2] at hc
  exact List.mem_singleton.mp hc

/-- It is a start of histories. -/
theorem folderTree_init : (filesSystem smallMount 1024).Init folderTree := by
  have hshown : ∀ q ∈ Listing folderDisk smallMount [3], Shown q.2.2 := by
    rintro ⟨c, j, e⟩ hmem
    rcases mem_listing.mp hmem with ⟨hc, hvis, rfl⟩
    rw [List.mem_singleton.mp hc] at hvis ⊢
    have hhead := folderDisk_head hvis.1
    by_cases hj : j < 2
    · rcases (by omega : j = 0 ∨ j = 1) with rfl | rfl
      · decide
      · decide
    · rw [if_neg hj] at hhead
      exact absurd hhead ((kind_live_iff _).mp hvis.2.1).1
  have hplaces : folderNode.data.layout.flatMap (shownPlaces folderDisk smallMount) =
      [(3, 0), (3, 1)] := by
    show [3].flatMap _ = _
    rw [List.flatMap_singleton, folderDisk_places]
  have hread : AsRead folderDisk smallMount ⟨folderNode, 2, false, 0⟩ := by
    refine ⟨List.nodup_singleton 3, by decide, ?_, ?_, fun _ => hshown, rfl⟩
    · rw [hplaces]
      rfl
    · rw [hplaces]
      decide
  refine ⟨⟨⟨(freshState_steady folderDisk).mono (by decide), ?_, ?_⟩, ?_, ?_⟩, ?_⟩
  · intro c hc
    rw [folderTree_dirs hc]
    exact ⟨by decide, by decide⟩
  · intro c hc
    rw [folderTree_dirs hc]
    intro i j hij hj hstop
    rw [kind_stop_iff] at hstop ⊢
    have hi := folderDisk_head (j := i) (by omega)
    have hzero : ¬ i < 2 := by
      intro hlt
      rw [if_pos hlt] at hi
      exact absurd (hi.symm.trans hstop) (by decide)
    exact (folderDisk_head hj).trans (if_neg (by omega))
  · intro k k' B B' c hB hB' _ _
    rw [(folderTree_branch hB).1, (folderTree_branch hB').1]
  · intro k B hB
    rw [(folderTree_branch hB).2]
    exact hread
  · intro k B hB _
    rw [(folderTree_branch hB).2]
    exact ⟨rfl, rfl, rfl⟩

theorem folderDisk_scan : Scan folderDisk smallMount 0 4 :=
  ⟨by decide, by decide, by decide, by decide, fun idx hidx => absurd hidx (Nat.not_lt_zero idx)⟩

theorem folderDisk_finds : Finds folderDisk smallMount (fun _ => true) [3] 3 2 0 := by
  refine .here rfl (by decide) ⟨Or.inr rfl, fun j hj => ?_⟩
  rcases (by omega : j = 0 ∨ j = 1) with rfl | rfl
  · decide
  · decide

theorem folderTree_reserves : ReservesInFat folderTree.directories smallMount 1024 := by
  intro idx i hscan
  rcases folderDisk_scan.unique hscan with ⟨rfl, rfl⟩
  refine ⟨by decide, by decide, by decide, fun hdir => ?_⟩
  exact absurd (folderTree_dirs hdir) (by decide)

section Example

variable {T : VfsTree} {B : Branch} {s' : FatState} {mp : MountPoint} {directory' node : FatNode}
  {name : List UInt8} {fuel attrs n k k' c j i : Nat}

/-- The tree after a file was created. -/
theorem createFile_step (hB : T.branch k = some B) (hfile : attrs &&& 7 ≠ vfsDirectory)
    (hfinds : Finds T.fat.disk mp (fun _ => true) B.node.data.layout c j i)
    (hreserves : ReservesInFat T.directories mp n)
    (hrun : fatFsCreateNode fuel T.fat mp B.node name attrs = .ret (s', directory', some node)) :
    ∃ T', TreeStep mp n T false T' ∧
      T'.branch k = some ⟨directory'.addChild node, B.dots, B.labels, B.made⟩ :=
  ⟨_, .createFile hB hfile hfinds hreserves hrun, Function.update_self _ _ _⟩

/-- The tree after a directory was created. -/
theorem createDirectory_step (hB : T.branch k = some B) (hfresh : T.branch k' = none)
    (hdirectory : attrs &&& 7 = vfsDirectory)
    (hfinds : Finds T.fat.disk mp (fun _ => true) B.node.data.layout c j i)
    (hreserves : ReservesInFat T.directories mp n)
    (hrun : fatFsCreateNode fuel T.fat mp B.node name attrs = .ret (s', directory', some node))
    (hlayout : directory'.data.layout = B.node.data.layout) :
    ∃ T', TreeStep mp n T true T' ∧ T'.fat = s' ∧ T'.branch k' = some ⟨node, 0, false, 0⟩ ∧
      ∀ x, T'.directories.dirs x → T.directories.dirs x ∨ x ∈ node.data.layout := by
  refine ⟨_, .createDirectory hB hfresh hdirectory hfinds hreserves hrun, rfl,
    Function.update_self _ _ _, ?_⟩
  rintro x ⟨key, N, hN, hx⟩
  have hN' : Function.update (Function.update T.branch k (some ⟨directory'.addChild node, B.dots,
    B.labels, B.made + 1⟩)) k' (some ⟨node, 0, false, 0⟩) key = some N := hN
  rcases update_eq_some hN' with ⟨-, hval⟩ | ⟨-, hN⟩
  · rw [← Option.some.inj hval] at hx
    exact Or.inr hx
  · have hold : (VfsTree.directories ⟨s', Function.update T.branch k
      (some ⟨directory'.addChild node, B.dots, B.labels, B.made + 1⟩)⟩).dirs x :=
        ⟨key, N, hN, hx⟩
    exact Or.inl (directories_update hB hlayout hold)

/-- With the file `A` in it the directory is not deleted. -/
theorem directory_refused_iff_folder : ∃ T B, (filesSystem smallMount 1024).Reachable T ∧
    T.branch 0 = some B ∧ (others T.fat.disk smallMount B.node.data.layout).Nonempty ∧
    (DeleteRefused T.fat smallMount B.node ↔
      (others T.fat.disk smallMount B.node.data.layout).Nonempty) := by
  obtain ⟨s', directory', node, hrun, hchildren, hattr⟩ : ∃ s' directory' node,
      fatFsCreateNode 1 (freshState folderDisk) smallMount folderNode [65] 25 =
        .ret (s', directory', some node) ∧
      directory'.children = folderNode.children ∧ directory'.attributes &&& 7 = vfsDirectory := by
    refine ⟨_, _, _, rfl, ?_, ?_⟩
    · rfl
    · decide
  have hB : folderTree.branch 0 = some ⟨folderNode, 2, false, 0⟩ := rfl
  rcases createFile_step hB (by decide) folderDisk_finds folderTree_reserves hrun with
    ⟨T, hstep, hB'⟩
  have hreach := System.Reachable.next (.init folderTree_init) hstep
  refine ⟨T, _, hreach, hB', ?_, (directory_refused_iff smallMount_volume).2 T hreach 0 _ hB' hattr⟩
  -- there is one more child than before
  have hT := ((filesInv_inductive smallMount_volume).holds hreach).1
  have hlen := hT.children_length hB'
  change (directory'.children ++ [node]).length = _ + (2 + 2 * 0) at hlen
  rw [hchildren, hT.shown hB' rfl] at hlen
  have hthree : (folderNode.children ++ [node]).length = 3 := rfl
  rw [← Finset.card_pos]
  omega

/-- In that directory the directory `A` is created, and in it the file `B`: then `A` can be
deleted. -/
theorem created_directory_deletable : ∃ T k B, (treeSystem smallMount 1024).Reachable T ∧
    T.branch k = some B ∧ B.node.attributes &&& 7 = vfsDirectory ∧
    ¬ DeleteRefused T.fat smallMount B.node ∧
    (others T.fat.disk smallMount B.node.data.layout).Nonempty := by
  obtain ⟨s₁, directory₁, node₁, hrun₁, hscan₁, hfinds₁, ⟨hnode₁, hlayout₁⟩, s₂, directory₂, node₂,
      hrun₂, hchildren, hattr⟩ : ∃ s₁ directory₁ node₁,
      fatFsCreateNode 1 (freshState folderDisk) smallMount folderNode [65] 26 =
        .ret (s₁, directory₁, some node₁) ∧
      Scan s₁.disk smallMount 0 5 ∧
      Finds s₁.disk smallMount (fun _ => true) node₁.data.layout 4 2 0 ∧
      (node₁.data.layout = [4] ∧ directory₁.data.layout = folderNode.data.layout) ∧
      ∃ s₂ directory₂ node₂, fatFsCreateNode 1 s₁ smallMount node₁ [66] 25 =
          .ret (s₂, directory₂, some node₂) ∧
        directory₂.children = [] ∧ directory₂.attributes &&& 7 = vfsDirectory := by
    refine ⟨_, _, _, rfl, ⟨?_, ?_, ?_, ?_, ?_⟩, ?_, ⟨?_, ?_⟩, _, _, _, rfl, ?_, ?_⟩
    · decide
    · decide
    · decide
    · decide
    · exact fun idx hidx => absurd hidx (Nat.not_lt_zero idx)
    · refine .here rfl (by decide) ⟨Or.inr rfl, fun j hj => ?_⟩
      rcases (by omega : j = 0 ∨ j = 1) with rfl | rfl
      · decide
      · decide
    · rfl
    · rfl
    · rfl
    · decide
  -- a directory is created in the folder and a file in that directory
  have hB : folderTree.branch 0 = some ⟨folderNode, 2, false, 0⟩ := rfl
  have hfresh : folderTree.branch 1 = none := rfl
  rcases createDirectory_step hB hfresh (by decide) folderDisk_finds folderTree_reserves hrun₁
    hlayout₁ with ⟨T₁, hstep₁, rfl, hB₁, hdirs⟩
  have hreserves : ReservesInFat T₁.directories smallMount 1024 := by
    intro idx i hscan
    rcases hscan₁.unique hscan with ⟨rfl, rfl⟩
    refine ⟨by decide, by decide, by decide, fun hdir => ?_⟩
    rcases hdirs _ hdir with hold | hnew
    · exact absurd (folderTree_dirs hold) (by decide)
    · rw [hnode₁] at hnew
      exact absurd hnew (by decide)
  rcases createFile_step hB₁ (by decide) hfinds₁ hreserves hrun₂ with ⟨T₂, hstep₂, hB₂⟩
  have hreach : (treeSystem smallMount 1024).Reachable T₂ :=
    .next (.next (.init folderTree_init.1) ⟨true, hstep₁⟩) ⟨false, hstep₂⟩
  have hT := (treeInv_inductive smallMount_volume).holds hreach
  have hlen := hT.children_length hB₂
  change (directory₂.children ++ [node₂]).length = _ at hlen
  rw [hchildren] at hlen
  refine ⟨T₂, 1, _, hreach, hB₂, hattr, ?_, ?_⟩
  · -- its file is the only child, and the guard refuses from three on
    rw [hT.refused_iff smallMount_volume hB₂ hattr, ← hlen]
    exact (by decide : ¬ 2 < 1)
  · rw [hT.shown hB₂ rfl] at hlen
    rw [← Finset.card_pos]
    exact Nat.lt_of_lt_of_eq Nat.one_pos hlen

end Example

end MeOS
