import MeOS.FatEnds
import MeOS.FatRuns
import MeOS.Lib.Catalogue

/-! # The children of a directory

Reading a directory makes a child of every entry that is shown, also of `.` and
`..`; creating one makes none, and leaves two in the directory it is created in.
`BranchInv` says what the children of a directory stand for.
-/

namespace MeOS

open Bytes EndMarked Catalogue

/-! ## Reading a directory -/

section Reading

variable {s t : FatState} {d : Mem} {mp : MountPoint} {m n c fuel : Nat} {l l' : List FatNode}
  {layout : List Nat}

/-- One cluster of a directory is read. -/
theorem readClusters_cluster (hmp : Mounted mp) (hs : ReadState d (m + 2) s) (hsmall : c < 1024)
    (hrun : fatFsReadClusters mp (fuel + 1) s c l = .ret (t, l')) :
    ∃ s' l₁, ReadState d (m + 2) s' ∧ l₁.map FatNode.place = l.map FatNode.place ++
      shownPlaces d mp c ∧ fatFsReadClusters mp fuel s' (diskLink d mp c) l₁ = .ret (t, l') := by
  have hc : c < fatEof := Nat.lt_trans hsmall (by decide)
  rcases readClusters_turn hmp hs hc with ⟨q, s₂, hu, hload, hs₂, htop, hturn⟩
  rw [hturn] at hrun
  rcases Outcome.bind_eq_ret.mp hrun with ⟨⟨t₁, l₁⟩, hentries, hrun⟩
  have ht := readEntries_scratch (readClusters_subScratch hmp fuel) hs₂.inv hs₂.calm hentries
  rcases readClusters_next (c := c) hmp hs hu hs₂ ht.1 ht.2 with ⟨hnext, -, hvalue⟩
  rw [hvalue (Nat.succ_ne_zero m) hsmall] at hrun
  refine ⟨_, l₁, hnext, ?_, hrun⟩
  refine readEntries_lists (P := fun u => Scratch s₂ u) ?_ (fun u hscratch k hk => ?_) htop
    Scratch.refl hentries
  · intro u c' t' l'' hscratch hsub
    exact hscratch.trans (readClusters_scratch hmp (hscratch.cacheInv hs₂.inv)
      (hscratch.calm hs₂.calm) hsub).1
  · -- the buffer is in use while directories below are read
    rw [(hu.scratch hs.inv hscratch).2 k hk]
    exact hload k hk

/-- A directory whose links are read gets one node for each of its entries that is
shown. -/
theorem readDirectory_places (hmp : Mounted mp) (hs : ReadState d (m + 2) s)
    (hchain : Chain d mp n (c :: layout))
    (hlinks : ∀ x ∈ c :: layout, x < 1024 ∧ diskLink d mp x = fatEntry d mp x)
    (hrun : fatFsReadClusters mp fuel s c l = .ret (t, l')) :
    l'.map FatNode.place = l.map FatNode.place ++ (c :: layout).flatMap (shownPlaces d mp) := by
  -- the loop of the source follows the chain of clusters, so the induction is on it
  induction layout generalizing c fuel s l with
  | nil =>
    cases fuel with
    | zero => cases hrun
    | succ fuel =>
      rcases hlinks c List.mem_cons_self with ⟨hc, hread⟩
      rcases readClusters_cluster hmp hs hc hrun with ⟨s', l₁, hs', hplaces, hrun⟩
      cases hchain with
      | last hdata hend =>
        rw [hread] at hrun
        cases fuel with
        | zero => cases hrun
        | succ fuel =>
          unfold fatFsReadClusters at hrun
          rw [if_neg (by omega)] at hrun
          injection hrun with hpair
          rw [← (Prod.mk.inj hpair).2, hplaces]
          simp
  | cons c' layout ih =>
    cases fuel with
    | zero => cases hrun
    | succ fuel =>
      rcases hlinks c List.mem_cons_self with ⟨hc, hread⟩
      rcases readClusters_cluster hmp hs hc hrun with ⟨s', l₁, hs', hplaces, hrun⟩
      cases hchain with
      | link hdata hlink hlt hrest =>
        rw [hread, hlink] at hrun
        rw [ih hs' hrest (fun x hx => hlinks x (List.mem_cons_of_mem _ hx)) hrun, hplaces,
          List.append_assoc]
        rfl

end Reading

/-! ## Entries and children -/

/-- The entry is `.` or `..`. -/
def IsDot (e : Slot) : Prop := slotName e = padded 11 [dot] ∨ slotName e = padded 11 [dot, dot]

instance (e : Slot) : Decidable (IsDot e) :=
  inferInstanceAs (Decidable (slotName e = padded 11 [dot] ∨ slotName e = padded 11 [dot, dot]))

/-- The entries in use of the clusters, other than `.` and `..`. -/
def others (d : Mem) (mp : MountPoint) (layout : List Nat) : Finset (Nat × Nat) :=
  (layout.toFinset ×ˢ Finset.range 128).filter fun p =>
    slotKind (slots d mp p.1 p.2) = .live ∧ ¬ IsDot (slots d mp p.1 p.2)

/-- Those that are shown. -/
def shownOthers (d : Mem) (mp : MountPoint) (layout : List Nat) : Finset (Nat × Nat) :=
  (others d mp layout).filter fun p => Shown (slots d mp p.1 p.2)

/-- The places of the entries a child of the directory has to stand for. -/
def childKeys (L : Set (Nat × Nat × Slot)) : Set (Nat × Nat) :=
  {p | ∃ e, (p.1, p.2, e) ∈ L ∧ Shown e ∧ ¬ IsDot e}

/-- The child stands for `.` or `..`: for such an entry of the directory, or for none at
all. -/
def DotChild (L : Set (Nat × Nat × Slot)) (child : FatNode) : Prop :=
  child.data.layout = [] ∨ ∃ e, (child.place.1, child.place.2, e) ∈ L ∧ IsDot e

/-- A directory. `dots` of its children were read for `.` and `..`, `labels` says whether
there were labels then, and `made` directories were created in it since. -/
structure Branch where
  node : FatNode
  dots : Nat
  labels : Bool
  made : Nat

/-- The children of a directory stand for its entries that are shown, apart from those for
`.` and `..`. -/
structure BranchInv (d : Mem) (mp : MountPoint) (B : Branch) : Prop where
  index : B.node.data.metadataIndex < 128
  shown : B.labels = false → ∀ q ∈ Listing d mp B.node.data.layout, ¬ IsDot q.2.2 → Shown q.2.2
  children : StandsFor FatNode.place (DotChild (Listing d mp B.node.data.layout))
    (childKeys (Listing d mp B.node.data.layout)) (B.dots + 2 * B.made) B.node.children

section Listing

variable {d d' : Mem} {mp : MountPoint} {n c j : Nat} {e : Slot} {layout : List Nat}
  {D : Nat → Prop} {p : Nat × Nat} {B : Branch} {L L' : Set (Nat × Nat × Slot)} {child : FatNode}

theorem mem_listing_iff : (c, j, e) ∈ Listing d mp layout ↔
    c ∈ layout ∧ (j, e) ∈ clusterListing d mp c :=
  Iff.rfl

/-- The entries in use are those that are seen. -/
theorem mem_others (hclosed : ∀ c ∈ layout, Closed slotKind 128 (slots d mp c)) :
    p ∈ others d mp layout ↔ ∃ e, (p.1, p.2, e) ∈ Listing d mp layout ∧ ¬ IsDot e := by
  unfold others
  rw [Finset.mem_filter, Finset.mem_product, List.mem_toFinset, Finset.mem_range]
  constructor
  · rintro ⟨⟨hc, hj⟩, hlive, hdot⟩
    exact ⟨_, ⟨hc, visible_of_live (hclosed _ hc) hj hlive, rfl⟩, hdot⟩
  · rintro ⟨e, hmem, hdot⟩
    rcases mem_listing.mp hmem with ⟨hc, hvis, rfl⟩
    exact ⟨⟨hc, hvis.1⟩, hvis.2.1, hdot⟩

theorem mem_shownOthers (hclosed : ∀ c ∈ layout, Closed slotKind 128 (slots d mp c)) :
    p ∈ shownOthers d mp layout ↔ p ∈ childKeys (Listing d mp layout) := by
  unfold shownOthers childKeys
  rw [Finset.mem_filter, mem_others hclosed, Set.mem_ofPred_eq]
  constructor
  · rintro ⟨⟨e, hmem, hdot⟩, hshow⟩
    obtain rfl := (mem_listing.mp hmem).2.2
    exact ⟨_, hmem, hshow, hdot⟩
  · rintro ⟨e, hmem, hshow, hdot⟩
    obtain rfl := (mem_listing.mp hmem).2.2
    exact ⟨⟨_, hmem, hdot⟩, hshow⟩

/-- Nothing changes in the clusters of a directory. -/
theorem listing_kept (h : ∀ c ∈ layout, clusterListing d' mp c = clusterListing d mp c) :
    Listing d' mp layout = Listing d mp layout := by
  ext ⟨c, j, e⟩
  rw [mem_listing_iff, mem_listing_iff]
  refine and_congr_right fun hc => ?_
  rw [h c hc]

/-- A dot entry is not taken out with another one. -/
theorem DotChild.remove (h : DotChild L child) (hother : ∀ e, (c, j, e) ∈ L → ¬ IsDot e) :
    DotChild {q ∈ L | ¬ (q.1 = c ∧ q.2.1 = j)} child := by
  rcases h with hnone | ⟨e, hmem, hdot⟩
  · exact Or.inl hnone
  · refine Or.inr ⟨e, ⟨hmem, ?_⟩, hdot⟩
    rintro ⟨hc, hj⟩
    rw [← hc, ← hj] at hother
    exact hother e hmem hdot

theorem DotChild.mono (h : DotChild L child) (hsub : L ⊆ L') : DotChild L' child := by
  rcases h with hnone | ⟨e, hmem, hdot⟩
  · exact Or.inl hnone
  · exact Or.inr ⟨e, hsub hmem, hdot⟩

theorem childKeys_remove :
    childKeys {q ∈ L | ¬ (q.1 = c ∧ q.2.1 = j)} = childKeys L \ {(c, j)} := by
  ext p
  rw [Set.mem_sdiff, Set.mem_singleton_iff, Prod.ext_iff]
  constructor
  · rintro ⟨e, ⟨hmem, hne⟩, hkey⟩
    exact ⟨⟨e, hmem, hkey⟩, hne⟩
  · rintro ⟨⟨e, hmem, hkey⟩, hne⟩
    exact ⟨e, ⟨hmem, hne⟩, hkey⟩

theorem childKeys_add (hshow : Shown e) (hdot : ¬ IsDot e) :
    childKeys {q | q ∈ L ∨ q = (c, j, e)} = insert (c, j) (childKeys L) := by
  ext p
  rw [Set.mem_insert_iff]
  constructor
  · rintro ⟨e', hmem | heq, hkey⟩
    · exact Or.inr ⟨e', hmem, hkey⟩
    · simp only [Prod.mk.injEq] at heq
      exact Or.inl (Prod.ext heq.1 heq.2.1)
  · rintro (rfl | ⟨e', hmem, hkey⟩)
    · exact ⟨e, Or.inr rfl, hshow, hdot⟩
    · exact ⟨e', Or.inl hmem, hkey⟩

end Listing

/-! ## One directory -/

section Branch

variable {d d' : Mem} {mp : MountPoint} {c j i : Nat} {e : Slot} {B : Branch}
  {child node : FatNode}

/-- The child at index `i` is detached. -/
def Branch.detach (B : Branch) (i : Nat) : Branch :=
  { B with node := { B.node with children := B.node.children.eraseIdx i } }

theorem BranchInv.congr (h : BranchInv d mp B)
    (hsame : Listing d' mp B.node.data.layout = Listing d mp B.node.data.layout) :
    BranchInv d' mp B := by
  refine ⟨h.index, ?_, ?_⟩
  · rw [hsame]
    exact h.shown
  · rw [hsame]
    exact h.children

/-- A child that is neither `.` nor `..` stands for an entry of the directory. -/
theorem BranchInv.child_listed (h : BranchInv d mp B) (hchild : B.node.children[i]? = some child)
    (hdot : ¬ DotChild (Listing d mp B.node.data.layout) child) :
    ∃ e, (child.place.1, child.place.2, e) ∈ Listing d mp B.node.data.layout := by
  rcases h.children.key_mem (List.mem_of_getElem? hchild) hdot with ⟨e, hmem, -⟩
  exact ⟨e, hmem⟩

/-- The entry of a child is taken off, and the child detached. -/
theorem BranchInv.detach (h : BranchInv d mp B) (hchild : B.node.children[i]? = some child)
    (hdot : ¬ DotChild (Listing d mp B.node.data.layout) child)
    (hremoved : Listing d' mp B.node.data.layout = {q ∈ Listing d mp B.node.data.layout |
      ¬ (q.1 = child.place.1 ∧ q.2.1 = child.place.2)}) :
    BranchInv d' mp (B.detach i) := by
  have hother : ∀ e, (child.place.1, child.place.2, e) ∈ Listing d mp B.node.data.layout →
      ¬ IsDot e := fun e hmem hd => hdot (Or.inr ⟨e, hmem, hd⟩)
  refine ⟨h.index, ?_, ?_⟩
  · show B.labels = false → ∀ q ∈ Listing d' mp B.node.data.layout, _
    rw [hremoved]
    exact fun hlabels q hq => h.shown hlabels q hq.1
  · show StandsFor _ (DotChild (Listing d' mp B.node.data.layout))
      (childKeys (Listing d' mp B.node.data.layout)) _ (B.node.children.eraseIdx i)
    rw [hremoved, childKeys_remove]
    exact (h.children.eraseIdx hchild hdot).mono fun x _ hx => hx.remove hother

/-- An entry is added, and its node attached; a directory leaves two more children. -/
theorem BranchInv.attach {attrs : Nat} (h : BranchInv d mp B)
    (hplace : node.place = (c, j)) (hshow : Shown e) (hdot : ¬ IsDot e)
    (hvacant : ∀ e', (c, j, e') ∉ Listing d mp B.node.data.layout)
    (hadded : Listing d' mp B.node.data.layout =
      {q | q ∈ Listing d mp B.node.data.layout ∨ q = (c, j, e)}) {directory' : FatNode}
    (hdata : directory'.data = B.node.data)
    (hparent : directory' = if attrs &&& 7 = vfsDirectory then B.node.addDots else B.node) :
    BranchInv d' mp ⟨directory'.addChild node, B.dots, B.labels,
      B.made + if attrs &&& 7 = vfsDirectory then 1 else 0⟩ := by
  have hkey : node.place ∉ childKeys (Listing d mp B.node.data.layout) := by
    rw [hplace]
    rintro ⟨e', hmem, -⟩
    exact hvacant e' hmem
  have hnone : ∀ name, DotChild (Listing d mp B.node.data.layout) (dotNode name) :=
    fun name => Or.inl rfl
  -- the dot nodes of a new directory go to its parent, in front of the new node
  have hlist : StandsFor FatNode.place (DotChild (Listing d mp B.node.data.layout))
      (childKeys (Listing d mp B.node.data.layout))
      (B.dots + 2 * (B.made + if attrs &&& 7 = vfsDirectory then 1 else 0))
      directory'.children := by
    rw [hparent]
    split
    · exact (h.children.append_spare (hnone _)).append_spare (hnone _)
    · exact h.children
  refine ⟨?_, ?_, ?_⟩
  · show directory'.data.metadataIndex < 128
    rw [hdata]
    exact h.index
  · show B.labels = false → ∀ q ∈ Listing d' mp directory'.data.layout, _
    rw [hdata, hadded]
    rintro hlabels q (hq | rfl) hq'
    · exact h.shown hlabels q hq hq'
    · exact hshow
  · show StandsFor _ (DotChild (Listing d' mp directory'.data.layout))
      (childKeys (Listing d' mp directory'.data.layout)) _ (directory'.children ++ [node])
    rw [hdata, hadded, childKeys_add hshow hdot, ← hplace]
    exact (hlist.append_node hkey).mono fun x _ hx => hx.mono fun q hq => Or.inl hq

/-- A directory that was just created has no entries but `.` and `..`, and no children. -/
theorem branchInv_new {r : Nat} (hlayout : node.data.layout = [r])
    (hindex : node.data.metadataIndex < 128) (hchildren : node.children = [])
    (hdots : DotEntries d mp r) (hblock : ∀ j < 128, slots d mp r j 0 = if j < 2 then dot else 0) :
    BranchInv d mp ⟨node, 0, false, 0⟩ := by
  -- its block is zero behind the first two entries
  have hall : ∀ c j e, (c, j, e) ∈ Listing d mp node.data.layout → IsDot e := by
    intro c j e hmem
    rcases mem_listing.mp hmem with ⟨hc, hvis, rfl⟩
    rw [hlayout] at hc
    rw [List.mem_singleton.mp hc] at hvis ⊢
    have hhead := hblock j hvis.1
    by_cases hj : j < 2
    · rcases (by omega : j = 0 ∨ j = 1) with rfl | rfl
      · exact Or.inl hdots.self
      · exact Or.inr hdots.parent
    · rw [if_neg hj] at hhead
      exact absurd hhead ((kind_live_iff _).mp hvis.2.1).1
  have hnone : childKeys (Listing d mp node.data.layout) = ∅ := by
    rw [Set.eq_empty_iff_forall_notMem]
    rintro ⟨c, j⟩ ⟨e, hmem, -, hdot⟩
    exact hdot (hall c j e hmem)
  refine ⟨hindex, fun _ q hq hdot => absurd (hall _ _ _ hq) hdot, ?_⟩
  show StandsFor _ _ (childKeys (Listing d mp node.data.layout)) 0 node.children
  rw [hnone, hchildren]
  exact .nil

end Branch

/-! ## Directories that were read -/

/-- A directory as reading leaves it, with its layout loaded: one child for each entry that
is shown, some of which are dot entries. -/
structure AsRead (d : Mem) (mp : MountPoint) (B : Branch) : Prop where
  nodup : B.node.data.layout.Nodup
  index : B.node.data.metadataIndex < 128
  children : B.node.children.map FatNode.place = B.node.data.layout.flatMap (shownPlaces d mp)
  dots : B.dots = ((B.node.data.layout.flatMap (shownPlaces d mp)).filter fun p =>
    decide (IsDot (slots d mp p.1 p.2))).length
  labels : B.labels = false → ∀ q ∈ Listing d mp B.node.data.layout, Shown q.2.2
  made : B.made = 0

section AsRead

variable {d : Mem} {mp : MountPoint} {layout : List Nat} {p : Nat × Nat} {B : Branch} {c : Nat}

theorem mem_shownPlaces : p ∈ shownPlaces d mp c ↔
    p.1 = c ∧ Visible slotKind 128 (slots d mp p.1) p.2 ∧ Shown (slots d mp p.1 p.2) := by
  unfold shownPlaces
  rw [List.mem_map]
  constructor
  · rintro ⟨j, hj, rfl⟩
    rw [List.mem_filter, decide_eq_true_iff] at hj
    exact ⟨rfl, hj.2⟩
  · rintro ⟨rfl, hvis, hshow⟩
    refine ⟨p.2, List.mem_filter.mpr ⟨List.mem_range.mpr hvis.1, ?_⟩, rfl⟩
    exact decide_eq_true ⟨hvis, hshow⟩

theorem mem_places : p ∈ layout.flatMap (shownPlaces d mp) ↔
    ∃ e, (p.1, p.2, e) ∈ Listing d mp layout ∧ Shown e := by
  rw [List.mem_flatMap]
  constructor
  · rintro ⟨c, hc, hp⟩
    rcases mem_shownPlaces.mp hp with ⟨rfl, hvis, hshow⟩
    exact ⟨_, ⟨hc, hvis, rfl⟩, hshow⟩
  · rintro ⟨e, hmem, hshow⟩
    rcases mem_listing.mp hmem with ⟨hc, hvis, rfl⟩
    exact ⟨p.1, hc, mem_shownPlaces.mpr ⟨rfl, hvis, hshow⟩⟩

/-- No entry is met twice. -/
theorem places_nodup (hlayout : layout.Nodup) : (layout.flatMap (shownPlaces d mp)).Nodup := by
  rw [List.nodup_flatMap]
  constructor
  · intro c hc
    refine (List.nodup_range.filter _).map fun i j hij => ?_
    exact (Prod.mk.inj hij).2
  · refine hlayout.imp fun {c c'} hne => ?_
    intro p hp hp'
    exact hne ((mem_shownPlaces.mp hp).1.symm.trans (mem_shownPlaces.mp hp').1)

theorem AsRead.inv (h : AsRead d mp B) : BranchInv d mp B := by
  refine ⟨h.index, fun hlabels q hq _ => h.labels hlabels q hq, ?_⟩
  have hkeys : childKeys (Listing d mp B.node.data.layout) =
      {p | p ∈ B.node.children.map FatNode.place ∧
        decide (IsDot (slots d mp p.1 p.2)) = false} := by
    ext p
    rw [Set.mem_ofPred_eq, h.children, mem_places, decide_eq_false_iff_not]
    constructor
    · rintro ⟨e, hmem, hshow, hdot⟩
      obtain rfl := (mem_listing.mp hmem).2.2
      exact ⟨⟨_, hmem, hshow⟩, hdot⟩
    · rintro ⟨⟨e, hmem, hshow⟩, hdot⟩
      obtain rfl := (mem_listing.mp hmem).2.2
      exact ⟨_, hmem, hshow, hdot⟩
  have hcount : B.dots + 2 * B.made = ((B.node.children.map FatNode.place).filter fun p =>
      decide (IsDot (slots d mp p.1 p.2))).length := by
    rw [h.made, h.dots, h.children]
    rfl
  rw [hkeys, hcount]
  refine StandsFor.of_keys ?_ fun x hx hdot => ?_
  · rw [h.children]
    exact places_nodup h.nodup
  · have hmem := List.mem_map_of_mem (f := FatNode.place) hx
    rw [h.children, mem_places] at hmem
    rcases hmem with ⟨e, hmem, -⟩
    obtain rfl := (mem_listing.mp hmem).2.2
    exact Or.inr ⟨_, hmem, of_decide_eq_true hdot⟩

/-- A directory whose links are read, with the children that reading it returns. -/
theorem readDirectory_asRead {s t : FatState} {node : FatNode} {children : List FatNode}
    {m n fuel : Nat} {labels : Bool} (hmp : Mounted mp) (hs : ReadState d (m + 2) s)
    (hlayout : node.data.layout = c :: layout) (hchain : Chain d mp n (c :: layout))
    (hlinks : ∀ x ∈ c :: layout, x < 1024 ∧ diskLink d mp x = fatEntry d mp x)
    (hindex : node.data.metadataIndex < 128)
    (hlabels : labels = false → ∀ q ∈ Listing d mp (c :: layout), Shown q.2.2)
    (hrun : fatFsReadDirectory fuel s mp c = .ret (t, children)) :
    AsRead d mp ⟨{ node with children := children },
      (((c :: layout).flatMap (shownPlaces d mp)).filter fun p =>
        decide (IsDot (slots d mp p.1 p.2))).length, labels, 0⟩ := by
  rw [← hlayout] at hlabels ⊢
  refine ⟨?_, hindex, ?_, rfl, hlabels, rfl⟩
  · show node.data.layout.Nodup
    rw [hlayout]
    exact hchain.nodup
  · show children.map FatNode.place = node.data.layout.flatMap _
    rw [hlayout]
    exact readDirectory_places hmp hs hchain hlinks hrun

end AsRead

end MeOS
