import MeOS.FatCreate
import MeOS.FatMove
import MeOS.Lib.Runs

/-! # Runs of directory operations

In every cluster of a directory nothing in use should stand behind an end mark
(`Closed`). Deleting, moving and creating keep it so in any order, and change
the listings by what they are for (`directories_closed`), as long as chains stay
in the FAT and a cluster that is reserved is the one marked.
-/

namespace MeOS

open Bytes EndMarked Runs

/-! ## What a step is for -/

/-- The entries that are seen in one cluster, with their slots. -/
def clusterListing (d : Mem) (mp : MountPoint) (c : Nat) : Set (Nat × Slot) :=
  {p | Visible slotKind 128 (slots d mp c) p.1 ∧ p.2 = slots d mp c p.1}

/-- What a step does to the directories. -/
inductive Effect where
  | kept
  | removed (c j : Nat)
  | added (c j : Nat) (name : List UInt8)
  | moved (c₀ j₀ c j : Nat)

/-- The listings of the directory clusters `D` changed accordingly. -/
def Effect.Law (mp : MountPoint) (D : Nat → Prop) (d d' : Mem) : Effect → Prop
  | .kept => ∀ c, D c → clusterListing d' mp c = clusterListing d mp c
  | .removed c₀ j₀ => ∀ c, D c →
      clusterListing d' mp c = {p ∈ clusterListing d mp c | ¬ (c = c₀ ∧ p.1 = j₀)}
  | .added c₀ j₀ name => ∃ e, fatFsGenerateShortName name = some (slotName e) ∧
      (∀ e', (j₀, e') ∉ clusterListing d mp c₀) ∧ ∀ c, D c →
        clusterListing d' mp c = {p | p ∈ clusterListing d mp c ∨ (c = c₀ ∧ p = (j₀, e))}
  | .moved c₀ j₀ c₁ j₁ => ∀ c, D c → clusterListing d' mp c =
      {p | (p ∈ clusterListing d mp c ∧ ¬ (c = c₀ ∧ p.1 = j₀)) ∨
        (c = c₁ ∧ p = (j₁, slots d mp c₀ j₀))}

/-! ## Steps -/

/-- The file system and the clusters that belong to directories. -/
structure Directories where
  fat : FatState
  dirs : Nat → Prop

/-- The entry of the node is in use, in a directory. -/
structure InUse (S : Directories) (mp : MountPoint) (node : FatNode) : Prop where
  dir : S.dirs node.data.metadataCluster
  index : node.data.metadataIndex < 128
  live : slotKind (slots S.fat.disk mp node.data.metadataCluster node.data.metadataIndex) = .live

/-- Where the scan for a free cluster stops: in the FAT, and the cluster that is
returned has a number that an entry holds and is not in use. -/
def ReservesInFat (S : Directories) (mp : MountPoint) (n : Nat) : Prop :=
  ∀ idx i, Scan S.fat.disk mp idx i → 1024 * idx + i < n ∧ reservedCluster idx i < 65536 ∧
    reservedCluster idx i ≠ 1 ∧ ¬ S.dirs (reservedCluster idx i)

/-- Deleting would leave children behind. -/
def HasChildren (node : FatNode) : Prop :=
  node.attributes &&& 7 = vfsDirectory ∧ node.children.length > 2

/-- A step, with what it is for. -/
inductive DirStep (mp : MountPoint) (n : Nat) : Directories → Effect → Directories → Prop where
  | delete {S : Directories} {s' : FatState} {node : FatNode} {fuel : Nat} {res : ErrorT}
      (hnode : InUse S mp node) (hempty : ¬ HasChildren node)
      (hstay : ∀ x, node.data.layout.head? = some x → StaysInFat S.fat.disk mp n x)
      (hrun : fatFsDeleteNode fuel S.fat mp node = .ret (s', res)) :
      DirStep mp n S (.removed node.data.metadataCluster node.data.metadataIndex) ⟨s', S.dirs⟩
  | refuse {S : Directories} {s' : FatState} {node : FatNode} {fuel : Nat} {res : ErrorT}
      (hfull : HasChildren node) (hrun : fatFsDeleteNode fuel S.fat mp node = .ret (s', res)) :
      DirStep mp n S .kept ⟨s', S.dirs⟩
  | move {S : Directories} {s' : FatState} {node node' directory directory' : FatNode} {fuel : Nat}
      (hnode : InUse S mp node) (hdir : directory.attributes &&& 7 = vfsDirectory)
      (hlayout : ∀ c ∈ directory'.data.layout, S.dirs c)
      (hfound : ∃ c j k, Finds (clearSlot S.fat.disk mp node.data.metadataCluster
        node.data.metadataIndex) mp (fun _ => true) directory'.data.layout c j k)
      (hrun : fatFsMoveNode fuel S.fat mp node directory = .ret (s', node', directory', .ok)) :
      DirStep mp n S (.moved node.data.metadataCluster node.data.metadataIndex
        node'.data.metadataCluster node'.data.metadataIndex) ⟨s', S.dirs⟩
  | lose {S : Directories} {s' : FatState} {node node' directory directory' : FatNode} {fuel : Nat}
      (hnode : InUse S mp node) (hdir : directory.attributes &&& 7 = vfsDirectory)
      (hno : ∀ c j k, ¬ Finds (clearSlot S.fat.disk mp node.data.metadataCluster
        node.data.metadataIndex) mp (fun _ => true) directory'.data.layout c j k)
      (hrun : fatFsMoveNode fuel S.fat mp node directory = .ret (s', node', directory', .ok)) :
      DirStep mp n S (.removed node.data.metadataCluster node.data.metadataIndex) ⟨s', S.dirs⟩
  | create {S : Directories} {s' : FatState} {directory directory' node : FatNode}
      {name : List UInt8} {fuel attrs c j k : Nat}
      (hdir : directory.attributes &&& 7 = vfsDirectory)
      (hname : fatFsValidate83Name S.fat.behindTable name = true)
      (hlayout : ∀ c ∈ directory.data.layout, S.dirs c)
      (hfinds : Finds S.fat.disk mp (fun _ => true) directory.data.layout c j k)
      (hreserves : ReservesInFat S mp n)
      (hrun : fatFsCreateNode fuel S.fat mp directory name attrs =
        .ret (s', directory', some node)) :
      DirStep mp n S (.added node.data.metadataCluster node.data.metadataIndex name)
        ⟨s', fun x => S.dirs x ∨ (attrs &&& 7 = vfsDirectory ∧ node.data.layout = [x])⟩
  | createNone {S : Directories} {s' : FatState} {directory directory' : FatNode}
      {name : List UInt8} {fuel attrs c j k : Nat}
      (hdir : directory.attributes &&& 7 = vfsDirectory)
      (hname : fatFsValidate83Name S.fat.behindTable name = true)
      (hlayout : ∀ c ∈ directory.data.layout, S.dirs c)
      (hfinds : Finds S.fat.disk mp (fun _ => true) directory.data.layout c j k)
      (hreserves : ReservesInFat S mp n)
      (hrun : fatFsCreateNode fuel S.fat mp directory name attrs = .ret (s', directory', none)) :
      DirStep mp n S .kept ⟨s', S.dirs⟩
  | forget {S : Directories} {dirs : Nat → Prop} (hsub : ∀ c, dirs c → S.dirs c) :
      DirStep mp n S .kept ⟨S.fat, dirs⟩

/-- No call fails, and the directory clusters are data clusters without anything
behind an end mark. -/
structure DirInv (mp : MountPoint) (n : Nat) (S : Directories) : Prop where
  steady : Steady 2 S.fat
  data : ∀ c, S.dirs c → DataCluster n c
  closed : ∀ c, S.dirs c → Closed slotKind 128 (slots S.fat.disk mp c)

/-- The runs of directory operations. -/
def dirSystem (mp : MountPoint) (n : Nat) : System Directories where
  Init := DirInv mp n
  Next S S' := ∃ effect, DirStep mp n S effect S'

section Listing

variable {d d' : Mem} {mp : MountPoint} {D : Nat → Prop} {n c c' j j' : Nat} {e : Slot}

theorem mem_clusterListing : (j, e) ∈ clusterListing d mp c ↔
    Visible slotKind 128 (slots d mp c) j ∧ e = slots d mp c j :=
  Iff.rfl

theorem clusterListing_congr (hsame : ∀ i < 128, slots d' mp c i = slots d mp c i) :
    clusterListing d' mp c = clusterListing d mp c := by
  ext ⟨j, e⟩
  rw [mem_clusterListing, mem_clusterListing, visible_congr hsame]
  refine and_congr_right fun hvis => ?_
  rw [hsame j hvis.1]

/-- The listings after an entry in use was cleared. -/
theorem listing_clear (hv : Volume mp n) (hD : ∀ x, D x → DataCluster n x) (hc : D c)
    (hlive : Visible slotKind 128 (slots d mp c) j) (hc' : D c') :
    clusterListing (clearSlot d mp c j) mp c' =
      {p ∈ clusterListing d mp c' | ¬ (c' = c ∧ p.1 = j)} := by
  ext ⟨j', e⟩
  rw [Set.mem_sep_iff, mem_clusterListing, mem_clusterListing,
    visible_clearSlot hv hD hc hlive hc']
  constructor
  · rintro ⟨⟨hvis, hne⟩, rfl⟩
    refine ⟨⟨hvis, ?_⟩, hne⟩
    exact slots_edit_other hv hD hc hlive.1 hc' hvis.1 fun hcc hjj => hne ⟨hcc, hjj⟩
  · rintro ⟨⟨hvis, rfl⟩, hne⟩
    refine ⟨⟨hvis, hne⟩, ?_⟩
    exact (slots_edit_other hv hD hc hlive.1 hc' hvis.1 fun hcc hjj => hne ⟨hcc, hjj⟩).symm

/-- The listings after the first vacant slot of a closed cluster was filled. -/
theorem listing_fill (hv : Volume mp n) (hD : ∀ x, D x → DataCluster n x) (hc : D c)
    (hclosed : Closed slotKind 128 (slots d mp c)) (hj : j < 128)
    (hfirst : FirstVacant slotKind (slots d mp c) j) (he : slotKind e = .live) (hc' : D c') :
    clusterListing (editSlot d mp c j e) mp c' =
      {p | p ∈ clusterListing d mp c' ∨ (c' = c ∧ p = (j, e))} := by
  ext ⟨j', e'⟩
  rw [Set.mem_ofPred_eq, mem_clusterListing, mem_clusterListing]
  -- in the cluster itself the table was closed, so the fill uncovers nothing
  by_cases hcc : c' = c
  · subst hcc
    rw [editSlot_edits.slots_eq, hclosed.visible_fill hfirst hj he]
    constructor
    · rintro ⟨rfl | hvis, rfl⟩
      · right
        rw [Function.update_self]
        exact ⟨rfl, rfl⟩
      · by_cases hjj : j' = j
        · right
          subst hjj
          rw [Function.update_self]
          exact ⟨rfl, rfl⟩
        · left
          rw [Function.update_of_ne hjj]
          exact ⟨hvis, rfl⟩
    · rintro (⟨hvis, rfl⟩ | ⟨-, heq⟩)
      · have hne : j' ≠ j := by
          rintro rfl
          rcases hfirst.1 with hk | hk <;> rw [hvis.2.1] at hk <;> cases hk
        rw [Function.update_of_ne hne]
        exact ⟨Or.inr hvis, rfl⟩
      · rcases Prod.mk.inj heq with ⟨rfl, rfl⟩
        rw [Function.update_self]
        exact ⟨Or.inl rfl, rfl⟩
  · -- another cluster has none of the edited bytes
    have hsame : ∀ i < 128, slots (editSlot d mp c j e) mp c' i = slots d mp c' i := by
      intro i hi
      exact slots_edit_other hv hD hc hj hc' hi (fun heq => absurd heq hcc)
    rw [visible_congr hsame]
    constructor
    · rintro ⟨hvis, rfl⟩
      left
      exact ⟨hvis, hsame j' hvis.1⟩
    · rintro (⟨hvis, rfl⟩ | ⟨heq, -⟩)
      · exact ⟨hvis, (hsame j' hvis.1).symm⟩
      · exact absurd heq hcc

/-- An entry in use of a closed cluster is seen. -/
theorem visible_of_live (hclosed : Closed slotKind 128 (slots d mp c)) (hj : j < 128)
    (hlive : slotKind (slots d mp c j) = .live) : Visible slotKind 128 (slots d mp c) j := by
  refine ⟨hj, hlive, ?_⟩
  intro i hi hstop
  rw [hclosed i j hi hj hstop] at hlive
  cases hlive

/-- Editing a slot of a directory cluster leaves the others closed. -/
theorem closed_edit (hv : Volume mp n) (hD : ∀ x, D x → DataCluster n x)
    (hclosed : ∀ x, D x → Closed slotKind 128 (slots d mp x)) (hc : D c) (hj : j < 128)
    (hhere : Closed slotKind 128 (Function.update (slots d mp c) j e)) (hc' : D c') :
    Closed slotKind 128 (slots (editSlot d mp c j e) mp c') := by
  by_cases hcc : c' = c
  · subst hcc
    rw [editSlot_edits.slots_eq]
    exact hhere
  · refine (hclosed c' hc').congr fun i hi => ?_
    exact slots_edit_other hv hD hc hj hc' hi (fun heq => absurd heq hcc)

end Listing

/-! ## One step -/

section Step

variable {S S' : Directories} {s' : FatState} {d d' : Mem} {mp : MountPoint} {D : Nat → Prop}
  {n c c' j : Nat} {effect : Effect} {node : FatNode}

/-- The directory clusters lie behind the FAT. -/
theorem slots_behind_fat (hv : Volume mp n) (hc : DataCluster n c)
    (hsame : ∀ a, fatAddr mp n ≤ a → d' a = d a) : ∀ i < 128, slots d' mp c i = slots d mp c i := by
  intro i hi
  have hbelow := fat_below_cluster hv hc
  exact slots_congr (fun x hlo hhi => hsame x (by omega)) hi

theorem InUse.visible (hnode : InUse S mp node) (hS : DirInv mp n S) :
    Visible slotKind 128 (slots S.fat.disk mp node.data.metadataCluster) node.data.metadataIndex :=
  visible_of_live (hS.closed _ hnode.dir) hnode.index hnode.live

/-- Behind a cleared slot the clusters are closed. -/
theorem closed_clear (hv : Volume mp n) (hS : DirInv mp n S) (hnode : InUse S mp node)
    (hc : S.dirs c) :
    Closed slotKind 128 (slots (clearSlot S.fat.disk mp node.data.metadataCluster
      node.data.metadataIndex) mp c) := by
  refine closed_edit hv hS.data hS.closed hnode.dir hnode.index ?_ hc
  refine (hS.closed _ hnode.dir).clear ?_ clearedSlot_clears
  rw [hnode.live]
  exact Kind.noConfusion

/-- A step that clears the entry of a node, as seen from the directories. -/
theorem removed_step (hv : Volume mp n) (hS : DirInv mp n S) (hnode : InUse S mp node)
    (hscratch : Scratch S.fat s')
    (hdisk : ∀ a, fatAddr mp n ≤ a → s'.disk a =
      clearSlot S.fat.disk mp node.data.metadataCluster node.data.metadataIndex a) :
    DirInv mp n ⟨s', S.dirs⟩ ∧ (Effect.removed node.data.metadataCluster
      node.data.metadataIndex).Law mp S.dirs S.fat.disk s'.disk := by
  constructor
  · refine ⟨hscratch.steady hS.steady, hS.data, ?_⟩
    intro c hc
    exact (closed_clear hv hS hnode hc).congr (slots_behind_fat hv (hS.data c hc) hdisk)
  · intro c hc
    rw [clusterListing_congr (slots_behind_fat hv (hS.data c hc) hdisk)]
    exact listing_clear hv hS.data hnode.dir (hnode.visible hS) hc

/-- The node is cleared, and its entry put into the slot that was found. -/
theorem moved_step (hv : Volume mp n) (hS : DirInv mp n S) (hnode : InUse S mp node)
    (hscratch : Scratch S.fat s') (hc : S.dirs c) (hj : j < 127)
    (hfirst : FirstVacant slotKind (slots (clearSlot S.fat.disk mp node.data.metadataCluster
      node.data.metadataIndex) mp c) j)
    (hdisk : s'.disk = editSlot (clearSlot S.fat.disk mp node.data.metadataCluster
      node.data.metadataIndex) mp c j
        (slots S.fat.disk mp node.data.metadataCluster node.data.metadataIndex)) :
    DirInv mp n ⟨s', S.dirs⟩ ∧ (Effect.moved node.data.metadataCluster node.data.metadataIndex
      c j).Law mp S.dirs S.fat.disk s'.disk := by
  have hclosed : ∀ x, S.dirs x → _ := fun x hx => closed_clear hv hS hnode hx
  constructor
  · refine ⟨hscratch.steady hS.steady, hS.data, ?_⟩
    intro x hx
    show Closed slotKind 128 (slots s'.disk mp x)
    rw [hdisk]
    refine closed_edit hv hS.data hclosed hc (by omega) ?_ hx
    refine (hclosed c hc).fill hfirst ?_
    rw [hnode.live]
    exact Kind.noConfusion
  · intro x hx
    rw [hdisk, listing_fill hv hS.data hc (hclosed c hc) (by omega) hfirst hnode.live hx,
      listing_clear hv hS.data hnode.dir (hnode.visible hS) hx]
    rfl

/-- In the FAT, the word that is marked is the entry it is meant to be for the
block size of the device. -/
theorem scanAddr_eq {idx i : Nat} (hn : FatSize mp n) (hx : 1024 * idx + i < n) :
    scanAddr mp idx i = fatAddr mp (1024 * idx + i) := by
  have hfew := hn.few
  have htop := hn.top
  unfold scanAddr fatAddr
  rw [mul32_eq (by omega), add32_eq (by omega)]
  omega

/-- What creating a node does to the slots of the directories. -/
theorem created_slots {idx i : Nat} {e : Slot} {dir : Prop} [Decidable dir] (hv : Volume mp n)
    (hD : ∀ x, D x → DataCluster n x) (hc : D c) (hj : j < 127)
    (hfat : 1024 * idx + i < n) (hsmall : reservedCluster idx i < 65536)
    (hword : i < 128) (hzero : reservedCluster idx i ≠ 0) (hfree : ¬ D (reservedCluster idx i))
    (he : slotCluster e = halvesOf (reservedCluster idx i))
    (hcreated : CreatedNode d d' mp c j (slots d mp c) idx i e dir) (hc' : D c') :
    ∀ j' < 128, slots d' mp c' j' = slots (editSlot d mp c j e) mp c' j' := by
  have hn := hv.fatSize
  have hfew := hn.few
  have hle := (reservedCluster_le hn hword hfat rfl).2.1
  have hsame : slotCluster e = reservedCluster idx i := by
    rw [he, halvesOf_eq (by omega)]
    omega
  have hspan : 1 ≤ reservedCluster idx i ∧ reservedCluster idx i < n := ⟨by omega, by omega⟩
  -- the new cluster is none of the directories' own
  have hoff : ∀ x, D x → ∀ y, clusterAddr mp x ≤ y → y < clusterAddr mp x + 4096 →
      OffCluster mp (slotCluster e) y := by
    intro x hx
    rw [hsame]
    refine offCluster_of_ne hv (hD x hx) hspan ?_
    rintro rfl
    exact hfree hx
  intro j' hj'
  by_cases hcc : c' = c
  · subst hcc
    rw [hcreated.table (hoff c' hc') j' hj', editSlot_edits.slots_eq]
  · rw [slots_edit_other hv hD hc (by omega) hc' hj' (fun heq => absurd heq hcc)]
    have hbelow := fat_below_cluster hv (hD c' hc')
    have hdata := hD c hc
    refine slots_congr (fun x hlo hhi => ?_) hj'
    rw [hcreated.outside x (offCluster_of_ne hv (hD c' hc') ⟨by have := hdata.1; omega, hdata.2⟩
      (fun heq => hcc heq.symm) x hlo hhi) (hoff c' hc' x hlo hhi), scanAddr_eq hn hfat]
    refine store32_frame _ _ ?_
    unfold fatAddr at *
    omega

/-- A node with first cluster `r` was made, with entry `e` in slot `j` of cluster `c`, as
seen from the directories. -/
structure Creates (mp : MountPoint) (n : Nat) (S : Directories) (s' : FatState)
    (directory directory' node : FatNode) (name : List UInt8) (attrs c j r : Nat) (e : Slot) :
    Prop where
  layout : node.data.layout = [r]
  place : node.data.metadataCluster = c ∧ node.data.metadataIndex = j
  kept : directory'.data = directory.data
  fresh : ¬ S.dirs r
  entry : NewEntry name r e
  tree : CreatedTree s'.disk mp directory directory' node attrs e
  cluster : slotCluster e = r
  block : ∀ j' < 128, slots s'.disk mp r j' 0 =
    if attrs &&& 7 = vfsDirectory ∧ j' < 2 then dot else 0
  inv : DirInv mp n ⟨s', fun x => S.dirs x ∨
    (attrs &&& 7 = vfsDirectory ∧ node.data.layout = [x])⟩
  vacant : ∀ e', (j, e') ∉ clusterListing S.fat.disk mp c
  listing : ∀ x, S.dirs x → clusterListing s'.disk mp x =
    {p | p ∈ clusterListing S.fat.disk mp x ∨ (x = c ∧ p = (j, e))}

/-- What creating a node comes to. -/
theorem creates_of_run {directory directory' : FatNode} {name : List UInt8} {fuel attrs k : Nat}
    (hv : Volume mp n) (hS : DirInv mp n S) (hdir : directory.attributes &&& 7 = vfsDirectory)
    (hname : fatFsValidate83Name S.fat.behindTable name = true)
    (hlayout : ∀ c ∈ directory.data.layout, S.dirs c)
    (hfinds : Finds S.fat.disk mp (fun _ => true) directory.data.layout c j k)
    (hreserves : ReservesInFat S mp n)
    (hrun : fatFsCreateNode fuel S.fat mp directory name attrs =
      .ret (s', directory', some node)) :
    ∃ r e, Creates mp n S s' directory directory' node name attrs c j r e := by
  have hdevice : S.fat.device = fun _ => true := funext hS.steady.calm.device
  rw [← hdevice] at hfinds
  rcases createNode_found hS.steady hv.toMounted hdir hname hfinds hrun with
    ⟨idx, i, hscan, hscratch, hkept, ⟨-, hnone, -⟩ |
      ⟨hzero, node', e, hsome, hlay, hplace, hentry, hcreated, htree⟩⟩
  · cases hnone
  · obtain rfl : node = node' := Option.some.inj hsome
    rcases hfinds.spec with ⟨hmem, hj, hfirst⟩
    rcases hreserves idx i hscan with ⟨hfat, hsmall, hone, hfree⟩
    have hc := hlayout c hmem
    have hslots := fun (x : Nat) (hx : S.dirs x) =>
      created_slots hv hS.data hc hj hfat hsmall hscan.word hzero hfree hentry.cluster hcreated hx
    have hle := (reservedCluster_le hv.fatSize hscan.word hfat rfl).2.1
    have hsame : slotCluster e = reservedCluster idx i := by
      have hfew := hv.few
      rw [hentry.cluster, halvesOf_eq (by omega)]
      omega
    have hblock := hcreated.block
    rw [hsame] at hblock
    refine ⟨reservedCluster idx i, e, ⟨hlay, hplace, hkept, hfree, hentry, htree, hsame, hblock,
      ⟨hscratch.steady hS.steady, ?_, ?_⟩, ?_, ?_⟩⟩
    · rintro x (hx | ⟨-, hx⟩)
      · exact hS.data x hx
      · obtain rfl : reservedCluster idx i = x := by
          rw [hlay] at hx
          exact List.head_eq_of_cons_eq hx
        exact ⟨by omega, by omega⟩
    · rintro x (hx | ⟨hd, hx⟩)
      · refine Closed.congr ?_ (hslots x hx)
        refine closed_edit hv hS.data hS.closed hc (by omega) ?_ hx
        refine (hS.closed c hc).fill hfirst ?_
        rw [hentry.live]
        exact Kind.noConfusion
      · -- the cluster of the new directory: dot entries, then end marks
        obtain rfl : reservedCluster idx i = x := by
          rw [hlay] at hx
          exact List.head_eq_of_cons_eq hx
        intro a b hab hb hstop
        rw [kind_stop_iff] at hstop ⊢
        rw [hblock a (by omega)] at hstop
        rw [hblock b hb, if_neg]
        rintro ⟨-, hb₂⟩
        rw [if_pos ⟨hd, by omega⟩] at hstop
        exact absurd hstop (by decide)
    · rintro e' ⟨hvis, -⟩
      rcases hfirst.1 with hk | hk <;> rw [hvis.2.1] at hk <;> cases hk
    · intro x hx
      rw [clusterListing_congr (hslots x hx)]
      exact listing_fill hv hS.data hc (hS.closed c hc) (by omega) hfirst hentry.live hx

/-- Fewer directories are looked at. -/
theorem DirInv.mono {dirs : Nat → Prop} (hS : DirInv mp n S) (hsub : ∀ c, dirs c → S.dirs c) :
    DirInv mp n ⟨S.fat, dirs⟩ :=
  ⟨hS.steady, fun c hc => hS.data c (hsub c hc), fun c hc => hS.closed c (hsub c hc)⟩

/-- A move that succeeds while nothing fails: the entry is off the disk, and stands at the place
that was found, if there was one. -/
theorem move_succeeds (hv : Volume mp n) (hS : DirInv mp n S) (hnode : InUse S mp node)
    (hdir : directory.attributes &&& 7 = vfsDirectory)
    (hrun : fatFsMoveNode fuel S.fat mp node directory = .ret (s', node', directory', .ok)) :
    Scratch S.fat s' ∧
      ((∃ c j k, Finds (clearSlot S.fat.disk mp node.data.metadataCluster
            node.data.metadataIndex) mp (fun _ => true) directory'.data.layout c j k ∧
          (node'.data.metadataCluster = c ∧ node'.data.metadataIndex = j) ∧
          s'.disk = editSlot (clearSlot S.fat.disk mp node.data.metadataCluster
            node.data.metadataIndex) mp c j
              (slots S.fat.disk mp node.data.metadataCluster node.data.metadataIndex)) ∨
        ((∀ c j k, ¬ Finds (clearSlot S.fat.disk mp node.data.metadataCluster
            node.data.metadataIndex) mp (fun _ => true) directory'.data.layout c j k) ∧
          s'.disk = clearSlot S.fat.disk mp node.data.metadataCluster
            node.data.metadataIndex)) := by
  rcases moveNode_cases hS.steady.inv hv.toMounted hdir rfl rfl hnode.index hrun with
    ⟨s₁, opened, hopen, hscratch, ⟨-, hno, -⟩ | ⟨-, hgoes⟩⟩
  · cases hno
  · have hcalm := (openFileByNode_scratch hS.steady.inv hopen).1.calm hS.steady.calm
    have hdev : (fun m => s₁.device (m + 2)) = fun _ => true :=
      funext fun m => hcalm.device (m + 2)
    rw [hdev] at hgoes
    refine ⟨hscratch, ?_⟩
    rcases hgoes with ⟨c, j, k, hfinds, ⟨-, -, hplace, hdisk⟩ | ⟨-, hno, -⟩⟩ | ⟨hno, -, hdisk⟩
    · exact Or.inl ⟨c, j, k, hfinds, hplace, hdisk⟩
    · cases hno
    · exact Or.inr ⟨hno, hdisk⟩

/-- A step keeps the invariant and does what it is for. -/
theorem dirStep_law (hv : Volume mp n) (hS : DirInv mp n S) (hstep : DirStep mp n S effect S') :
    DirInv mp n S' ∧ effect.Law mp S.dirs S.fat.disk S'.fat.disk := by
  have hdevice : S.fat.device = fun _ => true := funext hS.steady.calm.device
  cases hstep with
  | delete hnode hempty hstay hrun =>
    rcases deleteNode_cases (hS.steady.mono (by decide)) hv hempty (hS.data _ hnode.dir) hnode.index
      hstay hrun with ⟨hscratch, hdisk⟩
    exact removed_step hv hS hnode hscratch hdisk
  | refuse hfull hrun =>
    unfold HasChildren at hfull
    unfold fatFsDeleteNode at hrun
    rw [if_pos hfull] at hrun
    injection hrun with hpair
    rcases Prod.mk.inj hpair with ⟨rfl, -⟩
    -- a refused deletion writes nothing
    refine ⟨⟨⟨hS.steady.inv, hS.steady.free, ?_⟩, hS.data, hS.closed⟩, fun c hc => rfl⟩
    exact ⟨hS.steady.calm.frames, hS.steady.calm.device, hS.steady.calm.tables⟩
  | move hnode hdir hlayout hfound hrun =>
    rcases move_succeeds hv hS hnode hdir hrun with
      ⟨hscratch, ⟨c, j, k, hfinds, ⟨hc, hj⟩, hdisk⟩ | ⟨hno, -⟩⟩
    · rcases hfinds.spec with ⟨hmem, hlt, hfirst⟩
      rw [hc, hj]
      exact moved_step hv hS hnode hscratch (hlayout c hmem) hlt hfirst hdisk
    · rcases hfound with ⟨c, j, k, hfinds⟩
      exact absurd hfinds (hno c j k)
  | lose hnode hdir hno hrun =>
    rcases move_succeeds hv hS hnode hdir hrun with ⟨hscratch, ⟨c, j, k, hfinds, -⟩ | ⟨-, hdisk⟩⟩
    · exact absurd hfinds (hno c j k)
    · exact removed_step hv hS hnode hscratch fun a _ => by rw [hdisk]
  | @create s' directory directory' node name fuel attrs c j k hdir hname hlayout hfinds hreserves
      hrun =>
    rcases creates_of_run hv hS hdir hname hlayout hfinds hreserves hrun with ⟨r, e, hcreates⟩
    refine ⟨hcreates.inv, ?_⟩
    rw [hcreates.place.1, hcreates.place.2]
    exact ⟨e, hcreates.entry.name, hcreates.vacant, hcreates.listing⟩
  | @createNone s' directory directory' name fuel attrs c j k hdir hname hlayout hfinds hreserves
      hrun =>
    rw [← hdevice] at hfinds
    rcases createNode_found hS.steady hv.toMounted hdir hname hfinds hrun with
      ⟨idx, i, hscan, hscratch, -, ⟨hzero, -, -, hdisk⟩ | ⟨-, node', e, hsome, -⟩⟩
    · -- no cluster is left for the node, yet the scan's mark is on the table
      have hfat := (hreserves idx i hscan).1
      have hsame : ∀ a, fatAddr mp n ≤ a → s'.disk a = S.fat.disk a := by
        intro a ha
        rw [hdisk, scanAddr_eq hv.fatSize hfat]
        refine store32_frame _ _ ?_
        unfold fatAddr at *
        omega
      constructor
      · refine ⟨hscratch.steady hS.steady, hS.data, fun c hc => ?_⟩
        exact (hS.closed c hc).congr (slots_behind_fat hv (hS.data c hc) hsame)
      · intro c hc
        exact clusterListing_congr (slots_behind_fat hv (hS.data c hc) hsame)
    · cases hsome
  | forget hsub =>
    exact ⟨hS.mono hsub, fun c hc => rfl⟩

end Step

/-! ## Runs -/

section Run

variable {S : Directories} {mp : MountPoint} {n : Nat}

theorem dirInv_inductive (hv : Volume mp n) : (dirSystem mp n).Inductive (DirInv mp n) where
  init _ h := h
  next _ _ h hstep := by
    rcases hstep with ⟨effect, hstep⟩
    exact (dirStep_law hv h hstep).1

/-- A volume whose FAT, of 8 sectors, has its first 128 entries in use; in the
root directory, cluster 2, a file, a slot that ends the directory, and zeros. -/
def crowdedDisk : Mem := fun x =>
  if 16384 ≤ x ∧ x < 16896 then 1
  else if 20480 ≤ x ∧ x < 20544 ∧ x ≠ 20512 then 1
  else 0

/-- The mount point of that volume. -/
def crowdedMount : MountPoint := ⟨5, 1, 1, ⟨0, 32, 40, 2⟩⟩

/-- The directory in cluster 3. -/
def emptyDirectory : FatNode := ⟨[66], 26, 14, 0, ⟨[3], true, 2, 0⟩, []⟩

/-- Creating `A` in cluster 3 of that volume: the scan for a free cluster runs from
the FAT into cluster 2 and marks a slot behind its end mark, for cluster 144. -/
theorem createNode_opens : ∃ s' directory' node,
    (Closed slotKind 128 (slots crowdedDisk crowdedMount 2) ∧
      Closed slotKind 128 (slots crowdedDisk crowdedMount 3)) ∧
    fatFsCreateNode 2 (freshState crowdedDisk) crowdedMount emptyDirectory [65] 25 =
      .ret (s', directory', some node) ∧
    (node.data.layout = [144] ∧ fatEntry crowdedDisk crowdedMount 144 = 0) ∧
    ¬ Closed slotKind 128 (slots s'.disk crowdedMount 2) := by
  refine ⟨_, _, _, ⟨?_, ?_⟩, rfl, ⟨rfl, by decide⟩, ?_⟩
  · intro i j hij hj hstop
    rw [kind_stop_iff, slots_head] at hstop ⊢
    change crowdedDisk (20480 + 32 * i) = 0 at hstop
    change crowdedDisk (20480 + 32 * j) = 0
    unfold crowdedDisk at *
    have hi : i ≠ 0 := by
      rintro rfl
      exact absurd hstop (by decide)
    rw [if_neg (by omega), if_neg (by omega)]
  · intro i j hij hj hstop
    rw [kind_stop_iff, slots_head]
    change crowdedDisk (24576 + 32 * j) = 0
    unfold crowdedDisk
    rw [if_neg (by omega), if_neg (by omega)]
  · intro hclosed
    have hstop := hclosed 1 2 (by decide) (by decide) rfl
    rw [kind_stop_iff] at hstop
    exact absurd hstop (by decide)

/-- In every run the clusters of directories stay closed, and every step changes
the listings as it should. -/
theorem directories_closed (hv : Volume mp n) (h : (dirSystem mp n).Reachable S) :
    (∀ c, S.dirs c → Closed slotKind 128 (slots S.fat.disk mp c)) ∧
      ∀ effect S', DirStep mp n S effect S' →
        effect.Law mp S.dirs S.fat.disk S'.fat.disk := by
  have hinv := (dirInv_inductive hv).holds h
  refine ⟨hinv.closed, ?_⟩
  intro effect S' hstep
  exact (dirStep_law hv hinv hstep).2

theorem rootDisk_scan : Scan (rootDisk 0) smallMount 0 3 :=
  ⟨by decide, by decide, by decide, by decide, fun idx hidx => absurd hidx (Nat.not_lt_zero idx)⟩

/-- The run that creates the directory `A` in an empty root directory. -/
theorem directories_closed_create : ∃ S : Directories, S.dirs 3 ∧
    (∀ c, S.dirs c → Closed slotKind 128 (slots S.fat.disk smallMount c)) ∧
      ∀ effect S', DirStep smallMount 1024 S effect S' →
        effect.Law smallMount S.dirs S.fat.disk S'.fat.disk := by
  -- a root directory of zeros, where the first slot is the end mark
  have hzero : ∀ j < 128, slots (rootDisk 0) smallMount 2 j 0 = 0 := by
    intro j hj
    rw [slots_head]
    change rootDisk 0 (24576 + 32 * j) = 0
    unfold rootDisk
    rw [if_pos (by omega)]
  have hinit : DirInv smallMount 1024 ⟨freshState (rootDisk 0), fun c => c = 2⟩ := by
    refine ⟨(freshState_steady _).mono (by decide), ?_, ?_⟩
    · rintro c rfl
      exact ⟨by decide, by decide⟩
    · rintro c rfl i j hij hj -
      rw [kind_stop_iff]
      exact hzero j hj
  -- the directory created there takes cluster 3, the first free one
  obtain ⟨s', directory', node, hlay, hrun⟩ : ∃ s' directory' node, node.data.layout = [3] ∧
      fatFsCreateNode 1 (freshState (rootDisk 0)) smallMount rootDirectory [65] 26 =
        .ret (s', directory', some node) := ⟨_, _, _, rfl, rfl⟩
  have hfinds : Finds (freshState (rootDisk 0)).disk smallMount (fun _ => true)
      rootDirectory.data.layout 2 0 0 := by
    refine .here rfl (by decide) ⟨Or.inr ?_, fun j hj => absurd hj (Nat.not_lt_zero j)⟩
    rw [kind_stop_iff]
    exact hzero 0 (by decide)
  have hreserves : ReservesInFat ⟨freshState (rootDisk 0), fun c => c = 2⟩ smallMount 1024 := by
    intro idx i hscan
    rcases rootDisk_scan.unique hscan with ⟨rfl, rfl⟩
    refine ⟨by decide, by decide, by decide, ?_⟩
    show ¬ reservedCluster 0 3 = 2
    decide
  have hlayout : ∀ c ∈ rootDirectory.data.layout, c = 2 := fun c hc => List.mem_singleton.mp hc
  have hreach : (dirSystem smallMount 1024).Reachable _ :=
    .next (.init hinit) ⟨_, .create (by decide) (by decide) hlayout hfinds hreserves hrun⟩
  exact ⟨_, Or.inr ⟨by decide, hlay⟩, directories_closed smallMount_volume hreach⟩

end Run

end MeOS
