import MeOS.FatEmpty

/-! # What mounting makes of a volume

The nodes below a mount point are decoded from the disk. `DirTree` says what a volume
stands for, with nothing but the disk in it; `fat_fs_mount` returns just that, and leaves
the page cache as it was.
-/

namespace MeOS

open Bytes EndMarked

/-- The node that entry `j` of cluster `c` stands for, with the nodes below it. -/
def diskNode (d : Mem) (mp : MountPoint) (c j : Nat) (children : List FatNode) : FatNode :=
  let e := slots d mp c j
  { name := fatFsRetrieveShortName (slotName e)
    attributes := fatToVfsAttributes (e 11).toNat
    capabilities := 14
    fileLength := load32 (slotMem e) 28
    data := { layout := [slotCluster e], layoutLoaded := false, metadataCluster := c,
              metadataIndex := j }
    children := children }

/-- The entries from `i` on, `n` of them, that stand for nodes. -/
def shownEntries (d : Mem) (mp : MountPoint) (c i n : Nat) : List Nat :=
  (List.range' i n).filter fun j =>
    decide (Visible slotKind 128 (slots d mp c) j ∧ Shown (slots d mp c j))

instance (e : Slot) : Decidable (Opens e) :=
  inferInstanceAs (Decidable (Shown e ∧ _ ≠ _ ∧ _ = _))

/-- The node of an entry, where `below` gives the nodes of the directories. -/
def nodeOf (d : Mem) (mp : MountPoint) (c : Nat) (below : Nat → List FatNode) (j : Nat) :
    FatNode :=
  diskNode d mp c j (if Opens (slots d mp c j) then below j else [])

/-- From cluster `c` on the volume stands for these nodes, with directories in directories at most
`k` deep. The links are in the first sector of the FAT. -/
inductive DirTree (d : Mem) (mp : MountPoint) : Nat → Nat → List FatNode → Prop where
  | ended {k c : Nat} (hend : fatEof ≤ c) : DirTree d mp k c []
  | cluster {k c : Nat} {below : Nat → List FatNode} {rest : List FatNode} (hsmall : c < 128)
    (hsub : ∀ j, Visible slotKind 128 (slots d mp c) j → Opens (slots d mp c j) →
      DirTree d mp k (slotCluster (slots d mp c j)) (below j))
    (hnext : DirTree d mp (k + 1) (fatEntry d mp c) rest) :
    DirTree d mp (k + 1) c ((shownEntries d mp c 0 128).map (nodeOf d mp c below) ++ rest)

section Tree

variable {s s₂ t u : FatState} {d : Mem} {mp : MountPoint} {m n a c i j k offset : Nat}
  {l nodes : List FatNode} {below : Nat → List FatNode}

/-- Cluster and disk determine the nodes. -/
theorem DirTree.unique {nodes' : List FatNode} {k' : Nat} (h : DirTree d mp k c nodes)
    (h' : DirTree d mp k' c nodes') : nodes = nodes' := by
  induction h generalizing k' nodes' with
  | ended hend =>
    cases h' with
    | ended hend' => rfl
    | cluster hsmall hsub hnext =>
      have heof : fatEof = 268435448 := rfl
      omega
  | @cluster k c below rest hsmall hsub hnext ihsub ihnext =>
    cases h' with
    | ended hend =>
      have heof : fatEof = 268435448 := rfl
      omega
    | @cluster k' _ below' rest' hsmall' hsub' hnext' =>
      rw [ihnext hnext']
      refine congrArg (· ++ rest') (List.map_congr_left fun j hj => ?_)
      have hvis := (of_decide_eq_true (List.mem_filter.mp hj).2).1
      unfold nodeOf
      by_cases hopens : Opens (slots d mp c j)
      · rw [if_pos hopens, if_pos hopens, ihsub j hvis hopens (hsub' j hvis hopens)]
      · rw [if_neg hopens, if_neg hopens]

/-- For a cluster of the first sector the link is the one that is read. -/
theorem diskLink_eq (hlba : mp.data.fatLba < 4294967296) (hc : c < 128) :
    diskLink d mp c = fatEntry d mp c := by
  have hzero : c / 128 = 0 := by omega
  unfold diskLink fatEntry fatAddr
  rw [hzero, add32_eq (by omega), Nat.add_zero]

/-- The node that is made of an entry of a loaded cluster. -/
theorem entryNode_eq (hs : slotAt s.mem (entryAddr a i) = slots d mp offset i)
    (ht : slotAt t.mem (entryAddr a i) = slots d mp offset i) (children : List FatNode) :
    entryNode s offset a i t children = diskNode d mp offset i children := by
  have hsize : load32 (slotMem (slotAt s.mem (entryAddr a i))) 28 =
      entryFileSize s.mem (entryAddr a i) := by
    refine load32_copy fun b hb => ?_
    unfold slotMem slotAt
    rw [dif_pos (by omega)]
    simp only [Nat.add_assoc]
  unfold entryNode diskNode
  rw [← slotName_slotAt, ← hsize, ← slotCluster_slotAt, hs, ht]
  dsimp only
  rw [← hs]
  rfl

/-! ## The entries of a cluster -/

theorem visible_of_front (hin : i < 128) (hlive : slotKind (slots d mp c i) = .live)
    (hfront : ∀ j < i, slotKind (slots d mp c j) ≠ .stop) :
    Visible slotKind 128 (slots d mp c) i := ⟨hin, hlive, hfront⟩

/-- What is seen is in front of the end mark. -/
theorem visible_before (hvis : Visible slotKind 128 (slots d mp c) j)
    (hstop : slotKind (slots d mp c i) = .stop) : j < i := by
  by_contra hge
  rcases Nat.lt_or_eq_of_le (Nat.le_of_not_lt hge) with hlt | rfl
  · exact hvis.2.2 i hlt hstop
  · rw [hvis.2.1] at hstop
    cases hstop

/-- Behind the end mark no entry stands for a node. -/
theorem shownEntries_stop (hstop : slotKind (slots d mp c i) = .stop) :
    shownEntries d mp c i n = [] := by
  unfold shownEntries
  rw [List.filter_eq_nil_iff]
  intro j hj
  rw [decide_eq_true_iff]
  rintro ⟨hvis, -⟩
  exact Nat.not_le_of_lt (visible_before hvis hstop) (List.mem_range'_1.mp hj).1

/-- An entry that stands for no node. -/
theorem shownEntries_skip
    (hno : ¬ (slotKind (slots d mp c i) = .live ∧ Shown (slots d mp c i))) :
    shownEntries d mp c i (n + 1) = shownEntries d mp c (i + 1) n := by
  unfold shownEntries
  rw [List.range'_succ, List.filter_cons_of_neg]
  simpa using fun hvis hshow => hno ⟨hvis.2.1, hshow⟩

/-- An entry that stands for a node. -/
theorem shownEntries_cons (hvis : Visible slotKind 128 (slots d mp c) i)
    (hshow : Shown (slots d mp c i)) :
    shownEntries d mp c i (n + 1) = i :: shownEntries d mp c (i + 1) n := by
  unfold shownEntries
  rw [List.range'_succ, List.filter_cons_of_pos]
  simpa using ⟨hvis, hshow⟩

/-- What the loop does with an entry, by what it is on the disk. -/
theorem readEntries_entry (sub : FatState → Nat → Outcome (FatState × List FatNode))
    (l : List FatNode) (n : Nat) (hentry : slotAt u.mem (entryAddr a i) = slots d mp offset i) :
    (slotKind (slots d mp offset i) = .stop →
      fatFsReadEntries sub offset a (n + 1) i l u = .ret (u, l)) ∧
    (slotKind (slots d mp offset i) ≠ .stop →
      ¬ (slotKind (slots d mp offset i) = .live ∧ Shown (slots d mp offset i)) →
      fatFsReadEntries sub offset a (n + 1) i l u =
        fatFsReadEntries sub offset a n (i + 1) l u) ∧
    (slotKind (slots d mp offset i) = .live → Shown (slots d mp offset i) →
      fatFsReadEntries sub offset a (n + 1) i l u =
        (if Opens (slots d mp offset i) then sub u (slotCluster (slots d mp offset i))
          else .ret (u, [])) >>= fun p =>
            fatFsReadEntries sub offset a n (i + 1) (l ++ [entryNode u offset a i p.1 p.2])
              p.1) := by
  have hfirst : u.mem (entryAddr a i) = slots d mp offset i 0 := congrFun hentry 0
  have hattr : entryAttributes u.mem (entryAddr a i) = (slots d mp offset i 11).toNat :=
    congrArg UInt8.toNat (congrFun hentry 11)
  have hname : entryName u.mem (entryAddr a i) = slotName (slots d mp offset i) := by
    rw [← slotName_slotAt, hentry]
  refine ⟨fun hstop => ?_, fun hgo hno => ?_, fun hlive hshow => ?_⟩
  · rw [fatFsReadEntries, if_pos (hfirst.trans ((kind_stop_iff _).mp hstop))]
  · rw [Ne, kind_stop_iff] at hgo
    conv_lhs => unfold fatFsReadEntries
    dsimp only
    rw [hfirst, hattr, if_neg hgo]
    by_cases hfree : slots d mp offset i 0 = 0xE5
    · rw [if_pos hfree]
    · rw [if_neg hfree]
      have hlabel : (slots d mp offset i 11).toNat &&& fatVolumeId = fatVolumeId := by
        by_contra hshow
        exact hno ⟨(kind_live_iff _).mpr ⟨hgo, hfree⟩, hshow⟩
      rw [if_pos hlabel]
  · obtain ⟨hgo, hfree⟩ := (kind_live_iff _).mp hlive
    conv_lhs => unfold fatFsReadEntries
    dsimp only
    rw [hfirst, hattr, if_neg hgo, if_neg hfree, if_neg hshow, hname, ← slotCluster_slotAt, hentry]
    by_cases hopens : Opens (slots d mp offset i)
    · rw [if_pos hopens, if_pos hopens.2]
      unfold entryNode
      rw [hname, hattr]
    · rw [if_neg hopens, if_neg fun hboth => hopens ⟨hshow, hboth⟩]
      unfold entryNode
      rw [hname, hattr]
      rfl

/-- The nodes that the loop makes of a loaded cluster are those that its entries stand for. -/
theorem readEntries_decodes {sub : Nat → FatState → Nat → Outcome (FatState × List FatNode)}
    (l : List FatNode) (hsub : ∀ fuel, SubScratch (sub fuel)) (hinv : CacheInv s₂.files)
    (hcalm : NoFailure s₂) (ha : a + pageCacheSize ≤ 4294967296)
    (hspare : ∀ u, Scratch s₂ u → ∀ k < 4096, u.mem (a + k) = s₂.mem (a + k))
    (hload : Loaded s₂.mem a d mp c)
    (hbelow : ∀ j v, Visible slotKind 128 (slots d mp c) j → Opens (slots d mp c j) →
      Scratch s₂ v → v.disk = s₂.disk →
      ∃ t, Settles (fun fuel => sub fuel v (slotCluster (slots d mp c j))) (t, below j))
    (hu : Scratch s₂ u) (hdisk : u.disk = s₂.disk) (hin : i + n = 128)
    (hfront : ∀ j < i, slotKind (slots d mp c j) ≠ .stop) :
    ∃ t, Settles (fun fuel => fatFsReadEntries (sub fuel) c a n i l u)
        (t, l ++ (shownEntries d mp c i n).map (nodeOf d mp c below)) ∧
      Scratch s₂ t ∧ t.disk = s₂.disk := by
  induction n generalizing i l u with
  | zero =>
    refine ⟨u, ?_, hu, hdisk⟩
    rw [show shownEntries d mp c i 0 = [] from rfl, List.map_nil, List.append_nil]
    exact .ret
  | succ n ih =>
    have hi : i < 128 := by omega
    have hentry := loaded_entry ha hload (hspare u hu) hi
    have hturn := fun fuel => readEntries_entry (sub fuel) l n hentry
    by_cases hstop : slotKind (slots d mp c i) = .stop
    · refine ⟨u, ?_, hu, hdisk⟩
      simp only [(hturn _).1 hstop, shownEntries_stop hstop, List.map_nil, List.append_nil]
      exact .ret
    have hgoes : ∀ j < i + 1, slotKind (slots d mp c j) ≠ .stop := by
      intro j hj
      rcases Nat.lt_succ_iff_lt_or_eq.mp hj with hlt | rfl
      · exact hfront j hlt
      · exact hstop
    by_cases hshown : slotKind (slots d mp c i) = .live ∧ Shown (slots d mp c i)
    swap
    · simp only [(hturn _).2.1 hstop hshown, shownEntries_skip hshown]
      exact ih l hu hdisk (by omega) hgoes
    have hvis := visible_of_front hi hshown.1 hfront
    -- the nodes below come first, and leave the cluster in its buffer
    obtain ⟨t₁, hsettles, hu₁, hdisk₁⟩ : ∃ t₁,
        Settles (fun fuel => if Opens (slots d mp c i) then
          sub fuel u (slotCluster (slots d mp c i)) else .ret (u, []))
            (t₁, if Opens (slots d mp c i) then below i else []) ∧
          Scratch s₂ t₁ ∧ t₁.disk = s₂.disk := by
      by_cases hopens : Opens (slots d mp c i)
      · obtain ⟨t₁, hsettles⟩ := hbelow i u hvis hopens hu hdisk
        obtain ⟨hscratch, hdisk'⟩ :=
          settles_scratch hsub (hu.cacheInv hinv) (hu.calm hcalm) hsettles
        refine ⟨t₁, ?_, hu.trans hscratch, hdisk'.trans hdisk⟩
        simpa only [if_pos hopens] using hsettles
      · refine ⟨u, ?_, hu, hdisk⟩
        simp only [if_neg hopens]
        exact .ret
    have hentry₁ := loaded_entry ha hload (hspare t₁ hu₁) hi
    obtain ⟨t, hrest, ht, hdisk'⟩ := ih (l ++ [nodeOf d mp c below i]) hu₁ hdisk₁ (by omega) hgoes
    refine ⟨t, ?_, ht, hdisk'⟩
    simp only [(hturn _).2.2 hshown.1 hshown.2]
    refine hsettles.bind ?_
    dsimp only
    rw [entryNode_eq hentry hentry₁, shownEntries_cons hvis hshown.2, List.map_cons,
      List.append_cons l (nodeOf d mp c below i)]
    exact hrest

/-- Reading from a cluster on gives the nodes that the volume stands for there. -/
theorem readClusters_decodes (hmp : Mounted mp) (hlba : mp.data.fatLba < 4294967296)
    (h : DirTree d mp k c nodes) (hs : ReadState d m s) (hk : k < m) (l : List FatNode) :
    ∃ t, Settles (fun fuel => fatFsReadClusters mp fuel s c l) (t, l ++ nodes) := by
  induction h generalizing s m l with
  | ended hend =>
    refine ⟨s, .succ ?_⟩
    unfold fatFsReadClusters
    simp only [if_neg (Nat.not_lt_of_le hend), List.append_nil]
    exact .ret
  | @cluster k c below rest hsmall hsub hnext ihsub ihnext =>
    obtain ⟨m, rfl⟩ : ∃ n, m = n + 1 := ⟨m - 1, by omega⟩
    have hc : c < fatEof := Nat.lt_trans hsmall (by decide)
    obtain ⟨q, s₂, hu, hload, hs₂, htop, hturn⟩ := readClusters_turn hmp hs hc
    -- a directory below is read with one buffer less
    have hbelow : ∀ j v, Visible slotKind 128 (slots d mp c) j → Opens (slots d mp c j) →
        Scratch s₂ v → v.disk = s₂.disk → ∃ t, Settles (fun fuel =>
          fatFsReadClusters mp fuel v (slotCluster (slots d mp c j)) []) (t, below j) := by
      intro j v hvis hopens hv hdisk
      exact ihsub j hvis hopens (hv.readState hdisk hs₂) (by omega) []
    obtain ⟨t, hentries, ht, hdisk⟩ := readEntries_decodes l (readClusters_subScratch hmp)
      hs₂.inv hs₂.calm htop (hu.spare hs.inv) hload hbelow Scratch.refl rfl
      (show 0 + 128 = 128 from rfl) (fun j hj => absurd hj (Nat.not_lt_zero j))
    obtain ⟨hstate, -, hvalue⟩ := readClusters_next (c := c) hmp hs hu hs₂ ht hdisk
    have hlink := hvalue (by omega) (by omega)
    rw [diskLink_eq hlba hsmall] at hlink
    obtain ⟨t', hrest⟩ := ihnext hstate hk
      (l ++ (shownEntries d mp c 0 128).map (nodeOf d mp c below))
    refine ⟨t', .succ ?_⟩
    simp only [hturn]
    refine hentries.bind ?_
    dsimp only
    rw [hlink, ← List.append_assoc]
    exact hrest

end Tree

/-! ## Mounting -/

/-- When nothing fails, mounting gives the nodes that the volume stands for, if its directories
are less deep than there are free buffers. The page cache and the disk stay. -/
theorem mount_decodes {s : FatState} {d : Mem} {tag storageInfo k m : Nat} {nodes : List FatNode}
    (htag : tag ≠ 0) (hinfo : storageInfo ≠ 0) (hs : ReadState d m s) (hk : k < m)
    (htree : DirTree d (diskMount d tag storageInfo) k
      (diskMount d tag storageInfo).data.rootDirFirstCluster nodes) :
    ∃ t, Settles (fun fuel => fatFsMount fuel s tag storageInfo)
        (t, some (diskMount d tag storageInfo, nodes)) ∧ Scratch s t ∧ t.disk = s.disk := by
  have hmp := diskMount_mounted (d := d) htag hinfo
  have hlba : (diskMount d tag storageInfo).data.fatLba < 4294967296 :=
    Nat.mod_lt _ (by decide)
  obtain ⟨m, rfl⟩ : ∃ n, m = n + 1 := ⟨m - 1, by omega⟩
  obtain ⟨w, hback, hdisk, hmount⟩ := mount_run tag storageInfo hs
  have hw := hback.readState hdisk hs
  obtain ⟨t, hread⟩ := readClusters_decodes hmp hlba htree hw hk []
  have hkeeps : Scratch w t ∧ t.disk = w.disk :=
    settles_scratch (readClusters_subScratch hmp) hw.inv hw.calm hread
  refine ⟨t, ?_, hback.trans hkeeps.1, hkeeps.2.trans hdisk⟩
  simp only [hmount]
  exact hread.bind .ret

/-- `folderDisk` with the volume id in sector 0. -/
def volumeDisk : Mem := fun x =>
  if x = 14 then 32 else if x = 16 then 1 else if x = 36 then 16 else if x = 44 then 2
  else folderDisk x

theorem volumeDisk_mount : diskMount volumeDisk 1 1 = smallMount := rfl

theorem volumeDisk_slots {c : Nat} (hc : c = 2 ∨ c = 3) :
    slots volumeDisk smallMount c = slots folderDisk smallMount c := by
  have haddr : 24576 ≤ clusterAddr smallMount c := by
    rcases hc with rfl | rfl <;> decide
  funext j b
  unfold slots slotAt slotAddr volumeDisk
  rw [if_neg (by omega), if_neg (by omega), if_neg (by omega), if_neg (by omega)]

/-- The nodes of the directory `P`. -/
def folderNodes : List FatNode :=
  [⟨[dot], 26, 14, 0, ⟨[3], false, 3, 0⟩, []⟩, ⟨[dot, dot], 26, 14, 0, ⟨[0], false, 3, 1⟩, []⟩]

theorem folderNodes_tree : DirTree volumeDisk smallMount 1 3 folderNodes := by
  have hslots := volumeDisk_slots (Or.inr rfl)
  have hstop : slotKind (slots volumeDisk smallMount 3 2) = .stop := by
    rw [hslots, kind_stop_iff]
    exact folderDisk_head (by decide)
  have hnames : ∀ j < 2, ¬ Opens (slots volumeDisk smallMount 3 j) := by
    rw [hslots]
    decide
  have hvis : ∀ j < 2, Visible slotKind 128 (slots volumeDisk smallMount 3) j ∧
      Shown (slots volumeDisk smallMount 3 j) := by
    rw [hslots]
    decide
  have hentries : shownEntries volumeDisk smallMount 3 0 128 = [0, 1] := by
    rw [shownEntries_cons (hvis 0 (by decide)).1 (hvis 0 (by decide)).2,
      shownEntries_cons (hvis 1 (by decide)).1 (hvis 1 (by decide)).2, shownEntries_stop hstop]
  have hnode : ∀ j < 2, nodeOf volumeDisk smallMount 3 (fun _ => []) j =
      diskNode folderDisk smallMount 3 j [] := by
    intro j hj
    unfold nodeOf diskNode
    rw [ite_self, hslots]
  have htree : DirTree volumeDisk smallMount 1 3 ((shownEntries volumeDisk smallMount 3 0 128).map
      (nodeOf volumeDisk smallMount 3 fun _ => []) ++ []) :=
    .cluster (by decide)
      (fun j hseen hopens => absurd hopens (hnames j (visible_before hseen hstop)))
      (.ended (by decide))
  rw [hentries, List.map_cons, List.map_cons, hnode 0 (by decide), hnode 1 (by decide)] at htree
  have hfirst : diskNode folderDisk smallMount 3 0 [] =
      ⟨[dot], 26, 14, 0, ⟨[3], false, 3, 0⟩, []⟩ := by
    unfold diskNode
    simp only [FatNode.mk.injEq]
    decide
  have hsecond : diskNode folderDisk smallMount 3 1 [] =
      ⟨[dot, dot], 26, 14, 0, ⟨[0], false, 3, 1⟩, []⟩ := by
    unfold diskNode
    simp only [FatNode.mk.injEq]
    decide
  rw [hfirst, hsecond] at htree
  exact htree

/-- The volume has the directory `P` in its root. -/
theorem volumeDisk_tree :
    DirTree volumeDisk smallMount 2 2 [⟨[80], 26, 14, 0, ⟨[3], false, 2, 0⟩, folderNodes⟩] := by
  have hslots := volumeDisk_slots (Or.inl rfl)
  have hstop : slotKind (slots volumeDisk smallMount 2 1) = .stop := by
    rw [hslots]
    decide
  have hvis : Visible slotKind 128 (slots volumeDisk smallMount 2) 0 ∧
      Opens (slots volumeDisk smallMount 2 0) := by
    rw [hslots]
    decide
  have hbelow : ∀ j, Visible slotKind 128 (slots volumeDisk smallMount 2) j →
      Opens (slots volumeDisk smallMount 2 j) →
      DirTree volumeDisk smallMount 1 (slotCluster (slots volumeDisk smallMount 2 j))
        folderNodes := by
    rintro j hseen -
    obtain rfl : j = 0 := Nat.lt_one_iff.mp (visible_before hseen hstop)
    have hthree : slotCluster (slots volumeDisk smallMount 2 0) = 3 := by
      rw [hslots]
      decide
    rw [hthree]
    exact folderNodes_tree
  have htree : DirTree volumeDisk smallMount 2 2 ((shownEntries volumeDisk smallMount 2 0 128).map
      (nodeOf volumeDisk smallMount 2 fun _ => folderNodes) ++ []) :=
    .cluster (by decide) hbelow (.ended (by decide))
  have hnode : diskNode folderDisk smallMount 2 0 folderNodes =
      ⟨[80], 26, 14, 0, ⟨[3], false, 2, 0⟩, folderNodes⟩ := by
    unfold diskNode
    simp only [FatNode.mk.injEq]
    decide
  rw [shownEntries_cons hvis.1 hvis.2.1, shownEntries_stop hstop, List.map_singleton,
    List.append_nil] at htree
  unfold nodeOf at htree
  rw [if_pos hvis.2] at htree
  unfold diskNode at htree hnode
  rw [hslots, hnode] at htree
  exact htree

/-- It is mounted. -/
theorem mount_decodes_volume : ∃ t,
    Settles (fun fuel => fatFsMount fuel (freshState volumeDisk) 1 1)
      (t, some (smallMount, [⟨[80], 26, 14, 0, ⟨[3], false, 2, 0⟩, folderNodes⟩])) := by
  have hs : ReadState volumeDisk 3 (freshState volumeDisk) :=
    ⟨freshCache_inv, (freshState_steady volumeDisk).calm, rfl, by decide⟩
  have htree : DirTree volumeDisk (diskMount volumeDisk 1 1) 2
      (diskMount volumeDisk 1 1).data.rootDirFirstCluster
      [⟨[80], 26, 14, 0, ⟨[3], false, 2, 0⟩, folderNodes⟩] := by
    rw [volumeDisk_mount]
    exact volumeDisk_tree
  obtain ⟨t, hmount, -⟩ := mount_decodes (by decide) (by decide) hs (by decide) htree
  rw [volumeDisk_mount] at hmount
  exact ⟨t, hmount⟩

end MeOS
