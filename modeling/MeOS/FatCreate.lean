import MeOS.FatEntry

/-! # Creating a node

`fat_fs_create_node` takes the first vacant slot of the directory, or extends
the directory by a cluster; from the label `file_creation` on both ways are the
same. `CreatedNode` says what that part does to the disk (`fileCreation_cases`).
-/

namespace MeOS

open Bytes EndMarked

/-! ## The part behind the label -/

/-- `e` is an entry for a node with this name and first cluster. -/
structure NewEntry (name : List UInt8) (r : Nat) (e : Slot) : Prop where
  live : slotKind e = .live
  name : fatFsGenerateShortName name = some (slotName e)
  cluster : slotCluster e = halvesOf r

/-- From `d` to `d'` word `i` of block `idx` of the FAT was marked, the slots
`table` were written to cluster `c` with `e` as slot `j`, and then the first block of
the new node, a directory or not, to the cluster `e` names. -/
structure CreatedNode (d d' : Mem) (mp : MountPoint) (c j : Nat) (table : Nat → Slot) (idx i : Nat)
    (e : Slot) (dir : Prop) [Decidable dir] : Prop where
  outside : ∀ x, OffCluster mp c x → OffCluster mp (slotCluster e) x →
    d' x = store32 d (scanAddr mp idx i) (fatEof &&& fatMask) x
  table : (∀ x, clusterAddr mp c ≤ x → x < clusterAddr mp c + 4096 →
    OffCluster mp (slotCluster e) x) → ∀ j' < 128, slots d' mp c j' = Function.update table j e j'
  block : ∀ j' < 128, slots d' mp (slotCluster e) j' 0 = if dir ∧ j' < 2 then dot else 0

/-- The nodes behind such a run, and what is known of the entry and the block besides. -/
structure CreatedTree (d' : Mem) (mp : MountPoint) (directory directory' node : FatNode)
    (attrs : Nat) (e : Slot) : Prop where
  attributes : node.attributes = attrs
  children : node.children = []
  parent : directory' = if attrs &&& 7 = vfsDirectory then directory.addDots else directory
  entry : e 11 = UInt8.ofNat (vfsToFatAttributes attrs)
  dots : attrs &&& 7 = vfsDirectory → DotEntries d' mp (slotCluster e)

section Creation

variable {s t s' : FatState} {mp : MountPoint} {directory directory' : FatNode}
  {name : List UInt8} {behind : UInt8} {fuel attrs c j q : Nat} {res : Option FatNode}

/-- `fat_fs_create_node` from `file_creation` on, when nothing fails. -/
theorem fileCreation_cases (h : Steady 2 s) (hmp : Mounted mp) (hu : Using s t q) (hj : j < 128)
    (hname : fatFsValidate83Name behind name = true) (hlayout : directory.data.layout ≠ [])
    (hrun : fatFsFileCreation fuel t mp directory name attrs (cellAddr s.files q) c j =
      .ret (s', directory', res)) :
    ∃ idx i, Scan t.disk mp idx i ∧ Scratch s s' ∧ directory'.data = directory.data ∧
      ((reservedCluster idx i = 0 ∧ res = none ∧ directory' = directory ∧
          s'.disk = store32 t.disk (scanAddr mp idx i) (fatEof &&& fatMask)) ∨
        (reservedCluster idx i ≠ 0 ∧ ∃ node e, res = some node ∧
          node.data.layout = [reservedCluster idx i] ∧
          (node.data.metadataCluster = c ∧ node.data.metadataIndex = j) ∧
          NewEntry name (reservedCluster idx i) e ∧
          CreatedNode t.disk s'.disk mp c j (fun j' => slotAt t.mem (cellAddr s.files q + 32 * j'))
            idx i e (attrs &&& 7 = vfsDirectory) ∧
          CreatedTree s'.disk mp directory directory' node attrs e)) := by
  have htop := hu.top h.inv
  have haddr : entryAddr (cellAddr s.files q) j = cellAddr s.files q + 32 * j :=
    entryAddr_eq htop hj
  unfold fatFsFileCreation at hrun
  rcases Outcome.bind_eq_ret.mp hrun with ⟨⟨t₁, r⟩, hreserve, hrun⟩
  rcases reserveFirst_cases (hu.steady h) hmp hreserve with ⟨idx, i, hscan, hr, hscratch, hdisk⟩
  rcases hu.scratch h.inv hscratch with ⟨hu₁, hbuffer⟩
  have hcalm₁ : NoFailure t₁ := hscratch.calm (hu.calm h.calm)
  subst hr
  refine ⟨idx, i, hscan, ?_⟩
  dsimp only at hrun
  split at hrun
  · -- the scan has returned 0, which stands for no cluster
    rename_i hzero
    injection hrun with hpair
    simp only [Prod.mk.injEq] at hpair
    rcases hpair with ⟨rfl, rfl, rfl⟩
    exact ⟨hu₁.release h.inv, rfl, Or.inl ⟨hzero, rfl, rfl, hdisk⟩⟩
  · rename_i hnonzero
    rcases generateShortName_accepted hname with ⟨bytes, hbytes, hlen, first, hfirst, hne₀, hne₁⟩
    generalize hnode : FatNode.mk name attrs 0 0 ⟨[reservedCluster idx i], t₁.rawLoaded, c, j⟩ [] =
      node at hrun
    have hhead : node.data.layout.head? = some (reservedCluster idx i) := by
      rw [← hnode]
      rfl
    have hencoded : fatFsGenerateShortName node.name = some bytes := by
      rw [← hnode]
      exact hbytes
    rcases createShortEntry_ok t₁ (cellAddr s.files q + 32 * j) hhead hencoded hlen with
      ⟨m, hentry, hframe, hnames, hcluster, hattr⟩
    rw [haddr, hentry] at hrun
    have hu₂ : Using s (t₁.setMem m) q := by
      refine hu₁.setMem h.inv fun x hx => hframe x ?_
      simp only [pageCacheSize] at hx
      omega
    have hcalm₂ : NoFailure (t₁.setMem m) := hu₂.calm h.calm
    have hdev : (t₁.setMem m).device 0 = true := hcalm₂.device 0
    simp only [writeByDataCluster_eq hmp, hdev, if_pos] at hrun
    have hu₃ : Using s ((t₁.setMem m).put (dataClusterLba mp c) (cellAddr s.files q)) q := hu₂.put
    rcases initializeNodeCluster_ok node (fun k => m (cellAddr s.files q + 32 * j + k)) hmp h.inv
      hu₃ (hu₃.calm h.calm) hlayout with
      ⟨t₂, directory₂, hinit, hu₄, hparent, hout, hblock, hdots⟩
    have hdata : directory₂.data = directory.data := by
      rw [hparent]
      split
      · rfl
      · rfl
    rcases Outcome.bind_eq_ret.mp hrun with ⟨⟨t₃, directory₃, written⟩, hinit', hrun⟩
    have hsame := hinit.symm.trans hinit'
    injection hsame with hpair
    simp only [Prod.mk.injEq] at hpair
    rcases hpair with ⟨rfl, rfl, rfl⟩
    simp only [if_pos, Outcome.pure_eq] at hrun
    injection hrun with hpair
    simp only [Prod.mk.injEq] at hpair
    rcases hpair with ⟨rfl, rfl, rfl⟩
    refine ⟨hu₄.release h.inv, hdata, Or.inr ⟨hnonzero, node,
      slotAt m (cellAddr s.files q + 32 * j), rfl, by rw [← hnode],
      by rw [← hnode]; exact ⟨rfl, rfl⟩, ?_, ?_, ?_⟩⟩
    · -- the entry
      have hbyte : m (cellAddr s.files q + 32 * j) = first := by
        have hhead := congrArg List.head? hnames
        rw [hfirst] at hhead
        exact Option.some.inj hhead
      constructor
      · rw [kind_live_iff]
        show m (cellAddr s.files q + 32 * j) ≠ 0 ∧ m (cellAddr s.files q + 32 * j) ≠ 0xE5
        rw [hbyte]
        exact ⟨hne₀, hne₁⟩
      · rw [slotName_slotAt, hnames]
        exact hbytes
      · exact hcluster
    · -- the disk
      constructor
      · intro x hx hx'
        rw [FatState.release_disk, hout x hx', put_outside hx]
        show t₁.disk x = _
        rw [hdisk]
      · intro hapart j' hj'
        rw [FatState.release_disk, slots_congr (fun x hlo hhi => hout x (hapart x hlo hhi)) hj',
          put_slots hj']
        by_cases hjj : j' = j
        · rw [hjj, Function.update_self]
          rfl
        · rw [Function.update_of_ne hjj]
          funext k
          have hk := k.isLt
          show m (cellAddr s.files q + 32 * j' + k) = t.mem (cellAddr s.files q + 32 * j' + k)
          rw [hframe _ (by omega), Nat.add_assoc]
          exact hbuffer _ (by simp only [pageCacheSize]; omega)
      · intro j' hj'
        have hhead := hblock j' hj'
        rw [← hnode] at hhead
        exact hhead
    · -- the nodes
      rw [← hnode] at hattr hparent hdots ⊢
      exact ⟨rfl, rfl, hparent, hattr, hdots⟩

end Creation

theorem CreatedNode.congr {d d' : Mem} {mp : MountPoint} {c j idx i : Nat} {e : Slot}
    {table table' : Nat → Slot} {dir : Prop} [Decidable dir]
    (h : CreatedNode d d' mp c j table idx i e dir) (htable : ∀ j' < 128, table' j' = table j') :
    CreatedNode d d' mp c j table' idx i e dir where
  outside := h.outside
  table := by
    intro hapart j' hj'
    rw [h.table hapart j' hj']
    by_cases hjj : j' = j
    · rw [hjj, Function.update_self, Function.update_self]
    · rw [Function.update_of_ne hjj, Function.update_of_ne hjj, htable j' hj']
  block := h.block

/-! ## The two ways to the label -/

section Node

variable {s s' : FatState} {mp : MountPoint} {directory directory' node : FatNode}
  {name : List UInt8} {fuel attrs n c j k : Nat} {res : Option FatNode}

/-- `fat_fs_create_node` when nothing fails and the directory has a vacant
slot. -/
theorem createNode_found (h : Steady 2 s) (hmp : Mounted mp)
    (hdir : directory.attributes &&& 7 = vfsDirectory)
    (hname : fatFsValidate83Name s.behindTable name = true)
    (hfinds : Finds s.disk mp s.device directory.data.layout c j k)
    (hrun : fatFsCreateNode fuel s mp directory name attrs = .ret (s', directory', res)) :
    ∃ idx i, Scan s.disk mp idx i ∧ Scratch s s' ∧ directory'.data = directory.data ∧
      ((reservedCluster idx i = 0 ∧ res = none ∧ directory' = directory ∧
          s'.disk = store32 s.disk (scanAddr mp idx i) (fatEof &&& fatMask)) ∨
        (reservedCluster idx i ≠ 0 ∧ ∃ node e, res = some node ∧
          node.data.layout = [reservedCluster idx i] ∧
          (node.data.metadataCluster = c ∧ node.data.metadataIndex = j) ∧
          NewEntry name (reservedCluster idx i) e ∧
          CreatedNode s.disk s'.disk mp c j (slots s.disk mp c) idx i e
            (attrs &&& 7 = vfsDirectory) ∧
          CreatedTree s'.disk mp directory directory' node attrs e)) := by
  -- the buffer is reserved, the entry found in it, and the file made there
  rcases h.reserve with ⟨q, s₁, hres, husing, hsteady, ⟨hdisk, -, hdevice⟩, -⟩
  have htop := husing.top h.inv
  rcases husing.addr h.inv with ⟨a, ha⟩
  rcases hfinds.spec with ⟨hmem, hj, -⟩
  unfold fatFsCreateNode at hrun
  rw [if_neg (by simp [hmp.attributes, hdir]), if_neg (by simp [hname]), hres, ha] at hrun
  simp only at hrun
  simp only [← ha] at hrun
  rcases findEmptyEntry_spec directory.data.layout hmp h.inv husing with
    ⟨t, found, hfind, hu, htdisk, -, hcases⟩
  rw [hdisk, hdevice] at hcases
  rcases hcases with ⟨c', j', k', hfinds', rfl, -, hload⟩ | ⟨-, hno, -⟩
  · rcases hfinds.unique hfinds' with ⟨rfl, rfl, rfl⟩
    rw [hfind] at hrun
    rcases fileCreation_cases h hmp hu (by omega) hname (List.ne_nil_of_mem hmem) hrun with
      ⟨idx, i, hscan, hscratch, hdata, hdone⟩
    rw [htdisk, hdisk] at hscan hdone
    refine ⟨idx, i, hscan, hscratch, hdata, ?_⟩
    rcases hdone with hnone | ⟨hr, node, e, hsome, hlay, hplace, hentry, hcreated, htree⟩
    · exact Or.inl hnone
    · refine Or.inr ⟨hr, node, e, hsome, hlay, hplace, hentry, hcreated.congr ?_, htree⟩
      intro j'' hj''
      have hslot := hload.slotAt htop hj''
      rw [entryAddr_eq htop hj''] at hslot
      exact hslot.symm
  · exact absurd hfinds (hno c j k)

/-- The disk after the directory was extended by cluster `r₁`: word `i₁` of block
`idx₁` of the FAT was marked, and `last` linked to `r₁`. -/
def extended (d : Mem) (mp : MountPoint) (last idx₁ i₁ : Nat) : Mem :=
  markEntry (store32 d (scanAddr mp idx₁ i₁) (fatEof &&& fatMask)) mp last (reservedCluster idx₁ i₁)

/-- `fat_fs_create_node` when nothing fails and the directory is full. The slots
of the last cluster are still in the buffer. -/
theorem createNode_full (h : Steady 2 s) (hv : Volume mp n)
    (hdir : directory.attributes &&& 7 = vfsDirectory)
    (hname : fatFsValidate83Name s.behindTable name = true)
    (hclusters : ∀ c ∈ directory.data.layout, DataCluster n c)
    (hno : ∀ c j k, ¬ Finds s.disk mp s.device directory.data.layout c j k)
    (hrun : fatFsCreateNode fuel s mp directory name attrs = .ret (s', directory', some node)) :
    ∃ last idx₁ i₁ idx i e, directory.data.layout.getLast? = some last ∧
      Scan s.disk mp idx₁ i₁ ∧ Scan (extended s.disk mp last idx₁ i₁) mp idx i ∧
      directory'.data.layout = directory.data.layout ++ [reservedCluster idx₁ i₁] ∧
      node.data.layout = [reservedCluster idx i] ∧ NewEntry name (reservedCluster idx i) e ∧
      CreatedNode (extended s.disk mp last idx₁ i₁) s'.disk mp (reservedCluster idx₁ i₁) 0
        (slots s.disk mp last) idx i e (attrs &&& 7 = vfsDirectory) := by
  rcases h.reserve with ⟨q, s₁, hres, husing, hsteady, ⟨hdisk, -, hdevice⟩, -⟩
  have hmp := hv.toMounted
  have htop := husing.top h.inv
  rcases husing.addr h.inv with ⟨a, ha⟩
  unfold fatFsCreateNode at hrun
  rw [if_neg (by simp [hmp.attributes, hdir]), if_neg (by simp [hname]), hres, ha] at hrun
  simp only at hrun
  simp only [← ha] at hrun
  rcases findEmptyEntry_spec directory.data.layout hmp h.inv husing with
    ⟨t, found, hfind, hu, htdisk, -, hcases⟩
  rw [hdisk, hdevice] at hcases
  rcases hcases with ⟨c', j', k', hfinds', -⟩ | ⟨rfl, -, hlast⟩
  · exact absurd hfinds' (hno c' j' k')
  · rw [hfind] at hrun
    rcases Outcome.bind_eq_ret.mp hrun with ⟨⟨t₁, r₁⟩, hreserve, hrun⟩
    rcases reserveFirst_cases (hu.steady h) hmp hreserve with
      ⟨idx₁, i₁, hscan₁, hr₁, hscratch₁, hdisk₁⟩
    rw [htdisk, hdisk] at hscan₁ hdisk₁
    dsimp only at hrun
    split at hrun
    · injection hrun with hpair
      simp at hpair
    · split at hrun
      · cases hrun
      · rename_i last hgetLast
        -- the former last cluster is linked to the new one
        have hmem : last ∈ directory.data.layout := List.mem_of_getLast? hgetLast
        rcases hu.scratch h.inv hscratch₁ with ⟨hu₁, hbuffer₁⟩
        rcases markCluster_ok (hu₁.steady h) hmp hv.fatSize (hclusters last hmem).2 r₁ with
          ⟨t₂, hmark, hscratch₂, hdisk₂, -⟩
        rcases hu₁.scratch h.inv hscratch₂ with ⟨hu₂, hbuffer₂⟩
        rw [hdisk₁, hr₁] at hdisk₂
        rw [hmark] at hrun
        rcases fileCreation_cases h hmp hu₂ (by omega) hname (by simp [FatNode.setLayout]) hrun with
          ⟨idx, i, hscan, hscratch, hdata, hdone⟩
        rw [hdisk₂] at hscan hdone
        rcases hdone with ⟨-, hnone, -⟩ | ⟨-, node', e, hsome, hlay, -, hentry, hcreated, -⟩
        · cases hnone
        · obtain rfl : node = node' := Option.some.inj hsome
          rw [hr₁] at hcreated hdata
          refine ⟨last, idx₁, i₁, idx, i, e, hgetLast, hscan₁, hscan, ?_, hlay, hentry,
            hcreated.congr ?_⟩
          · rw [hdata]
            rfl
          · intro j' hj'
            have hload := hlast (hsteady.calm) last hgetLast
            have hslot := hload.slotAt htop hj'
            rw [entryAddr_eq htop hj'] at hslot
            rw [← hslot]
            funext k
            have hk := k.isLt
            show t.mem (cellAddr s.files q + 32 * j' + k) =
              t₂.mem (cellAddr s.files q + 32 * j' + k)
            rw [Nat.add_assoc, hbuffer₂ _ (by simp only [pageCacheSize]; omega),
              hbuffer₁ _ (by simp only [pageCacheSize]; omega)]

end Node

/-! ## A small directory -/

/-- A disk on which every byte of the root directory, cluster 2, is `b`, and only
the first three entries of the FAT are in use. -/
def rootDisk (b : UInt8) : Mem := fun x =>
  if 24576 ≤ x ∧ x < 28672 then b
  else if 16384 ≤ x ∧ x < 16396 then
    if x % 4 = 0 then 0xF8 else if x % 4 = 3 then 0x0F else 0xFF
  else 0

/-- The root directory, opened. -/
def rootDirectory : FatNode := ⟨[], 26, 14, 0, ⟨[2], true, 0, 0⟩, []⟩

theorem rootDisk_chain (b : UInt8) : Chain (rootDisk b) smallMount 1024 [2] := by
  refine .last ⟨by decide, by decide⟩ ?_
  show fatEof ≤ fatEntry (rootDisk 0) smallMount 2
  decide

end MeOS
