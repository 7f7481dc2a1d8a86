import MeOS.FatNames

/-! # `FAT32_fs.cpp`: directories

A directory is a chain of clusters of 128 entries of 32 bytes. The first byte
of an entry's name says whether it is in use: `0xE5` marks a free entry, 0 the
end of the directory. Nodes are the entries as the file system tree has them.
The kernel heap is taken to have room for nodes and layouts.
-/

namespace MeOS

open Bytes

/-! ## Nodes -/

/-- `fat_node_data`. -/
structure FatNodeData where
  layout : List Nat
  layoutLoaded : Bool
  metadataCluster : Nat
  metadataIndex : Nat
deriving Repr, DecidableEq

/-- A `vfs_node` of a volume. -/
structure FatNode where
  name : List UInt8
  attributes : Nat
  capabilities : Nat
  fileLength : Nat
  data : FatNodeData
  children : List FatNode

/-- Replace the layout of a node. -/
def FatNode.setLayout (node : FatNode) (layout : List Nat) : FatNode :=
  { node with data := { node.data with layout := layout } }

/-- `vfs_add_child`. -/
def FatNode.addChild (node child : FatNode) : FatNode :=
  { node with children := node.children ++ [child] }

/-! ## Entries in a buffer -/

/-- The address of entry `index` of a buffer. -/
def entryAddr (cache index : Nat) : Nat := add32 cache (mul32 index 32)

/-- The `attributes` of the entry at `a`. -/
def entryAttributes (m : Mem) (a : Nat) : Nat := (m (a + 11)).toNat

/-- The `file_size` of the entry at `a`. -/
def entryFileSize (m : Mem) (a : Nat) : Nat := load32 m (a + 28)

/-- The 11 bytes of name and extension of the entry at `a`. -/
def entryName (m : Mem) (a : Nat) : List UInt8 := (List.range 11).map fun k => m (a + k)

/-- `fat_fs_get_entry_data_cluster`; the high half is added as it is. -/
def fatFsGetEntryDataCluster (m : Mem) (a : Nat) : Nat :=
  add32 (load16 m (a + 26)) (load16 m (a + 20) &&& fatMask)

/-- An entry that is free: its name starts with `0xE5` or 0. -/
def entryFree (m : Mem) (a : Nat) : Bool := m a == 0xE5 || m a == 0

/-- Write bytes one after another. -/
def storeBytes (m : Mem) (a : Nat) (bytes : List UInt8) : Mem := fun x =>
  if a ≤ x ∧ x < a + bytes.length then bytes.getD (x - a) 0 else m x

/-- `fat_fs_create_short_entry_from_node`, into the entry at `a`. -/
def fatFsCreateShortEntryFromNode (s : FatState) (a : Nat) (node : FatNode) : FatState × ErrorT :=
  match node.data.layout.head? with
  | none => (s.setLastError .badNodeStructure, .occur)
  | some firstCluster =>
    let m := store8 s.mem (a + 11) (UInt8.ofNat (vfsToFatAttributes node.attributes))
    let m := match fatFsGenerateShortName node.name with
      | none => m
      | some bytes => storeBytes m a bytes
    let m := store32 m (a + 28) 0
    let m := store16 m (a + 16) 8225
    let m := store16 m (a + 14) 2082
    let m := store8 m (a + 13) 0
    let m := store16 m (a + 18) 8225
    let m := store16 m (a + 24) 8225
    let m := store16 m (a + 22) 2082
    let m := store16 m (a + 26) firstCluster
    let m := store16 m (a + 20) ((firstCluster >>> 16) % 65536 &&& 4095)
    let m := store8 m (a + 12) 0
    (s.setMem m, .ok)

/-- `fat_fs_initialize_directory`; `newDir` is a copy of the entry of the new
directory. -/
def fatFsInitializeDirectory (m : Mem) (parentCluster : Nat) (newDir : Mem) (buffer : Nat) : Mem :=
  let m := blit m buffer newDir 0 32
  let m := storeBytes m buffer (padded 11 [dot])
  let dotdot := buffer + 32
  let m := blit m dotdot newDir 0 32
  let m := storeBytes m dotdot (padded 11 [dot, dot])
  let m := store16 m (dotdot + 26) parentCluster
  store16 m (dotdot + 20) ((parentCluster >>> 16) &&& 255)

/-! ## Layouts -/

/-- The loop of `fat_fs_load_file_layout`. -/
def fatFsLoadLoop (mp : MountPoint) : Nat → FatState → List Nat → Outcome (FatState × List Nat)
  | 0, _, _ => .running
  | fuel + 1, s, layout =>
    match layout.getLast? with
    | none => .undefined
    | some last =>
      match fatFsFindNextCluster s mp last with
      | (s, nextCluster) =>
        if nextCluster ≥ fatEof then .ret (s, layout)
        else fatFsLoadLoop mp fuel s (layout ++ [nextCluster])

/-- `fat_fs_load_file_layout`. -/
def fatFsLoadFileLayout (fuel : Nat) (s : FatState) (mp : MountPoint) (node : FatNode) :
    Outcome (FatState × FatNode × ErrorT) := do
  let (s, layout) ← fatFsLoadLoop mp fuel s node.data.layout
  pure (s, node.setLayout layout, .ok)

/-- `fat_fs_open`. -/
def fatFsOpen (fuel : Nat) (s : FatState) (mp : MountPoint) (node : FatNode) :
    Outcome (FatState × FatNode × ErrorT) :=
  if mp.tag = 0 then .ret (s.setLastError .badNodeStructure, node, .occur)
  else if node.data.layoutLoaded = false then
    fatFsLoadFileLayout fuel s mp { node with data := { node.data with layoutLoaded := true } }
  else .ret (s, node, .ok)

/-- `open_file_by_node` without capabilities: the file tables take the node, or
not, and the file system opens it. -/
def openFileByNode (fuel : Nat) (s : FatState) (mp : MountPoint) (node : FatNode) :
    Outcome (FatState × FatNode × ErrorT) :=
  let s' := { s with tables := fun k => s.tables (k + 1) }
  if s.tables 0 then fatFsOpen fuel s' mp node else .ret (s', node, .occur)

/-! ## Reading a directory -/

/-- The entry loop of `fat_fs_read_directory`, with `n` entries left, the first
of them number `i`; `sub` reads a directory below. -/
def fatFsReadEntries (sub : FatState → Nat → Outcome (FatState × List FatNode))
    (offset cache : Nat) :
    Nat → Nat → List FatNode → FatState → Outcome (FatState × List FatNode)
  | 0, _, l, s => .ret (s, l)
  | n + 1, i, l, s =>
    let a := entryAddr cache i
    if s.mem a = 0 then .ret (s, l)
    else if s.mem a = 0xE5 then fatFsReadEntries sub offset cache n (i + 1) l s
    else if entryAttributes s.mem a &&& fatVolumeId = fatVolumeId then
      fatFsReadEntries sub offset cache n (i + 1) l s
    else do
      let name := fatFsRetrieveShortName (entryName s.mem a)
      let attrs := fatToVfsAttributes (entryAttributes s.mem a)
      let fileSize := entryFileSize s.mem a
      let (t, children) ←
        -- a directory, and not one of the recursive ones
        if name.head? ≠ some dot ∧ entryAttributes s.mem a &&& fatDirectory = fatDirectory then
          sub s (fatFsGetEntryDataCluster s.mem a)
        else pure (s, [])
      let node : FatNode :=
        { name := name, attributes := attrs, capabilities := 14, fileLength := fileSize,
          data := { layout := [fatFsGetEntryDataCluster t.mem a], layoutLoaded := false,
                    metadataCluster := offset, metadataIndex := i },
          children := children }
      fatFsReadEntries sub offset cache n (i + 1) (l ++ [node]) t

/-- The cluster loop of `fat_fs_read_directory`. A cluster that cannot be read
ends it with an empty list. -/
def fatFsReadClusters (mp : MountPoint) :
    Nat → FatState → Nat → List FatNode → Outcome (FatState × List FatNode)
  | 0, _, _, _ => .running
  | fuel + 1, s, offset, l =>
    if offset < fatEof then
      match s.reserveAnonymous with
      | (s, 0) => .ret (s, [])
      | (s, cache) =>
        match fatFsReadByDataCluster s mp offset cache with
        | (s, false) => .ret (s, [])
        | (s, true) => do
          let sub := fun s cluster => fatFsReadClusters mp fuel s cluster []
          let (s, l) ← fatFsReadEntries sub offset cache 128 0 l s
          let (s, next) := fatFsFindNextCluster s mp offset
          fatFsReadClusters mp fuel (s.releaseAnonymous cache) next l
    else .ret (s, l)

/-- `fat_fs_read_directory`. -/
def fatFsReadDirectory (fuel : Nat) (s : FatState) (mp : MountPoint) (currentCluster : Nat) :
    Outcome (FatState × List FatNode) :=
  fatFsReadClusters mp fuel s currentCluster []

/-! ## Deleting -/

/-- The chain loop of `fat_fs_delete_node`. -/
def fatFsDeleteChain (mp : MountPoint) : Nat → FatState → Nat → Outcome (FatState × ErrorT)
  | 0, _, _ => .running
  | fuel + 1, s, nextCluster =>
    if nextCluster < fatEof then
      match fatFsMarkCluster s mp nextCluster 0 with
      | (s, 0) => .ret (s, .occur)
      | (s, nextCluster) => fatFsDeleteChain mp fuel s nextCluster
    else .ret (s, .ok)

/-- What `fat_fs_delete_node` puts in the first name byte of entry `index`. -/
def deletedMark (m : Mem) (cache index : Nat) : UInt8 :=
  -- if the next entry is marked as last entry, mark this one as the last
  if index < 127 ∧ m (entryAddr cache index + 32) = 0 then 0 else 0xE5

/-- `fat_fs_delete_node`. -/
def fatFsDeleteNode (fuel : Nat) (s : FatState) (mp : MountPoint) (node : FatNode) :
    Outcome (FatState × ErrorT) :=
  if node.attributes &&& 7 = vfsDirectory ∧ node.children.length > 2 then
    .ret (s.setLastError .vfsBadArguments, .occur)
  else
    let cluster := node.data.metadataCluster
    let index := node.data.metadataIndex
    match s.reserveAnonymous with
    | (s, 0) => .ret (s, .occur)
    | (s, cache) =>
      match fatFsReadByDataCluster s mp cluster cache with
      | (s, false) => .ret (s.releaseAnonymous cache, .occur)
      | (s, true) =>
        let value := deletedMark s.mem cache index
        let s := s.setMem (store8 s.mem (entryAddr cache index) value)
        match fatFsWriteByDataCluster s mp cluster cache with
        | (s, false) => .ret (s.releaseAnonymous cache, .occur)
        | (s, true) =>
          let s := s.releaseAnonymous cache
          match node.data.layout.head? with
          | none => .undefined
          | some nextCluster => fatFsDeleteChain mp fuel s nextCluster

/-! ## Moving -/

/-- `fat_fs_find_empty_entry`, over the clusters left: cluster and index of the
first free entry, whose cluster stays in the buffer. -/
def fatFsFindEmptyEntry (mp : MountPoint) (cache : Nat) :
    List Nat → FatState → FatState × Option (Nat × Nat)
  | [], s => (s, none)
  | cluster :: layout, s =>
    match fatFsReadByDataCluster s mp cluster cache with
    | (s, false) => (s, none)
    | (s, true) =>
      match (List.range 127).find? fun j => entryFree s.mem (entryAddr cache j) with
      | some j => (s, some (cluster, j))
      | none => fatFsFindEmptyEntry mp cache layout s

/-- `fat_fs_move_node`. The last components are the node, the directory and the
result. -/
def fatFsMoveNode (fuel : Nat) (s : FatState) (mp : MountPoint) (node directory : FatNode) :
    Outcome (FatState × FatNode × FatNode × ErrorT) :=
  if mp.attributes &&& 7 ≠ vfsMountPt ∨ directory.attributes &&& 7 ≠ vfsDirectory then
    .ret (s.setLastError .badNodeStructure, node, directory, .occur)
  else do
    let (s, directory, opened) ← openFileByNode fuel s mp directory
    if opened ≠ .ok then pure (s, node, directory, .occur)
    else
      match s.reserveAnonymous with
      | (s, 0) => pure (s, node, directory, .occur)
      | (s, cache) =>
        match fatFsReadByDataCluster s mp node.data.metadataCluster cache with
        | (s, false) => pure (s.releaseAnonymous cache, node, directory, .occur)
        | (s, true) =>
          let a := entryAddr cache node.data.metadataIndex
          let entry : Mem := fun k => s.mem (a + k)
          let value := deletedMark s.mem cache node.data.metadataIndex
          let s := s.setMem (store8 s.mem a value)
          match fatFsWriteByDataCluster s mp node.data.metadataCluster cache with
          | (s, false) => pure (s.releaseAnonymous cache, node, directory, .occur)
          | (s, true) =>
            match fatFsFindEmptyEntry mp cache directory.data.layout s with
            | (s, some (cluster, index)) =>
              let s := s.setMem (blit s.mem (entryAddr cache index) entry 0 32)
              match fatFsWriteByDataCluster s mp cluster cache with
              | (s, false) => pure (s.releaseAnonymous cache, node, directory, .occur)
              | (s, true) =>
                let data := { node.data with metadataCluster := cluster, metadataIndex := index }
                pure (s.releaseAnonymous cache, { node with data := data }, directory, .ok)
            -- the cluster that should be appended here is still to do in the source
            | (s, none) => pure (s.releaseAnonymous cache, node, directory, .ok)

/-! ## Creating -/

/-- A node without metadata, as `vfs_create_node` makes it for `.` and `..`. -/
def dotNode (name : List UInt8) : FatNode :=
  { name := name, attributes := vfsDirectory ||| vfsRead ||| vfsWrite, capabilities := 6,
    fileLength := 0, data := ⟨[], false, 0, 0⟩, children := [] }

/-- `fat_fs_initialize_node_cluster`; `entry` is a copy of the new entry. The
nodes for `.` and `..` go to the parent directory. -/
def fatFsInitializeNodeCluster (s : FatState) (mp : MountPoint) (newNode directory : FatNode)
    (entry : Mem) (cache : Nat) : Outcome (FatState × FatNode × Bool) :=
  let freeCluster := fatFsGetEntryDataCluster entry 0
  match fatFsReadByDataCluster s mp freeCluster cache with
  | (s, false) => .ret (s, directory, false)
  | (s, true) => do
    let s := s.setMem (fill s.mem cache 4096 0)
    let (s, directory) ←
      if newNode.attributes &&& 7 = vfsDirectory then
        match directory.data.layout.head? with
        | none => Outcome.undefined
        | some parent =>
          let s := s.setMem (fatFsInitializeDirectory s.mem parent entry cache)
          let directory := directory.addChild (dotNode (padded 11 [dot]))
          pure (s, directory.addChild (dotNode (padded 11 [dot, dot])))
      else pure (s, directory)
    match fatFsWriteByDataCluster s mp freeCluster cache with
    | (s, written) => pure (s, directory, written)

/-- `fat_fs_create_node` from the label `file_creation` on. -/
def fatFsFileCreation (fuel : Nat) (s : FatState) (mp : MountPoint) (directory : FatNode)
    (name : List UInt8) (vfsAttributes cache metadataCluster metadataIndex : Nat) :
    Outcome (FatState × FatNode × Option FatNode) := do
  let fileEntry := entryAddr cache metadataIndex
  let (s, freeCluster) ← fatFsReserveFirstCluster fuel s mp fatEof
  if freeCluster = 0 then pure (s.releaseAnonymous cache, directory, none)
  else
    let newNode : FatNode :=
      { name := name, attributes := vfsAttributes, capabilities := 0, fileLength := 0,
        data := { layout := [freeCluster], layoutLoaded := s.rawLoaded,
                  metadataCluster := metadataCluster, metadataIndex := metadataIndex },
        children := [] }
    match fatFsCreateShortEntryFromNode s fileEntry newNode with
    | (s, .occur) => pure (s.releaseAnonymous cache, directory, none)
    | (s, .ok) =>
      match fatFsWriteByDataCluster s mp metadataCluster cache with
      | (s, false) => pure (s.releaseAnonymous cache, directory, none)
      | (s, true) => do
        let tempEntry : Mem := fun k => s.mem (fileEntry + k)
        let (s, directory, written) ←
          fatFsInitializeNodeCluster s mp newNode directory tempEntry cache
        if written then pure (s.releaseAnonymous cache, directory, some newNode)
        else pure (s.releaseAnonymous cache, directory, none)

/-- `fat_fs_create_node`. The last components are the directory and the new
node. -/
def fatFsCreateNode (fuel : Nat) (s : FatState) (mp : MountPoint) (directory : FatNode)
    (name : List UInt8) (vfsAttributes : Nat) : Outcome (FatState × FatNode × Option FatNode) :=
  if mp.attributes &&& 7 ≠ vfsMountPt ∨ directory.attributes &&& 7 ≠ vfsDirectory then
    .ret (s.setLastError .badNodeStructure, directory, none)
  else if fatFsValidate83Name s.behindTable name = false then
    .ret (s.setLastError .invalid83Name, directory, none)
  else
    match s.reserveAnonymous with
    | (s, 0) => .ret (s, directory, none)
    | (s, cache) =>
      match fatFsFindEmptyEntry mp cache directory.data.layout s with
      | (s, some (cluster, index)) =>
        fatFsFileCreation fuel s mp directory name vfsAttributes cache cluster index
      | (s, none) => do
        let (s, freeCluster) ← fatFsReserveFirstCluster fuel s mp fatEof
        if freeCluster = 0 then pure (s.releaseAnonymous cache, directory, none)
        else
          match directory.data.layout.getLast? with
          | none => Outcome.undefined
          | some last =>
            let (s, _) := fatFsMarkCluster s mp last freeCluster
            let directory := directory.setLayout (directory.data.layout ++ [freeCluster])
            -- the buffer still holds the cluster that was read last
            fatFsFileCreation fuel s mp directory name vfsAttributes cache freeCluster 0

end MeOS
