import MeOS.PageCache

/-! # `FAT32_fs.cpp`: the volume and its FAT

The driver moves 4 KB blocks between the device and scratch buffers. A buffer
is a cell of the page cache that is reserved without a page. The device is an
array of 512-byte sectors; which of the transfers still to come go through is
listed by `device`, and a transfer that fails changes nothing.
-/

namespace MeOS

open Bytes

/-- `FAT_EOF`. -/
abbrev fatEof : Nat := 268435448

/-- The mask of a FAT value, `0x0FFFFFFF`. -/
abbrev fatMask : Nat := 268435455

/-- `VFS_MOUNT_PT`. -/
abbrev vfsMountPt : Nat := 5

/-- What the driver hands to `set_last_error`: `FAT_ERROR`, and one
`VFS_ERROR`. -/
inductive FatError where
  | none
  | noCache
  | badNodeStructure
  | badArguments
  | badLayout
  | invalid83Name
  | noClusters
  | badAlign
  | nodeNotOpen
  | vfsBadArguments
deriving Repr, DecidableEq

/-- `fat_mount_data`. -/
structure FatMountData where
  partitionOffset : Nat
  fatLba : Nat
  clusterLba : Nat
  rootDirFirstCluster : Nat
deriving Repr, DecidableEq

/-- What the driver looks at of a mount point: the address of its device, the
address of the device's data, and its own data. -/
structure MountPoint where
  attributes : Nat
  tag : Nat
  storageInfo : Nat
  data : FatMountData
deriving Repr, DecidableEq

/-- The page cache, the device and what comes from outside. `written` lists the
transfers to the device so far, as first sector and count. `tables` lists the
answers of the file tables to the calls still to come; `behindTable` and
`rawLoaded` are what uninitialised memory holds at the two places where the
driver reads it. -/
structure FatState where
  files : FileState
  disk : Mem
  written : List (Nat × Nat)
  device : Nat → Bool
  tables : Nat → Bool
  behindTable : UInt8
  rawLoaded : Bool
  lastError : FatError

namespace FatState

variable (s : FatState)

/-- The memory of the machine. -/
abbrev mem : Mem := s.files.mem

/-- `page_cache_reserve_anonymous`; 0 when no cell can be reserved. -/
def reserveAnonymous : FatState × Nat :=
  let res := pageCacheReserveAnonymous s.files
  ({ s with files := res.1 }, res.2)

/-- `page_cache_release_anonymous`. -/
def releaseAnonymous (address : Nat) : FatState :=
  { s with files := pageCacheReleaseAnonymous s.files address }

/-- Change the memory. -/
def setMem (m : Mem) : FatState := { s with files := { s.files with mem := m } }

/-- `set_last_error`. -/
def setLastError (e : FatError) : FatState := { s with lastError := e }

/-- `vfs_read_file` on the device: the number of sectors read. -/
def deviceRead (lba count address : Nat) : FatState × Nat :=
  let s' := { s with device := fun k => s.device (k + 1) }
  if s.device 0 then (s'.setMem (blit s.mem address s.disk (512 * lba) (512 * count)), count)
  else (s', 0)

/-- `vfs_write_file` on the device: the number of sectors written. -/
def deviceWrite (lba count address : Nat) : FatState × Nat :=
  let s' := { s with device := fun k => s.device (k + 1) }
  if s.device 0 then
    ({ s' with disk := blit s.disk (512 * lba) s.mem address (512 * count),
               written := s.written ++ [(lba, count)] }, count)
  else (s', 0)

end FatState

/-! ## Sector access -/

/-- `fat_fs_read_by_lba`. -/
def fatFsReadByLba (s : FatState) (mp : MountPoint) (lba address : Nat) : FatState × Bool :=
  if mp.attributes &&& 7 ≠ vfsMountPt ∨ mp.tag = 0 ∨ mp.storageInfo = 0 then
    (s.setLastError .badArguments, false)
  else
    let res := s.deviceRead lba 8 address
    if res.2 ≠ 8 then (res.1, false) else (res.1, true)

/-- `fat_fs_write_by_lba`. Unlike the read, it does not ask for a device. -/
def fatFsWriteByLba (s : FatState) (mp : MountPoint) (lba address : Nat) : FatState × Bool :=
  if mp.attributes &&& 7 ≠ vfsMountPt ∨ mp.storageInfo = 0 then
    (s.setLastError .badArguments, false)
  else
    let res := s.deviceWrite lba 8 address
    if res.2 ≠ 8 then (res.1, false) else (res.1, true)

/-- The first sector of a data cluster. -/
def dataClusterLba (mp : MountPoint) (cluster : Nat) : Nat :=
  add32 mp.data.clusterLba (mul32 (sub32 cluster 2) 8)

/-- `fat_fs_read_by_data_cluster`. -/
def fatFsReadByDataCluster (s : FatState) (mp : MountPoint) (cluster address : Nat) :
    FatState × Bool :=
  if mp.attributes &&& 7 ≠ vfsMountPt then
    (s.setLastError .badArguments, false)
  else
    fatFsReadByLba s mp (dataClusterLba mp cluster) address

/-- `fat_fs_write_by_data_cluster`. -/
def fatFsWriteByDataCluster (s : FatState) (mp : MountPoint) (cluster address : Nat) :
    FatState × Bool :=
  if mp.attributes &&& 7 ≠ vfsMountPt then
    (s.setLastError .badArguments, false)
  else
    fatFsWriteByLba s mp (dataClusterLba mp cluster) address

/-- `fat_fs_read_by_page`. -/
def fatFsReadByPage (s : FatState) (mp : MountPoint) (layout : List Nat) (filePage address : Nat) :
    FatState × Bool :=
  match layout[filePage]? with
  | none => (s.setLastError .badLayout, false)
  | some cluster => fatFsReadByDataCluster s mp cluster address

/-- `fat_fs_write_by_page`. -/
def fatFsWriteByPage (s : FatState) (mp : MountPoint) (layout : List Nat) (filePage address : Nat) :
    FatState × Bool :=
  match layout[filePage]? with
  | none => (s.setLastError .badLayout, false)
  | some cluster => fatFsWriteByDataCluster s mp cluster address

/-! ## FAT values -/

/-- The address of word `index` of a buffer. -/
def fatWord (buffer index : Nat) : Nat := add32 buffer (mul32 index 4)

/-- `fat_fs_read_fat_value`. -/
def fatFsReadFatValue (m : Mem) (buffer index : Nat) : Nat :=
  load32 m (fatWord buffer index) &&& fatMask

/-- `fat_fs_find_next_cluster`. -/
def fatFsFindNextCluster (s : FatState) (mp : MountPoint) (currentCluster : Nat) :
    FatState × Nat :=
  let fatOffset := currentCluster / 128
  match s.reserveAnonymous with
  | (s, 0) => (s, 1)
  | (s, address) =>
    match fatFsReadByLba s mp (add32 mp.data.fatLba fatOffset) address with
    | (s, false) => (s.releaseAnonymous address, 0)
    | (s, true) =>
      let res := fatFsReadFatValue s.mem address currentCluster
      (s.releaseAnonymous address, res)

/-- The loop of `fat_fs_reserve_first_cluster`, which has no end of its own. -/
def fatFsReserveLoop (mp : MountPoint) (nextCluster address : Nat) :
    Nat → Nat → FatState → Outcome (FatState × Nat)
  | 0, _, _ => .running
  | fuel + 1, fatLbaIndex, s =>
    let lba := add32 mp.data.fatLba (mul32 fatLbaIndex 8)
    match fatFsReadByLba s mp lba address with
    | (s, false) => .ret (s.releaseAnonymous address, 0)
    | (s, true) =>
      match (List.range 128).find? fun i => fatFsReadFatValue s.mem address i == 0 with
      | some i =>
        let s := s.setMem (store32 s.mem (fatWord address i) (nextCluster &&& fatMask))
        match fatFsWriteByLba s mp lba address with
        | (s, false) => .ret (s.releaseAnonymous address, 0)
        | (s, true) => .ret (s.releaseAnonymous address, add32 (mul32 fatLbaIndex 128) i)
      | none => fatFsReserveLoop mp nextCluster address fuel (add32 fatLbaIndex 1) s

/-- `fat_fs_reserve_first_cluster`. -/
def fatFsReserveFirstCluster (fuel : Nat) (s : FatState) (mp : MountPoint) (nextCluster : Nat) :
    Outcome (FatState × Nat) :=
  match s.reserveAnonymous with
  | (s, 0) => .ret (s, 0)
  | (s, address) => fatFsReserveLoop mp nextCluster address fuel 0 s

/-- `fat_fs_mark_cluster`. -/
def fatFsMarkCluster (s : FatState) (mp : MountPoint) (fatIndex value : Nat) : FatState × Nat :=
  let fatOffset := fatIndex / 128
  match s.reserveAnonymous with
  | (s, 0) => (s, 1)
  | (s, address) =>
    match fatFsReadByLba s mp (add32 mp.data.fatLba fatOffset) address with
    | (s, false) => (s.releaseAnonymous address, 0)
    | (s, true) =>
      let lastValue := fatFsReadFatValue s.mem address (fatIndex % 128)
      let s := s.setMem (store32 s.mem (fatWord address (fatIndex % 128)) (value &&& fatMask))
      match fatFsWriteByLba s mp (add32 mp.data.fatLba fatOffset) address with
      | (s, false) => (s.releaseAnonymous address, 0)
      | (s, true) => (s.releaseAnonymous address, lastValue)

end MeOS
