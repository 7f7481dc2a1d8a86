import MeOS.PageCache

/-! # `file.cpp`: reading and writing open files

With `VFS_CAP_CACHE` a request is cut into pages that go through the page
cache; without, it is handed to the driver of the file. The driver is a
parameter. Both loops take the pages from the first to the last; they leave
early when a page cannot be provided.
-/

namespace MeOS

open Bytes

/-- `VFS_CAP_READ`. -/
abbrev vfsCapRead : Nat := 2

/-- `VFS_CAP_WRITE`. -/
abbrev vfsCapWrite : Nat := 4

/-- `VFS_CAP_CACHE`. -/
abbrev vfsCapCache : Nat := 8

/-- `FILE_ERROR`, the module error behind an `INVALID_IO`. -/
inductive FileError where
  | gfdNotFound
  | badGfd
  | capabilitiesError
  | readAccessDenied
  | writeAccessDenied
  | unalignedAddress
  | bigRequest
  | farStart
deriving Repr, DecidableEq

/-- `INVALID_IO`. -/
abbrev invalidIO : Nat := 4294967295

/-- The address that stands for "no caller buffer". -/
abbrev noBuffer : Nat := 4294967295

/-- `fs_read` and `fs_write` of the driver of a file. A read returns a count,
or `INVALID_IO`, and leaves `content` in the buffer. -/
structure FsOperations where
  fsRead : (fd file start count : Nat) → Nat × Mem
  fsWrite : (fd file start count : Nat) → Mem → Nat

/-- `vfs_read_file`. -/
def vfsReadFile (ops : FsOperations) (s : FileState) (fd file start count address : Nat) :
    FileState × Nat :=
  let res := ops.fsRead fd file start count
  ({ s with mem := blit s.mem address res.2 0 count }, res.1)

/-- The page loop of `read_file_global`, with `n` pages left, the first of them
page number `i` of the request. -/
def readPages (ops : FsOperations) (gfd start count buffer : Nat) :
    Nat → Nat → Nat → FileState → Outcome (FileState × Nat)
  | 0, _, bytesRead, s => .ret (s, bytesRead)
  | n + 1, i, bytesRead, s =>
    match gftGet s gfd with
    | none => .undefined
    | some entry =>
      let page := add32 (start / pageCacheSize) i
      -- do not read past the end of file
      if mul32 page pageCacheSize ≥ (s.nodes entry.fileNode).fileLength then
        .ret (s, bytesRead)
      else
        let finish (s : FileState) (cache : Nat) : Outcome (FileState × Nat) :=
          let chunk := minimum (sub32 count bytesRead) pageCacheSize
          let s :=
            if buffer ≠ noBuffer then
              { s with mem := memcpy s.mem (add32 buffer (mul32 i pageCacheSize)) cache chunk }
            else s
          let s :=
            if sub32 count bytesRead < pageCacheSize then
              { s with mem := memset s.mem (sub32 (add32 cache count) bytesRead) 0
                                (sub32 count bytesRead) }
            else s
          readPages ops gfd start count buffer n (i + 1) (add32 bytesRead chunk) s
        let cache := pageCacheGetBuffer s gfd page
        if cache = 0 then
          match pageCacheReserveBuffer s gfd page with
          | .ret (s, 0) => .ret (s, bytesRead)
          | .ret (s, cache) =>
            match vfsReadFile ops s gfd entry.fileNode (add32 start (mul32 i pageCacheSize))
                pageCacheSize cache with
            | (s, res) =>
              if res = invalidIO then do
                let (s, _) ← pageCacheReleaseBuffer s gfd page
                pure (s, bytesRead)
              else finish s cache
          | .panic => .panic
          | .undefined => .undefined
          | .running => .running
        else finish s cache

/-- `read_file_global`. -/
def readFileGlobal (ops : FsOperations) (s : FileState) (gfd start count buffer capabilities : Nat) :
    Outcome (FileState × Except FileError Nat) :=
  match gftGet s gfd with
  | none => .ret (s, .error .gfdNotFound)
  | some entry =>
    if gfeIsInvalid entry then
      .ret (s, .error .gfdNotFound)
    else if chkBit capabilities vfsCapRead = false then
      .ret (s, .error .readAccessDenied)
    else if chkBit capabilities vfsCapCache then
      if start % pageCacheSize ≠ 0 then
        .ret (s, .error .unalignedAddress)
      else do
        let totalPages := ceilDivision count pageCacheSize
        let (s, n) ← readPages ops gfd start count buffer totalPages 0 0 s
        pure (s, .ok n)
    else
      let (s, n) := vfsReadFile ops s gfd entry.fileNode start count buffer
      .ret (s, .ok n)

/-- What the page loop of `write_file_global` leaves: the count, whether all
pages were done, and the ranges of the caller buffer that were read. -/
structure Written where
  state : FileState
  bytesWritten : Nat
  done : Bool
  read : List (Nat × Nat)

/-- The page loop of `write_file_global`, with `n` pages left, the first of them
page number `i` of the request; `read` collects what is read of the buffer. -/
def writePages (gfd start count buffer : Nat) :
    Nat → Nat → Nat → List (Nat × Nat) → FileState → Outcome Written
  | 0, _, bytesWritten, read, s => .ret ⟨s, bytesWritten, true, read⟩
  | n + 1, i, bytesWritten, read, s =>
    let page := add32 (start / pageCacheSize) i
    let finish (s : FileState) (cache : Nat) : Outcome Written :=
      let source := add32 buffer (mul32 i pageCacheSize)
      let (s, read) :=
        if buffer ≠ noBuffer then
          ({ s with mem := memcpy s.mem cache source pageCacheSize },
            read ++ [(source, pageCacheSize)])
        else (s, read)
      let bytesWritten :=
        add32 bytesWritten (minimum (sub32 count bytesWritten) pageCacheSize)
      match pageCacheMakeDirty s gfd page true with
      | (s, .error _) => .ret ⟨s, bytesWritten, false, read⟩
      | (s, .ok ()) => writePages gfd start count buffer n (i + 1) bytesWritten read s
    let cache := pageCacheGetBuffer s gfd page
    -- if the area hasn't been read => write with zero pad
    if cache = 0 then
      match pageCacheReserveBuffer s gfd page with
      | .ret (s, 0) => .ret ⟨s, bytesWritten, false, read⟩
      | .ret (s, cache) =>
        if sub32 count bytesWritten < pageCacheSize then
          finish { s with mem := memset s.mem cache 0 (sub32 pageCacheSize (count % pageCacheSize)) }
            cache
        else finish s cache
      | .panic => .panic
      | .undefined => .undefined
      | .running => .running
    else finish s cache

/-- Set the length of the node at `node`. -/
def FileState.setLength (s : FileState) (node length : Nat) : FileState :=
  { s with nodes := Function.update s.nodes node { s.nodes node with fileLength := length } }

/-- `write_file_global`; the last component lists the ranges of the caller
buffer that were read. The compare-and-swap loop of the length succeeds at
once, nobody else runs. -/
def writeFileGlobal (ops : FsOperations) (s : FileState)
    (gfd start count buffer capabilities : Nat) :
    Outcome (FileState × Except FileError Nat × List (Nat × Nat)) :=
  match gftGet s gfd with
  | none => .ret (s, .error .gfdNotFound, [])
  | some entry =>
    if gfeIsInvalid entry then
      .ret (s, .error .gfdNotFound, [])
    else if chkBit capabilities vfsCapWrite = false then
      .ret (s, .error .writeAccessDenied, [])
    else if chkBit capabilities vfsCapCache then
      if start % pageCacheSize ≠ 0 then
        .ret (s, .error .unalignedAddress, [])
      else if start / pageCacheSize ≥
          add32 (ceilDivision (s.nodes entry.fileNode).fileLength pageCacheSize) 2 then
        .ret (s, .error .farStart, [])
      else do
        let totalPages := ceilDivision count pageCacheSize
        let w ← writePages gfd start count buffer totalPages 0 0 [] s
        if w.done = false then
          pure (w.state, .ok w.bytesWritten, w.read)
        else
          let length := (w.state.nodes entry.fileNode).fileLength
          let stop := add32 start w.bytesWritten
          let s := if stop > length then w.state.setLength entry.fileNode stop else w.state
          pure (s, .ok w.bytesWritten, w.read)
    else
      .ret (s, .ok (ops.fsWrite gfd entry.fileNode start count fun k => s.mem (buffer + k)),
        [(buffer, count)])

end MeOS
