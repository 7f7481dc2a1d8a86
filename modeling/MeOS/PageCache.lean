import MeOS.Utility

/-! # `page_cache.cpp` and the tables it works on

The page cache is a region of memory cut into 4 KB cells. The last cell holds
one byte for each cell that says whether it is allocated. Which cell holds
which page of which file is recorded in the page lists of the global file
table (`open_file_table.cpp`).

The answers of `vmmngr_alloc_page` come from outside: `frames` lists them for
the calls still to come, a failure or the content of the frame that is mapped.
A list node is always allocated.
-/

namespace MeOS

open Bytes

/-- `PAGE_CACHE_SIZE`, the size of a cell and of a file page. -/
abbrev pageCacheSize : Nat := 4096

/-- `PAGE_CACHE_ERROR`. -/
inductive PageCacheError where
  | outOfBounds
  | invalid
  | deplet
  | badPages
  | pageNotFound
  | finfoNotFound
deriving Repr, DecidableEq

/-- `_page_cache_file_info`: a cached page of a file. -/
structure PageInfo where
  page : Nat
  bufferIndex : Nat
  dirty : Bool
deriving Repr, DecidableEq

/-- `global_file_entry`; a null `fileNode` marks an entry that is not in use. -/
structure Gfe where
  fileNode : Nat
  openCount : Nat
  pages : List PageInfo
deriving Repr, DecidableEq

/-- The fields of a `vfs_node` the file interface works on. -/
structure FileNode where
  fileLength : Nat
deriving Repr, DecidableEq

/-- The page cache, the global file table and the nodes it points to. -/
structure FileState where
  mem : Mem
  cache : Nat
  cacheSize : Nat
  gft : List Gfe
  nodes : Nat → FileNode
  frames : Nat → Option Mem

/-! ## Cells -/

/-- `page_cache_num_buffers`. -/
def pageCacheNumBuffers (s : FileState) : Nat := s.cacheSize / pageCacheSize

/-- `page_cache_index_by_addr`. -/
def pageCacheIndexByAddr (s : FileState) (address : Nat) : Nat :=
  sub32 address s.cache / pageCacheSize

/-- `page_cache_addr_by_index`. -/
def pageCacheAddrByIndex (s : FileState) (index : Nat) : Nat :=
  add32 s.cache (mul32 index pageCacheSize)

/-- `alloced_bitmap`, the address `page_cache_get_last` returns. -/
def allocedBitmap (s : FileState) : Nat :=
  add32 s.cache (mul32 (sub32 (pageCacheNumBuffers s) 1) pageCacheSize)

/-- `page_cache_index_free_buffer`: the first free cell, or the number of cells. -/
def pageCacheIndexFreeBuffer (s : FileState) : Nat :=
  ((List.range (pageCacheNumBuffers s)).find? fun i => s.mem (allocedBitmap s + i) == 0).getD
    (pageCacheNumBuffers s)

/-- `page_cache_index_reserve_buffer`. -/
def pageCacheIndexReserveBuffer (s : FileState) (index : Nat) : FileState :=
  { s with mem := store8 s.mem (allocedBitmap s + index) 1 }

/-- `page_cache_index_release_buffer`. -/
def pageCacheIndexReleaseBuffer (s : FileState) (index : Nat) : FileState :=
  { s with mem := store8 s.mem (allocedBitmap s + index) 0 }

/-! ## The file table -/

/-- `gft_get`. -/
def gftGet (s : FileState) (index : Nat) : Option Gfe := s.gft[index]?

/-- `gfe_is_invalid`. -/
def gfeIsInvalid (e : Gfe) : Bool := e.fileNode == 0

/-- Change the page list of an entry. -/
def FileState.modifyPages (s : FileState) (gfd : Nat) (f : List PageInfo → List PageInfo) :
    FileState :=
  { s with gft := s.gft.modify gfd fun e => { e with pages := f e.pages } }

/-- `page_cache_get_finfo`. -/
def pageCacheGetFinfo (s : FileState) (gfd page : Nat) : Except PageCacheError PageInfo :=
  match s.gft[gfd]? with
  | none => .error .outOfBounds
  | some e =>
    if e.fileNode = 0 then
      .error .invalid
    else
      match e.pages.find? fun i => i.page == page with
      | none => .error .finfoNotFound
      | some i => .ok i

/-! ## Public functions -/

/-- `page_cache_init`: the last cell is kept for the bitmap. -/
def pageCacheInit (s : FileState) (start noBuffers : Nat) : FileState :=
  let s := { s with cacheSize := mul32 noBuffers pageCacheSize, cache := start }
  let lastBuffer := allocedBitmap s
  let s := { s with mem := memset s.mem lastBuffer 0 pageCacheSize }
  pageCacheIndexReserveBuffer s (pageCacheIndexByAddr s lastBuffer)

/-- `page_cache_get_buffer`; 0 when the page is not cached. -/
def pageCacheGetBuffer (s : FileState) (gfd page : Nat) : Nat :=
  match pageCacheGetFinfo s gfd page with
  | .error _ => 0
  | .ok i => add32 s.cache (mul32 i.bufferIndex pageCacheSize)

/-- `vmmngr_alloc_page` for the cell at `address`: the next answer. -/
def vmmngrAllocPage (s : FileState) (address : Nat) : FileState × Bool :=
  match s.frames 0 with
  | none => ({ s with frames := fun k => s.frames (k + 1) }, false)
  | some content =>
    ({ s with mem := blit s.mem address content 0 pageCacheSize,
              frames := fun k => s.frames (k + 1) }, true)

/-- `page_cache_reserve_anonymous`; 0 when no cell can be reserved. -/
def pageCacheReserveAnonymous (s : FileState) : FileState × Nat :=
  let freeBuf := pageCacheIndexFreeBuffer s
  if freeBuf ≥ pageCacheNumBuffers s then
    (s, 0)
  else
    let s := pageCacheIndexReserveBuffer s freeBuf
    let address := pageCacheAddrByIndex s freeBuf
    match vmmngrAllocPage s address with
    | (s, false) => (pageCacheIndexReleaseBuffer s freeBuf, 0)
    | (s, true) => (s, address)

/-- `page_cache_release_anonymous`; the frame behind the cell is freed, its
content is not used again. -/
def pageCacheReleaseAnonymous (s : FileState) (address : Nat) : FileState :=
  let index := pageCacheIndexByAddr s address
  if index ≥ pageCacheNumBuffers s then s else pageCacheIndexReleaseBuffer s index

/-- `page_cache_reserve_buffer`. The entry is taken from the table without a
check. -/
def pageCacheReserveBuffer (s : FileState) (gfd page : Nat) : Outcome (FileState × Nat) :=
  match pageCacheReserveAnonymous s with
  | (s, 0) => .ret (s, 0)
  | (s, address) =>
    let freeBuf := pageCacheIndexByAddr s address
    let finfo : PageInfo := { page := page, bufferIndex := freeBuf, dirty := false }
    match gftGet s gfd with
    | none => .undefined
    | some _ => .ret (s.modifyPages gfd fun pages => pages ++ [finfo], address)

/-- `page_cache_release_buffer`. -/
def pageCacheReleaseBuffer (s : FileState) (gfd page : Nat) :
    Outcome (FileState × Except PageCacheError Unit) :=
  match s.gft[gfd]? with
  | none => .undefined
  | some e =>
    if e.pages = [] then
      .ret (s, .error .badPages)
    else
      match e.pages.find? fun i => i.page == page with
      | none => .ret (s, .error .pageNotFound)
      | some i =>
        let s := s.modifyPages gfd fun pages => pages.eraseP fun i => i.page == page
        .ret (pageCacheReleaseAnonymous s (pageCacheAddrByIndex s i.bufferIndex), .ok ())

/-- Set the dirty flag of the first entry for `page`. -/
def setDirty (page : Nat) (dirty : Bool) : List PageInfo → List PageInfo
  | [] => []
  | i :: rest =>
    if i.page == page then { i with dirty := dirty } :: rest else i :: setDirty page dirty rest

/-- `page_cache_make_dirty`. -/
def pageCacheMakeDirty (s : FileState) (gfd page : Nat) (dirty : Bool) :
    FileState × Except PageCacheError Unit :=
  match pageCacheGetFinfo s gfd page with
  | .error e => (s, .error e)
  | .ok _ => (s.modifyPages gfd (setDirty page dirty), .ok ())

end MeOS
