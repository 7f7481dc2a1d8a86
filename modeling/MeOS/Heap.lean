import MeOS.Utility

/-! # `mmngr_heap.cpp`: the kernel heap

A heap is a region of memory that starts with its master record (`heap`: start
address, size, number of blocks) followed by a chain of blocks. Each block is
an 8-byte header (`heap_block`: magic, used, flags, next) and its payload; the
payload size is not stored, it is the distance to the next header.

Everything lives in byte memory: the functions below read and write the
records where the source does. A loop that has not ended within its fuel
gives `none`.
-/

namespace MeOS.Heap

open Bytes

/-- `HEAP_BLOCK_MAGIC`. -/
def heapBlockMagic : Nat := 0x1F2E

/-- `sizeof(heap)`. -/
abbrev sizeofHeap : Nat := 12

/-- `sizeof(heap_block)`. -/
abbrev sizeofHeapBlock : Nat := 8

/-- `HEAP_ERROR`, the module error a failing call leaves behind. -/
inductive HeapError where
  | badMagic
  | badArgument
  | outOfMemory
deriving Repr, DecidableEq

/-! ## The records in memory -/

/-- `h->start_address`. -/
def startAddress (m : Mem) (h : Nat) : Nat := load32 m h

/-- `h->size`. -/
def heapSize (m : Mem) (h : Nat) : Nat := load32 m (h + 4)

/-- `h->current_blocks`. -/
def currentBlocks (m : Mem) (h : Nat) : Nat := load32 m (h + 8)

def setCurrentBlocks (m : Mem) (h v : Nat) : Mem := store32 m (h + 8) v

/-- `b->magic`. -/
def blockMagic (m : Mem) (b : Nat) : Nat := load16 m b

/-- `b->used`. -/
def blockUsed (m : Mem) (b : Nat) : Bool := m (b + 2) != 0

/-- `b->flags`. -/
def blockFlags (m : Mem) (b : Nat) : Bool := m (b + 3) != 0

/-- `b->next`. -/
def blockNext (m : Mem) (b : Nat) : Nat := load32 m (b + 4)

def setMagic (m : Mem) (b v : Nat) : Mem := store16 m b v

def setUsed (m : Mem) (b : Nat) (v : Bool) : Mem := store8 m (b + 2) v.toUInt8

def setFlags (m : Mem) (b : Nat) (v : Bool) : Mem := store8 m (b + 3) v.toUInt8

def setNext (m : Mem) (b v : Nat) : Mem := store32 m (b + 4) v

/-! ## Private functions -/

/-- `heap_block_size`: the payload runs to the next header, or to the end of
the heap for the last block. -/
def heapBlockSize (m : Mem) (h b : Nat) : Nat :=
  if blockNext m b = 0 then
    sub32 (sub32 (add32 (startAddress m h) (heapSize m h)) b) sizeofHeapBlock
  else
    sub32 (sub32 (blockNext m b) b) sizeofHeapBlock

/-- `heap_block_start_address`. -/
def heapBlockStartAddress (b : Nat) : Nat := add32 b sizeofHeapBlock

/-- `heap_front_merge_block`: drop the block after `b` from the chain. -/
def heapFrontMergeBlock (m : Mem) (h b : Nat) : Mem :=
  let m := setNext m b (blockNext m (blockNext m b))
  setCurrentBlocks m h (sub32 (currentBlocks m h) 1)

/-- `heap_is_next_unused`. -/
def heapIsNextUnused (m : Mem) (prev : Nat) : Bool :=
  blockNext m prev != 0 && blockUsed m (blockNext m prev) == false

/-- `heap_block_create`: write a header at `base`. The `used` argument is not
looked at, a new block is always unused. -/
def heapBlockCreate (m : Mem) (h base : Nat) (_used : Bool) (next : Nat) (flags : Bool) : Mem :=
  let m := setMagic m base heapBlockMagic
  let m := setUsed m base false
  let m := setNext m base next
  let m := setFlags m base flags
  setCurrentBlocks m h (add32 (currentBlocks m h) 1)

/-- `heap_front_merge_size_fit`: absorb following unused blocks into `prev`
until `rSize` fits; says whether it fits. -/
def heapFrontMergeSizeFit (fuel : Nat) (m : Mem) (h prev rSize : Nat) : Option (Mem × Bool) :=
  match fuel with
  | 0 => none
  | fuel + 1 =>
    if blockNext m prev ≠ 0 ∧ rSize > heapBlockSize m h prev then
      if heapIsNextUnused m prev then
        heapFrontMergeSizeFit fuel (heapFrontMergeBlock m h prev) h prev rSize
      else
        some (m, decide (rSize ≤ heapBlockSize m h prev))
    else
      some (m, decide (rSize ≤ heapBlockSize m h prev))

/-! ## Public functions

A call that returns a null pointer or `ERROR_OCCUR` gives the error it set. -/

/-- `heap_create`. -/
def heapCreate (m : Mem) (base size : Nat) : Mem :=
  let m := store32 m base (add32 base sizeofHeap)
  let m := store32 m (base + 4) (sub32 size sizeofHeap)
  let m := setCurrentBlocks m base 0
  heapBlockCreate m base (startAddress m base) false 0 false

/-- Use the unused block `block`: give the space behind the first `rSize` bytes
to a new block if a header and a byte fit there. -/
def heapUseBlock (m : Mem) (h block rSize : Nat) : Mem :=
  let m :=
    if add32 rSize sizeofHeapBlock < heapBlockSize m h block then
      let newBlock := add32 (add32 block sizeofHeapBlock) rSize
      setNext (heapBlockCreate m h newBlock false (blockNext m block) (blockFlags m block))
        block newBlock
    else m
  setUsed m block true

/-- The loop of `heap_alloc`: first fit, merging unused blocks on the way. -/
def heapAllocLoop (fuel : Nat) (m : Mem) (h rSize block : Nat) :
    Option (Mem × Except HeapError Nat) :=
  match fuel with
  | 0 => none
  | fuel + 1 =>
    if block = 0 then
      some (m, .error .outOfMemory)
    else if blockMagic m block ≠ heapBlockMagic then
      some (m, .error .badMagic)
    else if blockUsed m block then
      heapAllocLoop fuel m h rSize (blockNext m block)
    else
      match heapFrontMergeSizeFit fuel m h block rSize with
      | none => none
      | some (m, true) =>
        some (heapUseBlock m h block rSize, .ok (heapBlockStartAddress block))
      | some (m, false) => heapAllocLoop fuel m h rSize (blockNext m block)

/-- `heap_alloc`. -/
def heapAlloc (fuel : Nat) (m : Mem) (h rSize : Nat) : Option (Mem × Except HeapError Nat) :=
  if h = 0 ∨ rSize = 0 then
    some (m, .error .badArgument)
  else
    heapAllocLoop fuel m h rSize (startAddress m h)

/-- `heap_free`: mark the block unused and merge it with an unused next one. -/
def heapFree (m : Mem) (h address : Nat) : Mem × Except HeapError Unit :=
  if h = 0 ∨ address = 0 then
    (m, .error .badArgument)
  else
    let block := sub32 address sizeofHeapBlock
    if blockMagic m block ≠ heapBlockMagic then
      (m, .error .badMagic)
    else
      let m := setUsed m block false
      if heapIsNextUnused m block then
        (heapFrontMergeBlock m h block, .ok ())
      else
        (m, .ok ())

/-- `heap_realloc`: a new block, a copy of the common bytes, and a free. -/
def heapRealloc (fuel : Nat) (m : Mem) (h address newSize : Nat) :
    Option (Mem × Except HeapError Nat) :=
  if h = 0 ∨ address = 0 then
    some (m, .error .badArgument)
  else
    let block := sub32 address sizeofHeapBlock
    if blockMagic m block ≠ heapBlockMagic then
      some (m, .error .badMagic)
    else
      let blockSize := heapBlockSize m h block
      if blockSize = newSize then
        some (m, .ok address)
      else
        match heapAlloc fuel m h newSize with
        | none => none
        | some (m, .error e) => some (m, .error e)
        | some (m, .ok newAddr) =>
          let m := memcpy m newAddr address (minimum blockSize newSize)
          match heapFree m h address with
          | (m, .error e) => some (m, .error e)
          | (m, .ok ()) => some (m, .ok newAddr)

/-- The loop of `heap_defrag`; counts the merges. -/
def heapDefragLoop (fuel : Nat) (m : Mem) (h block blocksMerged : Nat) : Option (Mem × Nat) :=
  match fuel with
  | 0 => none
  | fuel + 1 =>
    if block = 0 then
      some (m, blocksMerged)
    else if blockUsed m block = false ∧ heapIsNextUnused m block then
      heapDefragLoop fuel (heapFrontMergeBlock m h block) h block (add32 blocksMerged 1)
    else
      heapDefragLoop fuel m h (blockNext m block) blocksMerged

/-- `heap_defrag`: merge every run of adjacent unused blocks. -/
def heapDefrag (fuel : Nat) (m : Mem) (h : Nat) : Option (Mem × Except HeapError Nat) :=
  if h = 0 then
    some (m, .error .badArgument)
  else
    (heapDefragLoop fuel m h (startAddress m h) 0).map fun r => (r.1, .ok r.2)

end MeOS.Heap
