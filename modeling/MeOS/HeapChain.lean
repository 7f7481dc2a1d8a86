import MeOS.Heap
import MeOS.Lib.Extents

/-! # The block chain of a heap

The invariant of a heap lists its blocks: they tile the heap region, every
header is in memory with the magic, the state and the link of its block, and
the master record counts them. Each function of the heap is described by what
it does to that list and by the bytes it leaves alone (`Frame`): payloads of
used blocks and everything outside the heap.
-/

namespace MeOS.Heap

open Bytes Extents

/-! ## Blocks -/

/-- A block: the address of its header, the size of its payload, its state. -/
structure Blk where
  addr : Nat
  size : Nat
  used : Bool
deriving Repr, DecidableEq

/-- The address of the payload. -/
def Blk.payload (b : Blk) : Nat := b.addr + 8

/-- The first address behind the block. -/
def Blk.fin (b : Blk) : Nat := b.addr + 8 + b.size

/-- The pointer to the block at `z` in a heap that ends at `stop`. -/
def link (stop z : Nat) : Nat := if z = stop then 0 else z

/-- The pointer to the first of the remaining blocks. -/
def headAddr : List Blk → Nat
  | [] => 0
  | b :: _ => b.addr

/-- The header of `b` is in memory. -/
structure HeaderAt (m : Mem) (stop : Nat) (b : Blk) : Prop where
  magic : blockMagic m b.addr = heapBlockMagic
  used : blockUsed m b.addr = b.used
  next : blockNext m b.addr = link stop b.fin

instance (m : Mem) (stop : Nat) (b : Blk) : Decidable (HeaderAt m stop b) :=
  decidable_of_iff (blockMagic m b.addr = heapBlockMagic ∧ blockUsed m b.addr = b.used ∧
      blockNext m b.addr = link stop b.fin)
    ⟨fun h => ⟨h.1, h.2.1, h.2.2⟩, fun h => ⟨h.magic, h.used, h.next⟩⟩

/-- The heap at `base` of `size` bytes has exactly the blocks `bs`. -/
structure HeapInv (m : Mem) (base size : Nat) (bs : List Blk) : Prop where
  room : 20 ≤ size
  top : base + size ≤ 4294967296
  start : startAddress m base = base + 12
  sizeEq : heapSize m base = size - 12
  count : currentBlocks m base = bs.length
  tiles : Tiles Blk.addr Blk.fin (base + 12) bs (base + size)
  headers : ∀ b ∈ bs, HeaderAt m (base + size) b

instance (m : Mem) (base size : Nat) (bs : List Blk) : Decidable (HeapInv m base size bs) :=
  decidable_of_iff (20 ≤ size ∧ base + size ≤ 4294967296 ∧ startAddress m base = base + 12 ∧
      heapSize m base = size - 12 ∧ currentBlocks m base = bs.length ∧
      Tiles Blk.addr Blk.fin (base + 12) bs (base + size) ∧ ∀ b ∈ bs, HeaderAt m (base + size) b)
    ⟨fun ⟨h₁, h₂, h₃, h₄, h₅, h₆, h₇⟩ => ⟨h₁, h₂, h₃, h₄, h₅, h₆, h₇⟩,
      fun h => ⟨h.room, h.top, h.start, h.sizeEq, h.count, h.tiles, h.headers⟩⟩

/-- What every heap function leaves alone: payloads of used blocks and all
memory outside the heap. -/
structure Frame (m m' : Mem) (base size : Nat) (bs : List Blk) : Prop where
  payload : ∀ b ∈ bs, b.used = true → ∀ x, b.payload ≤ x → x < b.fin → m' x = m x
  outside : ∀ x, x < base ∨ base + size ≤ x → m' x = m x

/-- The two lists have the same used blocks. -/
def SameUsed (bs bs' : List Blk) : Prop :=
  ∀ b : Blk, b.used = true → (b ∈ bs' ↔ b ∈ bs)

theorem SameUsed.refl (bs : List Blk) : SameUsed bs bs := fun _ _ => Iff.rfl

theorem SameUsed.trans {bs₁ bs₂ bs₃ : List Blk} (h₁ : SameUsed bs₁ bs₂)
    (h₂ : SameUsed bs₂ bs₃) : SameUsed bs₁ bs₃ :=
  fun b hb => (h₂ b hb).trans (h₁ b hb)

theorem Frame.refl (m : Mem) (base size : Nat) (bs : List Blk) : Frame m m base size bs :=
  ⟨fun _ _ _ _ _ _ => rfl, fun _ _ => rfl⟩

theorem Frame.trans {m₁ m₂ m₃ : Mem} {base size : Nat} {bs₁ bs₂ : List Blk}
    (h₁ : Frame m₁ m₂ base size bs₁) (hs : SameUsed bs₁ bs₂)
    (h₂ : Frame m₂ m₃ base size bs₂) : Frame m₁ m₃ base size bs₁ where
  payload b hb hu x hlo hhi :=
    (h₂.payload b ((hs b hu).mpr hb) hu x hlo hhi).trans (h₁.payload b hb hu x hlo hhi)
  outside x hx := (h₂.outside x hx).trans (h₁.outside x hx)

/-! ## Reading the chain -/

section Read

variable {m : Mem} {base size : Nat} {bs pre post : List Blk} {b : Blk}

/-- A block lies inside the heap region. -/
theorem HeapInv.bounds (hi : HeapInv m base size bs) (hb : b ∈ bs) :
    base + 12 ≤ b.addr ∧ b.addr + 8 + b.size ≤ base + size := by
  have h := hi.tiles.mem_bounds hb
  exact ⟨h.1, h.2.2⟩

/-- Distinct blocks are apart. -/
theorem HeapInv.apart (hi : HeapInv m base size bs) {c : Blk} (hb : b ∈ bs) (hc : c ∈ bs)
    (hne : b ≠ c) : b.addr + 8 + b.size ≤ c.addr ∨ c.addr + 8 + c.size ≤ b.addr :=
  hi.tiles.ordered.apart hb hc hne

/-- Blocks are identified by their address. -/
theorem HeapInv.eq_of_addr (hi : HeapInv m base size bs) {c : Blk} (hb : b ∈ bs) (hc : c ∈ bs)
    (h : b.addr = c.addr) : b = c := by
  by_contra hne
  have happ := hi.apart hb hc hne
  omega

/-- The tiling around a block: what is before it ends where it starts, and it
ends where the rest starts. -/
theorem HeapInv.split (hi : HeapInv m base size (pre ++ b :: post)) :
    Tiles Blk.addr Blk.fin (base + 12) pre b.addr ∧
      Tiles Blk.addr Blk.fin b.fin post (base + size) := by
  obtain ⟨z, hpre, hrest⟩ := tiles_append.mp hi.tiles
  obtain ⟨haddr, _, hpost⟩ := hrest
  exact ⟨haddr ▸ hpre, hpost⟩

/-- `h->start_address` points to the first block. -/
theorem HeapInv.startAddress_eq (hi : HeapInv m base size bs) :
    startAddress m base = headAddr bs := by
  cases bs with
  | nil =>
    have hroom := hi.room
    have htiles : base + 12 = base + size := hi.tiles
    omega
  | cons b rest => exact hi.start.trans hi.tiles.1.symm

/-- `b->next` is the address of the following block, or null for the last. -/
theorem HeapInv.next (hi : HeapInv m base size (pre ++ b :: post)) :
    blockNext m b.addr = headAddr post := by
  have hlink := (hi.headers b (by simp)).next
  have hpost := hi.split.2
  rw [hlink]
  cases post with
  | nil => exact if_pos hpost
  | cons c cs =>
    have hc := hi.bounds (b := c) (by simp)
    have hne : b.fin ≠ base + size := by
      rw [← hpost.1]
      omega
    rw [link, if_neg hne]
    exact hpost.1.symm

/-- The implicit size the source computes is the payload size. -/
theorem HeapInv.blockSize (hi : HeapInv m base size bs) (hb : b ∈ bs) :
    heapBlockSize m base b.addr = b.size := by
  have hbd := hi.bounds hb
  have hlink := (hi.headers b hb).next
  have htop := hi.top
  have hroom := hi.room
  unfold heapBlockSize
  rw [hlink, link]
  by_cases hlast : b.fin = base + size
  · -- the last block: the source subtracts from the end of the heap
    simp only [hlast, if_true, hi.start, hi.sizeEq, add32, sub32, sizeofHeapBlock]
    simp only [Blk.fin] at hlast
    omega
  · have hpos : b.fin ≠ 0 := by
      simp only [Blk.fin]
      omega
    simp only [hlast, if_false, hpos, sub32, sizeofHeapBlock]
    simp only [Blk.fin] at hlast ⊢
    omega

/-- A header is not affected by writes outside it. -/
theorem HeaderAt.frame {m' : Mem} {stop : Nat} (h : HeaderAt m stop b)
    (hsame : ∀ x, b.addr ≤ x → x < b.addr + 8 → m' x = m x) : HeaderAt m' stop b where
  magic := by
    have hload : load16 m' b.addr = load16 m b.addr :=
      load16_congr fun x h₁ h₂ => hsame x h₁ (by omega)
    exact hload.trans h.magic
  used := by
    have hbyte := hsame (b.addr + 2) (by omega) (by omega)
    rw [← h.used]
    simp only [blockUsed, hbyte]
  next := by
    have hload : load32 m' (b.addr + 4) = load32 m (b.addr + 4) :=
      load32_congr fun x h₁ h₂ => hsame x (by omega) (by omega)
    exact hload.trans h.next

end Read

/-! ## Field writes

Reads of a header after a write to one of its fields. -/

section Fields

variable (m : Mem) (h b v : Nat) (u : Bool)

@[simp] theorem blockNext_setNext : blockNext (setNext m b v) b = v % 4294967296 := by
  simp [blockNext, setNext]

@[simp] theorem blockUsed_setUsed : blockUsed (setUsed m b u) b = u := by
  cases u <;> simp [blockUsed, setUsed, Bool.toUInt8]

theorem setNext_frame {x : Nat} (hx : x < b + 4 ∨ b + 8 ≤ x) : setNext m b v x = m x :=
  store32_frame m v (by omega)

theorem setUsed_frame {x : Nat} (hx : x ≠ b + 2) : setUsed m b u x = m x :=
  store8_ne m _ hx

theorem setCurrentBlocks_frame {x : Nat} (hx : x < h + 8 ∨ h + 12 ≤ x) :
    setCurrentBlocks m h v x = m x :=
  store32_frame m v (by omega)

@[simp] theorem currentBlocks_setCurrentBlocks :
    currentBlocks (setCurrentBlocks m h v) h = v % 4294967296 := by
  simp [currentBlocks, setCurrentBlocks]

/-- `heap_block_create` writes the new header and the block count only. -/
theorem heapBlockCreate_frame {base next : Nat} {fl : Bool} {x : Nat}
    (hx : x < base ∨ base + 8 ≤ x) (hc : x < h + 8 ∨ h + 12 ≤ x) :
    heapBlockCreate m h base u next fl x = m x := by
  simp only [heapBlockCreate]
  rw [setCurrentBlocks_frame _ _ _ hc, setFlags, store8_ne _ _ (by omega),
    setNext_frame _ _ _ (by omega), setUsed_frame _ _ _ (by omega), setMagic,
    store16_frame _ _ (by omega)]

end Fields

end MeOS.Heap
