import MeOS.MmngrPhys

/-! # `mmngr_virtual.cpp`: page directories and page tables

A page directory and its page tables are frames of the physical memory that
the frame allocator hands out. Each holds 1024 words; a virtual address selects
one word of the directory and one word of a table. The tables are accessed at
their physical addresses, and the bitmap of the allocator is apart from them.
-/

namespace MeOS

/-! ## `vmmngr_pte.cpp` and `vmmngr_pde.cpp` -/

/-- `I86_PTE_PRESENT`, `I86_PDE_PRESENT`. -/
abbrev i86PtePresent : BitVec 32 := 1#32

/-- `I86_PTE_WRITABLE`. -/
abbrev i86PteWritable : BitVec 32 := 2#32

/-- `I86_PTE_FRAME`, `I86_PDE_FRAME`. -/
abbrev i86PteFrame : BitVec 32 := 0xFFFFF000#32

/-- `pt_entry_del_attrib`. -/
def ptEntryDelAttrib (entry attrib : BitVec 32) : BitVec 32 := entry &&& ~~~attrib

/-- `pt_entry_set_frame`. -/
def ptEntrySetFrame (entry addr : BitVec 32) : BitVec 32 := (entry &&& ~~~i86PteFrame) ||| addr

/-- `pt_entry_is_present`. -/
def ptEntryIsPresent (entry : BitVec 32) : Bool := entry &&& i86PtePresent != 0#32

/-- `pt_entry_get_frame`. -/
def ptEntryGetFrame (entry : BitVec 32) : BitVec 32 := entry &&& i86PteFrame

/-- `pd_entry_test_attrib`. -/
def pdEntryTestAttrib (e attrib : BitVec 32) : Bool := e &&& attrib == attrib

/-- `pd_entry_set_frame`. -/
def pdEntrySetFrame (e addr : BitVec 32) : BitVec 32 := (e &&& ~~~i86PteFrame) ||| addr

/-- `pd_entry_is_present`. -/
def pdEntryIsPresent (e : BitVec 32) : Bool := e &&& i86PtePresent != 0#32

/-- `pd_entry_get_frame`. -/
def pdEntryGetFrame (e : BitVec 32) : BitVec 32 := e &&& i86PteFrame

/-! ## State -/

/-- The frame allocator, the words of the memory by their addresses, and
`current_directory`. -/
structure VmState where
  phys : PhysState
  memory : Nat → BitVec 32
  currentDirectory : BitVec 32

/-- `*p = value`. -/
def VmState.store (s : VmState) (p : Nat) (value : BitVec 32) : VmState :=
  { s with memory := Function.update s.memory p value }

/-- `memset(base, 0, length)`. -/
def VmState.clear (s : VmState) (base length : Nat) : VmState :=
  { s with memory := fun p => if base ≤ p ∧ p < base + length then 0#32 else s.memory p }

/-! ## Lookup -/

/-- `PAGE_DIR_INDEX`. -/
def pageDirIndex (x : BitVec 32) : Nat := ((x >>> 22) &&& 0x3ff#32).toNat

/-- `PAGE_TABLE_INDEX`. -/
def pageTableIndex (x : BitVec 32) : Nat := ((x >>> 12) &&& 0x3ff#32).toNat

/-- `vmmngr_ptable_lookup_entry`. -/
def vmmngrPtableLookupEntry (p addr : BitVec 32) : Option Nat :=
  if p ≠ 0#32 then some (p.toNat + 4 * pageTableIndex addr) else none

/-- `vmmngr_pdirectory_lookup_entry`. -/
def vmmngrPdirectoryLookupEntry (p addr : BitVec 32) : Option Nat :=
  if p ≠ 0#32 then some (p.toNat + 4 * pageDirIndex addr) else none

/-- `vmmngr_get_phys_addr`. The present bits are not looked at. -/
def vmmngrGetPhysAddr (s : VmState) (addr : BitVec 32) : BitVec 32 :=
  match vmmngrPdirectoryLookupEntry s.currentDirectory addr with
  | none => 0#32
  | some e =>
    match vmmngrPtableLookupEntry (pdEntryGetFrame (s.memory e)) addr with
    | none => 0#32
    | some page => ptEntryGetFrame (s.memory page) + (addr &&& 0xfff#32)

/-- `vmmngr_is_page_present`. -/
def vmmngrIsPagePresent (s : VmState) (addr : BitVec 32) : Bool :=
  match vmmngrPdirectoryLookupEntry s.currentDirectory addr with
  | none => false
  | some e =>
    if pdEntryIsPresent (s.memory e) = false then false
    else
      match vmmngrPtableLookupEntry (pdEntryGetFrame (s.memory e)) addr with
      | none => false
      | some page => ptEntryIsPresent (s.memory page)

/-! ## Mapping -/

/-- `vmmngr_create_table`. -/
def vmmngrCreateTable (s : VmState) (dir addr flags : BitVec 32) : VmState × ErrorT :=
  match vmmngrPdirectoryLookupEntry dir addr with
  | none => (s, .occur)
  | some entry =>
    if pdEntryIsPresent (s.memory entry) = false then
      let (phys, table) := pmmngrAllocBlock s.phys
      let s := { s with phys := phys }
      if table = 0 then
        (s, .occur) -- not enough memory
      else
        let s := s.clear table 4096
        let s := s.store entry (pdEntrySetFrame (s.memory entry) (BitVec.ofNat 32 table))
        let s := s.store entry (s.memory entry ||| flags)
        (s, .ok)
    else
      (s, .ok)

/-- The rest of `vmmngr_map_page` when there is a table; `e` is the entry of the directory. -/
def mapInTable (s : VmState) (e : Nat) (phys virt flags : BitVec 32) : VmState × ErrorT :=
  match vmmngrPtableLookupEntry (pdEntryGetFrame (s.memory e)) virt with
  | none => (s, .occur)
  | some page =>
    let s := s.store page (s.memory page ||| flags)
    let s := s.store page (ptEntrySetFrame (s.memory page) phys)
    (s, .ok)

/-- `vmmngr_map_page`; the flush of the TLB has no effect on the tables. A null directory is
dereferenced. -/
def vmmngrMapPage (s : VmState) (dir phys virt flags : BitVec 32) : Outcome (VmState × ErrorT) :=
  match vmmngrPdirectoryLookupEntry dir virt with
  | none => .undefined
  | some e =>
    if pdEntryTestAttrib (s.memory e) i86PtePresent = false then
      match vmmngrCreateTable s dir virt flags with
      | (s, .occur) => .ret (s, .occur)
      | (s, .ok) => .ret (mapInTable s e phys virt flags)
    else
      .ret (mapInTable s e phys virt flags)

/-- `vmmngr_alloc_page_f`. -/
def vmmngrAllocPageF (s : VmState) (base flags : BitVec 32) : Outcome (VmState × ErrorT) :=
  if vmmngrIsPagePresent s base then
    vmmngrMapPage s s.currentDirectory (vmmngrGetPhysAddr s base) base flags
  else if base < 0xF0000000#32 then
    let (phys, addr) := pmmngrAllocBlock s.phys
    let s := { s with phys := phys }
    if addr = 0 then
      .ret (s, .occur)
    else
      vmmngrMapPage s s.currentDirectory (BitVec.ofNat 32 addr) base flags
  else if base = 0#32 then
    .ret (s, .occur)
  else
    -- memory mapped devices
    vmmngrMapPage s s.currentDirectory base base flags

/-- `vmmngr_free_page`; `none` is a null entry. The frame bits stay in the entry. -/
def vmmngrFreePage (s : VmState) (entry : Option Nat) : VmState × ErrorT :=
  match entry with
  | none => (s, .occur)
  | some entry =>
    let addr := ptEntryGetFrame (s.memory entry)
    let s := if addr ≠ 0#32 then { s with phys := pmmngrFreeBlock s.phys addr.toNat } else s
    let s := s.store entry (ptEntryDelAttrib (s.memory entry) i86PtePresent)
    let s := s.store entry (ptEntryDelAttrib (s.memory entry) i86PteWritable)
    (s, .ok)

/-- `vmmngr_free_page_addr`. -/
def vmmngrFreePageAddr (s : VmState) (addr : BitVec 32) : Outcome VmState :=
  match vmmngrPdirectoryLookupEntry s.currentDirectory addr with
  | none => .undefined
  | some e =>
    let table := pdEntryGetFrame (s.memory e)
    .ret (vmmngrFreePage s (vmmngrPtableLookupEntry table addr)).1

end MeOS
