import MeOS.FatData
import MeOS.FileTable

/-! # Opening a node when memory runs out

`fat_fs_open` sets the loaded flag before it loads, and never takes it back. Every value
that `fat_fs_find_next_cluster` answers is a link or an end, failures included, so the only
failure the loader knows is that of `vector_insert_back`. There `vector_reserve` calls
`PANIC` first. Here the heap answers each `realloc` from a list, and the failure branches
stand as the source has them; none of them is reached by a call that returns.
-/

namespace MeOS

open Bytes

/-! ## Layouts on the heap -/

section Layouts

variable {α : Type}

end Layouts

/-! ## Reading and writing -/

/-- `INVALID_IO`. -/
abbrev invalidIo : Nat := 4294967295

/-- The loop of `fat_fs_read` and of `fat_fs_write` over the pages `pg` on, `n` of them left. -/
def fatFsPages (transfer : FatState → Nat → Nat → FatState × Bool) (startPg address : Nat) :
    Nat → Nat → FatState → FatState × Bool
  | 0, _, s => (s, true)
  | n + 1, pg, s =>
    match transfer s (add32 startPg pg) (add32 address (mul32 4096 pg)) with
    | (s, false) => (s, false)
    | (s, true) => fatFsPages transfer startPg address n (pg + 1) s

/-- The body of `fat_fs_read` and of `fat_fs_write`. -/
def fatFsTransfer (transfer : FatState → Nat → Nat → FatState × Bool) (s : FatState)
    (file : FatNode) (start count address : Nat) : FatState × Nat :=
  if file.data.layoutLoaded = false then (s.setLastError .nodeNotOpen, invalidIo)
  else if start % 4096 ≠ 0 ∨ count % 4096 ≠ 0 then (s.setLastError .badAlign, invalidIo)
  else
    match fatFsPages transfer (start / 4096) address (ceilDivision count 4096) 0 s with
    | (s, false) => (s, invalidIo)
    | (s, true) => (s, count)

/-- `fat_fs_read`. -/
def fatFsRead (s : FatState) (mp : MountPoint) (file : FatNode) (start count address : Nat) :
    FatState × Nat :=
  fatFsTransfer (fun s page a => fatFsReadByPage s mp file.data.layout page a) s file start count
    address

/-- `fat_fs_write`. -/
def fatFsWrite (s : FatState) (mp : MountPoint) (file : FatNode) (start count address : Nat) :
    FatState × Nat :=
  fatFsTransfer (fun s page a => fatFsWriteByPage s mp file.data.layout page a) s file start count
    address

section Open

variable {s s' : FatState} {mp : MountPoint} {heap heap' : Nat → Bool} {v v' : Vector Nat}
  {node node' : FatNode} {fuel rSize rSize' c : Nat} {res : ErrorT}

end Open

end MeOS
