import MeOS.Types
import MeOS.Lib.Traced
import Mathlib.Data.Nat.Bitwise

/-! # `sock_buf.cpp` and `net.cpp`: packet buffers

A socket buffer is a block of memory from `head` to `tail` with a pointer `data`
that each layer moves over its header; next to it are two addresses for each
layer. No function compares `data` with `tail`. The block is allocated by the
caller of `sockBufInit`: the allocation succeeds.
-/

namespace MeOS

open Bytes Traced

/-! ## Byte order -/

/-- `htons`, on the little-endian host; `ntohs` is the same. -/
def htons (host : Nat) : Nat := ((host <<< 8) ||| (host >>> 8)) % 65536

/-- `ntohs`. -/
abbrev ntohs (net : Nat) : Nat := htons net

/-- The 16-bit number at `a` as it is on the wire, high byte first. -/
def wireWord (m : Mem) (a : Nat) : Nat := 256 * (m a).toNat + (m (a + 1)).toNat

section Order

variable {m : Mem} {a v : Nat}

/-- Swapping the bytes of a word. -/
theorem htons_eq (h : v < 65536) : htons v = v % 256 * 256 + v / 256 := by
  have hshift : v >>> 8 = v / 256 := Nat.shiftRight_eq_div_pow v 8
  have hlt : v / 256 < 2 ^ 8 := by omega
  have hor := Nat.shiftLeft_add_eq_or_of_lt hlt v
  rw [htons, hshift, ← hor, Nat.shiftLeft_eq]
  omega

theorem htons_lt (v : Nat) : htons v < 65536 := Nat.mod_lt _ (by decide)

theorem htons_htons (h : v < 65536) : htons (htons v) = v := by
  rw [htons_eq (htons_lt v), htons_eq h]
  omega

theorem ntohs_load16 : ntohs (load16 m a) = wireWord m a := by
  have hlow := (m a).toNat_lt
  have hhigh := (m (a + 1)).toNat_lt
  rw [ntohs, htons_eq (load16_lt m a)]
  simp only [load16, wireWord]
  omega

end Order

/-! ## The buffer -/

/-- `sock_buf`; a `net_addr` is the first bytes of a small memory. -/
structure SockBuf where
  srcAddrs : Nat → Mem
  dstAddrs : Nat → Mem
  head : Nat
  data : Nat
  tail : Nat

/-- `sock_buf_init`, on a block at `block`. -/
def sockBufInit (block len : Nat) : SockBuf where
  srcAddrs := fun _ _ => 0
  dstAddrs := fun _ _ => 0
  head := block
  data := block
  tail := block + len

/-- `sock_buf_init_recv`, with the `len` bytes of `data`. -/
def sockBufInitRecv (block len : Nat) (data : Mem) : Prog SockBuf := do
  let buf := sockBufInit block len
  writeBytes buf.data len data
  pure buf

/-- `sock_buf_put`. -/
def sockBufPut (buf : SockBuf) (data : Mem) (len : Nat) : Prog SockBuf := do
  writeBytes buf.data len data
  pure { buf with data := buf.data + len }

/-- `sock_buf_pull`; the bytes that are copied are the second part of the result. -/
def sockBufPull (buf : SockBuf) (len : Nat) : Prog (SockBuf × List UInt8) := do
  let buf := { buf with data := buf.data - len }
  let bytes ← readBytes buf.data len
  pure (buf, bytes)

/-- `sock_buf_push`. -/
def sockBufPush (buf : SockBuf) (len : Nat) : SockBuf := { buf with data := buf.data + len }

/-- `sock_buf_pop`. -/
def sockBufPop (buf : SockBuf) (len : Nat) : SockBuf := { buf with data := buf.data - len }

/-- `sock_buf_reset`. -/
def sockBufReset (buf : SockBuf) : SockBuf := { buf with data := buf.head }

/-- `sock_buf_get_header_len`. -/
def sockBufGetHeaderLen (buf : SockBuf) : Nat := buf.data - buf.head

/-- `memcpy` of some bytes to the beginning of a `net_addr`. -/
def copyAddr (old : Mem) (bytes : List UInt8) : Mem := fun i => bytes.getD i (old i)

/-- `memcpy(buf->src_addrs[layer].addr, …)`. -/
def SockBuf.setSrc (buf : SockBuf) (layer : Nat) (bytes : List UInt8) : SockBuf :=
  { buf with srcAddrs := Function.update buf.srcAddrs layer (copyAddr (buf.srcAddrs layer) bytes) }

/-- `memcpy(buf->dst_addrs[layer].addr, …)`. -/
def SockBuf.setDst (buf : SockBuf) (layer : Nat) (bytes : List UInt8) : SockBuf :=
  { buf with dstAddrs := Function.update buf.dstAddrs layer (copyAddr (buf.dstAddrs layer) bytes) }

section Buffer

variable {buf : SockBuf} {m data : Mem} {len layer i n a : Nat} {bytes : List UInt8}

@[simp] theorem setSrc_data : (buf.setSrc layer bytes).data = buf.data := rfl

@[simp] theorem setDst_data : (buf.setDst layer bytes).data = buf.data := rfl

@[simp] theorem setSrc_head : (buf.setSrc layer bytes).head = buf.head := rfl

@[simp] theorem setDst_head : (buf.setDst layer bytes).head = buf.head := rfl

@[simp] theorem sockBufPush_data : (sockBufPush buf len).data = buf.data + len := rfl

@[simp] theorem sockBufPush_head : (sockBufPush buf len).head = buf.head := rfl

/-- What has been put is pulled, and the pointer is where it was. -/
theorem sockBufPull_put :
    ((do let b ← sockBufPut buf data len; sockBufPull b len : Prog _).run m).value =
      (buf, (List.range len).map data) := by
  unfold sockBufPut sockBufPull
  simp only [value_bind, mem_bind, run_writeBytes, run_pure, run_readBytes, Nat.add_sub_cancel,
    Prod.mk.injEq, true_and]
  refine List.map_congr_left fun i hi => ?_
  have hlt := List.mem_range.mp hi
  rw [blit_at _ _ _ _ (by omega), Nat.zero_add]

/-- The bytes that have been copied to an address. -/
theorem copyAddr_range {old : Mem} (hi : i < n) :
    copyAddr old ((List.range n).map fun k => m (a + k)) i = m (a + i) := by
  unfold copyAddr
  rw [List.getD_eq_getElem?_getD, List.getElem?_map, List.getElem?_range hi]
  rfl

end Buffer

/-! ## Comparing addresses -/

/-- The loop of `eth_cmp_mac` and `protocol_addr_equal`, with `n` bytes left, the first of them
byte `i`; the second argument lies outside of the buffer. -/
def addrEqual (addr : Nat) (other : Mem) : Nat → Nat → Prog Bool
  | 0, _ => pure true
  | n + 1, i => do
    let b ← read8 (addr + i)
    if b ≠ other i then pure false else addrEqual addr other n (i + 1)

section Compare

variable {m other : Mem} {addr lo hi len n i : Nat}

theorem run_addrEqual_mem : ((addrEqual addr other n i).run m).mem = m := by
  induction n generalizing i with
  | zero => rfl
  | succ n ih =>
    unfold addrEqual
    rw [mem_bind, run_read8]
    by_cases hne : m (addr + i) ≠ other i
    · simp only [if_pos hne]
      rfl
    · simp only [if_neg hne]
      exact ih

/-- The comparison says whether the bytes are the same. -/
theorem run_addrEqual_value :
    ((addrEqual addr other n i).run m).value = true ↔
      ∀ j, i ≤ j → j < i + n → m (addr + j) = other j := by
  induction n generalizing i with
  | zero =>
    refine iff_of_true rfl fun j hlo hhi => ?_
    omega
  | succ n ih =>
    unfold addrEqual
    rw [value_bind, run_read8]
    by_cases hne : m (addr + i) ≠ other i
    · simp only [if_pos hne]
      refine iff_of_false (by simp) fun hall => hne (hall i (by omega) (by omega))
    · simp only [if_neg hne]
      rw [ih]
      constructor
      · intro hall j hlo hhi
        by_cases hj : j = i
        · rw [hj]
          exact not_not.mp hne
        · exact hall j (by omega) (by omega)
      · intro hall j hlo hhi
        exact hall j (by omega) (by omega)

/-- A comparison of `n` bytes stays in a buffer of `len` bytes when all of them are inside, or one
that is inside ends it. -/
def ComparedIn (len n : Nat) (bytes other : Mem) : Prop :=
  n ≤ len ∨ ∃ j < len, j < n ∧ bytes j ≠ other j

theorem staysIn_addrEqual (hle : i ≤ len) :
    StaysIn addr (addr + len) (addrEqual addr other n i) m ↔
      i + n ≤ len ∨ ∃ j < len, i ≤ j ∧ j < i + n ∧ m (addr + j) ≠ other j := by
  induction n generalizing i with
  | zero => exact iff_of_true (staysIn_pure true) (Or.inl hle)
  | succ n ih =>
    unfold addrEqual
    rw [staysIn_bind, staysIn_read8, run_read8]
    simp only [Access.Within]
    by_cases hne : m (addr + i) ≠ other i
    · simp only [if_pos hne, staysIn_pure, and_true]
      constructor
      · intro h
        exact Or.inr ⟨i, by omega, le_refl i, by omega, hne⟩
      · rintro (h | ⟨j, hj, hij, _⟩)
        · omega
        · omega
    · simp only [if_neg hne]
      constructor
      · rintro ⟨h, hrest⟩
        rcases (ih (by omega)).mp hrest with h' | ⟨j, hj, hij, hjn, hjne⟩
        · exact Or.inl (by omega)
        · exact Or.inr ⟨j, hj, by omega, by omega, hjne⟩
      · rintro (h | ⟨j, hj, hij, hjn, hjne⟩)
        · exact ⟨by omega, (ih (by omega)).mpr (Or.inl (by omega))⟩
        · have hji : j ≠ i := by
            rintro rfl
            exact hne hjne
          exact ⟨by omega, (ih (by omega)).mpr (Or.inr ⟨j, hj, by omega, by omega, hjne⟩)⟩

theorem staysIn_addrEqual_start :
    StaysIn addr (addr + len) (addrEqual addr other n 0) m ↔
      ComparedIn len n (fun k => m (addr + k)) other := by
  rw [staysIn_addrEqual (Nat.zero_le len), Nat.zero_add, ComparedIn]
  simp only [Nat.zero_le, true_and]

/-- A comparison of bytes that are all inside stays there. -/
theorem staysIn_addrEqual_of_le (hlo : lo ≤ addr) (hhi : addr + i + n ≤ hi) :
    StaysIn lo hi (addrEqual addr other n i) m := by
  induction n generalizing i with
  | zero => exact staysIn_pure true
  | succ n ih =>
    unfold addrEqual
    rw [staysIn_bind, staysIn_read8, run_read8]
    simp only [Access.Within]
    refine ⟨⟨by omega, by omega⟩, ?_⟩
    by_cases hne : m (addr + i) ≠ other i
    · simp only [if_pos hne, staysIn_pure]
    · simp only [if_neg hne]
      exact ih (by omega)

end Compare

end MeOS
