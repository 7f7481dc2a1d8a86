import MeOS.CachedReadLaw
import MeOS.FatNameLaw

/-! # Writing the metadata of a node

`fat_node_write` puts the length and the encoded name of a node into the cached page
of its directory. The index of the entry is added to the address of the page as it is,
not times the size of an entry, so the bytes go to the entry of the node for index 0
only.
-/

namespace MeOS

open Bytes

/-- `fat_node_write`; `stack` is what the name buffer holds before it is written. -/
def fatNodeWrite (s : FileState) (stack : Nat → UInt8) (fd : Nat) (node : FatNode) :
    FileState × Nat :=
  let page := node.data.metadataCluster
  let offset := node.data.metadataIndex
  let entry := add32 (pageCacheGetBuffer s fd page) offset
  let m := store32 s.mem (entry + 28) node.fileLength
  -- a name that is too long leaves the buffer as it is
  let buffer := (fatFsGenerateShortName node.name).getD ((List.range 11).map stack)
  ({ s with mem := storeBytes m entry buffer }, 32)

/-- Entry `i` of the block at `base` has the name and the length, and nothing else has
changed from `m` to `m'`. -/
structure EntryUpdated (m m' : Mem) (base i : Nat) (name : List UInt8) (length : Nat) : Prop where
  name : fatFsRetrieveShortName (entryName m' (base + 32 * i)) = name
  size : entryFileSize m' (base + 32 * i) = length
  frame : ∀ x, x < base + 32 * i ∨ base + 32 * i + 11 ≤ x →
    x < base + 32 * i + 28 ∨ base + 32 * i + 32 ≤ x → m' x = m x

/-- The name bytes of entry `i` when `length` has been written `i + 28` bytes behind
`base`: its last byte is the first one of entry 1. -/
def shownName (m : Mem) (base i length : Nat) : List UInt8 :=
  if i = 1 then byteOf length 3 :: (entryName m (base + 32)).tail else entryName m (base + 32 * i)

/-- The bytes of the call are where it writes them, and entry `i` shows name and length. -/
structure WrittenAlready (m : Mem) (base i : Nat) (bytes name : List UInt8) (length : Nat) :
    Prop where
  nameBytes : ∀ k < 11, m (base + i + k) = bytes.getD k 0
  lengthBytes : ∀ k < 4, i + 28 + k ≠ 32 * i → m (base + i + 28 + k) = byteOf length k
  name : fatFsRetrieveShortName (shownName m base i length) = name
  size : entryFileSize m (base + 32 * i) = length

section Write

variable {s : FileState} {stack : Nat → UInt8} {fd c : Nat} {node : FatNode} {m : Mem}
  {base i length : Nat} {bytes name : List UInt8}

/-- What the call leaves in memory, with the entry at `base + i`. -/
def nodeWritten (m : Mem) (base i length : Nat) (bytes : List UInt8) : Mem :=
  storeBytes (store32 m (base + i + 28) length) (base + i) bytes

theorem nodeWritten_name (hbytes : bytes.length = 11) {k : Nat} (hk : k < 11) :
    nodeWritten m base i length bytes (base + i + k) = bytes.getD k 0 :=
  storeBytes_inside (by omega)

theorem nodeWritten_length (m : Mem) (base i length : Nat) (hbytes : bytes.length = 11) {k : Nat}
    (hk : k < 4) :
    nodeWritten m base i length bytes (base + i + 28 + k) = byteOf length k := by
  unfold nodeWritten
  rw [storeBytes_frame (by omega), store32, if_pos (by omega), Nat.add_sub_cancel_left]

theorem nodeWritten_frame (hbytes : bytes.length = 11) {x : Nat}
    (hname : x < base + i ∨ base + i + 11 ≤ x) (hlen : x < base + i + 28 ∨ base + i + 32 ≤ x) :
    nodeWritten m base i length bytes x = m x := by
  unfold nodeWritten
  rw [storeBytes_frame (by omega), store32_frame _ _ (by omega)]

/-- A decoded name has at most 12 characters. -/
theorem retrieveShortName_length (bytes : List UInt8) :
    (fatFsRetrieveShortName bytes).length ≤ 12 := by
  have hbase : ((bytes.take 8).filter (· ≠ space)).length ≤ 8 :=
    (List.length_filter_le _ _).trans (List.length_take_le _ _)
  have hext : (((bytes.drop 8).take 3).filter (· ≠ space)).length ≤ 3 :=
    (List.length_filter_le _ _).trans (List.length_take_le _ _)
  unfold fatFsRetrieveShortName
  refine (takeWhile_length _).trans ?_
  split
  · omega
  · rw [List.length_append, List.length_cons]
    omega

/-- The encoded name, and what is read back of it. -/
theorem writtenName_iff (stack : Nat → UInt8) (name : List UInt8) :
    ((fatFsGenerateShortName name).getD ((List.range 11).map stack)).length = 11 ∧
      (fatFsRetrieveShortName ((fatFsGenerateShortName name).getD ((List.range 11).map stack)) =
        name ↔ Storable name) := by
  cases hencode : fatFsGenerateShortName name with
  | some bytes => exact ⟨generateShortName_length hencode, decode_encode_iff hencode⟩
  | none =>
    have hlong : 12 < name.length := by
      unfold fatFsGenerateShortName at hencode
      split at hencode
      · omega
      · dsimp only at hencode
        split at hencode <;> cases hencode
    refine ⟨by simp, ?_, ?_⟩
    · intro hname
      have hshort := retrieveShortName_length ((List.range 11).map stack)
      rw [Option.getD_none] at hname
      rw [hname] at hshort
      omega
    · rintro ⟨_, ⟨_, hle⟩ | ⟨first, extension, rfl, _, ⟨_, hfirst⟩, _, hext⟩⟩
      · omega
      · rw [List.length_append, List.length_cons] at hlong
        omega

/-- Index 0: the call writes the entry of the node. -/
theorem entryUpdated_zero (hbytes : bytes.length = 11) (hlen : length < 4294967296) :
    EntryUpdated m (nodeWritten m base 0 length bytes) base 0 name length ↔
      fatFsRetrieveShortName bytes = name := by
  have hname : entryName (nodeWritten m base 0 length bytes) (base + 32 * 0) = bytes := by
    refine List.ext_getElem (by simp [entryName, hbytes]) fun k hk hk' => ?_
    simp only [entryName, List.getElem_map, List.getElem_range]
    rw [show base + 32 * 0 + k = base + 0 + k by omega, nodeWritten_name hbytes (by omega),
      List.getD_eq_getElem?_getD, List.getElem?_eq_getElem hk', Option.getD_some]
  constructor
  · intro h
    rw [← h.name, hname]
  · intro h
    refine ⟨by rw [hname, h], ?_, fun x h₁ h₂ => nodeWritten_frame hbytes (by omega) (by omega)⟩
    have hload : load32 (nodeWritten m base 0 length bytes) (base + 28) =
        load32 (store32 m (base + 28) length) (base + 28) :=
      load32_congr fun x h₁ h₂ => storeBytes_frame (by omega)
    rw [load32_store32, Nat.mod_eq_of_lt hlen] at hload
    exact hload

/-- Any other index: of the entry of the node, the call reaches at most the first byte of
the name. -/
theorem nodeWritten_entry (m : Mem) (base length : Nat) (hbytes : bytes.length = 11)
    (hi : i ≠ 0) :
    entryName (nodeWritten m base i length bytes) (base + 32 * i) = shownName m base i length ∧
      entryFileSize (nodeWritten m base i length bytes) (base + 32 * i) =
        entryFileSize m (base + 32 * i) := by
  refine ⟨?_, load32_congr fun x h₁ h₂ => nodeWritten_frame hbytes (by omega) (by omega)⟩
  have hsame : ∀ k < 11, i ≠ 1 ∨ k ≠ 0 →
      nodeWritten m base i length bytes (base + 32 * i + k) = m (base + 32 * i + k) :=
    fun k hk hne => nodeWritten_frame hbytes (by omega) (by omega)
  unfold shownName
  split
  · -- the last byte of the length lands on the first one of the name
    rename_i hone
    subst hone
    have hfirst := nodeWritten_length m base 1 length hbytes (show 3 < 4 by decide)
    have hrange : List.range 11 = 0 :: (List.range 10).map Nat.succ := List.range_succ_eq_map
    unfold entryName
    rw [hrange]
    simp only [List.map_cons, List.tail_cons]
    rw [show nodeWritten m base 1 length bytes (base + 32 * 1 + 0) = byteOf length 3 from hfirst,
      List.cons.injEq]
    refine ⟨rfl, List.map_congr_left fun k hk => ?_⟩
    obtain ⟨j, hj, rfl⟩ := List.mem_map.mp hk
    have hj' := List.mem_range.mp hj
    exact hsame (j + 1) (by omega) (Or.inr (by omega))
  · rename_i hone
    refine List.map_congr_left fun k hk => ?_
    exact hsame k (List.mem_range.mp hk) (Or.inl hone)

theorem entryUpdated_other (hbytes : bytes.length = 11) (hi : i ≠ 0) :
    EntryUpdated m (nodeWritten m base i length bytes) base i name length ↔
      WrittenAlready m base i bytes name length := by
  rcases nodeWritten_entry m base length hbytes hi with ⟨hname, hsize⟩
  constructor
  · intro h
    refine ⟨fun k hk => ?_, fun k hk hne => ?_, by rw [← hname, h.name], by rw [← hsize, h.size]⟩
    · rw [← nodeWritten_name hbytes hk]
      exact (h.frame _ (by omega) (by omega)).symm
    · rw [← nodeWritten_length m base i length hbytes hk]
      exact (h.frame _ (by omega) (by omega)).symm
  · intro h
    refine ⟨by rw [hname, h.name], by rw [hsize, h.size], fun x h₁ h₂ => ?_⟩
    by_cases hin : base + i ≤ x ∧ x < base + i + 11
    · obtain ⟨k, rfl⟩ := Nat.exists_eq_add_of_le hin.1
      rw [nodeWritten_name hbytes (by omega), h.nameBytes k (by omega)]
    by_cases hlen : base + i + 28 ≤ x ∧ x < base + i + 32
    · obtain ⟨k, rfl⟩ := Nat.exists_eq_add_of_le hlen.1
      rw [nodeWritten_length m base i length hbytes (by omega),
        h.lengthBytes k (by omega) (by omega)]
    · exact nodeWritten_frame hbytes (by omega) (by omega)

/-- The call on a page that is cached. -/
theorem nodeWrite_eq (hinv : CacheInv s) (hopen : OpenFile s fd)
    (hheld : Holds s fd node.data.metadataCluster c) (hi : node.data.metadataIndex < 128) :
    (fatNodeWrite s stack fd node).1.mem =
      nodeWritten s.mem (cellAddr s c) node.data.metadataIndex node.fileLength
        ((fatFsGenerateShortName node.name).getD ((List.range 11).map stack)) := by
  have hlt := (hinv.cells hheld).1
  have hb := hinv.cell_bounds (show c < pageCacheNumBuffers s by omega)
  simp only [pageCacheSize] at hb
  unfold fatNodeWrite nodeWritten
  dsimp only
  rw [hinv.getBuffer_of_holds hopen hheld, add32_eq (by omega)]

/-- On a cached metadata page, the call updates the entry of the node and nothing else
exactly when the entry is the first one and the name can be stored, or when all that it
writes is there already and the entry of the node shows name and length. -/
theorem nodeWrite_entry_iff (hinv : CacheInv s) (hopen : OpenFile s fd)
    (hheld : Holds s fd node.data.metadataCluster c) (hi : node.data.metadataIndex < 128)
    (hlen : node.fileLength < 4294967296) :
    EntryUpdated s.mem (fatNodeWrite s stack fd node).1.mem (cellAddr s c)
        node.data.metadataIndex node.name node.fileLength ↔
      (node.data.metadataIndex = 0 ∧ Storable node.name) ∨
      (node.data.metadataIndex ≠ 0 ∧
        WrittenAlready s.mem (cellAddr s c) node.data.metadataIndex
          ((fatFsGenerateShortName node.name).getD ((List.range 11).map stack)) node.name
          node.fileLength) := by
  rcases writtenName_iff stack node.name with ⟨hbytes, hdecode⟩
  rw [nodeWrite_eq hinv hopen hheld hi]
  by_cases hzero : node.data.metadataIndex = 0
  · rw [hzero, entryUpdated_zero hbytes hlen, hdecode]
    simp
  · rw [entryUpdated_other hbytes hzero]
    simp [hzero]

end Write

/-- A file of five bytes at entry `i` of a directory in cluster 0. -/
def fileAt (i : Nat) : FatNode := ⟨[65], 9, 14, 5, ⟨[3], false, 0, i⟩, []⟩

/-- The entry of the file is the first one of the cached page. -/
theorem nodeWrite_entry_iff_first :
    EntryUpdated onePage.mem (fatNodeWrite onePage (fun _ => 0) 0 (fileAt 0)).1.mem
        (cellAddr onePage 0) 0 [65] 5 ↔
      (0 = 0 ∧ Storable [65]) ∨
      (0 ≠ 0 ∧ WrittenAlready onePage.mem (cellAddr onePage 0) 0
        ((fatFsGenerateShortName [65]).getD ((List.range 11).map fun _ => 0)) [65] 5) :=
  nodeWrite_entry_iff onePage_request.inv ⟨_, rfl, by decide⟩
    (onePage_holds.mpr ⟨rfl, rfl, rfl⟩) (show (fileAt 0).data.metadataIndex < 128 by decide)
    (by decide)

/-- With the entry behind it, the name of the file goes into the first entry. -/
theorem nodeWrite_hits_neighbour :
    ¬ EntryUpdated onePage.mem (fatNodeWrite onePage (fun _ => 0) 0 (fileAt 1)).1.mem
        (cellAddr onePage 0) 1 (fileAt 1).name (fileAt 1).fileLength := by
  intro h
  have hsame := h.frame (cellAddr onePage 0 + 1) (Or.inl (by decide)) (Or.inl (by decide))
  revert hsame
  decide

end MeOS
