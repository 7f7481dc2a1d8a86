import MeOS.FatReserve
import MeOS.FatSlots

/-! # New entries

What `fat_fs_create_node` writes: an entry with the encoded name and the first
cluster of the new node, and the first block of the node itself.
-/

namespace MeOS

open Bytes EndMarked

/-! ## Names of new entries -/

section Names

variable {name bytes : List UInt8} {behind : UInt8}

theorem padded_length (n : Nat) (h : name.length ≤ n) : (padded n name).length = n := by
  unfold padded
  rw [List.length_append, List.length_replicate]
  omega

theorem padded_head (n : Nat) (hn : 0 < n) :
    (padded n name).head? = some (name.head?.getD space) := by
  unfold padded
  cases name with
  | nil =>
    rcases Nat.exists_eq_succ_of_ne_zero hn.ne' with ⟨k, rfl⟩
    rfl
  | cons c rest => rfl

/-- The first character of an accepted name. -/
theorem validate_head (h : fatFsValidate83Name behind name = true) {c : UInt8}
    (hc : name.head? = some c) : c ≠ 0 ∧ c ≠ 0xE5 := by
  cases name with
  | nil => cases hc
  | cons c' rest =>
    obtain rfl : c' = c := Option.some.inj hc
    unfold fatFsValidate83Name at h
    split at h
    · cases h
    · rw [List.zipIdx_cons, List.all_cons, Bool.and_eq_true] at h
      have hfirst := h.1
      constructor
      · rintro rfl
        simp [belowSpace] at hfirst
      · rintro rfl
        simp [belowSpace] at hfirst

theorem validate_length (h : fatFsValidate83Name behind name = true) : name.length ≤ 11 := by
  unfold fatFsValidate83Name at h
  split at h
  · cases h
  · rename_i hle
    omega

/-- An accepted name has an encoding of 11 bytes, which starts like an entry in
use. -/
theorem generateShortName_accepted (h : fatFsValidate83Name behind name = true) :
    ∃ bytes, fatFsGenerateShortName name = some bytes ∧ bytes.length = 11 ∧
      ∃ c, bytes.head? = some c ∧ c ≠ 0 ∧ c ≠ 0xE5 := by
  have hlen := validate_length h
  have hbase : ((name.take 8).takeWhile (· ≠ dot)).length ≤ 8 := by
    refine (List.takeWhile_prefix _).length_le.trans ?_
    rw [List.length_take]
    omega
  -- the first byte is the first character, or a space for an empty base
  have hhead : ∀ c, ((name.take 8).takeWhile (· ≠ dot)).head?.getD space = c →
      c ≠ 0 ∧ c ≠ 0xE5 := by
    rintro c rfl
    cases hb : ((name.take 8).takeWhile (· ≠ dot)).head? with
    | none => decide
    | some c =>
      cases name with
      | nil => cases hb
      | cons c' rest =>
        rw [List.take_succ_cons, List.takeWhile_cons] at hb
        split at hb
        · obtain rfl : c' = c := Option.some.inj hb
          exact validate_head h rfl
        · cases hb
  unfold fatFsGenerateShortName
  rw [if_neg (by omega)]
  dsimp only
  split
  · exact ⟨_, rfl, padded_length 11 (by omega), _, padded_head 11 (by decide), hhead _ rfl⟩
  · refine ⟨_, rfl, ?_, ?_⟩
    · rw [List.length_append, padded_length 8 hbase, padded_length 3]
      rw [List.length_take]
      omega
    · refine ⟨_, ?_, hhead _ rfl⟩
      rw [List.head?_append, padded_head 8 (by decide)]
      rfl

end Names

/-! ## New entries -/

/-- The first cluster of an entry. -/
def slotCluster (e : Slot) : Nat := fatFsGetEntryDataCluster (slotMem e) 0

/-- The name of an entry. -/
def slotName (e : Slot) : List UInt8 := entryName (slotMem e) 0

/-- What is read back from the two halves of a cluster number. -/
def halvesOf (cluster : Nat) : Nat :=
  add32 (cluster % 65536) (((cluster >>> 16) % 65536 &&& 4095) % 65536 &&& fatMask)

section Entry

variable {s : FatState} {m : Mem} {a r : Nat} {node : FatNode} {bytes : List UInt8}

theorem slotName_slotAt : slotName (slotAt m a) = entryName m a := by
  unfold slotName entryName
  refine List.map_congr_left fun k hk => ?_
  have hk' := List.mem_range.mp hk
  rw [Nat.zero_add]
  exact dif_pos (by omega)

theorem halvesOf_eq (hr : r < 268435456) : halvesOf r = r % 65536 + r / 65536 := by
  unfold halvesOf
  have hhigh : r >>> 16 = r / 65536 := Nat.shiftRight_eq_div_pow r 16
  have hmask : r / 65536 % 65536 &&& 4095 = r / 65536 := by
    rw [Nat.and_two_pow_sub_one_eq_mod _ 12]
    omega
  rw [hhigh, hmask, and_fatMask, add32_eq (by omega)]
  omega

theorem storeBytes_frame {x : Nat} (h : x < a ∨ a + bytes.length ≤ x) :
    storeBytes m a bytes x = m x := by
  unfold storeBytes
  rw [if_neg (by omega)]

theorem storeBytes_inside {k : Nat} (h : k < bytes.length) :
    storeBytes m a bytes (a + k) = bytes.getD k 0 := by
  unfold storeBytes
  rw [if_pos (by omega), Nat.add_sub_cancel_left]

/-- The name of an entry, byte by byte. -/
theorem entryName_bytes (hlen : bytes.length = 11)
    (h : ∀ k < bytes.length, m (a + k) = bytes.getD k 0) : entryName m a = bytes := by
  apply List.ext_getElem
  · simp [entryName, hlen]
  · intro k hk hk'
    simp only [entryName, List.getElem_map, List.getElem_range]
    rw [h k hk', List.getD_eq_getElem?_getD, List.getElem?_eq_getElem hk', Option.getD_some]

/-- `fat_fs_create_short_entry_from_node` writes an entry with the node's name,
first cluster and attributes. -/
theorem createShortEntry_ok (s : FatState) (a : Nat) (hr : node.data.layout.head? = some r)
    (hname : fatFsGenerateShortName node.name = some bytes) (hlen : bytes.length = 11) :
    ∃ m, fatFsCreateShortEntryFromNode s a node = (s.setMem m, .ok) ∧
      (∀ x, x < a ∨ a + 32 ≤ x → m x = s.mem x) ∧ entryName m a = bytes ∧
      fatFsGetEntryDataCluster m a = halvesOf r ∧
      m (a + 11) = UInt8.ofNat (vfsToFatAttributes node.attributes) := by
  unfold fatFsCreateShortEntryFromNode
  rw [hr, hname]
  refine ⟨_, rfl, ?_, ?_, ?_, ?_⟩
  · intro x hx
    simp (disch := omega) only [store8_ne, store16_frame, store32_frame, storeBytes_frame]
  · refine entryName_bytes hlen fun k hk => ?_
    simp (disch := omega) only [store8_ne, store16_frame, store32_frame]
    exact storeBytes_inside hk
  · unfold fatFsGetEntryDataCluster halvesOf
    congr 1
    · rw [load16_store8_apart _ _ (by omega), load16_store16_apart _ _ (by omega), load16_store16]
    · congr 1
      rw [load16_store8_apart _ _ (by omega), load16_store16]
  · simp (disch := omega) only [store8_ne, store16_frame, store32_frame, storeBytes_frame]
    exact store8_same _ _ _

end Entry

/-! ## The first block -/

/-- Nothing of cluster `c` is at `x`. -/
def OffCluster (mp : MountPoint) (c x : Nat) : Prop :=
  x < clusterAddr mp c ∨ clusterAddr mp c + 4096 ≤ x

/-- Cluster `c` starts with the entries `.` and `..`. -/
structure DotEntries (d : Mem) (mp : MountPoint) (c : Nat) : Prop where
  self : slotName (slots d mp c 0) = padded 11 [dot]
  parent : slotName (slots d mp c 1) = padded 11 [dot, dot]

/-- The directory with the two nodes that it gets for the `.` and `..` of a new
directory. -/
def FatNode.addDots (directory : FatNode) : FatNode :=
  (directory.addChild (dotNode (padded 11 [dot]))).addChild (dotNode (padded 11 [dot, dot]))

section Block

variable {s t : FatState} {m m' : Mem} {mp : MountPoint} {a c j n r parent : Nat}
  {newNode directory : FatNode} {entry : Mem}

/-- Data clusters do not overlap, as seen from the bytes of one. -/
theorem offCluster_of_ne (hv : Volume mp n) (hc : DataCluster n c) (hr : 1 ≤ r ∧ r < n)
    (hne : r ≠ c) : ∀ x, clusterAddr mp c ≤ x → x < clusterAddr mp c + 4096 →
      OffCluster mp r x := by
  intro x hlo hhi
  unfold OffCluster
  rcases clusterAddr_apart hv hr hc hne with hbelow | habove
  · right
    omega
  · left
    omega

/-- The block of a new directory starts with its two dot entries. -/
theorem initializeDirectory_frame {x : Nat} (hx : x < a ∨ a + 64 ≤ x) :
    fatFsInitializeDirectory m parent entry a x = m x := by
  have hlen (name : List UInt8) (h : name.length ≤ 11) : (padded 11 name).length = 11 :=
    padded_length 11 h
  unfold fatFsInitializeDirectory
  rw [store16_frame _ _ (by omega), store16_frame _ _ (by omega),
    storeBytes_frame (by rw [hlen _ (by decide)]; omega), blit_frame _ _ _ (by omega),
    storeBytes_frame (by rw [hlen _ (by decide)]; omega), blit_frame _ _ _ (by omega)]

/-- In it these two are in use, and nothing else. -/
theorem initializeDirectory_head (m : Mem) (a j : Nat) (hj : j < 128) :
    fatFsInitializeDirectory (fill m a 4096 0) parent entry a (a + 32 * j) =
      if j < 2 then dot else 0 := by
  rcases Nat.lt_or_ge j 2 with hlt | hge
  · rw [if_pos hlt]
    unfold fatFsInitializeDirectory
    rcases (by omega : j = 0 ∨ j = 1) with rfl | rfl
    · simp (disch := simp [padded]; try omega) only [store16_frame, storeBytes_frame, blit_frame]
      exact storeBytes_inside (k := 0) (by decide)
    · simp (disch := omega) only [store16_frame]
      exact storeBytes_inside (k := 0) (by decide)
  · rw [if_neg (by omega), initializeDirectory_frame (by omega)]
    exact fill_inside _ _ (by omega) (by omega)

/-- These two are `.` and `..`. -/
theorem initializeDirectory_names :
    entryName (fatFsInitializeDirectory m parent entry a) a = padded 11 [dot] ∧
      entryName (fatFsInitializeDirectory m parent entry a) (a + 32) = padded 11 [dot, dot] := by
  have hself : (padded 11 [dot]).length = 11 := by decide
  have hparent : (padded 11 [dot, dot]).length = 11 := by decide
  unfold fatFsInitializeDirectory
  constructor
  · refine entryName_bytes hself fun k hk => ?_
    simp (disch := omega) only [store16_frame, storeBytes_frame, blit_frame]
    exact storeBytes_inside hk
  · refine entryName_bytes hparent fun k hk => ?_
    simp (disch := omega) only [store16_frame]
    exact storeBytes_inside hk

theorem put_outside {x : Nat} (hx : OffCluster mp c x) :
    (t.put (dataClusterLba mp c) a).disk x = t.disk x := by
  unfold OffCluster clusterAddr at hx
  rw [FatState.put_disk]
  apply blit_frame
  simp only [pageCacheSize]
  exact hx

/-- `fat_fs_initialize_node_cluster` when nothing fails. -/
theorem initializeNodeCluster_ok (newNode : FatNode) (entry : Mem) (hmp : Mounted mp)
    (hinv : CacheInv s.files) (hu : Using s t c) (hcalm : NoFailure t)
    (hlayout : directory.data.layout ≠ []) :
    ∃ t' directory', fatFsInitializeNodeCluster t mp newNode directory entry
        (cellAddr s.files c) = .ret (t', directory', true) ∧ Using s t' c ∧
      directory' = (if newNode.attributes &&& 7 = vfsDirectory then directory.addDots
        else directory) ∧
      (∀ x, OffCluster mp (fatFsGetEntryDataCluster entry 0) x → t'.disk x = t.disk x) ∧
      (∀ j < 128, slots t'.disk mp (fatFsGetEntryDataCluster entry 0) j 0 =
        if newNode.attributes &&& 7 = vfsDirectory ∧ j < 2 then dot else 0) ∧
      (newNode.attributes &&& 7 = vfsDirectory →
        DotEntries t'.disk mp (fatFsGetEntryDataCluster entry 0)) := by
  have hdev : t.device 0 = true := hcalm.device 0
  have hdev' : t.device 1 = true := hcalm.device 1
  generalize hf : fatFsGetEntryDataCluster entry 0 = f
  have hfetch : Using s (t.fetch (dataClusterLba mp f) (cellAddr s.files c)) c := hu.fetch hinv
  have hclear : Using s ((t.fetch (dataClusterLba mp f) (cellAddr s.files c)).setMem
      (fill (t.fetch (dataClusterLba mp f) (cellAddr s.files c)).mem
        (cellAddr s.files c) 4096 0)) c :=
    hfetch.setMem hinv fun x hx => fill_frame _ _ hx
  unfold fatFsInitializeNodeCluster
  simp only [hf, readByDataCluster_eq hmp, hdev, if_pos]
  by_cases hdir : newNode.attributes &&& 7 = vfsDirectory
  · -- a directory starts with its dot entries
    rcases List.exists_cons_of_ne_nil hlayout with ⟨parent, rest, hrest⟩
    simp only [hdir, if_pos, hrest, List.head?_cons, Outcome.pure_eq, Outcome.ret_bind,
      writeByDataCluster_eq hmp, FatState.setMem_device, FatState.fetch_device, hdev']
    refine ⟨_, _, rfl, (hclear.setMem hinv ?_).put, rfl, ?_, ?_, fun _ => ⟨?_, ?_⟩⟩
    · intro x hx
      apply initializeDirectory_frame
      simp only [pageCacheSize] at hx
      omega
    · intro x hx
      exact put_outside hx
    · intro j hj
      rw [put_slots hj]
      show fatFsInitializeDirectory _ _ _ _ (_ + 32 * j + 0) = _
      rw [Nat.add_zero, FatState.setMem_mem, initializeDirectory_head _ _ _ hj]
      simp
    · rw [put_slots (by decide), slotName_slotAt]
      exact initializeDirectory_names.1
    · rw [put_slots (by decide), slotName_slotAt]
      exact initializeDirectory_names.2
  · simp only [hdir, if_false, Outcome.pure_eq, Outcome.ret_bind, writeByDataCluster_eq hmp,
      FatState.setMem_device, FatState.fetch_device, hdev', if_pos, false_and]
    refine ⟨_, _, rfl, hclear.put, rfl, ?_, ?_, fun hdir' => hdir'.elim⟩
    · intro x hx
      exact put_outside hx
    · intro j hj
      rw [put_slots hj]
      exact fill_inside _ _ (by omega) (by omega)

end Block

end MeOS
