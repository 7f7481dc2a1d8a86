import MeOS.FatData
import MeOS.FatEntry
import Mathlib.Data.List.TakeWhile

/-! # Directory entries written and read back

Two encoders split a cluster number over `cluster_high` and `cluster_low`; the
decoder adds the halves without shifting the high one. Names go through the
11 bytes of the 8.3 form; the encoder looks for the dot among the first eight
characters only.
-/

namespace MeOS

open Bytes

/-! ## Cluster numbers -/

section Cluster

variable {s : FatState} {m : Mem} {a buffer n parent x : Nat} {node : FatNode} {newDir : Mem}

/-- The decoder gives back a 28-bit number exactly when its high half is zero. -/
theorem halvesOf_eq_iff (hn : n < 268435456) : halvesOf n = n ↔ n < 65536 := by
  rw [halvesOf_eq hn]
  omega

/-- An encoded name fills the name field. -/
theorem generateShortName_length {name bytes : List UInt8}
    (h : fatFsGenerateShortName name = some bytes) : bytes.length = 11 := by
  unfold fatFsGenerateShortName at h
  split at h
  · cases h
  have hbase : ((name.take 8).takeWhile (· ≠ dot)).length ≤ 8 := by
    refine (List.takeWhile_prefix _).length_le.trans ?_
    rw [List.length_take]
    omega
  dsimp only at h
  split at h
  · cases h
    exact padded_length 11 (by omega)
  · cases h
    have hextension : ((name.drop (((name.take 8).takeWhile (· ≠ dot)).length + 1)).take 3).length
        ≤ 3 := by
      rw [List.length_take]
      omega
    rw [List.length_append, padded_length 8 hbase, padded_length 3 hextension]

/-- The entry of a node, whatever its name, reads back the halves of the node's
first cluster. -/
theorem createShortEntry_cluster (s : FatState) (a : Nat)
    (hn : node.data.layout.head? = some n) :
    ∃ m, fatFsCreateShortEntryFromNode s a node = (s.setMem m, .ok) ∧
      fatFsGetEntryDataCluster m a = halvesOf n := by
  unfold fatFsCreateShortEntryFromNode
  rw [hn]
  refine ⟨_, rfl, ?_⟩
  unfold fatFsGetEntryDataCluster halvesOf
  congr 1
  · rw [load16_store8_apart _ _ (by omega), load16_store16_apart _ _ (by omega), load16_store16]
  · congr 1
    rw [load16_store8_apart _ _ (by omega), load16_store16]

/-- `storeBytes` leaves a half-word outside it. -/
theorem load16_storeBytes_apart {bytes : List UInt8} (h : x + 2 ≤ a ∨ a + bytes.length ≤ x) :
    load16 (storeBytes m a bytes) x = load16 m x := by
  apply load16_congr
  intro y hlo hhi
  apply storeBytes_frame
  omega

theorem dotName_length : (padded 11 [dot]).length = 11 := by decide

/-- The '.' entry reads like the entry it is copied from. -/
theorem initializeDirectory_dot :
    fatFsGetEntryDataCluster (fatFsInitializeDirectory m parent newDir buffer) buffer =
      fatFsGetEntryDataCluster newDir 0 := by
  have hlow : load16 (fatFsInitializeDirectory m parent newDir buffer) (buffer + 26) =
      load16 newDir 26 := by
    unfold fatFsInitializeDirectory
    dsimp only
    rw [load16_store16_apart _ _ (by omega), load16_store16_apart _ _ (by omega),
      load16_storeBytes_apart (by omega), load16_blit_apart (by omega),
      load16_storeBytes_apart (by rw [dotName_length]; omega), load16_blit_at (by omega),
      Nat.zero_add]
  have hhigh : load16 (fatFsInitializeDirectory m parent newDir buffer) (buffer + 20) =
      load16 newDir 20 := by
    unfold fatFsInitializeDirectory
    dsimp only
    rw [load16_store16_apart _ _ (by omega), load16_store16_apart _ _ (by omega),
      load16_storeBytes_apart (by omega), load16_blit_apart (by omega),
      load16_storeBytes_apart (by rw [dotName_length]; omega), load16_blit_at (by omega),
      Nat.zero_add]
  unfold fatFsGetEntryDataCluster
  rw [hlow, hhigh]

/-- The '..' entry reads back the low half and eight bits of the high half. -/
theorem initializeDirectory_dotdot :
    fatFsGetEntryDataCluster (fatFsInitializeDirectory m parent newDir buffer) (buffer + 32) =
      parent % 65536 + parent / 65536 % 256 := by
  unfold fatFsGetEntryDataCluster fatFsInitializeDirectory
  dsimp only
  rw [load16_store16_apart _ _ (by omega), load16_store16, load16_store16]
  have hshift : parent >>> 16 = parent / 65536 := Nat.shiftRight_eq_div_pow parent 16
  have hmask : parent / 65536 &&& 255 = parent / 65536 % 256 :=
    Nat.and_two_pow_sub_one_eq_mod _ 8
  rw [hshift, hmask, and_fatMask, add32_eq (by omega)]
  omega

/-- For a node whose layout starts at `n`, the built entry decodes to `n` and the
dot entries of the new directory to `n` and `parent` exactly when both numbers
fit 16 bits. -/
theorem clusterField_iff (s : FatState) (m : Mem) (a buffer : Nat)
    (hlayout : node.data.layout.head? = some n) (hn : n < 268435456)
    (hparent : parent < 268435456) :
    ∃ s', fatFsCreateShortEntryFromNode s a node = (s', .ok) ∧
      ((fatFsGetEntryDataCluster s'.mem a = n ∧
        fatFsGetEntryDataCluster
          (fatFsInitializeDirectory m parent (fun k => s'.mem (a + k)) buffer) buffer = n ∧
        fatFsGetEntryDataCluster
          (fatFsInitializeDirectory m parent (fun k => s'.mem (a + k)) buffer) (buffer + 32) =
            parent) ↔ n < 65536 ∧ parent < 65536) := by
  obtain ⟨t, hrun, hcluster⟩ := createShortEntry_cluster s a hlayout
  refine ⟨s.setMem t, hrun, ?_⟩
  have hcopy : fatFsGetEntryDataCluster (fun k => t (a + k)) 0 = fatFsGetEntryDataCluster t a := by
    unfold fatFsGetEntryDataCluster load16
    simp only [Nat.zero_add, Nat.add_assoc]
  rw [FatState.setMem_mem, initializeDirectory_dot, initializeDirectory_dotdot, hcopy,
    hcluster, halvesOf_eq_iff hn]
  omega

/-- A directory without a name and with its data from cluster `n` on. -/
def directoryAt (n : Nat) : FatNode := ⟨[], 26, 14, 0, ⟨[n], true, 2, 1⟩, []⟩

/-- A directory at cluster 7 under cluster 2. -/
theorem clusterField_iff_small :
    ∃ s', fatFsCreateShortEntryFromNode (freshState zeroFile) 0 (directoryAt 7) = (s', .ok) ∧
      ((fatFsGetEntryDataCluster s'.mem 0 = 7 ∧
        fatFsGetEntryDataCluster
          (fatFsInitializeDirectory zeroFile 2 (fun k => s'.mem (0 + k)) 4096) 4096 = 7 ∧
        fatFsGetEntryDataCluster
          (fatFsInitializeDirectory zeroFile 2 (fun k => s'.mem (0 + k)) 4096) (4096 + 32) = 2) ↔
        7 < 65536 ∧ 2 < 65536) :=
  clusterField_iff (freshState zeroFile) zeroFile 0 4096
    (show (directoryAt 7).data.layout.head? = some 7 from rfl) (by decide) (by decide)

/-- The entry of a node that starts at cluster 65536 is read as cluster 1. -/
theorem clusterField_fails :
    ∃ s', fatFsCreateShortEntryFromNode (freshState zeroFile) 0 (directoryAt 65536) = (s', .ok) ∧
      fatFsGetEntryDataCluster s'.mem 0 = 1 := by
  obtain ⟨m, hrun, hcluster⟩ := createShortEntry_cluster (freshState zeroFile) 0
    (show (directoryAt 65536).data.layout.head? = some 65536 from rfl)
  refine ⟨_, hrun, ?_⟩
  rw [FatState.setMem_mem, hcluster, halvesOf_eq (by decide)]

end Cluster

/-! ## Names -/

/-- A character of an 8.3 name: it ends neither a field nor the name. -/
def LegalChar (c : UInt8) : Prop := c ≠ space ∧ c ≠ dot ∧ c ≠ 0

section Names

variable {base extension : List UInt8}

/-- Killing the spaces of a padded field gives the name back. -/
theorem filter_padded (n : Nat) (h : ∀ c ∈ base, LegalChar c) :
    (padded n base).filter (· ≠ space) = base := by
  unfold padded
  rw [List.filter_append, List.filter_eq_self.mpr, List.filter_eq_nil_iff.mpr,
    List.append_nil]
  · intro c hc
    rw [List.eq_of_mem_replicate hc]
    simp
  · intro c hc
    simpa using (h c hc).1

/-- The two fields of an entry. -/
theorem take_fields (hbase : base.length ≤ 8) :
    (padded 8 base ++ padded 3 extension).take 8 = padded 8 base := by
  rw [List.take_append_of_le_length (by rw [padded_length 8 hbase]),
    List.take_of_length_le (by rw [padded_length 8 hbase])]

theorem drop_fields (hbase : base.length ≤ 8) (hextension : extension.length ≤ 3) :
    ((padded 8 base ++ padded 3 extension).drop 8).take 3 = padded 3 extension := by
  rw [List.drop_append_of_le_length (by rw [padded_length 8 hbase]),
    List.drop_of_length_le (by rw [padded_length 8 hbase]), List.nil_append,
    List.take_of_length_le (by rw [padded_length 3 hextension])]

/-- Decoding an entry with padded fields. -/
theorem retrieveShortName_padded (hbase : base.length ≤ 8) (hextension : extension.length ≤ 3)
    (hlegal : ∀ c ∈ base ++ extension, LegalChar c) :
    fatFsRetrieveShortName (padded 8 base ++ padded 3 extension) =
      if extension = [] then base else base ++ dot :: extension := by
  have hbaseLegal : ∀ c ∈ base, LegalChar c := fun c hc => hlegal c (by simp [hc])
  have hextLegal : ∀ c ∈ extension, LegalChar c := fun c hc => hlegal c (by simp [hc])
  unfold fatFsRetrieveShortName
  rw [take_fields hbase, drop_fields hbase hextension, filter_padded 8 hbaseLegal,
    filter_padded 3 hextLegal]
  dsimp only
  rw [List.takeWhile_eq_self_iff]
  -- no character of the text ends it
  intro c hc
  have hnz : c ≠ 0 := by
    split at hc
    · exact (hbaseLegal c hc).2.2
    · rcases List.mem_append.mp hc with hc | hc
      · exact (hbaseLegal c hc).2.2
      · rcases List.mem_cons.mp hc with rfl | hc
        · decide
        · exact (hextLegal c hc).2.2
  simpa using hnz

/-- The first eight characters of a base of legal characters hold no dot. -/
theorem takeWhile_base (h : ∀ c ∈ base, LegalChar c) : base.takeWhile (· ≠ dot) = base := by
  rw [List.takeWhile_eq_self_iff]
  intro c hc
  simpa using (h c hc).2.1

/-- A name without extension is encoded as its base. -/
theorem generateShortName_base (hbase : base.length ≤ 8) (hlegal : ∀ c ∈ base, LegalChar c) :
    fatFsGenerateShortName base = some (padded 11 base) := by
  unfold fatFsGenerateShortName
  rw [if_neg (by omega), List.take_of_length_le hbase, takeWhile_base hlegal]
  simp

/-- A dot behind at most seven characters is found, and the extension kept. -/
theorem generateShortName_short (hpos : base ≠ []) (hbase : base.length < 8)
    (hextension : extension.length ≤ 3) (hlegal : ∀ c ∈ base, LegalChar c) :
    fatFsGenerateShortName (base ++ dot :: extension) =
      some (padded 8 base ++ padded 3 extension) := by
  have hlen : ¬ (base ++ dot :: extension).length > 12 := by
    rw [List.length_append, List.length_cons]
    omega
  obtain ⟨k, hk⟩ : ∃ k, 8 - base.length = k + 1 := ⟨7 - base.length, by omega⟩
  have htake : (base ++ dot :: extension).take 8 = base ++ dot :: extension.take k := by
    rw [List.take_append, List.take_of_length_le (Nat.le_of_lt hbase), hk, List.take_succ_cons]
  have hwhile : ((base ++ dot :: extension).take 8).takeWhile (· ≠ dot) = base := by
    rw [htake, List.takeWhile_append_of_pos]
    · simp
    · intro c hc
      simpa using (hlegal c hc).2.1
  have hdrop : (base ++ dot :: extension).drop (base.length + 1) = extension := by
    rw [← List.drop_drop, List.drop_left, List.drop_succ_cons, List.drop_zero]
  unfold fatFsGenerateShortName
  rw [if_neg hlen]
  dsimp only
  rw [hwhile, hdrop, List.take_of_length_le hextension, htake, if_neg]
  rintro (h | h)
  · simpa using congrArg List.length h
  · exact hpos h

/-- Behind eight characters the dot is not looked for, and the extension is lost. -/
theorem generateShortName_full (hbase : base.length = 8) (hextension : extension.length ≤ 3)
    (hlegal : ∀ c ∈ base, LegalChar c) :
    fatFsGenerateShortName (base ++ dot :: extension) = some (padded 11 base) := by
  have hlen : ¬ (base ++ dot :: extension).length > 12 := by
    rw [List.length_append, List.length_cons]
    omega
  have htake : (base ++ dot :: extension).take 8 = base := by
    rw [← hbase, List.take_left]
  unfold fatFsGenerateShortName
  rw [if_neg hlen, htake, takeWhile_base hlegal]
  simp

/-- The 11 bytes of a base alone. -/
theorem padded_eleven (hbase : base.length ≤ 8) :
    padded 11 base = padded 8 base ++ padded 3 [] := by
  unfold padded
  have hsplit : 11 - base.length = (8 - base.length) + 3 := by omega
  rw [hsplit, List.replicate_add, ← List.append_assoc]
  rfl

/-- An extension is not three spaces. -/
theorem padded_three_inj (hlegal : ∀ c ∈ extension, LegalChar c)
    (h : padded 3 [] = padded 3 extension) : extension = [] := by
  have hempty : (padded 3 []).filter (· ≠ space) = [] := by decide
  rw [h, filter_padded 3 hlegal] at hempty
  exact hempty

/-- An entry with a base of one to eight characters and an extension of up to three
keeps its 11 bytes through decoding and encoding exactly when the base is shorter
than eight or there is no extension. -/
theorem shortName_roundTrip_iff (hpos : 1 ≤ base.length) (hbase : base.length ≤ 8)
    (hextension : extension.length ≤ 3) (hlegal : ∀ c ∈ base ++ extension, LegalChar c) :
    fatFsGenerateShortName (fatFsRetrieveShortName (padded 8 base ++ padded 3 extension)) =
        some (padded 8 base ++ padded 3 extension) ↔
      base.length < 8 ∨ extension = [] := by
  have hbaseLegal : ∀ c ∈ base, LegalChar c := fun c hc => hlegal c (by simp [hc])
  have hextLegal : ∀ c ∈ extension, LegalChar c := fun c hc => hlegal c (by simp [hc])
  rw [retrieveShortName_padded hbase hextension hlegal]
  by_cases hempty : extension = []
  · subst hempty
    rw [if_pos rfl, generateShortName_base hbase hbaseLegal, padded_eleven hbase]
    simp
  rw [if_neg hempty, or_iff_left hempty]
  constructor
  · intro h
    by_contra hfull
    -- with eight characters the encoder wrote three spaces
    rw [generateShortName_full (by omega) hextension hbaseLegal, padded_eleven hbase,
      Option.some.injEq, List.append_cancel_left_eq] at h
    exact hempty (padded_three_inj hextLegal h)
  · intro hshort
    have hne : base ≠ [] := List.ne_nil_of_length_pos hpos
    exact generateShortName_short hne hshort hextension hbaseLegal

/-- `README  TXT` is kept. -/
theorem shortName_roundTrip_readme :
    fatFsGenerateShortName (fatFsRetrieveShortName
      (padded 8 [82, 69, 65, 68, 77, 69] ++ padded 3 [84, 88, 84])) =
        some (padded 8 [82, 69, 65, 68, 77, 69] ++ padded 3 [84, 88, 84]) :=
  (shortName_roundTrip_iff (by decide) (by decide) (by decide) (by
    unfold LegalChar
    decide +kernel)).mpr (Or.inl (by decide))

/-- `ABCDEFGHTXT` becomes `ABCDEFGH` with three spaces. -/
theorem shortName_roundTrip_fails :
    (∀ c ∈ [65, 66, 67, 68, 69, 70, 71, 72] ++ [84, 88, 84], LegalChar c) ∧
      fatFsGenerateShortName (fatFsRetrieveShortName
        (padded 8 [65, 66, 67, 68, 69, 70, 71, 72] ++ padded 3 [84, 88, 84])) =
          some (padded 8 [65, 66, 67, 68, 69, 70, 71, 72] ++ padded 3 []) ∧
      padded 8 [65, 66, 67, 68, 69, 70, 71, 72] ++ padded 3 [] ≠
        padded 8 [65, 66, 67, 68, 69, 70, 71, 72] ++ padded 3 [84, 88, 84] := by
  refine ⟨?_, by decide, by decide⟩
  unfold LegalChar
  decide +kernel

end Names

end MeOS
