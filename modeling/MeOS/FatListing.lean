import MeOS.FatSlots

/-! # The listing rule

`fat_fs_read_directory` makes a node of an entry of the cluster in its buffer
when the entry is visible in the sense of `EndMarked` and is no volume label.
-/

namespace MeOS

open Bytes EndMarked

/-- An entry that is no volume label. -/
def Shown (e : Slot) : Prop := (e 11).toNat &&& fatVolumeId ≠ fatVolumeId

instance (e : Slot) : Decidable (Shown e) :=
  inferInstanceAs (Decidable ((e 11).toNat &&& fatVolumeId ≠ fatVolumeId))

/-- Cluster and index of the entry of a node. -/
def FatNode.place (node : FatNode) : Nat × Nat :=
  (node.data.metadataCluster, node.data.metadataIndex)

/-- The places of the entries of cluster `c` that become nodes, in order. -/
def shownPlaces (d : Mem) (mp : MountPoint) (c : Nat) : List (Nat × Nat) :=
  ((List.range 128).filter fun j =>
    decide (Visible slotKind 128 (slots d mp c) j ∧ Shown (slots d mp c j))).map fun j => (c, j)

section Listing

variable {sub : FatState → Nat → Outcome (FatState × List FatNode)} {P : FatState → Prop}
  {s t : FatState} {d : Mem} {mp : MountPoint} {offset a c n i : Nat} {l l' : List FatNode}
  {table : Nat → Slot}

/-- From entry `i` on the nodes are those of the entries that are seen, in order,
with their places. Reading a directory below keeps `P`, with which the buffer has the
table. -/
theorem readEntries_places (hsub : ∀ s c t l, P s → sub s c = .ret (t, l) → P t)
    (htable : ∀ u, P u → ∀ j < 128, slotAt u.mem (entryAddr a j) = table j) (hs : P s)
    (hin : i + n = 128) (hfront : ∀ j < i, slotKind (table j) ≠ .stop)
    (hrun : fatFsReadEntries sub offset a n i l s = .ret (t, l')) :
    l'.map FatNode.place = l.map FatNode.place ++
      ((List.range' i n).filter fun j =>
        decide (Visible slotKind 128 table j ∧ Shown (table j))).map fun j => (offset, j) := by
  induction n generalizing i l s with
  | zero =>
    injection hrun with hpair
    rcases Prod.mk.inj hpair with ⟨-, rfl⟩
    simp
  | succ n ih =>
    have hi : i < 128 := by omega
    have hentry := htable s hs i hi
    have hbyte : s.mem (entryAddr a i) = table i 0 := congrFun hentry 0
    have hattr : entryAttributes s.mem (entryAddr a i) = (table i 11).toNat :=
      congrArg UInt8.toNat (congrFun hentry 11)
    have hvisible : Visible slotKind 128 table i ↔ slotKind (table i) = .live :=
      ⟨fun hvis => hvis.2.1, fun hlive => ⟨hi, hlive, hfront⟩⟩
    rw [List.range'_succ]
    unfold fatFsReadEntries at hrun
    simp only [hbyte, hattr] at hrun
    split at hrun
    · -- the end mark: nothing behind it is seen
      rename_i hzero
      have hstop := (kind_stop_iff _).mpr hzero
      injection hrun with hpair
      rcases Prod.mk.inj hpair with ⟨-, rfl⟩
      have hnone : (i :: List.range' (i + 1) n).filter (fun j =>
          decide (Visible slotKind 128 table j ∧ Shown (table j))) = [] := by
        rw [List.filter_eq_nil_iff]
        intro j hj
        rw [decide_eq_true_iff]
        rintro ⟨hvis, -⟩
        rcases List.mem_cons.mp hj with rfl | hrest
        · rw [hvis.2.1] at hstop
          cases hstop
        · have hlt := (List.mem_range'_1.mp hrest).1
          exact hvis.2.2 i (by omega) hstop
      rw [hnone]
      simp
    · rename_i hzero
      have hgoes : ∀ j < i + 1, slotKind (table j) ≠ .stop := by
        intro j hj
        rcases Nat.lt_succ_iff_lt_or_eq.mp hj with hlt | rfl
        · exact hfront j hlt
        · rw [Ne, kind_stop_iff]
          exact hzero
      split at hrun
      · -- a free entry
        rename_i hfree
        have hskip : ¬ (Visible slotKind 128 table i ∧ Shown (table i)) := by
          rintro ⟨hvis, -⟩
          exact ((kind_live_iff _).mp (hvisible.mp hvis)).2 hfree
        rw [List.filter_cons_of_neg (by simpa using hskip)]
        exact ih hs (by omega) hgoes hrun
      · rename_i hfree
        have hlive : slotKind (table i) = .live := (kind_live_iff _).mpr ⟨hzero, hfree⟩
        split at hrun
        · -- a volume label
          rename_i hlabel
          have hskip : ¬ (Visible slotKind 128 table i ∧ Shown (table i)) :=
            fun hand => hand.2 hlabel
          rw [List.filter_cons_of_neg (by simpa using hskip)]
          exact ih hs (by omega) hgoes hrun
        · rename_i hlabel
          have hshow : Visible slotKind 128 table i ∧ Shown (table i) :=
            ⟨hvisible.mpr hlive, hlabel⟩
          obtain ⟨t₁, node, hplace, ht₁, hrun⟩ : ∃ (t₁ : FatState) (node : FatNode),
              node.place = (offset, i) ∧ P t₁ ∧
              fatFsReadEntries sub offset a n (i + 1) (l ++ [node]) t₁ = .ret (t, l') := by
            split at hrun
            · rcases Outcome.bind_eq_ret.mp hrun with ⟨⟨t₁, children⟩, hchildren, hrun⟩
              exact ⟨t₁, _, rfl, hsub _ _ _ _ hs hchildren, hrun⟩
            · exact ⟨s, _, rfl, hs, hrun⟩
          rw [List.filter_cons_of_pos (by simpa using hshow)]
          have hrest := ih ht₁ (by omega) hgoes hrun
          rw [hrest, List.map_append, List.map_singleton, hplace]
          simp

/-- The nodes made of a cluster are those of its visible entries but labels. -/
theorem readEntries_lists (hsub : ∀ s c t l, P s → sub s c = .ret (t, l) → P t)
    (hload : ∀ u, P u → Loaded u.mem a d mp c) (ha : a + pageCacheSize ≤ 4294967296) (hs : P s)
    (hrun : fatFsReadEntries sub c a 128 0 l s = .ret (t, l')) :
    l'.map FatNode.place = l.map FatNode.place ++ shownPlaces d mp c := by
  have hplaces := readEntries_places hsub (fun u hu j hj => (hload u hu).slotAt ha hj) hs
    (by omega) (fun j hj => absurd hj (Nat.not_lt_zero j)) hrun
  rw [hplaces]
  unfold shownPlaces
  rw [List.range_eq_range']

end Listing

end MeOS
