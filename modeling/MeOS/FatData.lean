import MeOS.FatScratch
import MeOS.FatNode

/-! # File data and the data region

A page of a file goes to the cluster its layout names, and the sector of a
cluster is counted from cluster 2 without a check. Clusters 0 and 1, which an
entry of the disk may well name, lie in front of the data region.
-/

namespace MeOS

open Bytes

/-! ## Sectors -/

/-- The sectors of cluster `c` do not lie in front of the data region: counted
from cluster 2, modulo the `2 ^ 29` clusters that sector numbers have room for,
cluster `c` starts below the end of the sector numbers. -/
def InDataRegion (mp : MountPoint) (c : Nat) : Prop :=
  mp.data.clusterLba + 8 * ((c + 536870910) % 536870912) < 4294967296

/-- What was written from `s` to `s'` are sectors of the data region. -/
def WritesData (mp : MountPoint) (s s' : FatState) : Prop :=
  ∃ new, s'.written = s.written ++ new ∧ ∀ w ∈ new, mp.data.clusterLba ≤ w.1

section Sectors

variable {mp : MountPoint} {c : Nat}

/-- Clusters 0 and 1 are none of the data region, on any volume whose data does
not start in the first 16 sectors. -/
theorem not_inDataRegion (hc : c < 2) (hlba : 16 ≤ mp.data.clusterLba) : ¬ InDataRegion mp c := by
  simp only [InDataRegion]
  omega

theorem dataClusterLba_ge_iff (hlba : mp.data.clusterLba < 4294967296) :
    mp.data.clusterLba ≤ dataClusterLba mp c ↔ InDataRegion mp c := by
  simp only [dataClusterLba, InDataRegion, add32, mul32, sub32]
  omega

end Sectors

/-! ## Writing a page -/

section Write

variable {s : FatState} {mp : MountPoint} {layout : List Nat} {page address c : Nat}

/-- When writing page `page` is harmless: it fails because of the page, the
mount point or the device, or its cluster is in the data region. -/
def PageInData (s : FatState) (mp : MountPoint) (layout : List Nat) (page : Nat) : Prop :=
  ∀ c, layout[page]? = some c → mp.attributes &&& 7 = vfsMountPt → mp.storageInfo ≠ 0 →
    s.device 0 = true → InDataRegion mp c

/-- A page write that goes through is one transfer. -/
theorem writeByPage_done (hc : layout[page]? = some c) (hattr : mp.attributes &&& 7 = vfsMountPt)
    (hinfo : mp.storageInfo ≠ 0) (hdev : s.device 0 = true) :
    fatFsWriteByPage s mp layout page address = (s.put (dataClusterLba mp c) address, true) := by
  have hcheck : ¬ (mp.attributes &&& 7 ≠ vfsMountPt ∨ mp.storageInfo = 0) := by simp [hattr, hinfo]
  simp only [fatFsWriteByPage, hc, fatFsWriteByDataCluster, if_neg (not_not.mpr hattr),
    fatFsWriteByLba, if_neg hcheck]
  simp [FatState.deviceWrite, hdev, FatState.put, FatState.skip]

/-- Otherwise it fails, and the disk stays. -/
theorem writeByPage_failed (h : ∀ c, layout[page]? = some c → mp.attributes &&& 7 = vfsMountPt →
    mp.storageInfo ≠ 0 → ¬ s.device 0 = true) :
    (fatFsWriteByPage s mp layout page address).2 = false ∧
      (fatFsWriteByPage s mp layout page address).1.disk = s.disk := by
  unfold fatFsWriteByPage
  split
  · exact ⟨rfl, rfl⟩
  · rename_i c hc
    rw [fatFsWriteByDataCluster]
    split
    · exact ⟨rfl, rfl⟩
    · rename_i hattr
      rw [fatFsWriteByLba]
      split
      · exact ⟨rfl, rfl⟩
      · rename_i hcheck
        rw [not_or] at hcheck
        have hdev := h c hc (not_not.mp hattr) hcheck.2
        simp [FatState.deviceWrite, hdev]

/-- A page in the data region leaves what is in front of it. -/
theorem writeByPage_front (hlba : mp.data.clusterLba < 4294967296)
    (hin : PageInData s mp layout page) {x : Nat} (hx : x < 512 * mp.data.clusterLba) :
    (fatFsWriteByPage s mp layout page address).1.disk x = s.disk x := by
  by_cases h : ∃ c, layout[page]? = some c ∧ mp.attributes &&& 7 = vfsMountPt ∧
      mp.storageInfo ≠ 0 ∧ s.device 0 = true
  · obtain ⟨c, hc, hattr, hinfo, hdev⟩ := h
    have hge := (dataClusterLba_ge_iff hlba).mpr (hin c hc hattr hinfo hdev)
    rw [writeByPage_done hc hattr hinfo hdev, FatState.put_disk]
    exact blit_frame _ _ _ (Or.inl (by omega))
  · rw [(writeByPage_failed fun c hc hattr hinfo hdev => h ⟨c, hc, hattr, hinfo, hdev⟩).2]

/-- A disk whose root directory has one entry, a file of no bytes and first
cluster 0. -/
def zeroFile : Mem := fun x =>
  -- entries 0 and 2 of the FAT end their chains
  if x = 16384 ∨ x = 16392 then 0xF8
  else if x = 16385 ∨ x = 16386 ∨ x = 16393 ∨ x = 16394 then 0xFF
  else if x = 16387 ∨ x = 16395 then 0x0F
  -- the name is A
  else if x = 24576 then 65
  else if 24577 ≤ x ∧ x < 24588 then 32 else 0

/-- Page 0 of that file is written to the FAT. -/
theorem writeByPage_leaves_data : ∃ s s' node node',
    fatFsReadDirectory 2 (freshState zeroFile) smallMount 2 = .ret (s, [node]) ∧
    fatFsOpen 1 s smallMount node = .ret (s', node', .ok) ∧
    ¬ ((fatFsWriteByPage s' smallMount node'.data.layout 0 4096).2 = false ∨
      WritesData smallMount s' (fatFsWriteByPage s' smallMount node'.data.layout 0 4096).1) := by
  refine ⟨_, _, _, _, rfl, rfl, fun h => ?_⟩
  rw [writeByPage_done (c := 0) rfl (by decide) (by decide) rfl] at h
  rcases h with hfail | ⟨new, hnew, hall⟩
  · cases hfail
  · have hlist : new = [(dataClusterLba smallMount 0, 8)] := (List.append_cancel_left hnew).symm
    have hge := hall (dataClusterLba smallMount 0, 8) (by simp [hlist])
    exact absurd hge (by decide)

/-- A page write fails or writes only the data region exactly under
`PageInData`, and then nothing in front of the data region changes. -/
theorem writeByPage_data_iff (hlba : mp.data.clusterLba < 4294967296) (node : FatNode) :
    (((fatFsWriteByPage s mp node.data.layout page address).2 = false ∨
        WritesData mp s (fatFsWriteByPage s mp node.data.layout page address).1) ↔
      PageInData s mp node.data.layout page) ∧
    (PageInData s mp node.data.layout page → ∀ x < 512 * mp.data.clusterLba,
      (fatFsWriteByPage s mp node.data.layout page address).1.disk x = s.disk x) := by
  refine ⟨?_, fun hin x hx => writeByPage_front hlba hin hx⟩
  by_cases h : ∃ c, node.data.layout[page]? = some c ∧ mp.attributes &&& 7 = vfsMountPt ∧
      mp.storageInfo ≠ 0 ∧ s.device 0 = true
  · obtain ⟨c, hc, hattr, hinfo, hdev⟩ := h
    rw [writeByPage_done hc hattr hinfo hdev]
    have hregion : PageInData s mp node.data.layout page ↔ InDataRegion mp c := by
      constructor
      · exact fun hin => hin c hc hattr hinfo hdev
      · intro hin c' hc' _ _ _
        rwa [← Option.some.inj (hc.symm.trans hc')]
    rw [hregion, ← dataClusterLba_ge_iff hlba]
    constructor
    · rintro (hfail | ⟨new, hnew, hall⟩)
      · cases hfail
      · have hlist : new = [(dataClusterLba mp c, 8)] := (List.append_cancel_left hnew).symm
        exact hall (dataClusterLba mp c, 8) (by simp [hlist])
    · intro hge
      refine Or.inr ⟨[(dataClusterLba mp c, 8)], rfl, fun w hw => ?_⟩
      rw [List.mem_singleton.mp hw]
      exact hge
  · refine iff_of_true (Or.inl (writeByPage_failed fun c hc hattr hinfo hdev => ?_).1) ?_
    · exact h ⟨c, hc, hattr, hinfo, hdev⟩
    · intro c hc hattr hinfo hdev
      exact absurd ⟨c, hc, hattr, hinfo, hdev⟩ h

/-- Page 0 of a file in cluster 3. -/
theorem writeByPage_data_iff_file :
    (((fatFsWriteByPage (freshState zeroFile) smallMount [3] 0 4096).2 = false ∨
        WritesData smallMount (freshState zeroFile)
          (fatFsWriteByPage (freshState zeroFile) smallMount [3] 0 4096).1) ↔
      PageInData (freshState zeroFile) smallMount [3] 0) ∧
    (PageInData (freshState zeroFile) smallMount [3] 0 → ∀ x < 512 * smallMount.data.clusterLba,
      (fatFsWriteByPage (freshState zeroFile) smallMount [3] 0 4096).1.disk x = zeroFile x) :=
  writeByPage_data_iff (by decide) ⟨[65], 25, 14, 0, ⟨[3], true, 2, 0⟩, []⟩

end Write

end MeOS
