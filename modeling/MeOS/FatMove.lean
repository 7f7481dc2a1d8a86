import MeOS.FatDelete

/-! # Moving a node

`fat_fs_move_node` takes the entry off the disk before it looks for a slot to
put it. `moveNode_cases` lists how it can end, whatever fails on the way; the
node survives exactly under `MoveKeeps` (`moveNode_keeps_iff`).
-/

namespace MeOS

open Bytes EndMarked

/-! ## Opening -/

section Open

variable {s s' t : FatState} {mp : MountPoint} {node node' : FatNode} {layout layout' : List Nat}
  {c x fuel : Nat} {r : ErrorT} {ok : Bool}

/-- Reporting an error leaves the page cache. -/
theorem Scratch.error (s : FatState) (e : FatError) : Scratch s (s.setLastError e) :=
  Scratch.of_files rfl (fun h => ⟨h.frames, h.device, h.tables⟩) ⟨rfl, rfl⟩

theorem Using.error (h : Using s t c) (e : FatError) : Using s (t.setLastError e) c :=
  h.of_files rfl (fun h => ⟨h.frames, h.device, h.tables⟩) ⟨rfl, rfl⟩

theorem deviceRead_disk (t : FatState) (x n a : Nat) : (t.deviceRead x n a).1.disk = t.disk := by
  unfold FatState.deviceRead
  dsimp only
  split
  · rfl
  · rfl

/-- A read into the buffer, whether it goes through or not. -/
theorem deviceRead_using {count : Nat} (h : Using s t c) (hinv : CacheInv s.files)
    (hcount : count ≤ 8) : Using s (t.deviceRead x count (cellAddr s.files c)).1 c := by
  unfold FatState.deviceRead
  dsimp only
  split
  · refine h.skip.setMem hinv fun y hy => blit_frame _ _ _ ?_
    simp only [pageCacheSize] at hy
    omega
  · exact h.skip

theorem readByLba_using (h : Using s t c) (hinv : CacheInv s.files)
    (hrun : fatFsReadByLba t mp x (cellAddr s.files c) = (s', ok)) :
    Using s s' c ∧ s'.disk = t.disk := by
  unfold fatFsReadByLba at hrun
  split at hrun
  · injection hrun with hstate
    rw [← hstate]
    exact ⟨h.error .badArguments, rfl⟩
  · have hread : Using s (t.deviceRead x 8 (cellAddr s.files c)).1 c :=
      deviceRead_using h hinv le_rfl
    have hdisk := deviceRead_disk t x 8 (cellAddr s.files c)
    dsimp only at hrun
    split at hrun
    · injection hrun with hstate
      rw [← hstate]
      exact ⟨hread, hdisk⟩
    · injection hrun with hstate
      rw [← hstate]
      exact ⟨hread, hdisk⟩

/-- Following a link leaves the page cache and the disk, whatever fails. -/
theorem findNextCluster_scratch (mp : MountPoint) (x : Nat) (hinv : CacheInv s.files) :
    Scratch s (fatFsFindNextCluster s mp x).1 ∧ (fatFsFindNextCluster s mp x).1.disk = s.disk := by
  unfold fatFsFindNextCluster
  rcases reserve_cases hinv with ⟨s₁, hres, hscratch, ⟨hdisk, -⟩, -⟩ |
    ⟨q, s₁, hres, hu, ⟨hdisk, -⟩, -⟩
  · rw [hres]
    exact ⟨hscratch, hdisk⟩
  · rcases hu.addr hinv with ⟨a, ha⟩
    rw [hres, ha]
    simp only
    rw [← ha]
    rcases hread : fatFsReadByLba s₁ mp (add32 mp.data.fatLba (x / 128)) (cellAddr s.files q) with
      ⟨t, ok⟩
    rcases readByLba_using hu hinv hread with ⟨ht, hdisk'⟩
    have hreleased : (t.releaseAnonymous (cellAddr s.files q)).disk = s.disk :=
      (FatState.release_disk _ _).trans (hdisk'.trans hdisk)
    cases ok with
    | false => exact ⟨ht.release hinv, hreleased⟩
    | true => exact ⟨ht.release hinv, hreleased⟩

theorem loadLoop_scratch (hinv : CacheInv s.files)
    (hrun : fatFsLoadLoop mp fuel s layout = .ret (s', layout')) :
    Scratch s s' ∧ s'.disk = s.disk := by
  induction fuel generalizing s layout with
  | zero => cases hrun
  | succ fuel ih =>
    unfold fatFsLoadLoop at hrun
    split at hrun
    · cases hrun
    · rename_i last hlast
      have hfind := findNextCluster_scratch mp last hinv
      dsimp only at hrun
      split at hrun
      · injection hrun with hpair
        rcases Prod.mk.inj hpair with ⟨rfl, -⟩
        exact hfind
      · have hrest := ih (hfind.1.cacheInv hinv) hrun
        exact ⟨hfind.1.trans hrest.1, hrest.2.trans hfind.2⟩

/-- Opening a node leaves the page cache and the disk. -/
theorem openFileByNode_scratch (hinv : CacheInv s.files)
    (hrun : openFileByNode fuel s mp node = .ret (s', node', r)) :
    Scratch s s' ∧ s'.disk = s.disk := by
  have htables : Scratch s { s with tables := fun k => s.tables (k + 1) } :=
    Scratch.of_files rfl (fun hs => ⟨hs.frames, hs.device, fun k => hs.tables (k + 1)⟩) ⟨rfl, rfl⟩
  unfold openFileByNode at hrun
  dsimp only at hrun
  split at hrun
  · unfold fatFsOpen at hrun
    split at hrun
    · injection hrun with hpair
      rcases Prod.mk.inj hpair with ⟨rfl, -⟩
      exact ⟨htables.trans (Scratch.error _ .badNodeStructure), rfl⟩
    · split at hrun
      · rcases Outcome.bind_eq_ret.mp hrun with ⟨⟨s₁, layout⟩, hload, hrun⟩
        injection hrun with hpair
        rcases Prod.mk.inj hpair with ⟨rfl, -⟩
        have hloop := loadLoop_scratch (htables.cacheInv hinv) hload
        exact ⟨htables.trans hloop.1, hloop.2⟩
      · injection hrun with hpair
        rcases Prod.mk.inj hpair with ⟨rfl, -⟩
        exact ⟨htables, rfl⟩
  · injection hrun with hpair
    rcases Prod.mk.inj hpair with ⟨rfl, -⟩
    exact ⟨htables, rfl⟩

end Open

/-! ## The ways it ends -/

/-- The move ends before anything was written: the directory cannot be opened,
there is no buffer, or the node's cluster cannot be read or written. -/
def MoveStops (s : FatState) (opened : ErrorT) : Prop :=
  opened ≠ .ok ∨ s.reserveAnonymous.2 = 0 ∨ s.device 0 = false ∨ s.device 1 = false

section Move

variable {s s' s₁ : FatState} {mp : MountPoint} {node node' directory directory' : FatNode}
  {D : Nat → Prop} {fuel n c j k c₀ j₀ : Nat} {res opened : ErrorT} {d d' : Mem}
  {layout : List Nat}

/-- How `fat_fs_move_node` can end. -/
theorem moveNode_cases (hinv : CacheInv s.files) (hmp : Mounted mp)
    (hdir : directory.attributes &&& 7 = vfsDirectory) (hc₀ : node.data.metadataCluster = c₀)
    (hj₀ : node.data.metadataIndex = j₀) (hlt : j₀ < 128)
    (hrun : fatFsMoveNode fuel s mp node directory = .ret (s', node', directory', res)) :
    ∃ s₁ opened, openFileByNode fuel s mp directory = .ret (s₁, directory', opened) ∧
      Scratch s s' ∧
      ((MoveStops s₁ opened ∧ res = .occur ∧ s'.disk = s.disk) ∨
        (¬ MoveStops s₁ opened ∧
          ((∃ c j k, Finds (clearSlot s.disk mp c₀ j₀) mp (fun m => s₁.device (m + 2))
              directory'.data.layout c j k ∧
            ((s₁.device (k + 3) = true ∧ res = .ok ∧
                (node'.data.metadataCluster = c ∧ node'.data.metadataIndex = j) ∧
                s'.disk = editSlot (clearSlot s.disk mp c₀ j₀) mp c j (slots s.disk mp c₀ j₀)) ∨
              (s₁.device (k + 3) = false ∧ res = .occur ∧
                s'.disk = clearSlot s.disk mp c₀ j₀))) ∨
          ((∀ c j k, ¬ Finds (clearSlot s.disk mp c₀ j₀) mp (fun m => s₁.device (m + 2))
              directory'.data.layout c j k) ∧
            res = .ok ∧ s'.disk = clearSlot s.disk mp c₀ j₀)))) := by
  unfold fatFsMoveNode at hrun
  rw [if_neg (by simp [hmp.attributes, hdir])] at hrun
  rcases Outcome.bind_eq_ret.mp hrun with ⟨⟨s₁, directory₁, opened⟩, hopen, hrun⟩
  rcases openFileByNode_scratch hinv hopen with ⟨hscratch₁, hdisk₁⟩
  have hinv₁ := hscratch₁.cacheInv hinv
  refine ⟨s₁, opened, ?_⟩
  dsimp only at hrun
  split at hrun
  · -- the directory was not opened
    rename_i hfailed
    injection hrun with hpair
    simp only [Prod.mk.injEq] at hpair
    rcases hpair with ⟨rfl, -, rfl, rfl⟩
    exact ⟨hopen, hscratch₁, Or.inl ⟨Or.inl hfailed, rfl, hdisk₁⟩⟩
  · rename_i hok
    rcases reserve_cases hinv₁ with ⟨t, hres, hscratch, ⟨hdisk, -⟩, -⟩ |
      ⟨q, t, hres, hu, ⟨hdisk, -, hdevice⟩, -⟩
    · -- no buffer
      rw [hres] at hrun
      injection hrun with hpair
      simp only [Prod.mk.injEq] at hpair
      rcases hpair with ⟨rfl, -, rfl, rfl⟩
      refine ⟨hopen, hscratch₁.trans hscratch, Or.inl ⟨Or.inr (Or.inl ?_), rfl, ?_⟩⟩
      · rw [hres]
      · rw [hdisk, hdisk₁]
    · have hroom := hu.room hinv₁
      rcases hinv₁.cell_bounds (i := q) (by omega) with ⟨hpos, -, htop⟩
      rcases hu.addr hinv₁ with ⟨a, ha⟩
      have hnonzero : s₁.reserveAnonymous.2 ≠ 0 := by
        rw [hres]
        exact hpos.ne'
      rw [hres, ha] at hrun
      simp only [readByDataCluster_eq hmp, hdevice] at hrun
      simp only [← ha, hc₀, hj₀] at hrun
      by_cases hdev₀ : s₁.device 0 = true
      · rw [if_pos hdev₀] at hrun
        simp only [writeByDataCluster_eq hmp, FatState.setMem_device, FatState.fetch_device,
          hdevice] at hrun
        have hmark : Using s₁ (t.clearEntry (dataClusterLba mp c₀) (cellAddr s₁.files q) j₀) q :=
          hu.clearEntry hinv₁ hlt
        have hput : Using s₁ ((t.clearEntry (dataClusterLba mp c₀) (cellAddr s₁.files q) j₀).put
            (dataClusterLba mp c₀) (cellAddr s₁.files q)) q := hmark.put
        have hmarked : ((t.clearEntry (dataClusterLba mp c₀) (cellAddr s₁.files q) j₀).put
            (dataClusterLba mp c₀) (cellAddr s₁.files q)).disk = clearSlot s.disk mp c₀ j₀ := by
          rw [clearEntry_disk htop hlt, hdisk, hdisk₁]
        by_cases hdev₁ : s₁.device 1 = true
        · rw [if_pos hdev₁] at hrun
          have hgoes : ¬ MoveStops s₁ opened := by
            rintro (hbad | hbad | hbad | hbad)
            · exact hok hbad
            · exact hnonzero hbad
            · exact absurd hdev₀ (by rw [hbad]; decide)
            · exact absurd hdev₁ (by rw [hbad]; decide)
          obtain ⟨w, found, hfind, hw, hwdisk, -, hcases⟩ :=
            findEmptyEntry_spec directory₁.data.layout hmp hinv₁ hput
          have hdevices : ((t.clearEntry (dataClusterLba mp c₀) (cellAddr s₁.files q) j₀).put
              (dataClusterLba mp c₀) (cellAddr s₁.files q)).device =
                fun m => s₁.device (m + 2) := by
            funext m
            rw [← hdevice]
            rfl
          have hfind' : fatFsFindEmptyEntry mp (cellAddr s₁.files q) directory₁.data.layout
              (((t.fetch (dataClusterLba mp c₀) (cellAddr s₁.files q)).setMem
                (store8 (t.fetch (dataClusterLba mp c₀) (cellAddr s₁.files q)).mem
                  (entryAddr (cellAddr s₁.files q) j₀)
                  (deletedMark (t.fetch (dataClusterLba mp c₀) (cellAddr s₁.files q)).mem
                    (cellAddr s₁.files q) j₀))).put
                (dataClusterLba mp c₀) (cellAddr s₁.files q)) = (w, found) := hfind
          rw [hmarked, hdevices] at hcases
          rw [hmarked] at hwdisk
          dsimp only at hrun
          rw [hfind'] at hrun
          rcases hcases with ⟨c, j, k, hfinds, rfl, hleft, hload⟩ | ⟨rfl, hno, -⟩
          · -- a slot was found
            have hj : j < 128 := by
              have hspec := hfinds.spec.2.1
              omega
            have hdev : w.device 0 = s₁.device (k + 3) := hleft 0
            have hfill : Using s₁ (w.setMem (blit w.mem (entryAddr (cellAddr s₁.files q) j)
                (fun k => (t.fetch (dataClusterLba mp c₀) (cellAddr s₁.files q)).mem
                  (entryAddr (cellAddr s₁.files q) j₀ + k)) 0 32)) q := hw.fillEntry _ hinv₁ hj
            rw [← hwdisk] at hload
            simp only [hdev] at hrun
            by_cases hdev₂ : s₁.device (k + 3) = true
            · rw [if_pos hdev₂] at hrun
              injection hrun with hpair
              simp only [Prod.mk.injEq] at hpair
              rcases hpair with ⟨rfl, rfl, rfl, rfl⟩
              refine ⟨hopen, hscratch₁.trans (hfill.put.release hinv₁), Or.inr ⟨hgoes,
                Or.inl ⟨c, j, k, hfinds, Or.inl ⟨hdev₂, rfl, ⟨rfl, rfl⟩, ?_⟩⟩⟩⟩
              rw [FatState.release_disk, fillEntry_disk hload htop hj fun k hk =>
                fetch_entry htop hlt hk, hwdisk, hdisk, hdisk₁]
            · rw [if_neg hdev₂] at hrun
              injection hrun with hpair
              simp only [Prod.mk.injEq] at hpair
              rcases hpair with ⟨rfl, -, rfl, rfl⟩
              refine ⟨hopen, hscratch₁.trans (hfill.skip.release hinv₁), Or.inr ⟨hgoes,
                Or.inl ⟨c, j, k, hfinds, Or.inr ⟨by simpa using hdev₂, rfl, hwdisk⟩⟩⟩⟩
          · -- none was found, and the node has no entry any more
            injection hrun with hpair
            simp only [Prod.mk.injEq] at hpair
            rcases hpair with ⟨rfl, -, rfl, rfl⟩
            exact ⟨hopen, hscratch₁.trans (hw.release hinv₁), Or.inr ⟨hgoes,
              Or.inr ⟨hno, rfl, hwdisk⟩⟩⟩
        · -- the marked cluster was not written
          rw [if_neg hdev₁] at hrun
          injection hrun with hpair
          simp only [Prod.mk.injEq] at hpair
          rcases hpair with ⟨rfl, -, rfl, rfl⟩
          exact ⟨hopen, hscratch₁.trans (hmark.skip.release hinv₁), Or.inl
            ⟨Or.inr (Or.inr (Or.inr (by simpa using hdev₁))), rfl, by
              rw [← hdisk₁, ← hdisk]
              rfl⟩⟩
      · -- the node's cluster was not read
        rw [if_neg hdev₀] at hrun
        injection hrun with hpair
        simp only [Prod.mk.injEq] at hpair
        rcases hpair with ⟨rfl, -, rfl, rfl⟩
        exact ⟨hopen, hscratch₁.trans (hu.skip.release hinv₁), Or.inl
          ⟨Or.inr (Or.inr (Or.inl (by simpa using hdev₀))), rfl, by
            rw [← hdisk₁, ← hdisk]
            rfl⟩⟩

end Move

/-! ## The law -/

/-- From `d` to `d'` the entry in slot `j₀` of cluster `c₀` was moved to the clusters
`layout`: on success it is in one place among the directory clusters `D`, and
there; on failure it is where it was. -/
def MoveLaw (d d' : Mem) (mp : MountPoint) (D : Nat → Prop) (c₀ j₀ : Nat) (layout : List Nat)
    (res : ErrorT) : Prop :=
  (res = .ok → ∃ c ∈ layout, ∃ j, ∀ c', D c' → ∀ j',
    (Visible slotKind 128 (slots d' mp c') j' ∧ slots d' mp c' j' = slots d mp c₀ j₀) ↔
      (c' = c ∧ j' = j)) ∧
  (res = .occur → Visible slotKind 128 (slots d' mp c₀) j₀ ∧
    slots d' mp c₀ j₀ = slots d mp c₀ j₀)

/-- The move stops before the first write, or a slot is found and written, and
none of the entries that come into sight behind it is the same. -/
def MoveKeeps (fuel : Nat) (s : FatState) (mp : MountPoint) (node directory : FatNode) : Prop :=
  ∀ s₁ directory₁ opened,
    openFileByNode fuel s mp directory = .ret (s₁, directory₁, opened) →
    MoveStops s₁ opened ∨
      ∃ c j k, Finds (clearSlot s.disk mp node.data.metadataCluster node.data.metadataIndex) mp
          (fun m => s₁.device (m + 2)) directory₁.data.layout c j k ∧
        s₁.device (k + 3) = true ∧
        ∀ j', HiddenBehind slotKind 128 (slots (clearSlot s.disk mp node.data.metadataCluster
            node.data.metadataIndex) mp c) j j' →
          slots (clearSlot s.disk mp node.data.metadataCluster node.data.metadataIndex) mp c j' ≠
            slots s.disk mp node.data.metadataCluster node.data.metadataIndex

section Law

variable {s s' : FatState} {mp : MountPoint} {node node' directory directory' : FatNode}
  {D : Nat → Prop} {fuel n c j k c₀ j₀ : Nat} {res : ErrorT} {d d' : Mem} {layout : List Nat}

/-- An entry taken off is nowhere to be seen. -/
theorem no_copy (hv : Volume mp n) (hD : ∀ x, D x → DataCluster n x) (hc₀ : D c₀)
    (hlive : Visible slotKind 128 (slots d mp c₀) j₀)
    (hone : ∀ c j, D c → Visible slotKind 128 (slots d mp c) j →
      slots d mp c j = slots d mp c₀ j₀ → c = c₀ ∧ j = j₀)
    (hc : D c) (hvis : Visible slotKind 128 (slots (clearSlot d mp c₀ j₀) mp c) j) :
    slots (clearSlot d mp c₀ j₀) mp c j ≠ slots d mp c₀ j₀ := by
  intro heq
  rcases (visible_clearSlot hv hD hc₀ hlive hc).mp hvis with ⟨hbefore, hother⟩
  have hsame : slots (clearSlot d mp c₀ j₀) mp c j = slots d mp c j :=
    slots_edit_other hv hD hc₀ hlive.1 hc hvis.1 fun hcc hjj => hother ⟨hcc, hjj⟩
  rw [hsame] at heq
  exact hother (hone c j hc hbefore heq)

/-- The copies of the entry after it was put into the slot that was found: the
slot itself, and what its end mark has hidden. -/
theorem copies_filled (hv : Volume mp n) (hD : ∀ x, D x → DataCluster n x) (hc₀ : D c₀)
    (hlive : Visible slotKind 128 (slots d mp c₀) j₀)
    (hone : ∀ c j, D c → Visible slotKind 128 (slots d mp c) j →
      slots d mp c j = slots d mp c₀ j₀ → c = c₀ ∧ j = j₀)
    (hc : D c) (hj : j < 127) (hfirst : FirstVacant slotKind (slots (clearSlot d mp c₀ j₀) mp c) j)
    (hd' : d' = editSlot (clearSlot d mp c₀ j₀) mp c j (slots d mp c₀ j₀)) {c' : Nat}
    (hc' : D c') (j' : Nat) :
    (Visible slotKind 128 (slots d' mp c') j' ∧ slots d' mp c' j' = slots d mp c₀ j₀) ↔
      (c' = c ∧ j' = j) ∨
        (c' = c ∧ HiddenBehind slotKind 128 (slots (clearSlot d mp c₀ j₀) mp c) j j' ∧
          slots (clearSlot d mp c₀ j₀) mp c j' = slots d mp c₀ j₀) := by
  subst hd'
  -- in the cluster that takes the entry, a copy may also come out from behind the end mark
  by_cases hcc : c' = c
  · subst hcc
    rw [editSlot_edits.slots_eq, visible_fill hfirst (by omega) hlive.2.1]
    constructor
    · rintro ⟨rfl | hvis | hhid, hsame⟩
      · exact Or.inl ⟨rfl, rfl⟩
      · by_cases hjj : j' = j
        · exact Or.inl ⟨rfl, hjj⟩
        · rw [Function.update_of_ne hjj] at hsame
          exact absurd hsame (no_copy hv hD hc₀ hlive hone hc' hvis)
      · have hlt := hhid.1
        rw [Function.update_of_ne (by omega)] at hsame
        exact Or.inr ⟨rfl, hhid, hsame⟩
    · rintro (⟨-, rfl⟩ | ⟨-, hhid, hsame⟩)
      · exact ⟨Or.inl rfl, Function.update_self _ _ _⟩
      · have hlt := hhid.1
        rw [Function.update_of_ne (by omega)]
        exact ⟨Or.inr (Or.inr hhid), hsame⟩
  · have hslots : ∀ i < 128,
        slots (editSlot (clearSlot d mp c₀ j₀) mp c j (slots d mp c₀ j₀)) mp c' i =
          slots (clearSlot d mp c₀ j₀) mp c' i := by
      intro i hi
      exact slots_edit_other hv hD hc (by omega) hc' hi (fun heq => absurd heq hcc)
    rw [visible_congr hslots]
    constructor
    · rintro ⟨hvis, hsame⟩
      rw [hslots j' hvis.1] at hsame
      exact absurd hsame (no_copy hv hD hc₀ hlive hone hc' hvis)
    · rintro (hhere | hhere)
      · exact absurd hhere.1 hcc
      · exact absurd hhere.1 hcc

/-- A disk with a file in slot 0 of cluster 2 and bytes `b` all over cluster 3. -/
def twoClusters (b : UInt8) : Mem := fun x =>
  if x = 24576 then 65 else if 28672 ≤ x ∧ x < 32768 then b else 0

/-- The file, and the directory that has cluster 3. -/
def movedFile : FatNode := ⟨[65], 25, 14, 0, ⟨[0], false, 2, 0⟩, []⟩

/-- The directory that has cluster 3. -/
def targetDirectory : FatNode := ⟨[66], 26, 14, 0, ⟨[3], true, 2, 1⟩, []⟩

theorem twoClusters_file (b : UInt8) :
    Visible slotKind 128 (slots (twoClusters b) smallMount 2) 0 :=
  ⟨by decide, rfl, fun j hj => absurd hj (Nat.not_lt_zero j)⟩

theorem twoClusters_full (b : UInt8) {j : Nat} (hj : j < 128) :
    slots (twoClusters b) smallMount 3 j 0 = b := by
  rw [slots_head]
  show twoClusters b (28672 + 32 * j) = b
  unfold twoClusters
  rw [if_neg (by omega), if_pos (by omega)]

/-- The file is there once. -/
theorem twoClusters_one {b : UInt8} (hb : b ≠ 65) (c j : Nat) (hc : c = 2 ∨ c = 3)
    (hvis : Visible slotKind 128 (slots (twoClusters b) smallMount c) j)
    (hsame : slots (twoClusters b) smallMount c j = slots (twoClusters b) smallMount 2 0) :
    c = 2 ∧ j = 0 := by
  have hbyte := congrFun hsame 0
  have hfile : slots (twoClusters b) smallMount 2 0 0 = 65 := rfl
  rw [hfile] at hbyte
  rcases hc with rfl | rfl
  · refine ⟨rfl, ?_⟩
    by_contra hne
    rw [slots_head] at hbyte
    change twoClusters b (24576 + 32 * j) = 65 at hbyte
    have hlt := hvis.1
    unfold twoClusters at hbyte
    rw [if_neg (by omega), if_neg (by omega)] at hbyte
    exact absurd hbyte (by decide)
  · rw [twoClusters_full b hvis.1] at hbyte
    exact absurd hbyte hb

theorem twoClusters_data {c : Nat} (hc : c = 2 ∨ c = 3) : DataCluster 1024 c := by
  rcases hc with rfl | rfl
  · exact ⟨by decide, by decide⟩
  · exact ⟨by decide, by decide⟩

/-- Moved to a directory without a vacant slot, a file is lost. -/
theorem moveNode_loses : ∃ s' node' directory',
    fatFsMoveNode 1 (freshState (twoClusters 1)) smallMount movedFile targetDirectory =
      .ret (s', node', directory', .ok) ∧
    ¬ MoveLaw (twoClusters 1) s'.disk smallMount (fun c => c = 2 ∨ c = 3) 2 0
      directory'.data.layout .ok := by
  obtain ⟨s', node', directory', hlay, hrun⟩ : ∃ s' node' directory',
      directory'.data.layout = [3] ∧
      fatFsMoveNode 1 (freshState (twoClusters 1)) smallMount movedFile targetDirectory =
        .ret (s', node', directory', .ok) := ⟨_, _, targetDirectory, rfl, rfl⟩
  have hD : ∀ c, (c = 2 ∨ c = 3) → DataCluster 1024 c := fun c hc => twoClusters_data hc
  have hlive := twoClusters_file 1
  refine ⟨s', node', directory', hrun, ?_⟩
  rintro ⟨hok, -⟩
  rw [hlay] at hok
  rcases hok rfl with ⟨c, hmem, j, hiff⟩
  obtain rfl : c = 3 := List.mem_singleton.mp hmem
  rcases (hiff 3 (Or.inr rfl) j).mpr ⟨rfl, rfl⟩ with ⟨hvis, hsame⟩
  rcases moveNode_cases (freshState_steady _).inv smallMount_mounted (by decide) rfl rfl
    (by decide) hrun with
    ⟨s₁, opened, hopen, -, ⟨-, hno, -⟩ | ⟨-, ⟨c, j', k, hfinds, -⟩ | ⟨-, -, hdisk⟩⟩⟩
  · cases hno
  · -- the search finds nothing in cluster 3
    rw [hlay] at hfinds
    rcases hfinds.spec with ⟨hmem', hj', hfirst⟩
    obtain rfl : c = 3 := List.mem_singleton.mp hmem'
    have hslot : slots (clearSlot (twoClusters 1) smallMount 2 0) smallMount 3 j' =
        slots (twoClusters 1) smallMount 3 j' :=
      slots_edit_other smallMount_volume hD (Or.inl rfl) hlive.1 (Or.inr rfl) (by omega)
        (fun heq => absurd heq (by decide))
    have hvac :
        (slotKind (slots (clearSlot (twoClusters 1) smallMount 2 0) smallMount 3 j')).Vacant :=
      hfirst.1
    rw [kind_vacant_iff, hslot, twoClusters_full 1 (by omega)] at hvac
    exact absurd hvac (by decide)
  · rw [hdisk] at hvis hsame
    exact no_copy smallMount_volume hD (Or.inl rfl) hlive
      (fun c j hc => twoClusters_one (by decide) c j hc) (Or.inr rfl) hvis hsame

/-- A move keeps the node exactly under `MoveKeeps`. -/
theorem moveNode_keeps_iff (hinv : CacheInv s.files) (hv : Volume mp n)
    (hdir : directory.attributes &&& 7 = vfsDirectory) (hD : ∀ x, D x → DataCluster n x)
    (hc₀ : D node.data.metadataCluster)
    (hlive : Visible slotKind 128 (slots s.disk mp node.data.metadataCluster)
      node.data.metadataIndex)
    (hone : ∀ c j, D c → Visible slotKind 128 (slots s.disk mp c) j →
      slots s.disk mp c j = slots s.disk mp node.data.metadataCluster node.data.metadataIndex →
      c = node.data.metadataCluster ∧ j = node.data.metadataIndex)
    (hlayout : ∀ c ∈ directory'.data.layout, D c)
    (hrun : fatFsMoveNode fuel s mp node directory = .ret (s', node', directory', res)) :
    MoveLaw s.disk s'.disk mp D node.data.metadataCluster node.data.metadataIndex
      directory'.data.layout res ↔ MoveKeeps fuel s mp node directory := by
  rcases moveNode_cases hinv hv.toMounted hdir rfl rfl hlive.1 hrun with
    ⟨s₁, opened, hopen, -, hcases⟩
  have hkeeps : ∀ P : FatState → FatNode → ErrorT → Prop,
      (∀ s₂ directory₂ opened₂,
        openFileByNode fuel s mp directory = .ret (s₂, directory₂, opened₂) →
        P s₂ directory₂ opened₂) ↔ P s₁ directory' opened := by
    intro P
    constructor
    · intro hall
      exact hall s₁ directory' opened hopen
    · intro hhere s₂ directory₂ opened₂ hopen₂
      have hsame := hopen.symm.trans hopen₂
      injection hsame with hpair
      simp only [Prod.mk.injEq] at hpair
      rcases hpair with ⟨rfl, rfl, rfl⟩
      exact hhere
  unfold MoveKeeps
  rw [hkeeps]
  rcases hcases with ⟨hstops, rfl, hdisk⟩ | ⟨hgoes, hcases⟩
  · -- nothing was written
    refine iff_of_true ⟨fun hok => ErrorT.noConfusion hok, fun _ => ?_⟩ (Or.inl hstops)
    rw [hdisk]
    exact ⟨hlive, rfl⟩
  · rcases hcases with ⟨c, j, k, hfinds, ⟨hdev, rfl, -, hdisk⟩ | ⟨hdev, rfl, hdisk⟩⟩ |
      ⟨hno, rfl, hdisk⟩
    · -- the entry was put into the slot that was found
      rcases hfinds.spec with ⟨hmem, hj, hfirst⟩
      have hc := hlayout c hmem
      have hcopies := fun (c' j' : Nat) (hc' : D c') =>
        copies_filled hv hD hc₀ hlive hone hc hj hfirst hdisk hc' j'
      constructor
      · rintro ⟨hok, -⟩
        rcases hok rfl with ⟨c₁, -, j₁, hiff⟩
        have hhere := (hiff c hc j).mp ((hcopies c j hc).mpr (Or.inl ⟨rfl, rfl⟩))
        refine Or.inr ⟨c, j, k, hfinds, hdev, fun j' hhid hsame => ?_⟩
        have hthere := (hiff c hc j').mp ((hcopies c j' hc).mpr (Or.inr ⟨rfl, hhid, hsame⟩))
        have hlt := hhid.1
        omega
      · rintro (hstops | ⟨c', j', k', hfinds', -, hhid⟩)
        · exact absurd hstops hgoes
        · rcases hfinds.unique hfinds' with ⟨rfl, rfl, rfl⟩
          refine ⟨fun _ => ⟨c', hmem, j', fun c₁ hc₁ j₁ => ?_⟩,
            fun hfail => ErrorT.noConfusion hfail⟩
          rw [hcopies c₁ j₁ hc₁]
          constructor
          · rintro (hhere | ⟨-, hbehind, hsame⟩)
            · exact hhere
            · exact absurd hsame (hhid j₁ hbehind)
          · exact Or.inl
    · -- the target cluster was not written: the entry is gone
      refine iff_of_false ?_ ?_
      · rintro ⟨-, hfail⟩
        have hvis := (hfail rfl).1
        rw [hdisk, visible_clearSlot hv hD hc₀ hlive hc₀] at hvis
        exact hvis.2 ⟨rfl, rfl⟩
      · rintro (hstops | ⟨c', j', k', hfinds', hdev', -⟩)
        · exact hgoes hstops
        · rcases hfinds.unique hfinds' with ⟨rfl, rfl, rfl⟩
          rw [hdev] at hdev'
          cases hdev'
    · -- no slot was found: the entry is gone, and the move says it went well
      refine iff_of_false ?_ ?_
      · rintro ⟨hok, -⟩
        rcases hok rfl with ⟨c, hmem, j, hiff⟩
        rcases (hiff c (hlayout c hmem) j).mpr ⟨rfl, rfl⟩ with ⟨hvis, hsame⟩
        rw [hdisk] at hvis hsame
        exact no_copy hv hD hc₀ hlive hone (hlayout c hmem) hvis hsame
      · rintro (hstops | ⟨c', j', k', hfinds', -⟩)
        · exact hgoes hstops
        · exact hno c' j' k' hfinds'

/-- The file moved to an empty directory. -/
theorem moveNode_keeps_iff_empty : ∃ s' node' directory',
    fatFsMoveNode 1 (freshState (twoClusters 0)) smallMount movedFile targetDirectory =
      .ret (s', node', directory', .ok) ∧
    (MoveLaw (freshState (twoClusters 0)).disk s'.disk smallMount (fun c => c = 2 ∨ c = 3)
        movedFile.data.metadataCluster movedFile.data.metadataIndex directory'.data.layout .ok ↔
      MoveKeeps 1 (freshState (twoClusters 0)) smallMount movedFile targetDirectory) := by
  obtain ⟨s', node', directory', hlay, hrun⟩ : ∃ s' node' directory',
      directory'.data.layout = [3] ∧
      fatFsMoveNode 1 (freshState (twoClusters 0)) smallMount movedFile targetDirectory =
        .ret (s', node', directory', .ok) := ⟨_, _, targetDirectory, rfl, rfl⟩
  have hone : ∀ c j, (c = 2 ∨ c = 3) → Visible slotKind 128 (slots (twoClusters 0) smallMount c) j →
      slots (twoClusters 0) smallMount c j = slots (twoClusters 0) smallMount 2 0 →
      c = 2 ∧ j = 0 := fun c j hc => twoClusters_one (by decide) c j hc
  have htarget : ∀ c ∈ directory'.data.layout, c = 2 ∨ c = 3 := by
    intro c hc
    rw [hlay] at hc
    exact Or.inr (List.mem_singleton.mp hc)
  refine ⟨s', node', directory', hrun, moveNode_keeps_iff (freshState_steady _).inv
    smallMount_volume (by decide) ?_ ?_ ?_ ?_ htarget hrun⟩
  · intro c hc
    exact twoClusters_data hc
  · exact Or.inl rfl
  · exact twoClusters_file 0
  · exact hone

end Law

end MeOS
