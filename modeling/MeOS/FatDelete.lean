import MeOS.FatSlots

/-! # Deleting a node

`fat_fs_delete_node` clears the entry of the node (`clearSlot`), as
`fat_fs_move_node` does first, and then the entries of its chain in the FAT.
-/

namespace MeOS

open Bytes EndMarked

/-! ## Taking an entry off -/

/-- What the first name byte of slot `j` becomes when it is given up. -/
def clearMark (d : Mem) (mp : MountPoint) (c j : Nat) : UInt8 :=
  if j < 127 ∧ slots d mp c (j + 1) 0 = 0 then 0 else 0xE5

/-- The slot then. -/
def clearedSlot (d : Mem) (mp : MountPoint) (c j : Nat) : Slot :=
  Function.update (slots d mp c j) 0 (clearMark d mp c j)

/-- The disk then. -/
def clearSlot (d : Mem) (mp : MountPoint) (c j : Nat) : Mem :=
  editSlot d mp c j (clearedSlot d mp c j)

section Clear

variable {t : FatState} {d : Mem} {mp : MountPoint} {D : Nat → Prop} {n a c c' j j' : Nat}

theorem clearedSlot_kind : slotKind (clearedSlot d mp c j) =
    if j < 127 ∧ slotKind (slots d mp c (j + 1)) = .stop then .stop else .free := by
  simp only [kind_stop_iff]
  unfold clearedSlot clearMark slotKind
  rw [Function.update_self]
  split
  · rfl
  · rfl

/-- The mark is chosen as `Clears` asks for. -/
theorem clearedSlot_clears : Clears slotKind 128 (slots d mp c) j (clearedSlot d mp c j) := by
  unfold Clears
  rw [clearedSlot_kind]
  split
  · rename_i hnext
    right
    exact ⟨rfl, by omega, hnext.2⟩
  · left
    rfl

theorem deletedMark_eq (hload : Loaded t.mem a t.disk mp c) (ha : a + pageCacheSize ≤ 4294967296)
    (hj : j < 128) : deletedMark t.mem a j = clearMark t.disk mp c j := by
  unfold deletedMark clearMark
  rw [entryAddr_eq ha hj]
  by_cases hlt : j < 127
  · have hnext : t.mem (a + 32 * j + 32) = slots t.disk mp c (j + 1) 0 := by
      rw [slots_head, ← hload _ (by omega)]
      exact congrArg t.mem (by omega)
    rw [hnext]
  · rw [if_neg (fun hand => hlt hand.1), if_neg (fun hand => hlt hand.1)]

/-- The state after cluster `lba` was read and entry `j` marked in the buffer. -/
def FatState.clearEntry (t : FatState) (lba a j : Nat) : FatState :=
  (t.fetch lba a).setMem (store8 (t.fetch lba a).mem (entryAddr a j)
    (deletedMark (t.fetch lba a).mem a j))

/-- Written back, the slot is cleared on the disk. -/
theorem clearEntry_disk (ha : a + pageCacheSize ≤ 4294967296) (hj : j < 128) :
    ((t.clearEntry (dataClusterLba mp c) a j).put (dataClusterLba mp c) a).disk =
      clearSlot t.disk mp c j := by
  have hload : Loaded (t.fetch (dataClusterLba mp c) a).mem a t.disk mp c := loaded_fetch
  unfold FatState.clearEntry
  rw [deletedMark_eq (t := t.fetch (dataClusterLba mp c) a) hload ha hj, entryAddr_eq ha hj]
  have hedit := put_edits (t := (t.fetch (dataClusterLba mp c) a).setMem (store8
      (t.fetch (dataClusterLba mp c) a).mem (a + 32 * j) (clearMark t.disk mp c j)))
    hload hj (fun x hx => store8_ne _ _ (by omega))
  rw [FatState.fetch_disk, hedit.eq]
  unfold clearSlot
  refine congrArg (editSlot t.disk mp c j) ?_
  funext k
  show store8 (t.fetch (dataClusterLba mp c) a).mem (a + 32 * j) _ (a + 32 * j + k) = _
  unfold clearedSlot
  by_cases hk : k = 0
  · subst hk
    rw [Function.update_self]
    exact store8_same _ _ _
  · have hne : (k : Nat) ≠ 0 := fun h => hk (Fin.ext h)
    have hlt := k.isLt
    rw [Function.update_of_ne hk, store8_ne _ _ (by omega), Nat.add_assoc, hload _ (by omega)]
    unfold slots slotAt slotAddr
    rw [Nat.add_assoc]

theorem Using.clearEntry {s : FatState} {q lba : Nat} (h : Using s t q) (hinv : CacheInv s.files)
    (hj : j < 128) : Using s (t.clearEntry lba (cellAddr s.files q) j) q := by
  have htop := h.top hinv
  refine (h.fetch hinv).setMem hinv fun x hx => store8_ne _ _ ?_
  rw [entryAddr_eq htop hj]
  simp only [pageCacheSize] at hx
  omega

/-- The entry that was read. -/
theorem fetch_entry (ha : a + pageCacheSize ≤ 4294967296) (hj : j < 128) {k : Nat} (hk : k < 32) :
    (t.fetch (dataClusterLba mp c) a).mem (entryAddr a j + k) =
      slotMem (slots t.disk mp c j) k := by
  have hload : Loaded (t.fetch (dataClusterLba mp c) a).mem a t.disk mp c := loaded_fetch
  have hslot := congrFun (hload.slotAt ha hj) ⟨k, hk⟩
  unfold slotMem
  rw [dif_pos hk, ← hslot]
  rfl

/-- An entry is copied into the buffer, and the buffer written back. -/
theorem fillEntry_disk {entry : Mem} {e : Slot} (hload : Loaded t.mem a t.disk mp c)
    (ha : a + pageCacheSize ≤ 4294967296) (hj : j < 128)
    (hentry : ∀ k < 32, entry k = slotMem e k) :
    ((t.setMem (blit t.mem (entryAddr a j) entry 0 32)).put (dataClusterLba mp c) a).disk =
      editSlot t.disk mp c j e := by
  rw [entryAddr_eq ha hj]
  have hedit := put_edits (t := t.setMem (blit t.mem (a + 32 * j) entry 0 32)) hload hj
    (fun x hx => blit_frame _ _ _ hx)
  rw [hedit.eq]
  refine congrArg (editSlot t.disk mp c j) ?_
  funext k
  have hk := k.isLt
  show blit t.mem (a + 32 * j) entry 0 32 (a + 32 * j + k) = _
  rw [blit_at _ _ _ _ (by omega), Nat.zero_add,
    hentry _ hk]
  exact dif_pos hk

theorem Using.fillEntry {s : FatState} {q : Nat} (entry : Mem) (h : Using s t q)
    (hinv : CacheInv s.files) (hj : j < 128) :
    Using s (t.setMem (blit t.mem (entryAddr (cellAddr s.files q) j) entry 0 32)) q := by
  have htop := h.top hinv
  refine h.setMem hinv fun x hx => blit_frame _ _ _ ?_
  rw [entryAddr_eq htop hj]
  simp only [pageCacheSize] at hx
  omega

/-- Of the slots of the directory clusters only this one changes. -/
theorem slots_edit_other {e : Slot} (hv : Volume mp n) (hD : ∀ x, D x → DataCluster n x) (hc : D c)
    (hj : j < 128) (hc' : D c') (hj' : j' < 128) (hne : c' = c → j' ≠ j) :
    slots (editSlot d mp c j e) mp c' j' = slots d mp c' j' := by
  have hedit : EditsSlot d (editSlot d mp c j e) mp c j e := editSlot_edits
  by_cases hcc : c' = c
  · subst hcc
    rw [hedit.slots_eq, Function.update_of_ne (hne rfl)]
  · exact hedit.other hv hj (hD c hc) (hD c' hc') hcc hj'

/-- What is seen in the directory clusters after a live entry was taken off. -/
theorem visible_clearSlot (hv : Volume mp n) (hD : ∀ x, D x → DataCluster n x) (hc : D c)
    (hlive : Visible slotKind 128 (slots d mp c) j) (hc' : D c') :
    Visible slotKind 128 (slots (clearSlot d mp c j) mp c') j' ↔
      Visible slotKind 128 (slots d mp c') j' ∧ ¬ (c' = c ∧ j' = j) := by
  have hnot : slotKind (slots d mp c j) ≠ .stop := by
    rw [hlive.2.1]
    exact Kind.noConfusion
  by_cases hcc : c' = c
  · subst hcc
    unfold clearSlot
    rw [editSlot_edits.slots_eq, visible_clear hnot clearedSlot_clears]
    exact and_congr_right fun _ => ⟨fun hne hand => hne hand.2, fun hno heq => hno ⟨rfl, heq⟩⟩
  · have hsame : ∀ i < 128, slots (clearSlot d mp c j) mp c' i = slots d mp c' i := by
      intro i hi
      exact slots_edit_other hv hD hc hlive.1 hc' hi (fun heq => absurd heq hcc)
    rw [visible_congr hsame]
    exact ⟨fun hvis => ⟨hvis, fun hand => hcc hand.1⟩, And.left⟩

end Clear

/-! ## The chain -/

/-- `y` is reached from `x` by links. -/
def Follows (d : Mem) (mp : MountPoint) : Nat → Nat → Prop :=
  Relation.ReflTransGen fun x y => x < fatEof ∧ fatEntry d mp x = y

/-- What is reached from `x` are entries of the FAT and end marks. -/
def StaysInFat (d : Mem) (mp : MountPoint) (n x : Nat) : Prop :=
  ∀ y, Follows d mp x y → y < n ∨ fatEof ≤ y

section Chain

variable {s s' : FatState} {d : Mem} {mp : MountPoint} {node : FatNode} {n x fuel : Nat}
  {res : ErrorT}

/-- Clearing a chain writes to the FAT only. -/
theorem deleteChain_cases (h : Steady 1 s) (hmp : Mounted mp) (hn : FatSize mp n)
    (hstay : StaysInFat d mp n x)
    (hagree : ∀ y < n, fatEntry s.disk mp y = fatEntry d mp y ∨ fatEntry s.disk mp y = 0)
    (hrun : fatFsDeleteChain mp fuel s x = .ret (s', res)) :
    Scratch s s' ∧ ∀ a, (a < fatAddr mp 0 ∨ fatAddr mp n ≤ a) → s'.disk a = s.disk a := by
  induction fuel generalizing s x with
  | zero => cases hrun
  | succ fuel ih =>
    unfold fatFsDeleteChain at hrun
    split at hrun
    · rename_i hlt
      have hx : x < n := by
        rcases hstay x Relation.ReflTransGen.refl with hin | hend
        · exact hin
        · omega
      rcases markCluster_ok h hmp hn hx 0 with ⟨t, hmark, hscratch, hdisk, -⟩
      rw [hmark] at hrun
      have hsame : ∀ a, (a < fatAddr mp 0 ∨ fatAddr mp n ≤ a) → t.disk a = s.disk a := by
        intro a ha
        rw [hdisk]
        refine store32_frame _ _ ?_
        unfold fatAddr at *
        omega
      split at hrun
      · -- the entry was free already
        injection hrun with hpair
        rcases Prod.mk.inj hpair with ⟨rfl, -⟩
        rename_i hpair'
        rcases Prod.mk.inj hpair' with ⟨rfl, -⟩
        exact ⟨hscratch, hsame⟩
      · rename_i t' next hnonzero hpair
        rcases Prod.mk.inj hpair with ⟨rfl, rfl⟩
        have hlink : fatEntry s.disk mp x = fatEntry d mp x := by
          rcases hagree x hx with heq | hzero
          · exact heq
          · exact absurd hzero hnonzero
        have hrest := ih (x := fatEntry s.disk mp x) (hscratch.steady h) ?_ ?_ hrun
        · exact ⟨hscratch.trans hrest.1, fun a ha => (hrest.2 a ha).trans (hsame a ha)⟩
        · intro y hy
          exact hstay y (Relation.ReflTransGen.head ⟨hlt, hlink.symm⟩ hy)
        · intro y hy
          rw [hdisk]
          by_cases hyx : y = x
          · right
            rw [hyx, fatEntry_mark_same]
            rfl
          · rw [fatEntry_mark_other hyx]
            exact hagree y hy
    · injection hrun with hpair
      rcases Prod.mk.inj hpair with ⟨rfl, -⟩
      exact ⟨Scratch.refl, fun _ _ => rfl⟩

/-- `fat_fs_delete_node` when nothing fails and the node may be deleted: the slot is
cleared, and then the chain. -/
theorem deleteNode_run (h : Steady 1 s) (hmp : Mounted mp)
    (hnode : ¬ (node.attributes &&& 7 = vfsDirectory ∧ node.children.length > 2))
    (hj : node.data.metadataIndex < 128) :
    ∃ w, (∀ fuel, fatFsDeleteNode fuel s mp node = match node.data.layout.head? with
        | none => .undefined
        | some x => fatFsDeleteChain mp fuel w x) ∧
      Scratch s w ∧
      w.disk = clearSlot s.disk mp node.data.metadataCluster node.data.metadataIndex := by
  rcases h.reserve with ⟨q, s₁, hres, hu, hsteady, ⟨hdisk, -, hdevice⟩, -⟩
  have htop := hu.top h.inv
  rcases hu.addr h.inv with ⟨a, ha⟩
  have hdev₀ : s₁.device 0 = true := hsteady.calm.device 0
  have hdev₁ : s₁.device 1 = true := hsteady.calm.device 1
  generalize hc' : node.data.metadataCluster = c at *
  generalize hj' : node.data.metadataIndex = j at *
  have hmark : Using s (s₁.clearEntry (dataClusterLba mp c) (cellAddr s.files q) j) q :=
    hu.clearEntry h.inv hj
  refine ⟨((s₁.clearEntry (dataClusterLba mp c) (cellAddr s.files q) j).put
      (dataClusterLba mp c) (cellAddr s.files q)).releaseAnonymous (cellAddr s.files q),
    ?_, hmark.put.release h.inv, ?_⟩
  · intro fuel
    unfold fatFsDeleteNode
    rw [if_neg hnode, hres, ha]
    simp only [readByDataCluster_eq hmp, hdev₀, if_pos, writeByDataCluster_eq hmp,
      FatState.setMem_device, FatState.fetch_device, hdev₁, hc', hj']
    simp only [← ha]
    rfl
  · rw [FatState.release_disk, clearEntry_disk htop hj, hdisk]

/-- `fat_fs_delete_node` when nothing fails and the node may be deleted: outside
of the FAT the disk is the one with the slot cleared. -/
theorem deleteNode_cases (h : Steady 1 s) (hv : Volume mp n)
    (hnode : ¬ (node.attributes &&& 7 = vfsDirectory ∧ node.children.length > 2))
    (hc : DataCluster n node.data.metadataCluster) (hj : node.data.metadataIndex < 128)
    (hstay : ∀ x, node.data.layout.head? = some x → StaysInFat s.disk mp n x)
    (hrun : fatFsDeleteNode fuel s mp node = .ret (s', res)) :
    Scratch s s' ∧ ∀ a, fatAddr mp n ≤ a →
      s'.disk a = clearSlot s.disk mp node.data.metadataCluster node.data.metadataIndex a := by
  have hmp := hv.toMounted
  rcases deleteNode_run h hmp hnode hj with ⟨w, hgoes, hscratch, hcleared⟩
  rw [hgoes] at hrun
  cases hhead : node.data.layout.head? with
  | none =>
    rw [hhead] at hrun
    cases hrun
  | some x =>
    rw [hhead] at hrun
    have hagree : ∀ y < n,
        fatEntry w.disk mp y = fatEntry s.disk mp y ∨ fatEntry w.disk mp y = 0 := by
      intro y hy
      left
      rw [hcleared]
      exact editSlot_edits.fat hv hj hc hy
    rcases deleteChain_cases (hscratch.steady h) hmp hv.fatSize (hstay x hhead) hagree hrun with
      ⟨hscratch', hout⟩
    refine ⟨hscratch.trans hscratch', ?_⟩
    intro b hb
    rw [hout b (Or.inr hb), hcleared]

end Chain

end MeOS
