import MeOS.FatData
import MeOS.FatDelete

/-! # Freeing a chain

`fat_fs_delete_node` frees the chain of the node by setting one entry of the FAT
after another to 0, and goes on with what was there. Every turn but the last
takes an entry out of `linked`, so the loop ends on any FAT (`deleteChain_ends`).
A chain that is well formed is freed as a whole. An empty file has first cluster
0, and what is freed for it is entry 0 (`deleteNode_frees_iff`).
-/

namespace MeOS

open Bytes EndMarked

/-! ## The loop ends -/

/-- The entries that are not free. -/
def linked (d : Mem) (mp : MountPoint) : Set Nat := {x | x < fatEof ∧ linkEntry d mp x ≠ 0}

section Loop

variable {s t : FatState} {d : Mem} {mp : MountPoint} {x v fuel : Nat}

theorem linked_finite : (linked d mp).Finite :=
  (Set.finite_lt_nat fatEof).subset fun _ hx => hx.1

/-- What the loop follows are numbers of 28 bits. -/
theorem lt_of_lt_fatEof (hx : x < fatEof) : x < 268435456 := Nat.lt_trans hx (by decide)

/-- Freeing an entry takes it out. -/
theorem linked_free (hx : x < fatEof) :
    linked (store32 d (linkAddr mp x) (0 &&& fatMask)) mp = linked d mp \ {x} := by
  ext y
  rw [Set.mem_sdiff, Set.mem_singleton_iff]
  constructor
  · rintro ⟨hy, hne⟩
    have hyx : y ≠ x := by
      rintro rfl
      rw [linkEntry_store_same] at hne
      exact hne (Nat.zero_and fatMask)
    rw [linkEntry_store_other (lt_of_lt_fatEof hx) (lt_of_lt_fatEof hy) hyx] at hne
    exact ⟨⟨hy, hne⟩, hyx⟩
  · rintro ⟨⟨hy, hne⟩, hyx⟩
    refine ⟨hy, ?_⟩
    rw [linkEntry_store_other (lt_of_lt_fatEof hx) (lt_of_lt_fatEof hy) hyx]
    exact hne

/-- The loop is over at an end mark. -/
theorem deleteChain_end (hx : fatEof ≤ x) : fatFsDeleteChain mp (fuel + 1) s x = .ret (s, .ok) := by
  unfold fatFsDeleteChain
  rw [if_neg (by omega)]

/-- The loop gives up at an entry that was free. -/
theorem deleteChain_stop (hx : x < fatEof) (hmark : fatFsMarkCluster s mp x 0 = (t, 0)) :
    fatFsDeleteChain mp (fuel + 1) s x = .ret (t, .occur) := by
  unfold fatFsDeleteChain
  rw [if_pos hx, hmark]
  rfl

/-- The loop goes on with what the entry was. -/
theorem deleteChain_turn (hx : x < fatEof) (hmark : fatFsMarkCluster s mp x 0 = (t, v))
    (hv : v ≠ 0) : fatFsDeleteChain mp (fuel + 1) s x = fatFsDeleteChain mp fuel t v := by
  obtain ⟨w, rfl⟩ : ∃ w, v = w + 1 := ⟨v - 1, by omega⟩
  conv_lhs => unfold fatFsDeleteChain
  rw [if_pos hx, hmark]
  rfl

/-- Nothing is marked on what is no mounted volume. -/
theorem markCluster_unmounted (h : Steady 1 s) (hmp : ¬ Mounted mp) :
    (fatFsMarkCluster s mp x v).2 = 0 := by
  have hread : ∀ (u : FatState) lba a,
      fatFsReadByLba u mp lba a = (u.setLastError .badArguments, false) := by
    intro u lba a
    unfold fatFsReadByLba
    rw [if_pos]
    by_contra hno
    rw [not_or, not_or, not_not] at hno
    exact hmp ⟨hno.1, hno.2.1, hno.2.2⟩
  rcases h.reserve with ⟨i, s₁, hres, husing, -⟩
  rcases husing.addr h.inv with ⟨a, ha⟩
  unfold fatFsMarkCluster
  rw [hres, ha]
  simp only [hread]

/-- A turn of the loop: it gives up, or takes one entry out of those in use. -/
theorem free_turn (h : Steady 1 s) (hx : x < fatEof) (hv : (fatFsMarkCluster s mp x 0).2 ≠ 0) :
    x ∈ linked s.disk mp ∧
      linked (fatFsMarkCluster s mp x 0).1.disk mp = linked s.disk mp \ {x} ∧
      Scratch s (fatFsMarkCluster s mp x 0).1 := by
  have hmp : Mounted mp := by
    by_contra hno
    exact hv (markCluster_unmounted h hno)
  rcases markCluster_done h hmp x 0 with ⟨t, hmark, hscratch, hdisk, -⟩
  rw [hmark] at hv ⊢
  refine ⟨⟨hx, hv⟩, ?_, hscratch⟩
  rw [hdisk]
  exact linked_free hx

/-- By induction on the number of entries in use: each turn ends the loop or takes one away. -/
theorem deleteChain_returns (mp : MountPoint) (h : Steady 1 s) (x : Nat) :
    ∃ r, ∀ fuel, (linked s.disk mp).ncard < fuel → fatFsDeleteChain mp fuel s x = .ret r := by
  generalize hk : (linked s.disk mp).ncard = k
  induction k using Nat.strong_induction_on generalizing s x with
  | _ k ih =>
    by_cases hx : x < fatEof
    · by_cases hv : (fatFsMarkCluster s mp x 0).2 = 0
      · refine ⟨((fatFsMarkCluster s mp x 0).1, .occur), fun fuel hfuel => ?_⟩
        obtain ⟨fuel, rfl⟩ : ∃ f, fuel = f + 1 := ⟨fuel - 1, by omega⟩
        exact deleteChain_stop hx (Prod.ext rfl hv)
      · rcases free_turn h hx hv with ⟨hmem, hless, hscratch⟩
        have hlt : (linked (fatFsMarkCluster s mp x 0).1.disk mp).ncard < k := by
          rw [hless, ← hk]
          exact Set.ncard_sdiff_singleton_lt_of_mem hmem linked_finite
        rcases ih _ hlt (hscratch.steady h) (fatFsMarkCluster s mp x 0).2 rfl with ⟨r, hr⟩
        refine ⟨r, fun fuel hfuel => ?_⟩
        obtain ⟨fuel, rfl⟩ : ∃ f, fuel = f + 1 := ⟨fuel - 1, by omega⟩
        rw [deleteChain_turn hx rfl hv]
        exact hr fuel (by omega)
    · refine ⟨(s, .ok), fun fuel hfuel => ?_⟩
      obtain ⟨fuel, rfl⟩ : ∃ f, fuel = f + 1 := ⟨fuel - 1, by omega⟩
      exact deleteChain_end (by omega)

/-- On any FAT the loop ends after as many turns as entries are in use, and one more: each turn
ends it or frees an entry. -/
theorem deleteChain_ends (h : Steady 1 s) (x : Nat) :
    (∃ r, ∀ fuel, (linked s.disk mp).ncard < fuel → fatFsDeleteChain mp fuel s x = .ret r) ∧
      (x < fatEof → (fatFsMarkCluster s mp x 0).2 ≠ 0 → x ∈ linked s.disk mp ∧
        linked (fatFsMarkCluster s mp x 0).1.disk mp = linked s.disk mp \ {x}) := by
  refine ⟨deleteChain_returns mp h x, fun hx hv => ?_⟩
  rcases free_turn h hx hv with ⟨hmem, hless, -⟩
  exact ⟨hmem, hless⟩

/-- A disk on which entry 2 of the FAT links to itself. -/
def loopDisk : Mem := fun x => if x = 16392 then 2 else 0

/-- The chain 2, 2, 2, ... -/
theorem deleteChain_ends_loop :
    (∃ r, ∀ fuel, (linked (freshState loopDisk).disk smallMount).ncard < fuel →
      fatFsDeleteChain smallMount fuel (freshState loopDisk) 2 = .ret r) ∧
      (2 < fatEof → (fatFsMarkCluster (freshState loopDisk) smallMount 2 0).2 ≠ 0 →
        2 ∈ linked (freshState loopDisk).disk smallMount ∧
        linked (fatFsMarkCluster (freshState loopDisk) smallMount 2 0).1.disk smallMount =
          linked (freshState loopDisk).disk smallMount \ {2}) :=
  deleteChain_ends ((freshState_steady loopDisk).mono (by decide)) 2

end Loop

/-! ## What is freed -/

/-- From `d` to `d'` the entries of the chain were freed, and no other one of the FAT. -/
structure Frees (d d' : Mem) (mp : MountPoint) (n : Nat) (chain : List Nat) (res : ErrorT) :
    Prop where
  ok : res = .ok
  freed : ∀ c ∈ chain, fatEntry d' mp c = 0
  others : ∀ x < n, x ∉ chain → fatEntry d' mp x = fatEntry d mp x

/-- The first cluster of the node starts the chain, or is 0 for an empty file. -/
def StartsChain (d : Mem) (mp : MountPoint) (n : Nat) (node : FatNode) (chain : List Nat) : Prop :=
  ∃ x, node.data.layout.head? = some x ∧
    ((x = 0 ∧ chain = []) ∨ (x < fatEof ∧ chain.head? = some x ∧ Chain d mp n chain))

/-- The entry of the node does not lie in the FAT. -/
def EntryOffFat (mp : MountPoint) (n : Nat) (node : FatNode) : Prop :=
  slotAddr mp node.data.metadataCluster node.data.metadataIndex + 32 ≤ fatAddr mp 0 ∨
    fatAddr mp n ≤ slotAddr mp node.data.metadataCluster node.data.metadataIndex

section Chain

variable {s s' : FatState} {d d' : Mem} {mp : MountPoint} {node : FatNode} {n x c fuel : Nat}
  {chain rest : List Nat} {res : ErrorT}

/-- Behind the FAT are the data clusters. -/
theorem entryOffFat_of_data (hv : Volume mp n) (hc : DataCluster n node.data.metadataCluster) :
    EntryOffFat mp n node := by
  right
  unfold slotAddr
  exact (fat_below_cluster hv hc).trans (Nat.le_add_right _ _)

/-- Clearing a slot outside of the FAT leaves the FAT. -/
theorem fatEntry_clearSlot (hslot : EntryOffFat mp n node) (hx : x < n) :
    fatEntry (clearSlot d mp node.data.metadataCluster node.data.metadataIndex) mp x =
      fatEntry d mp x := by
  unfold fatEntry
  congr 1
  refine load32_congr fun y hlo hhi => editSlot_edits.1 y ?_
  unfold EntryOffFat fatAddr at hslot
  unfold fatAddr at hlo hhi
  omega

/-- A chain that is well formed is freed. -/
theorem deleteChain_frees (h : Steady 1 s) (hmp : Mounted mp) (hn : FatSize mp n)
    (hx : x < fatEof) (hchain : Chain s.disk mp n (x :: rest)) :
    ∃ s', Settles (fun fuel => fatFsDeleteChain mp fuel s x) (s', .ok) ∧
      Frees s.disk s'.disk mp n (x :: rest) .ok := by
  induction rest generalizing s x with
  | nil =>
    cases hchain with
    | last hc hend =>
      rcases markCluster_ok h hmp hn hc.2 0 with ⟨t, hmark, -, hdisk, -⟩
      have hv : fatEntry s.disk mp x ≠ 0 := (Nat.lt_of_lt_of_le (by decide) hend).ne'
      refine ⟨t, .succ ?_, rfl, ?_, ?_⟩
      · simp only [deleteChain_turn hx hmark hv]
        refine .succ ?_
        simp only [deleteChain_end hend]
        exact .ret
      · intro c hmem
        rw [List.mem_singleton.mp hmem, hdisk, fatEntry_mark_same, Nat.zero_and]
      · intro y hy hne
        rw [hdisk, fatEntry_mark_other fun heq => hne (List.mem_singleton.mpr heq)]
  | cons c' rest ih =>
    have hnodup := hchain.nodup
    cases hchain with
    | link hc hlink hlt hrest =>
      rcases markCluster_ok h hmp hn hc.2 0 with ⟨t, hmark, hscratch, hdisk, -⟩
      have hv : fatEntry s.disk mp x ≠ 0 := by
        have hnext := hrest.head_data.1
        omega
      have hfront : x ∉ c' :: rest := (List.nodup_cons.mp hnodup).1
      have hother : ∀ y, y ≠ x → fatEntry t.disk mp y = fatEntry s.disk mp y := by
        intro y hne
        rw [hdisk, fatEntry_mark_other hne]
      have hrest' : Chain t.disk mp n (c' :: rest) := by
        refine hrest.congr fun y hy => hother y ?_
        rintro rfl
        exact hfront hy
      rcases ih (hscratch.steady h) hlt hrest' with ⟨s', hsettles, hfrees⟩
      refine ⟨s', .succ ?_, rfl, ?_, ?_⟩
      · simp only [deleteChain_turn hx hmark hv, hlink]
        exact hsettles
      · intro y hmem
        rcases List.mem_cons.mp hmem with rfl | hback
        · -- freed in this turn, and left by the others
          rw [hfrees.others y hc.2 hfront, hdisk, fatEntry_mark_same, Nat.zero_and]
        · exact hfrees.freed y hback
      · intro y hy hne
        rw [List.mem_cons, not_or] at hne
        rw [hfrees.others y hy hne.2, hother y hne.1]

/-- An entry that is free stays free. -/
theorem deleteChain_keeps_free (h : Steady 1 s) (hmp : Mounted mp) (hc : c < 268435456)
    (hfree : linkEntry s.disk mp c = 0)
    (hrun : fatFsDeleteChain mp fuel s x = .ret (s', res)) : linkEntry s'.disk mp c = 0 := by
  induction fuel generalizing s x with
  | zero => cases hrun
  | succ fuel ih =>
    by_cases hx : x < fatEof
    · rcases markCluster_done h hmp x 0 with ⟨t, hmark, hscratch, hdisk, -⟩
      have hfree' : linkEntry t.disk mp c = 0 := by
        rw [hdisk]
        by_cases hcx : c = x
        · rw [hcx, linkEntry_store_same, Nat.zero_and]
        · rw [linkEntry_store_other (lt_of_lt_fatEof hx) hc hcx]
          exact hfree
      by_cases hv : linkEntry s.disk mp x = 0
      · rw [hv] at hmark
        rw [deleteChain_stop hx hmark] at hrun
        injection hrun with hpair
        rcases Prod.mk.inj hpair with ⟨rfl, -⟩
        exact hfree'
      · rw [deleteChain_turn hx hmark hv] at hrun
        exact ih (hscratch.steady h) hfree' hrun
    · rw [deleteChain_end (by omega)] at hrun
      injection hrun with hpair
      rcases Prod.mk.inj hpair with ⟨rfl, -⟩
      exact hfree

/-- From first cluster 0 on, the loop frees entry 0 or fails. -/
theorem deleteChain_zero (h : Steady 1 s) (hmp : Mounted mp) (hn : FatSize mp n) (hpos : 0 < n)
    (hrun : fatFsDeleteChain mp fuel s 0 = .ret (s', res)) :
    res = .occur ∨ (fatEntry s.disk mp 0 ≠ 0 ∧ fatEntry s'.disk mp 0 = 0) := by
  cases fuel with
  | zero => cases hrun
  | succ fuel =>
    have hzero : 0 < fatEof := by decide
    rcases markCluster_ok h hmp hn hpos 0 with ⟨t, hmark, hscratch, hdisk, -⟩
    by_cases hv : fatEntry s.disk mp 0 = 0
    · left
      rw [hv] at hmark
      rw [deleteChain_stop hzero hmark] at hrun
      injection hrun with hpair
      exact (Prod.mk.inj hpair).2.symm
    · right
      rw [deleteChain_turn hzero hmark hv] at hrun
      have hfree : linkEntry t.disk mp 0 = 0 := by
        rw [linkEntry_eq hn hpos, hdisk, fatEntry_mark_same, Nat.zero_and]
      have hkeeps := deleteChain_keeps_free (hscratch.steady h) hmp (by decide) hfree hrun
      rw [linkEntry_eq hn hpos] at hkeeps
      exact ⟨hv, hkeeps⟩

/-- A disk with an empty file: `zeroFile`. Deleting the file frees entry 0 of the FAT, which
holds the media type. -/
theorem deleteNode_frees_media : ∃ s s' node,
    fatFsReadDirectory 2 (freshState zeroFile) smallMount 2 = .ret (s, [node]) ∧
    StartsChain s.disk smallMount 1024 node [] ∧
    fatFsDeleteNode 2 s smallMount node = .ret (s', .ok) ∧
    ¬ Frees s.disk s'.disk smallMount 1024 [] .ok := by
  refine ⟨_, _, _, rfl, ⟨0, rfl, Or.inl ⟨rfl, rfl⟩⟩, rfl, ?_⟩
  intro hfrees
  have hsame := hfrees.others 0 (by decide) List.not_mem_nil
  exact absurd hsame (by decide)

/-- Deleting frees exactly the chain of the node when its first cluster is not 0 and the node is
no directory that the function takes for filled. -/
theorem deleteNode_frees_iff (h : Steady 1 s) (hmp : Mounted mp) (hn : FatSize mp n) (hpos : 0 < n)
    (hj : node.data.metadataIndex < 128) (hslot : EntryOffFat mp n node)
    (hchain : StartsChain s.disk mp n node chain) :
    ∃ s' res, Settles (fun fuel => fatFsDeleteNode fuel s mp node) (s', res) ∧
      (Frees s.disk s'.disk mp n chain res ↔ node.data.layout.head? ≠ some 0 ∧
        ¬ (node.attributes &&& 7 = vfsDirectory ∧ node.children.length > 2)) := by
  by_cases hnode : node.attributes &&& 7 = vfsDirectory ∧ node.children.length > 2
  · -- refused
    refine ⟨s.setLastError .vfsBadArguments, .occur, ⟨0, fun fuel _ => ?_⟩, ?_⟩
    · show fatFsDeleteNode fuel s mp node = _
      unfold fatFsDeleteNode
      rw [if_pos hnode]
    · refine iff_of_false (fun hfrees => ?_) (fun hcond => hcond.2 hnode)
      exact ErrorT.noConfusion hfrees.ok
  · rcases deleteNode_run h hmp hnode hj with ⟨w, hrun, hscratch, hdisk⟩
    rcases hchain with ⟨x, hhead, hcases⟩
    rw [hhead] at hrun ⊢
    have hsteady := hscratch.steady h
    have hsame : ∀ y < n, fatEntry w.disk mp y = fatEntry s.disk mp y := by
      intro y hy
      rw [hdisk]
      exact fatEntry_clearSlot hslot hy
    simp only [hrun]
    rcases hcases with ⟨rfl, rfl⟩ | ⟨hx, hfirst, hchain⟩
    · -- an empty file
      rcases deleteChain_returns mp hsteady 0 with ⟨⟨s', res⟩, hends⟩
      refine ⟨s', res, ⟨(linked w.disk mp).ncard + 1, fun fuel hfuel => hends fuel (by omega)⟩, ?_⟩
      refine iff_of_false (fun hfrees => ?_) (fun hcond => hcond.1 rfl)
      rcases deleteChain_zero hsteady hmp hn hpos (hends _ (Nat.lt_succ_self _)) with hfail |
        ⟨hbefore, hafter⟩
      · rw [hfrees.ok] at hfail
        cases hfail
      · have hkept := hfrees.others 0 hpos List.not_mem_nil
        rw [hsame 0 hpos] at hbefore
        rw [hafter] at hkept
        exact hbefore hkept.symm
    · obtain ⟨rest, rfl⟩ : ∃ rest, chain = x :: rest := List.head?_eq_some_iff.mp hfirst
      have hchain' : Chain w.disk mp n (x :: rest) :=
        hchain.congr fun c hc => hsame c (hchain.used c hc).1.2
      rcases deleteChain_frees hsteady hmp hn hx hchain' with ⟨s', hsettles, hfrees⟩
      refine ⟨s', .ok, hsettles, iff_of_true ⟨rfl, hfrees.freed, ?_⟩ ⟨?_, hnode⟩⟩
      · intro y hy hne
        rw [hfrees.others y hy hne, hsame y hy]
      · have hdata := hchain.head_data.1
        intro hzero
        have hx0 := Option.some.inj hzero
        omega

/-- A file in cluster 2. -/
theorem deleteNode_frees_iff_one : ∃ s' res,
    Settles (fun fuel => fatFsDeleteNode fuel (freshState zeroFile) smallMount
      ⟨[65], 25, 14, 0, ⟨[2], false, 3, 0⟩, []⟩) (s', res) ∧
    (Frees (freshState zeroFile).disk s'.disk smallMount 1024 [2] res ↔
      [2].head? ≠ some 0 ∧ ¬ (25 &&& 7 = vfsDirectory ∧ ([] : List FatNode).length > 2)) := by
  have hend : fatEof ≤ fatEntry zeroFile smallMount 2 := by decide
  exact deleteNode_frees_iff ((freshState_steady zeroFile).mono (by decide)) smallMount_mounted
    smallMount_volume.fatSize (by decide) (by decide)
    (entryOffFat_of_data smallMount_volume ⟨by decide, by decide⟩)
    ⟨2, rfl, Or.inr ⟨by decide, rfl, .last ⟨by decide, by decide⟩ hend⟩⟩

end Chain

end MeOS
