import MeOS.FatCreate

/-! # One entry for a new node

`fat_fs_create_node` should add one entry to the directory and touch the FAT only
for the clusters it reserves. It does so when it fills a slot of a directory
that hides nothing, and when the scan for a free cluster stops in the first
block of the FAT (`createNode_adds_iff`). A full directory is extended by a copy
of its last cluster.
-/

namespace MeOS

open Bytes EndMarked

/-! ## What creating should do -/

/-- The clusters `r` and `ext` were free in `d` and are reserved in `d'`, and
every other entry of the FAT is as before, but for the last link of a directory
that was extended. -/
structure Reserves (d d' : Mem) (mp : MountPoint) (n : Nat) (layout ext : List Nat) (r : Nat) :
    Prop where
  distinct : (r :: ext).Nodup
  fresh : ∀ x ∈ r :: ext, DataCluster n x ∧ fatEntry d mp x = 0 ∧ fatEof ≤ fatEntry d' mp x
  others : ∀ x < n, x ∉ r :: ext → (ext = [] ∨ layout.getLast? ≠ some x) →
    fatEntry d' mp x = fatEntry d mp x

/-- From `d` to `d'` the directory got one entry, with this name and the first
cluster of the node. -/
def CreateLaw (d d' : Mem) (mp : MountPoint) (n : Nat) (layout layout' : List Nat)
    (name : List UInt8) (node : FatNode) : Prop :=
  ∃ ext r c j e, layout' = layout ++ ext ∧ ext.length ≤ 1 ∧ node.data.layout = [r] ∧
    Reserves d d' mp n layout ext r ∧ Chain d' mp n layout' ∧
    fatFsGenerateShortName name = some (slotName e) ∧ slotCluster e = r ∧
    (c, j, e) ∉ Listing d mp layout ∧
    Listing d' mp layout' = insert (c, j, e) (Listing d mp layout)

/-- There is a vacant slot to be found that hides nothing, and the first free
entry of the FAT is among the first 128. -/
def CreateAdds (s : FatState) (mp : MountPoint) (n : Nat) (layout : List Nat) : Prop :=
  ∃ c j k i, Finds s.disk mp s.device layout c j k ∧ Scan s.disk mp 0 i ∧ DataCluster n i ∧
    ∀ j', ¬ HiddenBehind slotKind 128 (slots s.disk mp c) j j'

section Created

variable {d d' : Mem} {mp : MountPoint} {n c c' j idx i r x : Nat} {table : Nat → Slot} {e : Slot}
  {dir : Prop} [Decidable dir] {layout : List Nat}

theorem fatAddr_inj {x y : Nat} (h : fatAddr mp x = fatAddr mp y) : x = y := by
  unfold fatAddr at h
  omega

/-- What the halves of a cluster number give is no later cluster, and 0 for
none. -/
theorem halvesOf_bounds (hr : 2 ≤ r) (hlt : r < 268435456) :
    1 ≤ halvesOf r ∧ halvesOf r ≤ r ∧ (r < 65536 ↔ halvesOf r = r) := by
  rw [halvesOf_eq hlt]
  omega

/-- The FAT after a creation. -/
theorem CreatedNode.fatEntry (h : CreatedNode d d' mp c j table idx i e dir) (hv : Volume mp n)
    (hc : DataCluster n c) (he : DataCluster n (slotCluster e)) (hx : x < n) :
    MeOS.fatEntry d' mp x =
      if scanAddr mp idx i = fatAddr mp x then fatEof else MeOS.fatEntry d mp x := by
  have hbelow := fat_below_cluster hv hc
  have hbelow' := fat_below_cluster hv he
  have heof : fatEof &&& fatMask = fatEof := by decide
  rw [← heof, ← fatEntry_scan]
  unfold MeOS.fatEntry
  congr 1
  refine load32_congr fun y hlo hhi => h.outside y ?_ ?_
  · left
    unfold fatAddr at *
    omega
  · left
    unfold fatAddr at *
    omega

/-- A reserved cluster was marked where it is when it lies in the first block. -/
theorem reserved_first (hn : FatSize mp n) (hscan : Scan d mp idx i)
    (hx : reservedCluster idx i < n)
    (hsame : scanAddr mp idx i = fatAddr mp (reservedCluster idx i)) :
    idx = 0 ∧ reservedCluster idx i = i := by
  have hword := scan_entry hn hscan.block hscan.word hx hsame
  have hidx := (reservedCluster_le hn hscan.word hx hword).2.2.mp rfl
  subst hidx
  exact ⟨rfl, reservedCluster_zero hscan.word⟩

/-- The listing after the first vacant slot was filled and a free cluster of the
first block reserved: the new entry comes in, and what its slot has hidden. -/
theorem CreatedNode.listing (hcreated : CreatedNode d d' mp c j (slots d mp c) 0 i e dir)
    (hv : Volume mp n) (hchain : Chain d mp n layout) (hmem : c ∈ layout) (hj : j < 127)
    (hfirst : FirstVacant slotKind (slots d mp c) j) (hlive : slotKind e = .live)
    (hscan : Scan d mp 0 i) (hi : DataCluster n i) (he : slotCluster e = i) {p : Nat × Nat × Slot} :
    p ∈ Listing d' mp layout ↔ p = (c, j, e) ∨ p ∈ Listing d mp layout ∨
      (p.1 = c ∧ HiddenBehind slotKind 128 (slots d mp c) j p.2.1 ∧
        p.2.2 = slots d mp c p.2.1) := by
  rcases hchain.used c hmem with ⟨hc, hused⟩
  have hfree : MeOS.fatEntry d mp i = 0 := by
    rw [← scanValue_zero hv.fatSize]
    exact hscan.free
  have hci : i ≠ c := by
    rintro rfl
    exact hused hfree
  have hspan : 1 ≤ i ∧ i < n := ⟨by have := hi.1; omega, hi.2⟩
  -- the cluster of the slot
  have hhere : ∀ j' < 128, slots d' mp c j' = Function.update (slots d mp c) j e j' := by
    apply hcreated.table
    rw [he]
    exact offCluster_of_ne hv hc hspan hci
  -- every other cluster
  have hthere : ∀ c' ∈ layout, c' ≠ c → ∀ j' < 128, slots d' mp c' j' = slots d mp c' j' := by
    intro c' hmem' hne j' hj'
    rcases hchain.used c' hmem' with ⟨hc', hused'⟩
    have hci' : i ≠ c' := by
      rintro rfl
      exact hused' hfree
    have hbelow := fat_below_cluster hv hc'
    refine slots_congr (fun x hlo hhi => ?_) hj'
    rw [hcreated.outside x
      (offCluster_of_ne hv hc' ⟨by have := hc.1; omega, hc.2⟩ hne.symm x hlo hhi)
      (by rw [he]; exact offCluster_of_ne hv hc' hspan hci' x hlo hhi), scanAddr_zero hv.fatSize]
    refine store32_frame _ _ ?_
    have hin := hi.2
    unfold fatAddr at *
    omega
  rcases p with ⟨c', j', e'⟩
  by_cases hcc : c' = c
  · subst hcc
    have hfill := visible_fill (j := j') hfirst (n := 128) (by omega) hlive
    rw [← visible_congr hhere] at hfill
    rw [mem_listing, mem_listing, hfill]
    constructor
    · rintro ⟨-, hvis, rfl⟩
      rcases hvis with rfl | hvis | hhid
      · left
        rw [hhere j' (by omega), Function.update_self]
      · right
        left
        have hne : j' ≠ j := by
          rintro rfl
          rcases hfirst.1 with hk | hk <;> rw [hvis.2.1] at hk <;> cases hk
        refine ⟨hmem, hvis, ?_⟩
        rw [hhere j' hvis.1, Function.update_of_ne hne]
      · right
        right
        have hlt := hhid.1
        refine ⟨rfl, hhid, ?_⟩
        show slots d' mp c' j' = _
        rw [hhere j' hhid.2.1, Function.update_of_ne (by omega)]
    · rintro (heq | ⟨-, hvis, rfl⟩ | ⟨-, hhid, he'⟩)
      · simp only [Prod.mk.injEq] at heq
        rcases heq with ⟨-, rfl, rfl⟩
        refine ⟨hmem, Or.inl rfl, ?_⟩
        rw [hhere j' (by omega), Function.update_self]
      · have hne : j' ≠ j := by
          rintro rfl
          rcases hfirst.1 with hk | hk <;> rw [hvis.2.1] at hk <;> cases hk
        refine ⟨hmem, Or.inr (Or.inl hvis), ?_⟩
        rw [hhere j' hvis.1, Function.update_of_ne hne]
      · have hlt := hhid.1
        refine ⟨hmem, Or.inr (Or.inr hhid), ?_⟩
        rw [hhere j' hhid.2.1, Function.update_of_ne (by dsimp only at hlt; omega)]
        exact he'
  · rw [mem_listing, mem_listing]
    have hne : ¬ ((c', j', e') = (c, j, e)) := by
      intro heq
      exact hcc (Prod.mk.inj heq).1
    constructor
    · rintro ⟨hmem', hvis, rfl⟩
      right
      left
      have hslots := hthere c' hmem' hcc
      exact ⟨hmem', (visible_congr hslots).mp hvis, hslots j' hvis.1⟩
    · rintro (heq | ⟨hmem', hvis, rfl⟩ | ⟨heq, -⟩)
      · exact absurd heq hne
      · have hslots := hthere c' hmem' hcc
        exact ⟨hmem', (visible_congr hslots).mpr hvis, (hslots j' hvis.1).symm⟩
      · exact absurd heq hcc

end Created

/-! ## The two ways -/

section Law

variable {s s' : FatState} {d d' : Mem} {mp : MountPoint} {directory directory' node : FatNode}
  {name : List UInt8} {fuel attrs n c j k idx i idx₁ i₁ last : Nat} {e : Slot} {dir : Prop}
  [Decidable dir] {layout : List Nat}

/-- A filled slot that hid nothing and a cluster of the first block: the law
holds. -/
theorem createLaw_of_first (hv : Volume mp n) (hchain : Chain d mp n layout) (hmem : c ∈ layout)
    (hj : j < 127) (hfirst : FirstVacant slotKind (slots d mp c) j) (hscan : Scan d mp 0 i)
    (hi : DataCluster n i) (hentry : NewEntry name i e)
    (hcreated : CreatedNode d d' mp c j (slots d mp c) 0 i e dir)
    (hnode : node.data.layout = [i])
    (hhid : ∀ j', ¬ HiddenBehind slotKind 128 (slots d mp c) j j') :
    CreateLaw d d' mp n layout layout name node := by
  rcases hchain.used c hmem with ⟨hc, hused⟩
  have hfew := hv.few
  have hword := hscan.word
  have he : slotCluster e = i := by
    rw [hentry.cluster]
    exact (halvesOf_bounds hi.1 (by have := hi.2; omega)).2.2.mp (by omega)
  have hfat : ∀ x < n, fatEntry d' mp x = if i = x then fatEof else fatEntry d mp x := by
    intro x hx
    rw [hcreated.fatEntry hv hc (by rw [he]; exact hi) hx, scanAddr_zero hv.fatSize]
    by_cases hix : i = x
    · rw [if_pos hix, if_pos (by rw [hix])]
    · rw [if_neg hix, if_neg fun hsame => hix (fatAddr_inj hsame)]
  have hzero : fatEntry d mp i = 0 := by
    rw [← scanValue_zero hv.fatSize]
    exact hscan.free
  have hlist := fun p : Nat × Nat × Slot =>
    hcreated.listing (p := p) hv hchain hmem hj hfirst hentry.live hscan hi he
  refine ⟨[], i, c, j, e, (List.append_nil layout).symm, by simp, hnode, ?_, ?_, hentry.name, he,
    ?_, ?_⟩
  · refine ⟨List.nodup_singleton i, ?_, ?_⟩
    · intro x hx
      obtain rfl : x = i := List.mem_singleton.mp hx
      refine ⟨hi, hzero, ?_⟩
      rw [hfat x hi.2, if_pos rfl]
    · intro x hx hne _
      rw [hfat x hx, if_neg fun hix => hne (List.mem_singleton.mpr hix.symm)]
  · -- the clusters of the directory keep their links
    apply hchain.congr
    intro x hx
    rcases hchain.used x hx with ⟨hdata, hlinked⟩
    rw [hfat x hdata.2, if_neg]
    rintro rfl
    exact hlinked hzero
  · rintro ⟨-, hvis, -⟩
    rcases hfirst.1 with hk | hk <;> rw [hvis.2.1] at hk <;> cases hk
  · ext p
    rw [hlist p, Set.mem_insert_iff]
    constructor
    · rintro (heq | hold | ⟨-, hbehind, -⟩)
      · exact Or.inl heq
      · exact Or.inr hold
      · exact absurd hbehind (hhid p.2.1)
    · rintro (heq | hold)
      · exact Or.inl heq
      · exact Or.inr (Or.inl hold)

/-- Where the law holds for a filled slot, the cluster is one of the first block
and the slot hid nothing. -/
theorem first_of_createLaw (hv : Volume mp n) (hchain : Chain d mp n layout) (hmem : c ∈ layout)
    (hj : j < 127) (hfirst : FirstVacant slotKind (slots d mp c) j) (hscan : Scan d mp idx i)
    (hentry : NewEntry name (reservedCluster idx i) e)
    (hcreated : CreatedNode d d' mp c j (slots d mp c) idx i e dir)
    (hnode : node.data.layout = [reservedCluster idx i])
    (hlaw : CreateLaw d d' mp n layout layout name node) :
    Scan d mp 0 i ∧ DataCluster n i ∧
      ∀ j', ¬ HiddenBehind slotKind 128 (slots d mp c) j j' := by
  rcases hlaw with ⟨ext, r, c₁, j₁, e₁, -, -, hlay, hres, -, -, hcluster, hnew, hlist⟩
  obtain rfl : reservedCluster idx i = r := by
    rw [hnode] at hlay
    exact List.head_eq_of_cons_eq hlay
  rcases hres.fresh _ List.mem_cons_self with ⟨hr, hzero, heof⟩
  rcases hchain.used c hmem with ⟨hc, hused⟩
  have hfew := hv.few
  rcases halvesOf_bounds hr.1 (by have := hr.2; omega) with ⟨hlo, hhi, hsmall⟩
  have hf : slotCluster e = halvesOf (reservedCluster idx i) := hentry.cluster
  have hvacant : ∀ e', (c, j, e') ∉ Listing d mp layout := by
    rintro e' ⟨-, hvis, -⟩
    rcases hfirst.1 with hk | hk <;> rw [hvis.2.1] at hk <;> cases hk
  by_cases hone : halvesOf (reservedCluster idx i) = 1
  · -- the new entry names cluster 1: it is seen, and not for the node's cluster
    exfalso
    have htwo := hr.1
    have hlt := hr.2
    have hdata := hc.1
    have hspan : 1 ≤ 1 ∧ 1 < n := ⟨le_refl 1, by omega⟩
    have hhere := hcreated.table (by
      rw [hf, hone]
      exact offCluster_of_ne hv hc hspan (by omega))
    have hvis : (c, j, e) ∈ Listing d' mp layout := by
      rw [mem_listing, visible_congr hhere, visible_fill hfirst (by omega) hentry.live]
      refine ⟨hmem, Or.inl rfl, ?_⟩
      rw [hhere j (by omega), Function.update_self]
    rw [hlist, Set.mem_insert_iff] at hvis
    rcases hvis with heq | hold
    · simp only [Prod.mk.injEq] at heq
      rw [← heq.2.2, hf, hone] at hcluster
      omega
    · exact hvacant e hold
  · -- no other write reaches the FAT, so the entry marked is the node's
    have he : DataCluster n (slotCluster e) := by
      rw [hf]
      exact ⟨by omega, by have := hr.2; omega⟩
    rw [hcreated.fatEntry hv hc he hr.2] at heof
    have hsame : scanAddr mp idx i = fatAddr mp (reservedCluster idx i) := by
      by_contra hne
      rw [if_neg hne, hzero] at heof
      exact absurd heof (by decide)
    rcases reserved_first hv.fatSize hscan hr.2 hsame with ⟨rfl, hri⟩
    rw [hri] at hr hcluster hf hsmall
    have he' : slotCluster e = i := by
      rw [hf]
      exact hsmall.mp (by have := hscan.word; omega)
    refine ⟨hscan, hr, fun j' hhid => ?_⟩
    have hmem_iff := fun p : Nat × Nat × Slot =>
      hcreated.listing (p := p) hv hchain hmem hj hfirst hentry.live hscan hr he'
    rw [hlist] at hmem_iff
    -- both the new entry and a hidden one come in
    have hone' := (hmem_iff (c, j, e)).mpr (Or.inl rfl)
    have htwo := (hmem_iff (c, j', slots d mp c j')).mpr (Or.inr (Or.inr ⟨rfl, hhid, rfl⟩))
    have hlt := hhid.1
    rcases hone' with heq | hold
    · rcases htwo with heq' | hold'
      · rw [← heq] at heq'
        simp only [Prod.mk.injEq] at heq'
        omega
      · have hvis := hold'.2.1.2.2 j hlt
        exact hvis hhid.2.2.1
    · exact hvacant e hold

/-- Extending a full directory copies the entries of its last cluster. -/
theorem not_createLaw_of_full (hv : Volume mp n) (hchain : Chain d mp n layout)
    (hfull : ∀ c ∈ layout, NoVacant d mp c) (hlast : layout.getLast? = some last)
    (hscan₁ : Scan d mp idx₁ i₁) (hscan : Scan (extended d mp last idx₁ i₁) mp idx i)
    (hentry : NewEntry name (reservedCluster idx i) e)
    (hcreated : CreatedNode (extended d mp last idx₁ i₁) d' mp (reservedCluster idx₁ i₁) 0
      (slots d mp last) idx i e dir)
    (hnode : node.data.layout = [reservedCluster idx i]) :
    ¬ CreateLaw d d' mp n layout (layout ++ [reservedCluster idx₁ i₁]) name node := by
  rintro ⟨ext, r, c, j, e₁, hext, -, hlay, hres, -, -, -, -, hlist⟩
  have hmem : last ∈ layout := List.mem_of_getLast? hlast
  obtain rfl : [reservedCluster idx₁ i₁] = ext := List.append_cancel_left hext
  obtain rfl : reservedCluster idx i = r := by
    rw [hnode] at hlay
    exact List.head_eq_of_cons_eq hlay
  generalize hr : reservedCluster idx i = r at *
  generalize hr₁ : reservedCluster idx₁ i₁ = r₁ at *
  rcases hres.fresh r List.mem_cons_self with ⟨hdata, hzero, heof⟩
  rcases hres.fresh r₁ (List.mem_cons_of_mem _ List.mem_cons_self) with ⟨hdata₁, hzero₁, heof₁⟩
  have hne : r ≠ r₁ := by
    rintro rfl
    have hnodup := hres.distinct
    simp at hnodup
  have hfew := hv.few
  rcases halvesOf_bounds hdata.1 (by have := hdata.2; omega) with ⟨hlo, hhi, hsmall⟩
  have hf : slotCluster e = halvesOf r := hentry.cluster
  have hout : r₁ ∉ layout := by
    intro hin
    exact (hchain.used r₁ hin).2 hzero₁
  by_cases hsame : halvesOf r = r₁
  · -- the new entry names the new cluster of the directory: not both were marked
    have he : DataCluster n (slotCluster e) := by
      rw [hf, hsame]
      exact hdata₁
    have hlinked := (hchain.used last hmem).2
    have hfat : ∀ x < n, fatEntry d mp x = 0 → fatEof ≤ fatEntry d' mp x →
        scanAddr mp idx i = fatAddr mp x ∨ scanAddr mp idx₁ i₁ = fatAddr mp x := by
      intro x hx hx₀ hx₁
      rw [hcreated.fatEntry hv hdata₁ he hx] at hx₁
      by_cases hhit : scanAddr mp idx i = fatAddr mp x
      · exact Or.inl hhit
      · rw [if_neg hhit] at hx₁
        have hxl : x ≠ last := by
          rintro rfl
          exact hlinked hx₀
        rw [extended, fatEntry_mark_other hxl, fatEntry_scan] at hx₁
        by_cases hhit₁ : scanAddr mp idx₁ i₁ = fatAddr mp x
        · exact Or.inr hhit₁
        · rw [if_neg hhit₁, hx₀] at hx₁
          exact absurd hx₁ (by decide)
    have hn := hv.fatSize
    rcases hfat r hdata.2 hzero heof with hhit | hhit
    · rw [← hr] at hhit
      have hfirst := reserved_first hn hscan (by rw [hr]; exact hdata.2) hhit
      rw [hr] at hfirst
      have hword := hscan.word
      exact hne ((hsmall.mp (by omega)).symm.trans hsame)
    · rcases hfat r₁ hdata₁.2 hzero₁ heof₁ with hhit₁ | hhit₁
      · -- each stands where the other should
        have hword := scan_entry hn hscan₁.block hscan₁.word hdata.2 hhit
        have hword₁ := scan_entry hn hscan.block hscan.word hdata₁.2 hhit₁
        have hle := (reservedCluster_le hn hscan₁.word hdata.2 hword).2.1
        have hle₁ := (reservedCluster_le hn hscan.word hdata₁.2 hword₁).2.1
        rw [hr₁] at hle
        rw [hr] at hle₁
        omega
      · exact hne (fatAddr_inj (hhit.symm.trans hhit₁))
  · -- the first two slots of the new cluster are seen
    have hhere := hcreated.table (by
      rw [hf]
      exact offCluster_of_ne hv hdata₁ ⟨hlo, by have := hdata.2; omega⟩ hsame)
    have hkind : ∀ j' < 2, slotKind (slots d' mp r₁ j') = .live := by
      intro j' hj'
      rw [hhere j' (by omega)]
      rcases (by omega : j' = 0 ∨ j' = 1) with rfl | rfl
      · rw [Function.update_self]
        exact hentry.live
      · rw [Function.update_of_ne (by decide)]
        have hvac := hfull last hmem 1 (by decide)
        unfold Kind.Vacant at hvac
        cases hk : slotKind (slots d mp last 1) with
        | live => rfl
        | free => exact absurd (Or.inl hk) hvac
        | stop => exact absurd (Or.inr hk) hvac
    have hseen : ∀ j' < 2, (r₁, j', slots d' mp r₁ j') = (c, j, e₁) := by
      intro j' hj'
      have hvis : Visible slotKind 128 (slots d' mp r₁) j' := by
        refine ⟨by omega, hkind j' hj', ?_⟩
        intro k hk
        rw [hkind k (by omega)]
        exact Kind.noConfusion
      have hin : (r₁, j', slots d' mp r₁ j') ∈ Listing d' mp (layout ++ [r₁]) :=
        ⟨List.mem_append_right _ List.mem_cons_self, hvis, rfl⟩
      rw [hlist] at hin
      rcases hin with heq | hold
      · exact heq
      · exact absurd hold.1 hout
    have heq := (hseen 0 (by decide)).trans (hseen 1 (by decide)).symm
    simp only [Prod.mk.injEq] at heq
    exact absurd heq.2.1 (by decide)

/-- A root directory without a vacant slot: creating the file `A` fills a second
cluster with copies. -/
theorem createNode_copies : ∃ s' directory' node,
    Chain (rootDisk 1) smallMount 1024 [2] ∧
    fatFsCreateNode 1 (freshState (rootDisk 1)) smallMount rootDirectory [65] 25 =
      .ret (s', directory', some node) ∧
    ¬ CreateLaw (rootDisk 1) s'.disk smallMount 1024 [2] directory'.data.layout [65] node := by
  have hchain := rootDisk_chain 1
  -- every slot of the only cluster is in use
  have hfull : NoVacant (rootDisk 1) smallMount 2 := by
    intro j hj hvac
    rw [kind_vacant_iff] at hvac
    have hbyte : slots (rootDisk 1) smallMount 2 j 0 = 1 := by
      show rootDisk 1 (24576 + 32 * j + 0) = 1
      unfold rootDisk
      rw [if_pos (by omega)]
    rw [hbyte] at hvac
    exact absurd hvac (by decide)
  have hno : ∀ c j k, ¬ Finds (rootDisk 1) smallMount (fun _ => true) [2] c j k := by
    intro c j k hfinds
    rcases hfinds.spec with ⟨hmem, hj, hfirst⟩
    rw [List.mem_singleton.mp hmem] at hfirst
    exact hfull j hj hfirst.1
  obtain ⟨s', directory', node, hrun⟩ : ∃ s' directory' node,
      fatFsCreateNode 1 (freshState (rootDisk 1)) smallMount rootDirectory [65] 25 =
        .ret (s', directory', some node) := ⟨_, _, _, rfl⟩
  refine ⟨s', directory', node, hchain, hrun, ?_⟩
  have hclusters : ∀ c ∈ rootDirectory.data.layout, DataCluster 1024 c := fun c hc =>
    (hchain.used c hc).1
  rcases createNode_full ((freshState_steady (rootDisk 1)).mono (by decide)) smallMount_volume
    (by decide) (by decide) hclusters hno hrun with
    ⟨last, idx₁, i₁, idx, i, e, hlast, hscan₁, hscan, hdata, hnode, hentry, hcreated⟩
  rw [hdata]
  refine not_createLaw_of_full smallMount_volume hchain ?_ hlast hscan₁ hscan hentry hcreated hnode
  intro c hc
  rw [List.mem_singleton.mp hc]
  exact hfull

/-- Creating a node adds just its entry exactly under `CreateAdds`. -/
theorem createNode_adds_iff (h : Steady 2 s) (hv : Volume mp n)
    (hdir : directory.attributes &&& 7 = vfsDirectory)
    (hname : fatFsValidate83Name s.behindTable name = true)
    (hchain : Chain s.disk mp n directory.data.layout)
    (hrun : fatFsCreateNode fuel s mp directory name attrs = .ret (s', directory', some node)) :
    CreateLaw s.disk s'.disk mp n directory.data.layout directory'.data.layout name node ↔
      CreateAdds s mp n directory.data.layout := by
  -- a directory with no vacant entry takes a cluster first, and there the law fails
  by_cases hfound : ∃ c j k, Finds s.disk mp s.device directory.data.layout c j k
  · rcases hfound with ⟨c, j, k, hfinds⟩
    rcases hfinds.spec with ⟨hmem, hj, hfirst⟩
    rcases createNode_found h hv.toMounted hdir hname hfinds hrun with
      ⟨idx, i, hscan, -, hdata, ⟨-, hnone, -⟩ |
        ⟨-, node', e, hsome, hnode, -, hentry, hcreated, -⟩⟩
    · cases hnone
    · obtain rfl : node = node' := Option.some.inj hsome
      rw [hdata]
      constructor
      · intro hlaw
        rcases first_of_createLaw hv hchain hmem hj hfirst hscan hentry hcreated hnode hlaw with
          ⟨hscan₀, hi, hhid⟩
        exact ⟨c, j, k, i, hfinds, hscan₀, hi, hhid⟩
      · rintro ⟨c', j', k', i', hfinds', hscan', hi', hhid⟩
        rcases hfinds.unique hfinds' with ⟨rfl, rfl, rfl⟩
        rcases hscan'.unique hscan with ⟨rfl, rfl⟩
        rw [reservedCluster_zero hscan.word] at hentry hnode
        exact createLaw_of_first hv hchain hmem hj hfirst hscan hi' hentry hcreated hnode hhid
  · have hno : ∀ c j k, ¬ Finds s.disk mp s.device directory.data.layout c j k := by
      intro c j k hfinds
      exact hfound ⟨c, j, k, hfinds⟩
    rcases createNode_full h hv hdir hname (fun c hc => (hchain.used c hc).1) hno hrun with
      ⟨last, idx₁, i₁, idx, i, e, hlast, hscan₁, hscan, hdata, hnode, hentry, hcreated⟩
    rw [hdata]
    refine iff_of_false ?_ ?_
    · exact not_createLaw_of_full hv hchain (full_of_not_finds h.calm.device hno) hlast hscan₁
        hscan hentry hcreated hnode
    · rintro ⟨c, j, k, i, hfinds, -⟩
      exact hno c j k hfinds

/-- The file `A` in an empty root directory. -/
theorem createNode_adds_iff_empty : ∃ s' directory' node,
    fatFsCreateNode 1 (freshState (rootDisk 0)) smallMount rootDirectory [65] 25 =
      .ret (s', directory', some node) ∧
    (CreateLaw (rootDisk 0) s'.disk smallMount 1024 [2] directory'.data.layout [65] node ↔
      CreateAdds (freshState (rootDisk 0)) smallMount 1024 [2]) := by
  obtain ⟨s', directory', node, hrun⟩ : ∃ s' directory' node,
      fatFsCreateNode 1 (freshState (rootDisk 0)) smallMount rootDirectory [65] 25 =
        .ret (s', directory', some node) := ⟨_, _, _, rfl⟩
  have hchain : Chain (freshState (rootDisk 0)).disk smallMount 1024 rootDirectory.data.layout :=
    rootDisk_chain 0
  exact ⟨s', directory', node, hrun, createNode_adds_iff ((freshState_steady _).mono (by decide))
    smallMount_volume (by decide) (by decide) hchain hrun⟩

end Law

end MeOS
