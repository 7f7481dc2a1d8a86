import MeOS.FatLinks
import MeOS.FatNode
import MeOS.Lib.EndMarked

/-! # Directory clusters on the disk

A directory cluster is a table of 128 slots that ends at a mark, in the sense
of `EndMarked`. This module places the slots on the disk, says what an edit of
one slot does to them, and what the search for a vacant slot finds.
-/

namespace MeOS

open Bytes EndMarked

/-! ## Volumes -/

/-- A mounted volume: `n` entries of the FAT lie in front of the data region,
and the sectors of `n` clusters have numbers. -/
structure Volume (mp : MountPoint) (n : Nat) : Prop extends Mounted mp where
  few : n ≤ 268435456
  fat : 512 * mp.data.fatLba + 4 * n ≤ 512 * mp.data.clusterLba
  top : mp.data.clusterLba + 8 * n < 4294967296

/-- The place of cluster `c` on the disk. -/
def clusterAddr (mp : MountPoint) (c : Nat) : Nat := 512 * dataClusterLba mp c

/-- The place of slot `j` of cluster `c` on the disk. -/
def slotAddr (mp : MountPoint) (c j : Nat) : Nat := clusterAddr mp c + 32 * j

/-- The bytes of an entry. -/
abbrev Slot : Type := Fin 32 → UInt8

instance slot_neZero : NeZero 32 := ⟨by decide⟩

/-- The entry at `a`. -/
def slotAt (m : Mem) (a : Nat) : Slot := fun k => m (a + k)

/-- The slots of cluster `c`. -/
def slots (d : Mem) (mp : MountPoint) (c : Nat) : Nat → Slot := fun j => slotAt d (slotAddr mp c j)

/-- What the first name byte says of an entry. -/
def slotKind (e : Slot) : Kind :=
  if e 0 = 0 then .stop
  else if e 0 = 0xE5 then .free
  else .live

/-- The number of a data cluster. -/
def DataCluster (n c : Nat) : Prop := 2 ≤ c ∧ c < n

section Geometry

variable {mp : MountPoint} {n c c' j : Nat}

theorem Volume.fatSize (h : Volume mp n) : FatSize mp n := by
  have h₁ := h.fat
  have h₂ := h.top
  refine ⟨h.few, ?_⟩
  omega

theorem clusterAddr_eq (h : Volume mp n) (hc : DataCluster n c) :
    clusterAddr mp c = 512 * mp.data.clusterLba + 4096 * (c - 2) := by
  have h₁ := h.top
  have h₂ := h.few
  obtain ⟨hlo, hhi⟩ := hc
  simp only [clusterAddr, dataClusterLba, add32, mul32, sub32]
  omega

/-- Data clusters do not overlap, and what is taken for cluster 1 overlaps none
of them. -/
theorem clusterAddr_apart (h : Volume mp n) (hc : 1 ≤ c ∧ c < n) (hc' : DataCluster n c')
    (hne : c ≠ c') : clusterAddr mp c + 4096 ≤ clusterAddr mp c' ∨
      clusterAddr mp c' + 4096 ≤ clusterAddr mp c := by
  have h₁ := h.top
  have h₂ := h.few
  rw [clusterAddr_eq h hc']
  obtain ⟨hlo, hhi⟩ := hc'
  by_cases hone : c = 1
  · subst hone
    simp only [clusterAddr, dataClusterLba, add32, mul32, sub32]
    omega
  · rw [clusterAddr_eq h ⟨by omega, hc.2⟩]
    omega

/-- The FAT lies in front of every data cluster. -/
theorem fat_below_cluster (h : Volume mp n) (hc : DataCluster n c) :
    fatAddr mp n ≤ clusterAddr mp c := by
  have h₁ := h.fat
  rw [clusterAddr_eq h hc, fatAddr]
  omega

theorem smallMount_volume : Volume smallMount 1024 :=
  ⟨smallMount_mounted, by decide, by decide, by decide⟩

end Geometry

/-! ## Edits on the disk -/

/-- From `d` to `d'` only slot `j` of cluster `c` was written, and it now is
`e`. -/
def EditsSlot (d d' : Mem) (mp : MountPoint) (c j : Nat) (e : Slot) : Prop :=
  (∀ x, x < slotAddr mp c j ∨ slotAddr mp c j + 32 ≤ x → d' x = d x) ∧ slots d' mp c j = e

/-- The bytes of a slot as memory. -/
def slotMem (e : Slot) : Mem := fun k => if h : k < 32 then e ⟨k, h⟩ else 0

/-- Slot `j` of cluster `c` is replaced by `e`. -/
def editSlot (d : Mem) (mp : MountPoint) (c j : Nat) (e : Slot) : Mem :=
  blit d (slotAddr mp c j) (slotMem e) 0 32

section Edits

variable {d d' : Mem} {mp : MountPoint} {n c c' j v : Nat} {e : Slot}

theorem editSlot_edits : EditsSlot d (editSlot d mp c j e) mp c j e := by
  constructor
  · intro x hx
    exact blit_frame _ _ _ hx
  · funext k
    have hk := k.isLt
    show blit _ _ _ _ _ (slotAddr mp c j + k) = _
    rw [blit_at _ _ _ _ (by omega), Nat.zero_add]
    exact dif_pos hk

/-- There is one way to write a slot. -/
theorem EditsSlot.eq (h : EditsSlot d d' mp c j e) : d' = editSlot d mp c j e := by
  funext x
  by_cases hx : x < slotAddr mp c j ∨ slotAddr mp c j + 32 ≤ x
  · rw [h.1 x hx]
    exact (blit_frame _ _ _ hx).symm
  · unfold editSlot
    rw [blit_inside _ _ _ (by omega) (by omega), Nat.zero_add]
    have hk : x - slotAddr mp c j < 32 := by omega
    have hbyte := congrFun h.2 ⟨x - slotAddr mp c j, hk⟩
    unfold slotMem
    rw [dif_pos hk, ← hbyte]
    show d' x = d' (slotAddr mp c j + (x - slotAddr mp c j))
    rw [Nat.add_sub_of_le (by omega)]

theorem slots_head : slots d mp c j 0 = d (clusterAddr mp c + 32 * j) := by
  unfold slots slotAt slotAddr
  simp

theorem slots_congr (hsame : ∀ x, clusterAddr mp c ≤ x → x < clusterAddr mp c + 4096 → d' x = d x)
    {i : Nat} (hi : i < 128) : slots d' mp c i = slots d mp c i := by
  funext k
  have hk := k.isLt
  exact hsame _ (by simp only [slotAddr]; omega) (by simp only [slotAddr]; omega)

theorem EditsSlot.slots_eq (h : EditsSlot d d' mp c j e) :
    slots d' mp c = Function.update (slots d mp c) j e := by
  funext i
  by_cases hi : i = j
  · rw [hi, Function.update_self]
    exact h.2
  · rw [Function.update_of_ne hi]
    funext k
    have hk := k.isLt
    exact h.1 _ (by simp only [slotAddr]; omega)

theorem EditsSlot.outside (h : EditsSlot d d' mp c j e) (hj : j < 128) {x : Nat}
    (hx : x < clusterAddr mp c ∨ clusterAddr mp c + 4096 ≤ x) : d' x = d x :=
  h.1 x (by simp only [slotAddr]; omega)

theorem EditsSlot.other (h : EditsSlot d d' mp c j e) (hv : Volume mp n) (hj : j < 128)
    (hc : DataCluster n c) (hc' : DataCluster n c') (hne : c' ≠ c) {i : Nat} (hi : i < 128) :
    slots d' mp c' i = slots d mp c' i := by
  have happ := clusterAddr_apart hv ⟨by have := hc'.1; omega, hc'.2⟩ hc hne
  exact slots_congr (fun x hlo hhi => h.outside hj (by omega)) hi

theorem EditsSlot.fat (h : EditsSlot d d' mp c j e) (hv : Volume mp n) (hj : j < 128)
    (hc : DataCluster n c) {x : Nat} (hx : x < n) : fatEntry d' mp x = fatEntry d mp x := by
  have hbelow := fat_below_cluster hv hc
  rw [fatEntry, fatEntry]
  congr 1
  refine load32_congr fun y hlo hhi => h.outside hj (Or.inl ?_)
  simp only [fatAddr] at *
  omega

end Edits

/-! ## Directories -/

/-- The entries that are seen in the clusters, with their places. -/
def Listing (d : Mem) (mp : MountPoint) (layout : List Nat) : Set (Nat × Nat × Slot) :=
  {p | p.1 ∈ layout ∧ Visible slotKind 128 (slots d mp p.1) p.2.1 ∧ p.2.2 = slots d mp p.1 p.2.1}

/-- The clusters of a chain: each links to the next, and the last ends it. -/
inductive Chain (d : Mem) (mp : MountPoint) (n : Nat) : List Nat → Prop where
  | last {c : Nat} (hc : DataCluster n c) (hend : fatEof ≤ fatEntry d mp c) : Chain d mp n [c]
  | link {c c' : Nat} {rest : List Nat} (hc : DataCluster n c) (hlink : fatEntry d mp c = c')
      (hlt : c' < fatEof) (h : Chain d mp n (c' :: rest)) : Chain d mp n (c :: c' :: rest)

section Directory

variable {d d' : Mem} {mp : MountPoint} {n c j : Nat} {e : Slot} {layout : List Nat}

theorem mem_listing : (c, j, e) ∈ Listing d mp layout ↔
    c ∈ layout ∧ Visible slotKind 128 (slots d mp c) j ∧ e = slots d mp c j :=
  Iff.rfl

theorem Chain.head_data (h : Chain d mp n (c :: layout)) : DataCluster n c := by
  cases h with
  | last hc => exact hc
  | link hc => exact hc

/-- The clusters of a chain are data clusters in use. -/
theorem Chain.used (h : Chain d mp n layout) :
    ∀ c ∈ layout, DataCluster n c ∧ fatEntry d mp c ≠ 0 := by
  induction h with
  | last hc hend =>
    intro c hmem
    rw [List.mem_singleton.mp hmem]
    exact ⟨hc, (Nat.lt_of_lt_of_le (by decide) hend).ne'⟩
  | link hc hlink hlt h ih =>
    intro c hmem
    rcases List.mem_cons.mp hmem with rfl | hrest
    · have hnext := h.head_data.1
      exact ⟨hc, by omega⟩
    · exact ih c hrest

/-- Behind the first cluster the numbers are no end marks. -/
theorem Chain.links_lt (h : Chain d mp n (c :: layout)) : ∀ x ∈ layout, x < fatEof := by
  generalize hl : c :: layout = chain at h
  induction h generalizing c layout with
  | last hc hend =>
    obtain rfl : layout = [] := (List.cons.inj hl).2
    exact fun x hx => absurd hx List.not_mem_nil
  | link hc hlink hlt h ih =>
    obtain rfl := (List.cons.inj hl).2
    intro x hx
    rcases List.mem_cons.mp hx with rfl | hrest
    · exact hlt
    · exact ih rfl x hrest

/-- A chain stays when the entries of its clusters do. -/
theorem Chain.congr (h : Chain d mp n layout)
    (hsame : ∀ c ∈ layout, fatEntry d' mp c = fatEntry d mp c) : Chain d' mp n layout := by
  induction h with
  | last hc hend =>
    refine .last hc ?_
    rw [hsame _ List.mem_cons_self]
    exact hend
  | link hc hlink hlt h ih =>
    refine .link hc ?_ hlt (ih fun c hmem => hsame c (List.mem_cons_of_mem _ hmem))
    rw [hsame _ List.mem_cons_self]
    exact hlink

/-- Links determine the chain. -/
theorem Chain.unique {layout' : List Nat} (h : Chain d mp n layout) (h' : Chain d mp n layout')
    (hhead : layout.head? = layout'.head?) : layout = layout' := by
  induction h generalizing layout' with
  | last hc hend =>
    cases h' with
    | last hc' hend' =>
      rw [List.head?_cons, List.head?_cons] at hhead
      rw [Option.some.inj hhead]
    | link hc' hlink' hlt' h' =>
      rw [List.head?_cons, List.head?_cons] at hhead
      rw [← Option.some.inj hhead] at hlink'
      omega
  | link hc hlink hlt h ih =>
    cases h' with
    | last hc' hend' =>
      rw [List.head?_cons, List.head?_cons] at hhead
      rw [← Option.some.inj hhead] at hend'
      omega
    | link hc' hlink' hlt' h' =>
      rw [List.head?_cons, List.head?_cons] at hhead
      have hsame := Option.some.inj hhead
      subst hsame
      have hnext := hlink.symm.trans hlink'
      subst hnext
      rw [ih h' rfl]

/-- From any of its clusters on a chain is one. -/
theorem Chain.suffix {front : List Nat} (h : Chain d mp n (front ++ c :: layout)) :
    Chain d mp n (c :: layout) := by
  induction front with
  | nil => exact h
  | cons b front ih =>
    apply ih
    cases front with
    | nil =>
      cases h with
      | link hc hlink hlt h => exact h
    | cons b' front =>
      cases h with
      | link hc hlink hlt h => exact h

/-- A chain that ends does not come back. -/
theorem Chain.nodup (h : Chain d mp n layout) : layout.Nodup := by
  induction h with
  | last hc hend => exact List.nodup_singleton _
  | @link c c' rest hc hlink hlt h ih =>
    refine List.nodup_cons.mpr ⟨fun hmem => ?_, ih⟩
    -- behind a second `c` the chain would go on as behind the first
    rcases List.append_of_mem hmem with ⟨front, back, hsplit⟩
    have hback : Chain d mp n (c :: back) := by
      rw [hsplit] at h
      exact h.suffix
    have heq := (Chain.link hc hlink hlt h).unique hback rfl
    have hlen := congrArg List.length hsplit
    rw [(List.cons.inj heq).2] at hlen
    simp at hlen
    omega

end Directory

/-! ## Clusters in a buffer -/

/-- The buffer at `a` holds cluster `c` of `d`. -/
def Loaded (m : Mem) (a : Nat) (d : Mem) (mp : MountPoint) (c : Nat) : Prop :=
  ∀ k < 4096, m (a + k) = d (clusterAddr mp c + k)

section Buffer

variable {s s₁ t : FatState} {m d : Mem} {mp : MountPoint} {a c i j : Nat}

theorem entryAddr_eq (ha : a + pageCacheSize ≤ 4294967296) (hj : j < 128) :
    entryAddr a j = a + 32 * j := by
  simp only [entryAddr, pageCacheSize] at *
  rw [mul32_eq (by omega), add32_eq (by omega)]
  omega

theorem loaded_fetch : Loaded (s.fetch (dataClusterLba mp c) a).mem a s.disk mp c :=
  fun _ hk => s.fetch_byte _ _ hk

/-- The entries of the buffer are the slots of the cluster. -/
theorem Loaded.slotAt (h : Loaded m a d mp c) (ha : a + pageCacheSize ≤ 4294967296)
    (hj : j < 128) : slotAt m (entryAddr a j) = slots d mp c j := by
  rw [entryAddr_eq ha hj]
  funext k
  have hk := k.isLt
  show m (a + 32 * j + k) = d (slotAddr mp c j + k)
  rw [Nat.add_assoc, h _ (by omega), slotAddr, Nat.add_assoc]

theorem kind_vacant_iff (e : Slot) : (slotKind e).Vacant ↔ e 0 = 0xE5 ∨ e 0 = 0 := by
  unfold slotKind Kind.Vacant
  by_cases h₀ : e 0 = 0
  · simp [h₀]
  · by_cases h₁ : e 0 = 0xE5
    · simp [h₁]
    · simp [h₀, h₁]

theorem entryFree_iff (m : Mem) (a : Nat) :
    entryFree m a = true ↔ (slotKind (slotAt m a)).Vacant := by
  rw [kind_vacant_iff]
  simp [entryFree, slotAt]

theorem kind_stop_iff (e : Slot) : slotKind e = .stop ↔ e 0 = 0 := by
  unfold slotKind
  by_cases h₀ : e 0 = 0
  · simp [h₀]
  · rw [if_neg h₀]
    refine iff_of_false ?_ h₀
    split <;> exact Kind.noConfusion

theorem kind_live_iff (e : Slot) : slotKind e = .live ↔ e 0 ≠ 0 ∧ e 0 ≠ 0xE5 := by
  unfold slotKind
  by_cases h₀ : e 0 = 0
  · simp [h₀]
  · by_cases h₁ : e 0 = 0xE5 <;> simp [h₀, h₁]

/-- A buffer written to a cluster. -/
theorem put_slots (hj : j < 128) :
    slots (t.put (dataClusterLba mp c) a).disk mp c j = slotAt t.mem (a + 32 * j) := by
  funext k
  have hk := k.isLt
  have hoff : 32 * j + k < pageCacheSize := by
    unfold pageCacheSize
    omega
  show (t.put _ a).disk (512 * dataClusterLba mp c + 32 * j + k) = t.mem (a + 32 * j + k)
  rw [FatState.put_disk, blit_inside _ _ _ (by omega) (by omega)]
  exact congrArg t.mem (by omega)

/-- A buffer that holds the cluster but for one slot is written back. -/
theorem put_edits (hload : Loaded m a t.disk mp c) (hj : j < 128)
    (hm : ∀ x, x < a + 32 * j ∨ a + 32 * j + 32 ≤ x → t.mem x = m x) :
    EditsSlot t.disk (t.put (dataClusterLba mp c) a).disk mp c j (slotAt t.mem (a + 32 * j)) := by
  constructor
  · intro x hx
    rw [FatState.put_disk]
    by_cases hin : x < 512 * dataClusterLba mp c ∨ 512 * dataClusterLba mp c + pageCacheSize ≤ x
    · exact blit_frame _ _ _ hin
    · rw [blit_inside _ _ _ (by omega) (by omega)]
      unfold slotAddr clusterAddr at hx
      rw [hm _ (by omega), hload _ (by simp only [pageCacheSize] at hin; omega)]
      unfold clusterAddr
      rw [Nat.add_sub_of_le (by omega)]
  · exact put_slots hj

end Buffer

/-! ## The search for a vacant slot -/

/-- No slot of cluster `c` is found by the search, which looks at 127 of them. -/
def NoVacant (d : Mem) (mp : MountPoint) (c : Nat) : Prop :=
  ∀ j < 127, ¬ (slotKind (slots d mp c j)).Vacant

/-- Slot `j` of cluster `c` is what the search in the clusters listed finds,
after `k` other clusters; `device` says which of the reads go through. -/
inductive Finds (d : Mem) (mp : MountPoint) :
    (Nat → Bool) → List Nat → Nat → Nat → Nat → Prop where
  | here {device : Nat → Bool} {c j : Nat} {rest : List Nat} (hdev : device 0 = true)
      (hj : j < 127) (hfirst : FirstVacant slotKind (slots d mp c) j) :
      Finds d mp device (c :: rest) c j 0
  | there {device : Nat → Bool} {c c' j k : Nat} {rest : List Nat} (hdev : device 0 = true)
      (hfull : NoVacant d mp c) (h : Finds d mp (fun m => device (m + 1)) rest c' j k) :
      Finds d mp device (c :: rest) c' j (k + 1)

section Search

variable {s s₁ : FatState} {d : Mem} {mp : MountPoint} {device : Nat → Bool} {layout : List Nat}
  {c j k i : Nat}

theorem Finds.spec (h : Finds d mp device layout c j k) :
    c ∈ layout ∧ j < 127 ∧ FirstVacant slotKind (slots d mp c) j := by
  induction h with
  | here hdev hj hfirst => exact ⟨List.mem_cons_self, hj, hfirst⟩
  | there hdev hfull h ih => exact ⟨List.mem_cons_of_mem _ ih.1, ih.2⟩

/-- The search finds one slot. -/
theorem Finds.unique {c' j' k' : Nat} (h : Finds d mp device layout c j k)
    (h' : Finds d mp device layout c' j' k') : c' = c ∧ j' = j ∧ k' = k := by
  induction h generalizing k' with
  | here hdev hj hfirst =>
    cases h' with
    | here hdev' hj' hfirst' =>
      refine ⟨rfl, ?_, rfl⟩
      rcases Nat.lt_trichotomy j' _ with hlt | heq | hgt
      · exact absurd hfirst'.1 (hfirst.2 j' hlt)
      · exact heq
      · exact absurd hfirst.1 (hfirst'.2 _ hgt)
    | there hdev' hfull' h' => exact absurd hfirst.1 (hfull' _ hj)
  | there hdev hfull h ih =>
    cases h' with
    | here hdev' hj' hfirst' => exact absurd hfirst'.1 (hfull _ hj')
    | there hdev' hfull' h' =>
      obtain ⟨h₁, h₂, h₃⟩ := ih h'
      exact ⟨h₁, h₂, by rw [h₃]⟩

/-- The entry loop of the search, in a buffer that holds the cluster. -/
theorem find_vacant {m : Mem} {a : Nat} (ha : a + pageCacheSize ≤ 4294967296)
    (hload : Loaded m a d mp c) :
    (∃ j, (List.range 127).find? (fun j => entryFree m (entryAddr a j)) = some j ∧ j < 127 ∧
      FirstVacant slotKind (slots d mp c) j) ∨
    ((List.range 127).find? (fun j => entryFree m (entryAddr a j)) = none ∧ NoVacant d mp c) := by
  have hslot : ∀ j < 127, (entryFree m (entryAddr a j) = true ↔
      (slotKind (slots d mp c j)).Vacant) := by
    intro j hj
    rw [entryFree_iff, hload.slotAt ha (by omega)]
  cases hfind : (List.range 127).find? (fun j => entryFree m (entryAddr a j)) with
  | none =>
    refine Or.inr ⟨rfl, fun j hj hvac => ?_⟩
    have hno := List.find?_eq_none.mp hfind j (List.mem_range.mpr hj)
    exact hno ((hslot j hj).mpr hvac)
  | some j =>
    have hj : j < 127 := List.mem_range.mp (List.mem_of_find?_eq_some hfind)
    have hfree : entryFree m (entryAddr a j) = true := by simpa using List.find?_some hfind
    refine Or.inl ⟨j, rfl, hj, (hslot j hj).mp hfree, fun i hi hvac => ?_⟩
    have hbefore := (List.find?_range_eq_some.mp hfind).2.2 i hi
    have htrue := (hslot i (by omega)).mpr hvac
    simp [htrue] at hbefore

/-- Without failures the search finds nothing only when there is nothing. -/
theorem full_of_not_finds (hdev : ∀ m, device m = true)
    (hno : ∀ c j k, ¬ Finds d mp device layout c j k) : ∀ c ∈ layout, NoVacant d mp c := by
  induction layout generalizing device with
  | nil => exact fun c hc => absurd hc List.not_mem_nil
  | cons c layout ih =>
    have hfull : NoVacant d mp c := by
      intro j hj hvac
      -- the first vacant slot of the cluster would be found
      have hex : ∃ j, (slotKind (slots d mp c j)).Vacant := ⟨j, hvac⟩
      have hle : Nat.find hex ≤ j := Nat.find_min' hex hvac
      exact hno c (Nat.find hex) 0 (.here (hdev 0) (by omega)
        ⟨Nat.find_spec hex, fun i hi => Nat.find_min hex hi⟩)
    intro c' hc'
    rcases List.mem_cons.mp hc' with rfl | hrest
    · exact hfull
    · exact ih (fun m => hdev (m + 1)) (fun c j k hf => hno c j (k + 1) (.there (hdev 0) hfull hf))
        c' hrest

/-- `fat_fs_find_empty_entry` finds what there is to find, and leaves its
cluster in the buffer. -/
theorem findEmptyEntry_spec (layout : List Nat) (hmp : Mounted mp) (hinv : CacheInv s.files)
    (h : Using s s₁ i) :
    ∃ t res, fatFsFindEmptyEntry mp (cellAddr s.files i) layout s₁ = (t, res) ∧ Using s t i ∧
      t.disk = s₁.disk ∧ t.written = s₁.written ∧
      ((∃ c j k, Finds s₁.disk mp s₁.device layout c j k ∧ res = some (c, j) ∧
          (∀ m, t.device m = s₁.device (k + 1 + m)) ∧
          Loaded t.mem (cellAddr s.files i) s₁.disk mp c) ∨
        (res = none ∧ (∀ c j k, ¬ Finds s₁.disk mp s₁.device layout c j k) ∧
          (NoFailure s₁ → ∀ last, layout.getLast? = some last →
            Loaded t.mem (cellAddr s.files i) s₁.disk mp last))) := by
  have ha := h.top hinv
  induction layout generalizing s₁ with
  | nil =>
    refine ⟨s₁, none, rfl, h, rfl, rfl, Or.inr ⟨rfl, fun c j k hf => ?_, fun _ last hlast => ?_⟩⟩
    · cases hf
    · cases hlast
  | cons c layout ih =>
    rw [fatFsFindEmptyEntry, readByDataCluster_eq hmp]
    by_cases hdev : s₁.device 0 = true
    · rw [if_pos hdev]
      have hfetch : Using s (s₁.fetch (dataClusterLba mp c) (cellAddr s.files i)) i :=
        h.fetch hinv
      have hload : Loaded (s₁.fetch (dataClusterLba mp c) (cellAddr s.files i)).mem
          (cellAddr s.files i) s₁.disk mp c := loaded_fetch
      rcases find_vacant ha hload with ⟨j, hfind, hj, hfirst⟩ | ⟨hfind, hfull⟩
      · refine ⟨_, some (c, j), by simp only [hfind], hfetch, rfl, rfl, Or.inl ?_⟩
        refine ⟨c, j, 0, .here hdev hj hfirst, rfl, fun m => ?_, hload⟩
        rw [FatState.fetch_device]
        congr 1
        omega
      · obtain ⟨t, res, hrun, husing, hdisk, hwritten, hres⟩ := ih hfetch
        refine ⟨t, res, by simp only [hfind]; exact hrun, husing, hdisk, hwritten, ?_⟩
        rcases hres with ⟨c', j, k, hf, hsome, hdevice, hloaded⟩ | ⟨hnone, hno, hlast⟩
        · refine Or.inl ⟨c', j, k + 1, .there hdev hfull hf, hsome, fun m => ?_, hloaded⟩
          rw [hdevice, FatState.fetch_device]
          congr 1
          omega
        · refine Or.inr ⟨hnone, fun c' j k hf => ?_, fun hcalm last hlast' => ?_⟩
          · cases hf with
            | here hdev' hj hfirst => exact hfull j hj hfirst.1
            | there hdev' hfull' hf => exact hno c' j _ hf
          · cases layout with
            | nil =>
              -- nothing was loaded behind this cluster
              obtain rfl : c = last := Option.some.inj hlast'
              obtain ⟨rfl, -⟩ := Prod.mk.inj hrun
              exact hload
            | cons c' layout => exact hlast hcalm.fetch last hlast'
    · rw [if_neg hdev]
      refine ⟨_, none, rfl, h.skip, rfl, rfl, Or.inr ⟨rfl, fun c' j k hf => ?_, fun hcalm => ?_⟩⟩
      · cases hf with
        | here hdev' hj hfirst => exact hdev hdev'
        | there hdev' hfull hf => exact hdev hdev'
      · exact absurd (hcalm.device 0) hdev

end Search

end MeOS
