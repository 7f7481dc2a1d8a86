import MeOS.FatOpen
import MeOS.FatSlots
import MeOS.Lib.Blocks
import MeOS.Lib.Links
import MeOS.Lib.Simulation

/-! # The files of a volume

`fat_fs_read` and `fat_fs_write` move the pages of a file between memory and the clusters of
its layout, and give up at the first page that fails. Nothing in them keeps one file out of
the clusters of another: that the open files of a volume are arrays of pages, each of its
own, rests on the FAT they were loaded from. It is shown here for a FAT that links no cluster
twice, for every order of calls and every failure of the device.
-/

namespace MeOS.FatFiles

open Bytes Blocks Runs

/-- A page of a file. -/
abbrev Page : Type := Fin 4096 → UInt8

variable {ι : Type}

/-! ## What a user sees -/

/-- A call as its caller sees it. `buffer` holds the pages of the caller's buffer, as the call
finds them when it writes and as it leaves them when it reads; `fault` says that one of the
transfers the call may ask for fails. -/
structure Call (ι : Type) where
  writes : Bool
  file : ι
  start : Nat
  count : Nat
  buffer : List Page
  answer : Nat
  fault : Bool

/-- The pages of the files, and the bytes of the disk that belong to none. -/
structure Store (ι : Type) (Other : Nat → Prop) where
  pages : ι → List Page
  rest : {x : Nat // Other x} → UInt8

/-- A call on a file of `length` pages moves the first `k` pages of its buffer: all of them
exactly when the file has them and the device does not fail. -/
structure Serves (length k : Nat) (c : Call ι) : Prop where
  size : c.buffer.length = c.count / 4096
  whole : c.answer = c.count ↔ c.fault = false ∧ (c.count = 0 ∨ c.start + c.count ≤ 4096 * length)
  all : c.answer = c.count → k = c.buffer.length
  part : c.answer ≠ c.count → c.answer = invalidIo ∧ k < c.buffer.length
  room : k = 0 ∨ c.start / 4096 + k ≤ length

/-- Start and length of a call are multiples of the page size. -/
def Aligned (c : Call ι) : Prop := c.start % 4096 = 0 ∧ c.count % 4096 = 0

variable {Other : Nat → Prop}

/-- The pages of file `i` become `l`. -/
def Store.setPages [DecidableEq ι] (σ : Store ι Other) (i : ι) (l : List Page) : Store ι Other where
  pages := Function.update σ.pages i l
  rest := σ.rest

section SetPages

variable [DecidableEq ι]

@[simp] theorem setPages_self (σ : Store ι Other) (i : ι) (l : List Page) :
    (σ.setPages i l).pages i = l := Function.update_self _ _ _

@[simp] theorem setPages_ne (σ : Store ι Other) {i i' : ι} (l : List Page) (h : i' ≠ i) :
    (σ.setPages i l).pages i' = σ.pages i' := Function.update_of_ne h _ _

@[simp] theorem setPages_same (σ : Store ι Other) (i : ι) : σ.setPages i (σ.pages i) = σ := by
  unfold Store.setPages
  rw [Function.update_eq_self]

@[simp] theorem setPages_setPages (σ : Store ι Other) (i : ι) (l l' : List Page) :
    (σ.setPages i l).setPages i l' = σ.setPages i l' := by
  unfold Store.setPages
  rw [Function.update_idem]

end SetPages

/-- What a store of independent files does; `none` is a step of somebody else. -/
inductive StoreStep [DecidableEq ι] :
    Store ι Other → Option (Call ι) → Store ι Other → Prop where
  | other {σ : Store ι Other} (rest : {x : Nat // Other x} → UInt8) :
      StoreStep σ none { σ with rest := rest }
  | refused {σ : Store ι Other} {c : Call ι} (hcall : ¬ Aligned c)
      (hanswer : c.answer = invalidIo) : StoreStep σ (some c) σ
  | read {σ : Store ι Other} {c : Call ι} {k : Nat} (hcall : Aligned c) (hread : c.writes = false)
      (hserves : Serves (σ.pages c.file).length k c)
      (hpages : c.buffer.take k = ((σ.pages c.file).drop (c.start / 4096)).take k) :
      StoreStep σ (some c) σ
  | write {σ : Store ι Other} {c : Call ι} {k : Nat} (hcall : Aligned c) (hwrite : c.writes = true)
      (hserves : Serves (σ.pages c.file).length k c) :
      StoreStep σ (some c) (σ.setPages c.file
        (overwrite (σ.pages c.file) (c.start / 4096) (c.buffer.take k)))

/-! ## What the driver does -/

/-- The open files of a volume. -/
structure Files (ι : Type) where
  mp : MountPoint
  node : ι → FatNode

/-- Where the pages of file `i` are. -/
def Files.places (F : Files ι) (i : ι) : List Nat :=
  (F.node i).data.layout.map (clusterAddr F.mp)

/-- A byte of the disk that belongs to no open file. -/
def Files.Free (F : Files ι) (x : Nat) : Prop := ∀ i, ¬ Covers 4096 (F.places i) x

/-- The store that a disk is. -/
def Files.store (F : Files ι) (d : Mem) : Store ι F.Free where
  pages i := content 4096 d (F.places i)
  rest x := d x

/-- A file has a page for each cluster of its layout. -/
theorem length_pages {F : Files ι} {d : Mem} {i : ι} :
    ((F.store d).pages i).length = (F.node i).data.layout.length :=
  length_content.trans (List.length_map _)

/-- The pages of the `count` bytes at `address`. -/
def bufferAt (m : Mem) (address count : Nat) : List Page :=
  (List.range (count / 4096)).map fun j => block 4096 m (address + 4096 * j)

/-- One of the next `count / 4096` transfers fails. -/
def Faulty (s : FatState) (count : Nat) : Prop := ∃ k < count / 4096, s.device k = false

instance (s : FatState) (count : Nat) : Decidable (Faulty s count) :=
  inferInstanceAs (Decidable (∃ k < count / 4096, s.device k = false))

/-- A call, or anything else that leaves the pages of the open files on the disk: a program
fills its buffer, or another file or directory is worked on. -/
inductive FileStep (F : Files ι) : FatState → Option (Call ι) → FatState → Prop where
  | other {s t : FatState} (h : ∀ x, ¬ F.Free x → t.disk x = s.disk x) : FileStep F s none t
  | read {s t : FatState} {answer : Nat} (i : ι) (start count address : Nat)
      (hstart : start < 4294967296) (hcount : count < 4294967296)
      (hbuffer : address + count ≤ 4294967296)
      (hrun : fatFsRead s F.mp (F.node i) start count address = (t, answer)) :
      FileStep F s (some ⟨false, i, start, count, bufferAt t.mem address count, answer,
        decide (Faulty s count)⟩) t
  | write {s t : FatState} {answer : Nat} (i : ι) (start count address : Nat)
      (hstart : start < 4294967296) (hcount : count < 4294967296)
      (hbuffer : address + count ≤ 4294967296)
      (hrun : fatFsWrite s F.mp (F.node i) start count address = (t, answer)) :
      FileStep F s (some ⟨true, i, start, count, bufferAt s.mem address count, answer,
        decide (Faulty s count)⟩) t

/-! ## Layouts from a FAT -/

/-- The FAT links `a` to `b`. -/
def Linked (d : Mem) (mp : MountPoint) (n a b : Nat) : Prop :=
  DataCluster n a ∧ fatEntry d mp a = b ∧ b < fatEof ∧ 2 ≤ b

/-- The files are open on disk `d`: each layout is a chain of the FAT, no cluster is linked to
twice, and none of the first clusters, which differ, is linked to. -/
structure OpenedFrom (F : Files ι) (n : Nat) (d : Mem) : Prop where
  loaded : ∀ i, (F.node i).data.layoutLoaded = true
  chain : ∀ i, Chain d F.mp n (F.node i).data.layout
  linear : ∀ a b c, Linked d F.mp n a c → Linked d F.mp n b c → a = b
  first : ∀ i, ∀ a ∈ (F.node i).data.layout.head?, ∀ b, ¬ Linked d F.mp n b a
  distinct : ∀ i j, i ≠ j → (F.node i).data.layout.head? ≠ (F.node j).data.layout.head?

/-- The open files use clusters of their own. -/
structure Separate (F : Files ι) (n : Nat) : Prop where
  loaded : ∀ i, (F.node i).data.layoutLoaded = true
  data : ∀ i, ∀ c ∈ (F.node i).data.layout, DataCluster n c
  nodup : ∀ i, (F.node i).data.layout.Nodup
  apart : ∀ i j, i ≠ j → List.Disjoint (F.node i).data.layout (F.node j).data.layout

section Layouts

variable {F : Files ι} {d : Mem} {mp : MountPoint} {n : Nat} {layout : List Nat}

theorem chain_linked (h : Chain d mp n layout) : List.IsChain (Linked d mp n) layout := by
  induction h with
  | last hc hend => exact List.isChain_singleton _
  | link hc hlink hlt h ih =>
    exact List.isChain_cons_cons.mpr ⟨⟨hc, hlink, hlt, h.head_data.1⟩, ih⟩

/-- Files opened from a FAT that links no cluster twice have no cluster in common. -/
theorem OpenedFrom.separate (h : OpenedFrom F n d) : Separate F n where
  loaded := h.loaded
  data i c hc := ((h.chain i).used c hc).1
  nodup i := (h.chain i).nodup
  apart i j hne := by
    have hi := chain_linked (h.chain i)
    have hj := chain_linked (h.chain j)
    have hheads := h.distinct i j hne
    have hfirst := h.first i
    have hfirst' := h.first j
    cases hli : (F.node i).data.layout with
    | nil => exact List.disjoint_nil_left _
    | cons a u =>
      cases hlj : (F.node j).data.layout with
      | nil => exact List.disjoint_nil_right _
      | cons b v =>
        rw [hli] at hi hheads hfirst
        rw [hlj] at hj hheads hfirst'
        refine Links.paths_disjoint h.linear hi hj ?_ ?_ fun heq => hheads (congrArg some heq)
        · exact hfirst a rfl
        · exact hfirst' b rfl

end Layouts

/-! ## Moving pages -/

section Transfers

variable {mp : MountPoint}

/-- A page is written to its cluster, or the disk and the page cache stay. -/
theorem writeByPage_cases (hmp : Mounted mp) (s : FatState) (layout : List Nat) (page a : Nat) :
    (∃ c, layout[page]? = some c ∧ s.device 0 = true ∧
      fatFsWriteByPage s mp layout page a = (s.put (dataClusterLba mp c) a, true)) ∨
    ((layout.length ≤ page ∨ s.device 0 = false) ∧
      (fatFsWriteByPage s mp layout page a).2 = false ∧
      (fatFsWriteByPage s mp layout page a).1.disk = s.disk ∧
      (fatFsWriteByPage s mp layout page a).1.files = s.files) := by
  unfold fatFsWriteByPage
  cases hc : layout[page]? with
  | none => exact Or.inr ⟨Or.inl (List.getElem?_eq_none_iff.mp hc), rfl, rfl, rfl⟩
  | some c =>
    dsimp only
    rw [writeByDataCluster_eq hmp]
    by_cases hdev : s.device 0 = true
    · exact Or.inl ⟨c, rfl, hdev, by rw [if_pos hdev]⟩
    · right
      rw [if_neg hdev]
      exact ⟨Or.inr (by simpa using hdev), rfl, rfl, rfl⟩

/-- A page is read from its cluster, or the disk and the memory stay. -/
theorem readByPage_cases (hmp : Mounted mp) (s : FatState) (layout : List Nat) (page a : Nat) :
    (∃ c, layout[page]? = some c ∧ s.device 0 = true ∧
      fatFsReadByPage s mp layout page a = (s.fetch (dataClusterLba mp c) a, true)) ∨
    ((layout.length ≤ page ∨ s.device 0 = false) ∧
      (fatFsReadByPage s mp layout page a).2 = false ∧
      (fatFsReadByPage s mp layout page a).1.disk = s.disk ∧
      (fatFsReadByPage s mp layout page a).1.mem = s.mem) := by
  unfold fatFsReadByPage
  cases hc : layout[page]? with
  | none => exact Or.inr ⟨Or.inl (List.getElem?_eq_none_iff.mp hc), rfl, rfl, rfl⟩
  | some c =>
    dsimp only
    rw [readByDataCluster_eq hmp]
    by_cases hdev : s.device 0 = true
    · exact Or.inl ⟨c, rfl, hdev, by rw [if_pos hdev]⟩
    · right
      rw [if_neg hdev]
      exact ⟨Or.inr (by simpa using hdev), rfl, rfl, rfl⟩

end Transfers

/-- The first `j` pages of a call on a file of `length` pages went through, from `s` to `t`. -/
structure Through (s t : FatState) (length first j : Nat) : Prop where
  device : ∀ k, t.device k = s.device (k + j)
  went : ∀ k < j, s.device k = true
  room : j = 0 ∨ first + j ≤ length

section Calls

variable {F : Files ι} {n : Nat} {s t : FatState} {m d : Mem}
  {i : ι} {start count address answer length first j k p c : Nat}

theorem Through.zero : Through s s length first 0 :=
  ⟨fun _ => rfl, fun _ hk => absurd hk (Nat.not_lt_zero _), Or.inl rfl⟩

/-- One more page. -/
theorem Through.next {t' : FatState} (h : Through s t length first j) (hroom : first + j < length)
    (hdev : t.device 0 = true) (hskip : ∀ k, t'.device k = t.device (k + 1)) :
    Through s t' length first (j + 1) where
  device k := by
    rw [hskip, h.device]
    congr 1
    omega
  went k hk := by
    rcases Nat.lt_succ_iff_lt_or_eq.mp hk with hlt | rfl
    · exact h.went k hlt
    · have hlast := h.device 0
      rw [Nat.zero_add] at hlast
      rw [← hlast]
      exact hdev
  room := Or.inr (by omega)

/-- Where the next page does not go through. -/
theorem Through.stops (h : Through s t length first j)
    (hstop : length ≤ first + j ∨ t.device 0 = false) :
    length ≤ first + j ∨ s.device j = false := by
  rcases hstop with hend | hdev
  · exact Or.inl hend
  · have hlast := h.device 0
    rw [Nat.zero_add] at hlast
    exact Or.inr (hlast ▸ hdev)

theorem take_bufferAt (hj : j ≤ count / 4096) : (bufferAt m address count).take j =
    (List.range j).map fun k => block 4096 m (address + 4096 * k) := by
  unfold bufferAt
  rw [← List.map_take, List.take_range, Nat.min_eq_left hj]

@[simp] theorem length_bufferAt : (bufferAt m address count).length = count / 4096 := by
  unfold bufferAt
  rw [List.length_map, List.length_range]

/-- The places of the clusters are apart as the clusters are. -/
theorem places_apart {mp : MountPoint} (hv : Volume mp n) {c c' : Nat} (hc : DataCluster n c)
    (hc' : DataCluster n c') (hne : c ≠ c') :
    Apart 4096 (clusterAddr mp c) (clusterAddr mp c') :=
  clusterAddr_apart hv ⟨by have := hc.1; omega, hc.2⟩ hc' hne

theorem pageAddr_eq (hbuffer : address + count ≤ 4294967296) (hj : j < count / 4096) :
    add32 address (mul32 4096 j) = address + 4096 * j := by
  rw [mul32_eq (by omega), add32_eq (by omega)]

theorem pageIndex_eq (hstart : start < 4294967296) (hcount : count ≤ 4294967296)
    (hj : j < count / 4096) : add32 (start / 4096) j = start / 4096 + j :=
  add32_eq (by omega)

/-- A call serves its caller as far as it went through. -/
theorem serves_of_through {c : Call ι} {length : Nat} (hcall : Aligned c)
    (hcount : c.count < invalidIo) (hbuffer : c.buffer.length = c.count / 4096)
    (hfault : c.fault = decide (Faulty s c.count))
    (h : (c.answer = c.count ∧ k = c.count / 4096 ∧ Through s t length (c.start / 4096) k) ∨
      (c.answer = invalidIo ∧ k < c.count / 4096 ∧ Through s t length (c.start / 4096) k ∧
        (length ≤ c.start / 4096 + k ∨ s.device k = false))) : Serves length k c := by
  obtain ⟨hstart, hlen⟩ := hcall
  rcases h with ⟨hanswer, rfl, hthrough⟩ | ⟨hanswer, hk, hthrough, hstop⟩
  · have hroom := hthrough.room
    refine ⟨hbuffer, iff_of_true hanswer ⟨?_, by omega⟩, fun _ => hbuffer.symm,
      fun hne => absurd hanswer hne, hroom⟩
    rw [hfault, decide_eq_false_iff_not]
    rintro ⟨j, hj, hdev⟩
    rw [hthrough.went j hj] at hdev
    cases hdev
  · have hne : c.answer ≠ c.count := by omega
    refine ⟨hbuffer, iff_of_false hne ?_, fun h => absurd h hne, fun _ => ⟨hanswer, by omega⟩,
      hthrough.room⟩
    rintro ⟨hcalm, hroom⟩
    rw [hfault, decide_eq_false_iff_not] at hcalm
    rcases hstop with hend | hdev
    · omega
    · exact hcalm ⟨k, hk, hdev⟩

/-- Page `j` of a call is moved, or it is behind the end or the device fails; `P` holds of the
pages moved. -/
def Moves (P : Nat → FatState → Prop) (length first j : Nat) (t : FatState)
    (res : FatState × Bool) : Prop :=
  (res.2 = true ∧ first + j < length ∧ t.device 0 = true ∧
    (∀ k, res.1.device k = t.device (k + 1)) ∧ P (j + 1) res.1) ∨
  (res.2 = false ∧ (length ≤ first + j ∨ t.device 0 = false) ∧ P j res.1)

/-- One page after the other is moved until one fails. -/
theorem pages_through {transfer : FatState → Nat → Nat → FatState × Bool}
    {P : Nat → FatState → Prop} {u : FatState} {length pg N : Nat}
    (hstep : ∀ j < N, ∀ t, P j t → Moves P length first j t
      (transfer t (add32 first j) (add32 address (mul32 4096 j))))
    (hN : pg + n = N) (hP : P pg u) (hthrough : Through s u length first pg) :
    ∃ k t, P k (fatFsPages transfer first address n pg u).1 ∧ Through s t length first k ∧
      (((fatFsPages transfer first address n pg u).2 = true ∧ k = N) ∨
      ((fatFsPages transfer first address n pg u).2 = false ∧ k < N ∧
        (length ≤ first + k ∨ s.device k = false))) := by
  induction n generalizing pg u with
  | zero => exact ⟨pg, u, hP, hthrough, Or.inl ⟨rfl, hN⟩⟩
  | succ n ih =>
    have hfirst := hstep pg (by omega) u hP
    unfold fatFsPages
    cases hres : transfer u (add32 first pg) (add32 address (mul32 4096 pg)) with
    | mk t ok =>
      rw [hres] at hfirst
      rcases hfirst with ⟨hok, hroom, hdev, hskip, hP'⟩ | ⟨hok, hstop, hP'⟩
      · obtain rfl : ok = true := hok
        exact ih (by omega) hP' (hthrough.next hroom hdev hskip)
      · obtain rfl : ok = false := hok
        exact ⟨pg, u, hP', hthrough, Or.inr ⟨rfl, by omega, hthrough.stops hstop⟩⟩

/-- A call on a loaded file moves its pages, and answers how that went. -/
theorem transfer_through {transfer : FatState → Nat → Nat → FatState × Bool}
    {P : Nat → FatState → Prop} {length : Nat} (hload : (F.node i).data.layoutLoaded = true)
    (halign : start % 4096 = 0 ∧ count % 4096 = 0)
    (hstep : ∀ j < count / 4096, ∀ t, P j t → Moves P length (start / 4096) j t
      (transfer t (add32 (start / 4096) j) (add32 address (mul32 4096 j))))
    (hzero : P 0 s) (hrun : fatFsTransfer transfer s (F.node i) start count address = (t, answer)) :
    ∃ k u, P k t ∧
      ((answer = count ∧ k = count / 4096 ∧ Through s u length (start / 4096) k) ∨
      (answer = invalidIo ∧ k < count / 4096 ∧ Through s u length (start / 4096) k ∧
        (length ≤ start / 4096 + k ∨ s.device k = false))) := by
  unfold fatFsTransfer at hrun
  have hceil : ceilDivision count 4096 = count / 4096 := by
    unfold ceilDivision
    rw [if_neg (by omega)]
  rw [if_neg (by rw [hload]; decide), if_neg (by omega), hceil] at hrun
  obtain ⟨k, u, hP, hthrough, hend⟩ :=
    pages_through hstep (Nat.zero_add _) hzero Through.zero
  cases hres : fatFsPages transfer (start / 4096) address (count / 4096) 0 s with
  | mk t' ok =>
    rw [hres] at hrun hP hend
    rcases hend with ⟨hok, hk⟩ | ⟨hok, hk, hstop⟩
    · obtain rfl : ok = true := hok
      cases hrun
      exact ⟨k, u, hP, Or.inl ⟨rfl, hk, hthrough⟩⟩
    · obtain rfl : ok = false := hok
      cases hrun
      exact ⟨k, u, hP, Or.inr ⟨rfl, hk, hthrough, hstop⟩⟩

/-- A call that is not aligned is refused. -/
theorem transfer_misaligned {transfer : FatState → Nat → Nat → FatState × Bool}
    (hload : (F.node i).data.layoutLoaded = true)
    (halign : ¬ (start % 4096 = 0 ∧ count % 4096 = 0))
    (hrun : fatFsTransfer transfer s (F.node i) start count address = (t, answer)) :
    t.disk = s.disk ∧ answer = invalidIo := by
  unfold fatFsTransfer at hrun
  rw [if_neg (by rw [hload]; decide), if_pos (by omega)] at hrun
  cases hrun
  exact ⟨rfl, rfl⟩

/-- The first `j` pages of the buffer are those of the file. -/
def Fetched (F : Files ι) (i : ι) (first address : Nat) (s : FatState) (j : Nat) (t : FatState) :
    Prop :=
  t.disk = s.disk ∧ ∀ k < j, (content 4096 s.disk (F.places i))[first + k]? =
    some (block 4096 t.mem (address + 4096 * k))

/-- The next page is fetched. -/
theorem Fetched.next (h : Fetched F i first address s j t)
    (hc : (F.node i).data.layout[first + j]? = some c) :
    Fetched F i first address s (j + 1)
      (t.fetch (dataClusterLba F.mp c) (address + 4096 * j)) := by
  refine ⟨h.1, fun k hk => ?_⟩
  have hfetch : (t.fetch (dataClusterLba F.mp c) (address + 4096 * j)).mem =
      blit t.mem (address + 4096 * j) s.disk (clusterAddr F.mp c) 4096 := by
    rw [← h.1]
    rfl
  rw [hfetch]
  rcases Nat.lt_succ_iff_lt_or_eq.mp hk with hlt | rfl
  · rw [h.2 k hlt, block_blit_apart (Or.inr (by omega))]
  · rw [block_blit_self, getElem?_content, Files.places, List.getElem?_map, hc]
    rfl

/-- A read fetches the first pages of its range. -/
theorem read_fetches (hv : Volume F.mp n) (hsep : Separate F n) (hstart : start < 4294967296)
    (hbuffer : address + count ≤ 4294967296) (halign : start % 4096 = 0 ∧ count % 4096 = 0)
    (hrun : fatFsRead s F.mp (F.node i) start count address = (t, answer)) :
    ∃ k u, Fetched F i (start / 4096) address s k t ∧
      ((answer = count ∧ k = count / 4096 ∧
        Through s u (F.node i).data.layout.length (start / 4096) k) ∨
      (answer = invalidIo ∧ k < count / 4096 ∧
        Through s u (F.node i).data.layout.length (start / 4096) k ∧
        ((F.node i).data.layout.length ≤ start / 4096 + k ∨ s.device k = false))) := by
  refine transfer_through (hsep.loaded i) halign (fun j hj t hfetched => ?_)
    ⟨rfl, fun k hk => absurd hk (Nat.not_lt_zero k)⟩ hrun
  rw [pageIndex_eq hstart (by omega) hj, pageAddr_eq hbuffer hj]
  rcases readByPage_cases hv.toMounted t (F.node i).data.layout (start / 4096 + j)
      (address + 4096 * j) with ⟨c, hc, hdev, hres⟩ | ⟨hstop, hok, hdisk, hmem⟩
  · left
    rw [hres]
    exact ⟨rfl, (List.getElem?_eq_some_iff.mp hc).1, hdev, t.fetch_device _ _, hfetched.next hc⟩
  · refine Or.inr ⟨hok, hstop, hdisk.trans hfetched.1, fun k hk => ?_⟩
    rw [hmem]
    exact hfetched.2 k hk

/-- What was fetched is the range of the file. -/
theorem Fetched.range (h : Fetched F i first address s k t) (hk : k ≤ count / 4096) :
    (bufferAt t.mem address count).take k =
      ((content 4096 s.disk (F.places i)).drop first).take k := by
  apply List.ext_getElem?
  intro j
  by_cases hj : j < k
  · rw [take_bufferAt hk, List.getElem?_take_of_lt hj, List.getElem?_drop, h.2 j hj,
      List.getElem?_map, List.getElem?_range hj, Option.map_some]
  · rw [List.getElem?_take_eq_none (by omega), List.getElem?_take_eq_none (by omega)]

end Calls

/-! ## The driver is a store -/

section Refinement

variable [DecidableEq ι] {F : Files ι} {n : Nat} {s t : FatState} {m d : Mem}
  {i : ι} {start count address answer first j k p c : Nat}

/-- A block that is written to page `p` of file `i` replaces that page, and nothing else. -/
theorem store_put (hv : Volume F.mp n) (hsep : Separate F n)
    (hc : (F.node i).data.layout[p]? = some c) :
    F.store (blit d (clusterAddr F.mp c) m address 4096) =
      (F.store d).setPages i (((F.store d).pages i).set p (block 4096 m address)) := by
  have hmem : c ∈ (F.node i).data.layout := List.mem_of_getElem? hc
  have hdata := hsep.data i c hmem
  refine congrArg₂ Store.mk ?_ ?_
  · funext i'
    by_cases hi : i' = i
    · subst hi
      rw [Function.update_self]
      refine content_blit_at (by rw [Files.places, List.getElem?_map, hc, Option.map_some]) ?_
      intro q b hb hq
      rw [Files.places, List.getElem?_map, Option.map_eq_some_iff] at hb
      obtain ⟨c', hc', rfl⟩ := hb
      refine places_apart hv hdata (hsep.data i' c' (List.mem_of_getElem? hc')) fun heq => hq ?_
      -- a cluster stands only once in a layout
      obtain ⟨hq', hcq⟩ := List.getElem?_eq_some_iff.mp hc'
      obtain ⟨hp', hcp⟩ := List.getElem?_eq_some_iff.mp hc
      exact (hsep.nodup i').getElem_inj_iff.mp (hcq.trans (heq.symm.trans hcp.symm))
    · rw [Function.update_of_ne hi]
      refine content_blit_apart fun b hb => ?_
      obtain ⟨c', hc', rfl⟩ := List.mem_map.mp hb
      refine places_apart hv hdata (hsep.data i' c' hc') fun heq => ?_
      exact hsep.apart i i' (fun h => hi h.symm) hmem (heq ▸ hc')
  · funext x
    exact blit_outside (List.mem_map_of_mem hmem) (x.2 i)

/-- A page that is written. -/
theorem store_putPage (hv : Volume F.mp n) (hsep : Separate F n)
    (hc : (F.node i).data.layout[p]? = some c) :
    F.store (s.put (dataClusterLba F.mp c) address).disk = (F.store s.disk).setPages i
      (((F.store s.disk).pages i).set p (block 4096 s.mem address)) := by
  rw [FatState.put_disk, ← clusterAddr]
  exact store_put hv hsep hc

/-- The store when a write has stored the first `j` pages of its buffer. -/
def stored (F : Files ι) (i : ι) (first address count : Nat) (s : FatState) (j : Nat) :
    Store ι F.Free :=
  (F.store s.disk).setPages i
    (overwrite ((F.store s.disk).pages i) first ((bufferAt s.mem address count).take j))

theorem stored_zero : stored F i first address count s 0 = F.store s.disk := by
  unfold stored
  rw [List.take_zero, overwrite, setPages_same]

/-- The first `j` pages of the buffer are stored. -/
def Stored (F : Files ι) (i : ι) (first address count : Nat) (s : FatState) (j : Nat)
    (t : FatState) : Prop :=
  F.store t.disk = stored F i first address count s j ∧ t.mem = s.mem

/-- The next page is stored. -/
theorem Stored.next (h : Stored F i first address count s j t) (hv : Volume F.mp n)
    (hsep : Separate F n) (hj : j < count / 4096)
    (hc : (F.node i).data.layout[first + j]? = some c) :
    Stored F i first address count s (j + 1)
      (t.put (dataClusterLba F.mp c) (address + 4096 * j)) := by
  refine ⟨?_, (t.put_mem _ _).trans h.2⟩
  rw [store_putPage hv hsep hc, h.1, h.2]
  have hnext : (bufferAt s.mem address count).take (j + 1) =
      (bufferAt s.mem address count).take j ++ [block 4096 s.mem (address + 4096 * j)] := by
    rw [take_bufferAt hj, take_bufferAt hj.le, List.range_succ, List.map_append,
      List.map_singleton]
  have hlength : ((bufferAt s.mem address count).take j).length = j := by
    rw [List.length_take, length_bufferAt]
    omega
  unfold stored
  rw [hnext, overwrite_concat, hlength, setPages_self, setPages_setPages]

/-- A write stores the first pages of its buffer. -/
theorem write_stores (hv : Volume F.mp n) (hsep : Separate F n) (hstart : start < 4294967296)
    (hbuffer : address + count ≤ 4294967296) (halign : start % 4096 = 0 ∧ count % 4096 = 0)
    (hrun : fatFsWrite s F.mp (F.node i) start count address = (t, answer)) :
    ∃ k u, Stored F i (start / 4096) address count s k t ∧
      ((answer = count ∧ k = count / 4096 ∧
        Through s u (F.node i).data.layout.length (start / 4096) k) ∨
      (answer = invalidIo ∧ k < count / 4096 ∧
        Through s u (F.node i).data.layout.length (start / 4096) k ∧
        ((F.node i).data.layout.length ≤ start / 4096 + k ∨ s.device k = false))) := by
  refine transfer_through (hsep.loaded i) halign (fun j hj t hstored => ?_)
    ⟨stored_zero.symm, rfl⟩ hrun
  rw [pageIndex_eq hstart (by omega) hj, pageAddr_eq hbuffer hj]
  rcases writeByPage_cases hv.toMounted t (F.node i).data.layout (start / 4096 + j)
      (address + 4096 * j) with ⟨c, hc, hdev, hres⟩ | ⟨hstop, hok, hdisk, hfiles⟩
  · left
    rw [hres]
    exact ⟨rfl, (List.getElem?_eq_some_iff.mp hc).1, hdev, t.put_device _ _,
      hstored.next hv hsep hj hc⟩
  · exact Or.inr ⟨hok, hstop, by rw [hdisk]; exact hstored.1,
      (congrArg FileState.mem hfiles).trans hstored.2⟩

/-- Every step of the driver is a step of the store. -/
theorem fileStep_store (hv : Volume F.mp n) (hsep : Separate F n) {label : Option (Call ι)}
    (h : FileStep F s label t) : StoreStep (F.store s.disk) label (F.store t.disk) := by
  cases h with
  | other h =>
    have hsame : F.store t.disk =
        { F.store s.disk with rest := (F.store t.disk).rest } := by
      refine congrArg₂ Store.mk (funext fun i => content_congr fun x hx => h x ?_) rfl
      exact fun hfree => hfree i hx
    rw [hsame]
    exact .other _
  | read i start count address hstart hcount hbuffer hrun =>
    by_cases halign : start % 4096 = 0 ∧ count % 4096 = 0
    · have hless : count < 4294967295 := by omega
      obtain ⟨k, u, hfetched, hend⟩ := read_fetches hv hsep hstart hbuffer halign hrun
      rw [hfetched.1]
      refine .read (k := k) halign rfl ?_ (hfetched.range (by omega))
      rw [length_pages]
      exact serves_of_through halign hless length_bufferAt rfl hend
    · obtain ⟨hdisk, hanswer⟩ := transfer_misaligned (hsep.loaded i) halign hrun
      rw [hdisk]
      exact .refused halign hanswer
  | write i start count address hstart hcount hbuffer hrun =>
    by_cases halign : start % 4096 = 0 ∧ count % 4096 = 0
    · have hless : count < 4294967295 := by omega
      obtain ⟨k, u, hstored, hend⟩ := write_stores hv hsep hstart hbuffer halign hrun
      rw [hstored.1]
      refine .write (k := k) halign rfl ?_
      rw [length_pages]
      exact serves_of_through halign hless length_bufferAt rfl hend
    · obtain ⟨hdisk, hanswer⟩ := transfer_misaligned (hsep.loaded i) halign hrun
      rw [hdisk]
      exact .refused halign hanswer

/-- Every run of the driver is a run of the store. -/
theorem fileRun_store (hv : Volume F.mp n) (hsep : Separate F n)
    {calls : List (Option (Call ι))} (h : Trace (FileStep F) s calls t) :
    Trace StoreStep (F.store s.disk) calls (F.store t.disk) :=
  h.simulates (I := fun _ => True) (f := fun s => F.store s.disk)
    (fun _ _ _ _ hstep => ⟨trivial, fileStep_store hv hsep hstep⟩) trivial

/-- Files opened from a FAT that links no cluster twice are arrays of pages, each of its own,
in every run. -/
theorem fatFiles_refine (hv : Volume F.mp n) (hopen : OpenedFrom F n s.disk)
    {calls : List (Option (Call ι))} (h : Trace (FileStep F) s calls t) :
    Trace StoreStep (F.store s.disk) calls (F.store t.disk) :=
  fileRun_store hv hopen.separate h

/-- A disk with two files of one cluster each, 2 and 3. -/
def twoFilesDisk : Mem := fun x =>
  if 16392 ≤ x ∧ x < 16400 then (if x % 4 = 3 then 0x0F else 0xFF) else 0

/-- The two files, loaded. -/
def twoFiles : Files Bool where
  mp := smallMount
  node b := ⟨[65], 25, 14, 0, ⟨[if b then 3 else 2], true, 2, 0⟩, []⟩

/-- The entries of clusters 2 and 3 end their chains, and the others are free. -/
theorem twoFilesDisk_entry {c : Nat} (h : 2 ≤ c) :
    fatEntry twoFilesDisk smallMount c = 0 ∨ fatEof ≤ fatEntry twoFilesDisk smallMount c := by
  by_cases hc : c = 2 ∨ c = 3
  · right
    rcases hc with rfl | rfl <;> decide
  · left
    have hzero : ∀ x, fatAddr smallMount c ≤ x → twoFilesDisk x = 0 := by
      intro x hx
      have haddr : fatAddr smallMount c = 16384 + 4 * c := rfl
      exact if_neg (by omega)
    simp [fatEntry, load32, hzero]

theorem twoFilesDisk_unlinked (a b : Nat) : ¬ Linked twoFilesDisk smallMount 1024 a b := by
  rintro ⟨hdata, rfl, hlt, hge⟩
  rcases twoFilesDisk_entry hdata.1 with hzero | hend
  · omega
  · omega

theorem twoFiles_opened : OpenedFrom twoFiles 1024 twoFilesDisk := by
  refine ⟨fun _ => rfl, fun b => ?_, fun a b c h => absurd h (twoFilesDisk_unlinked a c),
    fun _ a _ b => twoFilesDisk_unlinked b a, ?_⟩
  · cases b
    · exact .last ⟨by decide, by decide⟩ (by decide)
    · exact .last ⟨by decide, by decide⟩ (by decide)
  · decide

/-- A page is written to one of them and read from the other. -/
theorem fatFiles_refine_twoFiles : ∃ w r t,
    Trace (FileStep twoFiles) (freshState twoFilesDisk) [some w, some r] t ∧ w.file = true ∧
      r.file = false ∧
      Trace StoreStep (twoFiles.store twoFilesDisk) [some w, some r] (twoFiles.store t.disk) := by
  have hrun : Trace (FileStep twoFiles) (freshState twoFilesDisk) _ _ :=
    .cons (.write true 0 4096 8192 (by decide) (by decide) (by decide) rfl)
      (.cons (.read false 0 4096 8192 (by decide) (by decide) (by decide) rfl) .nil)
  exact ⟨_, _, _, hrun, rfl, rfl, fatFiles_refine smallMount_volume twoFiles_opened hrun⟩
/-- What call `w` wrote is there. -/
def Holds (w : Call ι) (σ : Store ι Other) : Prop :=
  ((σ.pages w.file).drop (w.start / 4096)).take w.buffer.length = w.buffer

/-- A write that is answered in full is there. -/
theorem holds_of_write {σ σ' : Store ι Other} {w : Call ι} (h : StoreStep σ (some w) σ')
    (hwrite : w.writes = true) (hdone : w.answer = w.count ∧ w.answer ≠ invalidIo) :
    Holds w σ' ∧ Aligned w ∧ w.buffer.length = w.count / 4096 := by
  cases h with
  | refused hcall hanswer => exact absurd hanswer hdone.2
  | read hcall hread => rw [hread] at hwrite; cases hwrite
  | write hcall _ hserves =>
    refine ⟨?_, hcall, hserves.size⟩
    unfold Holds
    rw [setPages_self, hserves.all hdone.1, List.take_length]
    rcases hserves.room with hk | hroom
    · have hnil : w.buffer = [] :=
        List.eq_nil_of_length_eq_zero ((hserves.all hdone.1).symm.trans hk)
      rw [hnil]
      rfl
    · rw [hserves.all hdone.1] at hroom
      exact take_drop_overwrite hroom

/-- It stays while nobody writes to its range. -/
theorem holds_step {σ σ' : Store ι Other} {w : Call ι} {label : Option (Call ι)}
    (hw : Aligned w ∧ w.buffer.length = w.count / 4096) (h : StoreStep σ label σ')
    (hother : ∀ c ∈ label, c.writes = true → c.file = w.file →
      c.start + c.count ≤ w.start ∨ w.start + w.count ≤ c.start) (hholds : Holds w σ) :
    Holds w σ' := by
  obtain ⟨⟨hstart, hcount⟩, hsize⟩ := hw
  cases h with
  | other => exact hholds
  | refused => exact hholds
  | read => exact hholds
  | write hcall hwrite hserves =>
    rename_i c k
    unfold Holds
    by_cases hfile : c.file = w.file
    · have hlength : (c.buffer.take k).length ≤ c.count / 4096 := by
        rw [List.length_take, hserves.size]
        exact Nat.min_le_right _ _
      have happ := hother c rfl hwrite hfile
      obtain ⟨hstart', hcount'⟩ := hcall
      rw [hfile, setPages_self, take_drop_overwrite_apart (by omega)]
      exact hholds
    · rw [setPages_ne _ _ fun h => hfile h.symm]
      exact hholds

/-- A read that is answered in full has what is there. -/
theorem read_holds {σ σ' : Store ι Other} {w r : Call ι} (h : StoreStep σ (some r) σ')
    (hread : r.writes = false) (hdone : r.answer = r.count ∧ r.answer ≠ invalidIo)
    (hrange : r.file = w.file ∧ r.start = w.start ∧ r.count = w.count)
    (hsize : w.buffer.length = w.count / 4096) (hholds : Holds w σ) : r.buffer = w.buffer := by
  cases h with
  | refused hcall hanswer => exact absurd hanswer hdone.2
  | write hcall hwrite => rw [hread] at hwrite; cases hwrite
  | read hcall _ hserves hpages =>
    rw [hserves.all hdone.1, List.take_length, hserves.size, hrange.1, hrange.2.1, hrange.2.2,
      ← hsize] at hpages
    exact hpages.trans hholds

/-- Whatever happens between them, a read finds what the last write to its range stored. -/
theorem fatRead_returns_written (hv : Volume F.mp n) (hopen : OpenedFrom F n s.disk) {w r : Call ι}
    {between : List (Option (Call ι))}
    (h : Trace (FileStep F) s (some w :: (between ++ [some r])) t)
    (hwrite : w.writes = true ∧ w.answer = w.count ∧ w.answer ≠ invalidIo)
    (hread : r.writes = false ∧ r.answer = r.count ∧ r.answer ≠ invalidIo)
    (hrange : r.file = w.file ∧ r.start = w.start ∧ r.count = w.count)
    (hother : ∀ c, some c ∈ between → c.writes = true → c.file = w.file →
      c.start + c.count ≤ w.start ∨ w.start + w.count ≤ c.start) : r.buffer = w.buffer := by
  cases fileRun_store hv hopen.separate h with
  | cons hfirst hrest =>
    obtain ⟨hholds, hw⟩ := holds_of_write hfirst hwrite.1 hwrite.2
    obtain ⟨σ, hmiddle, hlast⟩ := hrest.split
    have hkept : Holds w σ := by
      refine hmiddle.keeps (fun label hlabel σ σ' hI hstep => holds_step hw hstep ?_ hI) hholds
      rintro c rfl
      exact hother c hlabel
    cases hlast with
    | cons hlast _ => exact read_holds hlast hread.1 hread.2 hrange hw.2 hkept

end Refinement

/-- A page is written, the other file is written, and the page is read to another place. -/
theorem fatRead_returns_written_twoFiles : ∃ w c r t,
    Trace (FileStep twoFiles) (freshState twoFilesDisk) [some w, some c, some r] t ∧
      w.writes = true ∧ r.writes = false ∧ r.buffer = w.buffer := by
  have hrun : Trace (FileStep twoFiles) (freshState twoFilesDisk)
      (some _ :: ([some _] ++ [some _])) _ :=
    .cons (.write true 0 4096 8192 (by decide) (by decide) (by decide) rfl)
      (.cons (.write false 0 4096 12288 (by decide) (by decide) (by decide) rfl)
        (.cons (.read true 0 4096 16384 (by decide) (by decide) (by decide) rfl) .nil))
  refine ⟨_, _, _, _, hrun, rfl, rfl, fatRead_returns_written smallMount_volume twoFiles_opened
    hrun ⟨rfl, rfl, by decide⟩ ⟨rfl, rfl, by decide⟩ ⟨rfl, rfl, rfl⟩ ?_⟩
  intro c hc _ hfile
  obtain rfl := Option.some.inj (List.mem_singleton.mp hc)
  cases hfile

end MeOS.FatFiles
