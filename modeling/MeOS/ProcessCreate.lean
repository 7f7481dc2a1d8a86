import MeOS.HeapRun
import MeOS.Mmap
import MeOS.MmngrPhys

/-! # `process.cpp`: the record of a new process

`process_create` takes a record from the heap and lets several modules fill in their own
part of it. `malloc` does not clear what it hands out, and none of these modules writes
`contract_spinlock`: the lock of a new process holds what an earlier owner of the block has
left there.
-/

namespace MeOS.ProcessCreate

open Bytes Heap Extents Runs

/-! ## `malloc` and `realloc` -/

/-- `malloc`; 0 when `heap_alloc` fails. -/
def malloc (fuel base : Nat) (m : Mem) (size : Nat) : Outcome (Mem × Nat) :=
  match heapAlloc fuel m base size with
  | none => .running
  | some (m, .ok a) => .ret (m, a)
  | some (m, .error _) => .ret (m, 0)

/-- `realloc`; 0 when `heap_realloc` fails. -/
def realloc (fuel base : Nat) (m : Mem) (ptr newSize : Nat) : Outcome (Mem × Nat) :=
  match heapRealloc fuel m base ptr newSize with
  | none => .running
  | some (m, .ok a) => .ret (m, a)
  | some (m, .error _) => .ret (m, 0)

/-! ## `ordered_vector.h` in memory

The fields of an `ordered_vector` are `data`, `count` and `r_size`. -/

/-- `sizeof(vm_area)`. -/
abbrev sizeofVmArea : Nat := 20

/-- Copy the fields of a `vm_area` to `a`. -/
def storeVmArea (m : Mem) (a : Nat) (area : VmArea) : Mem :=
  let m := store32 m a area.startAddr
  let m := store32 m (a + 4) area.endAddr
  let m := store32 m (a + 8) area.flags
  let m := store32 m (a + 12) area.fd
  store32 m (a + 16) area.offset

/-- `ordered_vector_init`. -/
def orderedVectorInit (fuel base : Nat) (m : Mem) (v : Nat) : Outcome (Mem × ErrorT) := do
  let m := store32 m (v + 4) 0
  let m := store32 m (v + 8) 1
  let (m, a) ← malloc fuel base m sizeofVmArea
  let m := store32 m v a
  if a = 0 then .ret (m, .occur) else .ret (m, .ok)

/-- `ordered_vector_reserve`. -/
def orderedVectorReserve (fuel base : Nat) (m : Mem) (v numElements : Nat) :
    Outcome (Mem × ErrorT) := do
  let (m, a) ← realloc fuel base m (load32 m v) (mul32 numElements sizeofVmArea)
  let m := store32 m v a
  if a = 0 then .panic else .ret (store32 m (v + 8) numElements, .ok)

/-- The loop of `ordered_vector_insert` from cell `i` down, and the store into the cell that is
left. -/
def insertShift (m : Mem) (data : Nat) (area : VmArea) : Nat → Mem
  | 0 => storeVmArea m data area
  | i + 1 =>
    if area.startAddr < load32 m (data + sizeofVmArea * i) then
      insertShift (blit m (data + sizeofVmArea * (i + 1)) m (data + sizeofVmArea * i) sizeofVmArea)
        data area i
    else storeVmArea m (data + sizeofVmArea * (i + 1)) area

/-- `ordered_vector_insert`, when there is room. -/
def orderedVectorPut (m : Mem) (v : Nat) (area : VmArea) : Mem :=
  let m := insertShift m (load32 m v) area (load32 m (v + 4))
  store32 m (v + 4) (add32 (load32 m (v + 4)) 1)

/-- `ordered_vector_insert`. -/
def orderedVectorInsert (fuel base : Nat) (m : Mem) (v : Nat) (area : VmArea) :
    Outcome (Mem × ErrorT) := do
  if load32 m (v + 4) = load32 m (v + 8) then
    let (m, e) ← orderedVectorReserve fuel base m v (mul32 2 (load32 m (v + 4)))
    match e with
    | .occur => .ret (m, .occur)
    | .ok => .ret (orderedVectorPut m v area, .ok)
  else
    .ret (orderedVectorPut m v area, .ok)

/-! ## The parts of a process -/

/-- `vm_contract_init`: the vector is followed by `lowest_addr` and `highest_addr`; `raw` is the
content of the fresh local record. -/
def vmContractInit (fuel base : Nat) (m : Mem) (c low high : Nat) (raw : VmArea) :
    Outcome (Mem × ErrorT) := do
  if high % pageSize ≠ 0 ∨ low % pageSize ≠ 0 ∨ low ≥ high then
    .ret (m, .occur)
  else
    let m := store32 m (c + 16) high
    let m := store32 m (c + 12) low
    let (m, e) ← orderedVectorInit fuel base m c
    match e with
    | .occur => .ret (m, .occur)
    | .ok =>
      let area := { vmAreaInit raw with flags := mmapNonRemove }
      let area := (vmAreaSetBounds area low 4096).1
      let (m, e) ← orderedVectorInsert fuel base m c area
      match e with
      | .occur => .ret (m, .occur)
      | .ok =>
        let area := (vmAreaSetBounds area (sub32 high 4096) 4096).1
        orderedVectorInsert fuel base m c area

/-- `sizeof(lfe)`. -/
abbrev sizeofLfe : Nat := 8

/-- `init_local_file_table`: the vector is followed by the lock. -/
def initLocalFileTable (fuel base : Nat) (m : Mem) (lft initialSize : Nat) :
    Outcome (Mem × ErrorT) := do
  let initialSize := if initialSize = 0 then 1 else initialSize
  let m := store32 m (lft + 4) 0
  let m := store32 m (lft + 8) initialSize
  let (m, a) ← malloc fuel base m (mul32 initialSize sizeofLfe)
  let m := store32 m lft a
  if a = 0 then .ret (m, .occur) else .ret (store32 m (lft + 12) 0, .ok)

/-- `queue_init`: `head`, `tail` and `count`. -/
def queueInit (m : Mem) (q : Nat) : Mem :=
  let m := store32 m (q + 8) 0
  let m := store32 m (q + 4) 0
  store32 m q 0

/-- `sizeof(pdirectory)`. -/
abbrev sizeofPdirectory : Nat := 4096

/-- `vmmngr_create_address_space`. -/
def vmmngrCreateAddressSpace (m : Mem) (phys : PhysState) : Mem × PhysState × Nat :=
  let (phys, dir) := pmmngrAllocBlock phys
  if dir = 0 then (m, phys, 0) else (fill m dir sizeofPdirectory 0, phys, dir)

/-- `vmmngr_map_kernel_space`. -/
def vmmngrMapKernelSpace (m : Mem) (pdir kernelDirectory : Nat) : Mem × ErrorT :=
  if pdir = 0 then (m, .occur)
  else (blit m pdir m kernelDirectory sizeofPdirectory, .ok)

/-! ## `process_create` -/

/-- `sizeof(PCB)`. -/
abbrev sizeofPcb : Nat := 72

/-- `&proc->contract_spinlock`. -/
abbrev contractSpinlock (proc : Nat) : Nat := proc + 56

/-- What `process_create` works on: the memory, the physical memory manager and `lastID`. -/
structure Kernel where
  mem : Mem
  phys : PhysState
  lastID : Nat

/-- The page directory of a new process. -/
def setPageDirectory (m : Mem) (phys : PhysState) (kernelDirectory proc pdir : Nat) :
    Mem × PhysState :=
  if pdir = 0 then
    let (m, phys, dir) := vmmngrCreateAddressSpace m phys
    let m := store32 m proc dir
    ((vmmngrMapKernelSpace m (load32 m proc) kernelDirectory).1, phys)
  else (store32 m proc pdir, phys)

/-- `process_create`. A record starts with `page_dir`, `parent` and `id`; `lft` is at 20,
`memory_contract` at 36, `contract_spinlock` at 56 and `threads` at 60. -/
def processCreate (fuel base kernelDirectory : Nat) (raw : VmArea) (k : Kernel)
    (parent pdir low high : Nat) : Outcome (Kernel × Nat) := do
  let (m, proc) ← malloc fuel base k.mem sizeofPcb
  if proc = 0 then
    .undefined
  else
    let lastID := add32 k.lastID 1
    let m := store32 m (proc + 8) lastID
    let m := store32 m (proc + 4) parent
    let (m, phys) := setPageDirectory m k.phys kernelDirectory proc pdir
    let m := queueInit m (proc + 60)
    let (m, _) ← vmContractInit fuel base m (proc + 36) low high raw
    let (m, _) ← initLocalFileTable fuel base m (proc + 20) 10
    .ret (⟨m, phys, lastID⟩, proc)

/-! ## `heap_alloc` does not clear -/

section Untouched

variable {m m' : Mem} {base size r a : Nat} {pre post : List Blk} {b : Blk}

/-- Merging writes the link of the block and the counter. -/
theorem heapFrontMergeSizeFit_frame {fuel prev : Nat} {fits : Bool}
    (h : heapFrontMergeSizeFit fuel m base prev r = some (m', fits)) {x : Nat}
    (hx : prev + 8 ≤ x) (hc : base + 12 ≤ x) : m' x = m x := by
  induction fuel generalizing m with
  | zero => cases h
  | succ k ih =>
    unfold heapFrontMergeSizeFit at h
    by_cases hmore : blockNext m prev ≠ 0 ∧ r > heapBlockSize m base prev
    · rw [if_pos hmore] at h
      by_cases hunused : heapIsNextUnused m prev = true
      · rw [if_pos hunused] at h
        rw [ih h, heapFrontMergeBlock, setCurrentBlocks_frame _ _ _ (Or.inr hc),
          setNext_frame _ _ _ (Or.inr hx)]
      · rw [if_neg hunused] at h
        cases h
        rfl
    · rw [if_neg hmore] at h
      cases h
      rfl

/-- The blocks that the walk passes lie below the one it takes. -/
theorem heapAllocLoop_untouched {fuel : Nat} (hi : HeapInv m base size (pre ++ post))
    (hr : 0 < r) (hfuel : post.length < fuel)
    (hrun : heapAllocLoop fuel m base r (headAddr post) = some (m', .ok a)) :
    (∀ c ∈ pre, c.addr + 8 ≤ a) ∧ ∀ x, a ≤ x → x < a + r → m' x = m x := by
  induction fuel generalizing m pre post with
  | zero => omega
  | succ k ih =>
    cases post with
    | nil => simp [heapAllocLoop, headAddr] at hrun
    | cons b rest =>
      have hbd := hi.bounds (b := b) (by simp)
      have hk : rest.length < k := by
        simp only [List.length_cons] at hfuel
        omega
      cases heapAllocLoop_turn hi hr hk with
      | skip _ hi' hstep =>
        rw [hstep] at hrun
        obtain ⟨hbelow, hkept⟩ := ih hi' hk hrun
        exact ⟨fun c hc => hbelow c (List.mem_append_left _ hc), hkept⟩
      | take m₁ b₁ rest₁ _ hmerge hmerged hfit hstep =>
        rw [hstep] at hrun
        cases hrun
        refine ⟨fun c hc => ?_, fun x hlo hhi => ?_⟩
        · have hc := hi.split.1.mem_bounds hc
          simp only [Blk.fin, Blk.payload, hmerge.addr] at hc ⊢
          omega
        · simp only [Blk.payload] at hlo hhi
          have hbd₁ := hmerge.inv.bounds (b := b₁) (by simp)
          rw [hmerge.inv.use_outside hfit (by omega) (Or.inr (Or.inr ⟨hlo, hhi⟩))]
          rw [hmerge.addr] at hlo
          exact heapFrontMergeSizeFit_frame hmerged hlo (by omega)
      | pass m₁ b₁ rest₁ _ hmerge hmerged _ hi₁ hlen hstep =>
        rw [hstep] at hrun
        obtain ⟨hbelow, hkept⟩ := ih hi₁ hlen hrun
        have hlast := hbelow b₁ (by simp)
        rw [hmerge.addr] at hlast
        refine ⟨fun c hc => hbelow c (List.mem_append_left _ hc), fun x hlo hhi => ?_⟩
        rw [hkept x hlo hhi]
        exact heapFrontMergeSizeFit_frame hmerged (by omega) (by omega)

/-- What `heap_alloc` hands out holds what was there before. -/
theorem heapAlloc_untouched {fuel : Nat} {bs : List Blk} (hi : HeapInv m base size bs)
    (hrun : heapAlloc fuel m base r = some (m', .ok a)) {x : Nat} (hlo : a ≤ x)
    (hhi : x < a + r) : m' x = m x := by
  by_cases hargs : base = 0 ∨ r = 0
  · rw [heapAlloc, if_pos hargs] at hrun
    cases hrun
  · have hmore := heapAlloc_mono m base r fuel (fuel + bs.length + 1) _ hrun (by omega)
    simp only [heapAlloc] at hmore
    rw [if_neg hargs, hi.startAddress_eq] at hmore
    exact (heapAllocLoop_untouched (show HeapInv m base size ([] ++ bs) from hi) (by omega)
      (by omega) hmore).2 x hlo hhi

end Untouched

/-! ## What the calls of `process_create` leave alone -/

/-- The record of the process is live, and its lock holds `w`. -/
structure Keeps (base size proc w : Nat) (m : Mem) (live : Live) : Prop where
  inv : Inv base size ⟨m, live⟩
  pcb : live proc = some sizeofPcb
  lock : load32 m (contractSpinlock proc) = w

section Parts

variable {m m' : Mem} {live : Live} {base size proc w fuel n a : Nat}

/-- A write to another live block. -/
theorem Keeps.write (h : Keeps base size proc w m live) {r : Nat} (ha : live a = some r)
    (hne : a ≠ proc) (hsame : ∀ x, x < a ∨ a + r ≤ x → m' x = m x) :
    Keeps base size proc w m' live where
  inv := by
    refine h.inv.write fun x _ _ hx => hsame x ?_
    by_contra hin
    exact hx ⟨a, r, ha, by omega, by omega⟩
  pcb := h.pcb
  lock := by
    have hapart := h.inv.apart ha h.pcb hne
    rw [← h.lock]
    refine load32_congr fun x hlo hhi => hsame x ?_
    simp only [contractSpinlock, sizeofPcb] at *
    omega

/-- A write to a field of the record that is not the lock. -/
theorem Keeps.field (h : Keeps base size proc w m live) (off : Nat)
    (hoff : off + 4 ≤ 56 ∨ 60 ≤ off ∧ off + 4 ≤ sizeofPcb) (v : Nat) :
    Keeps base size proc w (store32 m (proc + off) v) live where
  inv := by
    refine h.inv.write fun x _ _ hx => store32_frame _ _ ?_
    by_contra hin
    refine hx ⟨proc, sizeofPcb, h.pcb, ?_, ?_⟩ <;> simp only [sizeofPcb] at hoff ⊢ <;> omega
  pcb := h.pcb
  lock := by
    rw [← h.lock]
    refine load32_congr fun x hlo hhi => store32_frame _ _ ?_
    simp only [contractSpinlock] at hlo hhi
    omega

/-- A write outside of the heap. -/
theorem Keeps.outside (h : Keeps base size proc w m live)
    (hsame : ∀ x, base ≤ x → x < base + size → m' x = m x) :
    Keeps base size proc w m' live where
  inv := h.inv.write fun x hlo hhi _ => hsame x hlo hhi
  pcb := h.pcb
  lock := by
    have hin := h.inv.inside h.pcb
    rw [← h.lock]
    refine load32_congr fun x hlo hhi => hsame x ?_ ?_ <;>
      simp only [contractSpinlock, sizeofPcb] at * <;> omega

/-- A call of the heap that does not take the record back. -/
theorem Keeps.call (h : Keeps base size proc w m live) {c : Call} {res : Except HeapError Nat}
    (hallowed : c.Allowed live) (htarget : c.target ≠ some proc)
    (hrun : c.run fuel m base = some (m', res)) :
    Keeps base size proc w m' (c.track live res) where
  inv := (served_of_run h.inv hallowed hrun).inv
  pcb := (served_of_run h.inv hallowed hrun).tracked proc _ h.pcb htarget
  lock := by
    rw [← h.lock]
    refine load32_congr fun x hlo hhi => ?_
    refine (served_of_run h.inv hallowed hrun).kept proc _ h.pcb x ?_ ?_ <;>
      simp only [contractSpinlock, sizeofPcb] at * <;> omega

/-- What `malloc` and `realloc` give: nothing, or a live block of `n` bytes. -/
structure Given (base size proc w : Nat) (m m' : Mem) (a n : Nat) (live' : Live) : Prop where
  keeps : Keeps base size proc w m' live'
  record : ∀ x, proc ≤ x → x < proc + sizeofPcb → m' x = m x
  block : a ≠ 0 → live' a = some n ∧ a ≠ proc

/-- A live address is a word. -/
theorem Keeps.addr_lt (h : Keeps base size proc w m live) (ha : live a = some n) :
    a < 4294967296 := by
  obtain ⟨bs, hi, ht⟩ := h.inv
  obtain ⟨hpos, b, hb, _, rfl, _⟩ := ht.block a n ha
  have hbd := hi.bounds hb
  have htop := hi.top
  simp only [Blk.payload] at *
  omega

/-- A block of another size is not the record. -/
theorem Keeps.ne_of_size (h : Keeps base size proc w m live) (ha : live a = some n)
    (hn : n ≠ sizeofPcb) : a ≠ proc := by
  rintro rfl
  rw [h.pcb] at ha
  exact hn (Option.some.inj ha).symm

theorem Keeps.malloc (h : Keeps base size proc w m live) (hn : n ≠ sizeofPcb)
    (hrun : malloc fuel base m n = .ret (m', a)) :
    ∃ live', Given base size proc w m m' a n live' := by
  unfold ProcessCreate.malloc at hrun
  cases halloc : heapAlloc fuel m base n with
  | none => simp [halloc] at hrun
  | some res =>
    obtain ⟨m₁, res⟩ := res
    have hcall := h.call (c := .alloc n) trivial (by simp [Call.target]) halloc
    have hrecord := (served_of_run (c := .alloc n) h.inv trivial halloc).kept proc _ h.pcb
    cases res with
    | ok a₁ =>
      simp only [halloc, Outcome.ret.injEq, Prod.mk.injEq] at hrun
      obtain ⟨rfl, rfl⟩ := hrun
      have hlive : Call.track live (.alloc n) (.ok a₁) a₁ = some n := Function.update_self ..
      exact ⟨_, hcall, hrecord, fun _ => ⟨hlive, hcall.ne_of_size hlive hn⟩⟩
    | error e =>
      simp only [halloc, Outcome.ret.injEq, Prod.mk.injEq] at hrun
      obtain ⟨rfl, rfl⟩ := hrun
      exact ⟨_, hcall, hrecord, fun ha => absurd rfl ha⟩

theorem Keeps.realloc (h : Keeps base size proc w m live) {ptr r : Nat}
    (hptr : live ptr = some r) (hne : ptr ≠ proc) (hn : n ≠ sizeofPcb)
    (hrun : realloc fuel base m ptr n = .ret (m', a)) :
    ∃ live', Given base size proc w m m' a n live' := by
  unfold ProcessCreate.realloc at hrun
  cases hre : heapRealloc fuel m base ptr n with
  | none => simp [hre] at hrun
  | some res =>
    obtain ⟨m₁, res⟩ := res
    have hallowed : (Call.realloc ptr n).Allowed live := show live ptr ≠ none by simp [hptr]
    have hcall := h.call hallowed (by simpa [Call.target] using hne) hre
    have hrecord := (served_of_run h.inv hallowed hre).kept proc _ h.pcb
    cases res with
    | ok a₁ =>
      simp only [hre, Outcome.ret.injEq, Prod.mk.injEq] at hrun
      obtain ⟨rfl, rfl⟩ := hrun
      have hlive : Call.track live (.realloc ptr n) (.ok a₁) a₁ = some n := Function.update_self ..
      exact ⟨_, hcall, hrecord, fun _ => ⟨hlive, hcall.ne_of_size hlive hn⟩⟩
    | error e =>
      simp only [hre, Outcome.ret.injEq, Prod.mk.injEq] at hrun
      obtain ⟨rfl, rfl⟩ := hrun
      exact ⟨_, hcall, hrecord, fun ha => absurd rfl ha⟩

/-! ### The contract -/

theorem storeVmArea_frame {area : VmArea} {x : Nat} (hx : x < a ∨ a + sizeofVmArea ≤ x) :
    storeVmArea m a area x = m x := by
  simp only [sizeofVmArea] at hx
  simp only [storeVmArea]
  rw [store32_frame _ _ (by omega), store32_frame _ _ (by omega), store32_frame _ _ (by omega),
    store32_frame _ _ (by omega), store32_frame _ _ (by omega)]

/-- The shifted cells and the new one are among the first `i + 1`. -/
theorem insertShift_frame {data i : Nat} {area : VmArea} {x : Nat}
    (hx : x < data ∨ data + sizeofVmArea * (i + 1) ≤ x) : insertShift m data area i x = m x := by
  induction i generalizing m with
  | zero => exact storeVmArea_frame (by simpa using hx)
  | succ i ih =>
    simp only [sizeofVmArea] at hx ih
    simp only [insertShift, sizeofVmArea]
    split
    · rw [ih (by omega), blit_frame _ _ _ (by omega)]
    · exact storeVmArea_frame (by simp only [sizeofVmArea]; omega)

/-- The vector of the contract: `count` cells of `rSize` are in use. -/
structure HasVector (proc count rSize : Nat) (m : Mem) (live : Live) : Prop where
  used : load32 m (proc + 40) = count
  reserved : load32 m (proc + 44) = rSize
  block : live (load32 m (proc + 36)) = some (sizeofVmArea * rSize)
  ne : load32 m (proc + 36) ≠ proc
  le : count ≤ rSize
  pos : 0 < rSize

theorem load32_field {off k v : Nat} (h : k + 4 ≤ off ∨ off + 4 ≤ k) :
    load32 (store32 m (proc + off) v) (proc + k) = load32 m (proc + k) :=
  load32_congr fun x hlo hhi => store32_frame _ _ (by omega)

theorem Given.field {live' : Live} (h : Given base size proc w m m' a n live') {off : Nat}
    (hoff : off + 4 ≤ sizeofPcb) : load32 m' (proc + off) = load32 m (proc + off) :=
  load32_congr fun x hlo hhi => h.record x (by omega) (by simp only [sizeofPcb] at *; omega)

/-- The block that was given, in the field of the vector. -/
theorem Given.data {live' : Live} (h : Given base size proc w m m' a n live') (ha : a ≠ 0) :
    load32 (store32 m' (proc + 36) a) (proc + 36) = a := by
  rw [load32_store32, Nat.mod_eq_of_lt (h.keeps.addr_lt (h.block ha).1)]

theorem Given.hasVector {live' : Live} {count rSize : Nat} {m₂ : Mem}
    (h : Given base size proc w m m' a (sizeofVmArea * rSize) live') (ha : a ≠ 0)
    (hdata : load32 m₂ (proc + 36) = a) (hused : load32 m₂ (proc + 40) = count)
    (hreserved : load32 m₂ (proc + 44) = rSize) (hle : count ≤ rSize) (hpos : 0 < rSize) :
    HasVector proc count rSize m₂ live' := by
  obtain ⟨hlive, hne⟩ := h.block ha
  exact ⟨hused, hreserved, by rwa [hdata], by rwa [hdata], hle, hpos⟩

theorem Keeps.orderedVectorInit (h : Keeps base size proc w m live) {e : ErrorT}
    (hrun : orderedVectorInit fuel base m (proc + 36) = .ret (m', e)) :
    ∃ live', Keeps base size proc w m' live' ∧ (e = .ok → HasVector proc 0 1 m' live') := by
  obtain ⟨⟨m₁, a⟩, hmalloc, hrest⟩ := Outcome.bind_eq_ret.mp hrun
  dsimp only at hrest
  have h₁ := (h.field 40 (by decide) 0).field 44 (by decide) 1
  obtain ⟨live', hgiven⟩ := h₁.malloc (by decide) hmalloc
  have hkeeps := hgiven.keeps.field 36 (by decide) a
  by_cases ha : a = 0
  · rw [if_pos ha] at hrest
    cases hrest
    exact ⟨live', hkeeps, nofun⟩
  · rw [if_neg ha] at hrest
    cases hrest
    refine ⟨live', hkeeps, fun _ =>
      Given.hasVector hgiven ha (hgiven.data ha) ?_ ?_ (by decide) (by decide)⟩
    · rw [load32_field (by decide), hgiven.field (by decide), load32_field (by decide),
        load32_store32]
    · rw [load32_field (by decide), hgiven.field (by decide), load32_store32]

/-- A larger block for the vector. -/
theorem Keeps.orderedVectorReserve (h : Keeps base size proc w m live) {e : ErrorT}
    {count rSize : Nat} (hv : HasVector proc count rSize m live) (hn : count ≤ n) (hpos : 0 < n)
    (hfit : 20 * n < 4294967296)
    (hrun : orderedVectorReserve fuel base m (proc + 36) n = .ret (m', e)) :
    ∃ live', Keeps base size proc w m' live' ∧ HasVector proc count n m' live' := by
  obtain ⟨⟨m₁, a⟩, hrealloc, hrest⟩ := Outcome.bind_eq_ret.mp hrun
  dsimp only at hrest
  have hsize : mul32 n sizeofVmArea = sizeofVmArea * n := by
    rw [mul32_eq (by simp only [sizeofVmArea]; omega), Nat.mul_comm]
  have hother : sizeofVmArea * n ≠ sizeofPcb := by
    simp only [sizeofVmArea, sizeofPcb]
    omega
  rw [hsize] at hrealloc
  obtain ⟨live', hgiven⟩ := h.realloc hv.block hv.ne hother hrealloc
  have hkeeps := hgiven.keeps.field 36 (by decide) a
  by_cases ha : a = 0
  · rw [if_pos ha] at hrest
    cases hrest
  · rw [if_neg ha] at hrest
    cases hrest
    rw [show proc + 36 + 8 = proc + 44 from rfl]
    refine ⟨live', hkeeps.field 44 (by decide) n, hgiven.hasVector ha ?_ ?_ ?_ hn hpos⟩
    · rw [load32_field (by decide), hgiven.data ha]
    · rw [load32_field (by decide), load32_field (by decide), hgiven.field (by decide), hv.used]
    · rw [load32_store32, Nat.mod_eq_of_lt (by omega)]

/-- The new element, in the block of the vector. -/
theorem Keeps.orderedVectorPut (h : Keeps base size proc w m live) {count rSize : Nat}
    (hv : HasVector proc count rSize m live) (hroom : count + 1 ≤ rSize)
    (hfit : rSize < 4294967296) (area : VmArea) :
    Keeps base size proc w (orderedVectorPut m (proc + 36) area) live ∧
      HasVector proc (count + 1) rSize (orderedVectorPut m (proc + 36) area) live := by
  obtain ⟨m₁, hm₁⟩ : ∃ m₁, insertShift m (load32 m (proc + 36)) area count = m₁ := ⟨_, rfl⟩
  have hput : ProcessCreate.orderedVectorPut m (proc + 36) area =
      store32 m₁ (proc + 40) (add32 (load32 m₁ (proc + 40)) 1) := by
    have hused : load32 m (proc + 36 + 4) = count := hv.used
    simp only [ProcessCreate.orderedVectorPut, hused, hm₁]
  have hframe : ∀ x, x < load32 m (proc + 36) ∨ load32 m (proc + 36) + sizeofVmArea * rSize ≤ x →
      m₁ x = m x := by
    intro x hx
    rw [← hm₁]
    refine insertShift_frame ?_
    simp only [sizeofVmArea] at *
    omega
  have hkeeps := h.write hv.block hv.ne hframe
  have hapart := h.inv.apart hv.block h.pcb hv.ne
  have hfield : ∀ off, off + 4 ≤ 72 → load32 m₁ (proc + off) = load32 m (proc + off) := by
    intro off hoff
    refine load32_congr fun x hlo hhi => hframe x ?_
    simp only [sizeofPcb, sizeofVmArea] at *
    omega
  rw [hput]
  refine ⟨hkeeps.field 40 (by decide) _, ?_, ?_, ?_, ?_, hroom, hv.pos⟩
  · rw [load32_store32, hfield 40 (by decide), hv.used, add32_eq (by omega)]
    exact Nat.mod_eq_of_lt (by omega)
  · rw [load32_field (by decide), hfield 44 (by decide), hv.reserved]
  · rw [load32_field (by decide), hfield 36 (by decide), hv.block]
  · rw [load32_field (by decide), hfield 36 (by decide)]
    exact hv.ne

theorem Keeps.orderedVectorInsert (h : Keeps base size proc w m live) {e : ErrorT}
    {count rSize : Nat} {area : VmArea} (hv : HasVector proc count rSize m live)
    (hfit : 40 * rSize < 4294967296)
    (hrun : orderedVectorInsert fuel base m (proc + 36) area = .ret (m', e)) :
    ∃ live', Keeps base size proc w m' live' ∧
      (e = .ok → ∃ rSize', rSize' ≤ 2 * rSize ∧ HasVector proc (count + 1) rSize' m' live') := by
  have hle := hv.le
  have hpos := hv.pos
  have hused : load32 m (proc + 36 + 4) = count := hv.used
  have hreserved : load32 m (proc + 36 + 8) = rSize := hv.reserved
  unfold ProcessCreate.orderedVectorInsert at hrun
  rw [hused, hreserved] at hrun
  by_cases hfull : count = rSize
  · -- the block is exchanged for one of twice the size
    rw [if_pos hfull, mul32_eq (by omega)] at hrun
    obtain ⟨⟨m₁, e₁⟩, hgrow, hrest⟩ := Outcome.bind_eq_ret.mp hrun
    obtain ⟨live₁, h₁, hv₁⟩ := h.orderedVectorReserve hv (by omega) (by omega) (by omega) hgrow
    cases e₁ with
    | occur =>
      cases hrest
      exact ⟨live₁, h₁, nofun⟩
    | ok =>
      cases hrest
      obtain ⟨h₂, hv₂⟩ := h₁.orderedVectorPut hv₁ (by omega) (by omega) area
      exact ⟨live₁, h₂, fun _ => ⟨2 * count, by omega, hv₂⟩⟩
  · rw [if_neg hfull] at hrun
    cases hrun
    obtain ⟨h₂, hv₂⟩ := h.orderedVectorPut hv (by omega) (by omega) area
    exact ⟨live, h₂, fun _ => ⟨rSize, by omega, hv₂⟩⟩

/-! ### The record -/

theorem Keeps.vmContractInit (h : Keeps base size proc w m live) {low high : Nat} {raw : VmArea}
    {e : ErrorT} (hrun : vmContractInit fuel base m (proc + 36) low high raw = .ret (m', e)) :
    ∃ live', Keeps base size proc w m' live' := by
  unfold ProcessCreate.vmContractInit at hrun
  by_cases hargs : high % pageSize ≠ 0 ∨ low % pageSize ≠ 0 ∨ low ≥ high
  · rw [if_pos hargs] at hrun
    cases hrun
    exact ⟨live, h⟩
  rw [if_neg hargs] at hrun
  have h₁ := (h.field 52 (by decide) high).field 48 (by decide) low
  obtain ⟨⟨m₂, e₂⟩, hinit, hrest⟩ := Outcome.bind_eq_ret.mp hrun
  obtain ⟨live₂, h₂, hv₂⟩ := h₁.orderedVectorInit hinit
  cases e₂ with
  | occur =>
    cases hrest
    exact ⟨live₂, h₂⟩
  | ok =>
    obtain ⟨⟨m₃, e₃⟩, hfirst, hrest⟩ := Outcome.bind_eq_ret.mp hrest
    obtain ⟨live₃, h₃, hv₃⟩ := h₂.orderedVectorInsert (hv₂ rfl) (by decide) hfirst
    cases e₃ with
    | occur =>
      cases hrest
      exact ⟨live₃, h₃⟩
    | ok =>
      obtain ⟨rSize, hsmall, hv⟩ := hv₃ rfl
      obtain ⟨live₄, h₄, _⟩ := h₃.orderedVectorInsert hv (by omega) hrest
      exact ⟨live₄, h₄⟩

theorem Keeps.initLocalFileTable (h : Keeps base size proc w m live) {e : ErrorT}
    (hrun : initLocalFileTable fuel base m (proc + 20) 10 = .ret (m', e)) :
    ∃ live', Keeps base size proc w m' live' := by
  have hbytes : mul32 10 sizeofLfe = 80 := by decide
  simp only [ProcessCreate.initLocalFileTable, Nat.reduceEqDiff, if_false, hbytes] at hrun
  have h₁ := (h.field 24 (by decide) 0).field 28 (by decide) 10
  obtain ⟨⟨m₂, a⟩, hmalloc, hrest⟩ := Outcome.bind_eq_ret.mp hrun
  obtain ⟨live', hgiven⟩ := h₁.malloc (by decide) hmalloc
  have hkeeps := hgiven.keeps.field 20 (by decide) a
  by_cases ha : a = 0
  · rw [if_pos ha] at hrest
    cases hrest
    exact ⟨live', hkeeps⟩
  · rw [if_neg ha] at hrest
    cases hrest
    exact ⟨live', hkeeps.field 32 (by decide) 0⟩

theorem Keeps.queueInit (h : Keeps base size proc w m live) :
    Keeps base size proc w (queueInit m (proc + 60)) live :=
  ((h.field 68 (by decide) 0).field 64 (by decide) 0).field 60 (by decide) 0

theorem pmmngrAllocBlock_lt (phys : PhysState) : (pmmngrAllocBlock phys).2 < 4294967296 := by
  have hzero : 0 < 4294967296 := by decide
  unfold pmmngrAllocBlock
  split
  · exact hzero
  · dsimp only
    split
    · exact hzero
    · exact mul32_lt _ _

/-- The frame of a new page directory is not part of the heap. -/
def FrameApart (base size : Nat) (phys : PhysState) : Prop :=
  (pmmngrAllocBlock phys).2 + sizeofPdirectory ≤ base ∨ base + size ≤ (pmmngrAllocBlock phys).2

theorem Keeps.setPageDirectory (h : Keeps base size proc w m live) {phys : PhysState}
    {pdir : Nat} (kernelDirectory : Nat) (hframe : pdir = 0 → FrameApart base size phys) :
    Keeps base size proc w (setPageDirectory m phys kernelDirectory proc pdir).1 live := by
  unfold ProcessCreate.setPageDirectory
  by_cases hpdir : pdir = 0
  · rw [if_pos hpdir]
    have hlt := pmmngrAllocBlock_lt phys
    have hapart := hframe hpdir
    simp only [FrameApart, sizeofPdirectory] at hapart
    obtain ⟨dir, hdir⟩ : ∃ dir, (pmmngrAllocBlock phys).2 = dir := ⟨_, rfl⟩
    rw [hdir] at hlt hapart
    by_cases hnone : dir = 0
    · -- no frame: the directory is null
      simp only [vmmngrCreateAddressSpace, hdir, hnone, if_true, vmmngrMapKernelSpace,
        load32_store32, Nat.zero_mod]
      exact h.field 0 (by decide) 0
    · simp only [vmmngrCreateAddressSpace, hdir, if_neg hnone, vmmngrMapKernelSpace,
        load32_store32, Nat.mod_eq_of_lt hlt]
      have hfill : Keeps base size proc w (fill m dir sizeofPdirectory 0) live :=
        h.outside fun x hlo hhi => fill_frame _ _ (by simp only [sizeofPdirectory]; omega)
      refine (hfill.field 0 (by decide) dir).outside fun x hlo hhi => ?_
      exact blit_frame _ _ _ (by simp only [sizeofPdirectory]; omega)
  · rw [if_neg hpdir]
    exact h.field 0 (by decide) pdir

end Parts

/-! ## A new process is unlocked -/

/-- The lock of the process is free: the first `vfs_mmap_p` takes it at once, and the first page
fault finds its area. -/
structure StartsUnlocked (m : Mem) (proc : Nat) : Prop where
  zero : load32 m (contractSpinlock proc) = 0
  acquires : spinlockAcquire (load32 m (contractSpinlock proc)) = .ret 1
  faults : ∀ (c : VmContract) addr index area, vmContractFindArea c addr = .ret (.ok index) →
    c.contract.data[index]? = some area →
      pageFaultArea ⟨c, load32 m (contractSpinlock proc)⟩ addr = .ret (⟨c, 0⟩, area)

theorem startsUnlocked_of_zero {m : Mem} {proc : Nat}
    (h : load32 m (contractSpinlock proc) = 0) : StartsUnlocked m proc where
  zero := h
  acquires := by
    rw [h]
    rfl
  faults c addr index area hfind harea := by
    rw [h, pageFaultArea, if_neg Nat.zero_ne_one, spinlockAcquire, if_neg Nat.zero_ne_one,
      Outcome.ret_bind, hfind, Outcome.ret_bind]
    simp only [harea]
    rfl

section Law

variable {base size fuel kernelDirectory parent pdir low high proc : Nat} {raw : VmArea}
  {k k' : Kernel} {live : Live}

/-- The block that `malloc` hands out is live, and holds what was there before. -/
theorem keeps_of_malloc {m m' : Mem} (hinv : Inv base size ⟨m, live⟩)
    (hrun : malloc fuel base m sizeofPcb = .ret (m', proc)) (hne : proc ≠ 0) :
    ∃ live', Keeps base size proc (load32 m (contractSpinlock proc)) m' live' := by
  unfold malloc at hrun
  cases halloc : heapAlloc fuel m base sizeofPcb with
  | none => simp [halloc] at hrun
  | some res =>
    obtain ⟨m₁, res⟩ := res
    cases res with
    | error e =>
      simp only [halloc, Outcome.ret.injEq, Prod.mk.injEq] at hrun
      exact absurd hrun.2.symm hne
    | ok a =>
      simp only [halloc, Outcome.ret.injEq, Prod.mk.injEq] at hrun
      obtain ⟨rfl, rfl⟩ := hrun
      have hserved := served_of_run (c := .alloc sizeofPcb) hinv trivial halloc
      refine ⟨_, hserved.inv, Function.update_self .., ?_⟩
      obtain ⟨bs, hi, _⟩ := hinv
      refine load32_congr fun x hlo hhi => heapAlloc_untouched hi halloc ?_ ?_ <;>
        simp only [contractSpinlock, sizeofPcb] at * <;> omega

/-- No part of `process_create` writes the lock. -/
theorem processCreate_lock (hinv : Inv base size ⟨k.mem, live⟩)
    (hframe : pdir = 0 → FrameApart base size k.phys)
    (hrun : processCreate fuel base kernelDirectory raw k parent pdir low high = .ret (k', proc)) :
    (∃ m₁, malloc fuel base k.mem sizeofPcb = .ret (m₁, proc)) ∧
      load32 k'.mem (contractSpinlock proc) = load32 k.mem (contractSpinlock proc) := by
  obtain ⟨⟨m₁, p⟩, hmalloc, hrest⟩ := Outcome.bind_eq_ret.mp hrun
  dsimp only at hrest
  by_cases hnull : p = 0
  · rw [if_pos hnull] at hrest
    cases hrest
  rw [if_neg hnull] at hrest
  obtain ⟨live₁, h₁⟩ := keeps_of_malloc hinv hmalloc hnull
  have h₂ := ((h₁.field 8 (by decide) (add32 k.lastID 1)).field 4 (by decide) parent)
    |>.setPageDirectory kernelDirectory hframe
  cases hdir : setPageDirectory (store32 (store32 m₁ (p + 8) (add32 k.lastID 1)) (p + 4) parent)
      k.phys kernelDirectory p pdir with
  | mk m₂ phys₂ =>
    rw [hdir] at hrest h₂
    obtain ⟨⟨m₃, e₃⟩, hcontract, hrest⟩ := Outcome.bind_eq_ret.mp hrest
    obtain ⟨live₃, h₃⟩ := h₂.queueInit.vmContractInit hcontract
    obtain ⟨⟨m₄, e₄⟩, hlft, hrest⟩ := Outcome.bind_eq_ret.mp hrest
    obtain ⟨live₄, h₄⟩ := h₃.initLocalFileTable hlft
    cases hrest
    exact ⟨⟨m₁, hmalloc⟩, h₄.lock⟩

/-- A new process is unlocked if and only if the heap held zero at the place of its lock. -/
theorem processCreate_unlocked_iff (hroom : 20 ≤ size) (htop : base + size ≤ 4294967296)
    (hreach : (system base size).Reachable ⟨k.mem, live⟩)
    (hframe : pdir = 0 → FrameApart base size k.phys)
    (hrun : processCreate fuel base kernelDirectory raw k parent pdir low high = .ret (k', proc)) :
    (∃ m₁, malloc fuel base k.mem sizeofPcb = .ret (m₁, proc)) ∧
      (StartsUnlocked k'.mem proc ↔ load32 k.mem (contractSpinlock proc) = 0) := by
  obtain ⟨hmalloc, hlock⟩ :=
    processCreate_lock ((inv_inductive hroom htop).holds hreach) hframe hrun
  rw [← hlock]
  exact ⟨hmalloc, fun h => h.zero, startsUnlocked_of_zero⟩

end Law

/-- The heap of `s`, and a physical memory manager without blocks. -/
def kernelOf (s : State) : Kernel := ⟨s.mem, ⟨0, 0, 0, fun _ => 0⟩, 0⟩

/-- A new heap in a memory of zeros. -/
def clearHeap : State := ⟨heapCreate (fun _ => 0) 4096 1000, fun _ => none⟩

theorem clearHeap_reachable : (system 4096 1000).Reachable clearHeap := .init ⟨fun _ => 0, rfl⟩

theorem processCreate_unlocked_iff_clear :
    ∃ k' proc, processCreate 20 4096 0x9000 ⟨0, 0, 0, 0, 0⟩ (kernelOf clearHeap) 0 0x9000 0x1000
        0xC0000000 = .ret (k', proc) ∧
      (∃ m₁, malloc 20 4096 clearHeap.mem sizeofPcb = .ret (m₁, proc)) ∧
        (StartsUnlocked k'.mem proc ↔ load32 clearHeap.mem (contractSpinlock proc) = 0) := by
  obtain ⟨⟨k', proc⟩, hrun, -⟩ := Outcome.exists_of_test
    (x := processCreate 20 4096 0x9000 ⟨0, 0, 0, 0, 0⟩ (kernelOf clearHeap) 0 0x9000 0x1000
      0xC0000000) (p := fun _ => true) (by decide +kernel)
  have hpdir : ¬ 0x9000 = 0 := by decide
  exact ⟨k', proc, hrun, processCreate_unlocked_iff (by decide) (by decide) clearHeap_reachable
    (fun h => absurd h hpdir) hrun⟩

/-- A block of the size of a record has been handed out. -/
def heldHeap : State := clearHeap.after 4096 20 (.alloc sizeofPcb)

/-- Its owner has written 1 to the word that is the lock of a record, and has freed it. -/
def usedHeap : State :=
  State.after 4096 20 ⟨store32 heldHeap.mem (contractSpinlock 4116) 1, heldHeap.live⟩ (.free 4116)

theorem usedHeap_reachable : (system 4096 1000).Reachable usedHeap := by
  have hheld : (system 4096 1000).Reachable heldHeap :=
    State.after_reachable clearHeap_reachable 20 trivial
  have hlive : heldHeap.live 4116 = some sizeofPcb := by decide +kernel
  have hwrite : (system 4096 1000).Reachable
      ⟨store32 heldHeap.mem (contractSpinlock 4116) 1, heldHeap.live⟩ := by
    refine .next hheld (Step.write _ fun x _ _ hx => store32_frame _ _ ?_)
    by_contra hin
    refine hx ⟨4116, sizeofPcb, hlive, ?_, ?_⟩ <;> simp only [contractSpinlock, sizeofPcb] at * <;>
      omega
  refine State.after_reachable hwrite 20 ?_
  show heldHeap.live 4116 ≠ none
  rw [hlive]
  nofun

/-- In the used heap a new process starts with its lock taken: it would wait for ever, and its
first page fault is a `PANIC`. -/
theorem processCreate_locked :
    (system 4096 1000).Reachable usedHeap ∧ ∃ k' proc,
      processCreate 20 4096 0x9000 ⟨0, 0, 0, 0, 0⟩ (kernelOf usedHeap) 0 0x9000 0x1000 0xC0000000 =
          .ret (k', proc) ∧
        ¬ StartsUnlocked k'.mem proc ∧
        spinlockAcquire (load32 k'.mem (contractSpinlock proc)) = .running ∧
        ∀ c addr, pageFaultArea ⟨c, load32 k'.mem (contractSpinlock proc)⟩ addr = .panic := by
  refine ⟨usedHeap_reachable, ?_⟩
  obtain ⟨⟨k', proc⟩, hrun, hlock⟩ := Outcome.exists_of_test
    (x := processCreate 20 4096 0x9000 ⟨0, 0, 0, 0, 0⟩ (kernelOf usedHeap) 0 0x9000 0x1000
      0xC0000000) (p := fun r => load32 r.1.mem (contractSpinlock r.2) == 1) (by decide +kernel)
  have hone : load32 k'.mem (contractSpinlock proc) = 1 := eq_of_beq hlock
  refine ⟨k', proc, hrun, fun h => ?_, ?_, fun c addr => ?_⟩
  · rw [h.zero] at hone
    cases hone
  · rw [hone]
    rfl
  · rw [hone]
    rfl

end MeOS.ProcessCreate
