import MeOS.HeapChain

/-! # What each heap function does to the chain

Every function changes the block list in one place: a run of blocks `old`
covering `[a, z)` is replaced by a run `new` covering the same range, and no
byte outside that range changes except the block counter. `HeapInv.replace`
and `Frame.of_region` say once what follows from that; the functions are then
described one by one, loops by induction on the blocks still to visit.
-/

namespace MeOS.Heap

open Bytes Extents

section Replace

variable {m m' : Mem} {base size a z : Nat} {pre old new post : List Blk}

/-- A link is a 32-bit value. -/
theorem link_lt {stop z : Nat} (hz : z ≤ stop) (htop : stop ≤ 4294967296) :
    link stop z < 4294967296 := by
  unfold link
  split <;> omega

/-- A tiling by blocks leaves room for the headers. -/
theorem tiles_length {bs : List Blk} (h : Tiles Blk.addr Blk.fin a bs z) :
    a + 8 * bs.length ≤ z := by
  induction bs generalizing a with
  | nil =>
    have haz : a = z := h
    simp [haz]
  | cons b bs ih =>
    obtain ⟨haddr, _, htail⟩ := h
    have hrest := ih htail
    simp only [Blk.fin, List.length_cons] at hrest ⊢
    omega

/-- The parts of the tiling around a run of blocks. -/
theorem HeapInv.split_run (hi : HeapInv m base size (pre ++ old ++ post))
    (hold : Tiles Blk.addr Blk.fin a old z) (hne : old ≠ []) :
    Tiles Blk.addr Blk.fin (base + 12) pre a ∧ Tiles Blk.addr Blk.fin z post (base + size) := by
  obtain ⟨y, hpo, hpost⟩ := tiles_append.mp hi.tiles
  obtain ⟨x, hpre, hmid⟩ := tiles_append.mp hpo
  have hx : x = a := by
    cases old with
    | nil => exact absurd rfl hne
    | cons b bs => exact hmid.1.symm.trans hold.1
  subst hx
  exact ⟨hpre, hmid.end_eq hold ▸ hpost⟩

/-- Replacing a run of blocks by another one over the same range keeps the
invariant, when nothing outside the range and the counter is written. -/
theorem HeapInv.replace (hi : HeapInv m base size (pre ++ old ++ post))
    (hold : Tiles Blk.addr Blk.fin a old z) (hne : old ≠ [])
    (hnew : Tiles Blk.addr Blk.fin a new z)
    (hsame : ∀ x, (x < base + 8 ∨ base + 12 ≤ x) → (x < a ∨ z ≤ x) → m' x = m x)
    (hheaders : ∀ b ∈ new, HeaderAt m' (base + size) b)
    (hcount : currentBlocks m' base = (pre ++ new ++ post).length) :
    HeapInv m' base size (pre ++ new ++ post) := by
  obtain ⟨hpre, hpost⟩ := hi.split_run hold hne
  have ha := hpre.le
  have hz := hpost.le
  have haz := hold.le
  have hrec : ∀ x, base ≤ x → x < base + 8 → m' x = m x := fun x h₁ h₂ =>
    hsame x (by omega) (by omega)
  refine
    { room := hi.room, top := hi.top, start := ?_, sizeEq := ?_, count := hcount,
      tiles := tiles_append.mpr ⟨z, tiles_append.mpr ⟨a, hpre, hnew⟩, hpost⟩,
      headers := ?_ }
  · exact (load32_congr fun x h₁ h₂ => hrec x h₁ (by omega)).trans hi.start
  · exact (load32_congr fun x h₁ h₂ => hrec x (by omega) (by omega)).trans hi.sizeEq
  · intro b hb
    rcases List.mem_append.mp hb with hb | hb
    · rcases List.mem_append.mp hb with hb | hb
      · have hbd := hpre.mem_bounds hb
        simp only [Blk.fin] at hbd
        exact (hi.headers b (by simp [hb])).frame fun x h₁ h₂ =>
          hsame x (by omega) (by omega)
      · exact hheaders b hb
    · have hbd := hpost.mem_bounds hb
      simp only [Blk.fin] at hbd
      exact (hi.headers b (by simp [hb])).frame fun x h₁ h₂ => hsame x (by omega) (by omega)

/-- The frame of such a replacement: used blocks outside the run keep their
payload; those of the run have to be looked at. -/
theorem Frame.of_region (hi : HeapInv m base size (pre ++ old ++ post))
    (hold : Tiles Blk.addr Blk.fin a old z) (hne : old ≠ [])
    (hsame : ∀ x, (x < base + 8 ∨ base + 12 ≤ x) → (x < a ∨ z ≤ x) → m' x = m x)
    (hrun : ∀ b ∈ old, b.used = true → ∀ x, b.payload ≤ x → x < b.fin → m' x = m x) :
    Frame m m' base size (pre ++ old ++ post) := by
  obtain ⟨hpre, hpost⟩ := hi.split_run hold hne
  have ha := hpre.le
  have hz := hpost.le
  have hroom := hi.room
  have haz := hold.le
  constructor
  · intro b hb hu x h₁ h₂
    rcases List.mem_append.mp hb with hb | hb
    · rcases List.mem_append.mp hb with hb | hb
      · have hbd := hpre.mem_bounds hb
        simp only [Blk.fin, Blk.payload] at hbd h₁ h₂
        exact hsame x (by omega) (by omega)
      · exact hrun b hb hu x h₁ h₂
    · have hbd := hpost.mem_bounds hb
      simp only [Blk.fin, Blk.payload] at hbd h₁ h₂
      exact hsame x (by omega) (by omega)
  · intro x hx
    exact hsame x (by omega) (by omega)

end Replace

/-! ## Merging -/

/-- The block that takes over the space of its successor `c`. -/
def absorb (b c : Blk) : Blk := { b with size := b.size + 8 + c.size }

@[simp] theorem absorb_addr (b c : Blk) : (absorb b c).addr = b.addr := rfl

@[simp] theorem absorb_used (b c : Blk) : (absorb b c).used = b.used := rfl

@[simp] theorem absorb_size (b c : Blk) : (absorb b c).size = b.size + 8 + c.size := rfl

section Merge

variable {m : Mem} {base size : Nat} {pre post : List Blk} {b c : Blk}

/-- Two neighbouring blocks tile their common range. -/
theorem HeapInv.pair_tiles (hi : HeapInv m base size (pre ++ b :: c :: post)) :
    Tiles Blk.addr Blk.fin b.addr [b, c] c.fin := by
  have hc := hi.split.2.1
  have hle : b.fin ≤ c.fin := by
    simp only [Blk.fin] at hc ⊢
    omega
  refine ⟨rfl, ?_, hc, hle, rfl⟩
  simp only [Blk.fin]
  omega

/-- `heap_front_merge_block` writes the link of `b` and the counter. -/
theorem heapFrontMergeBlock_frame {x : Nat} (hx : x < b.addr + 4 ∨ b.addr + 8 ≤ x)
    (hc : x < base + 8 ∨ base + 12 ≤ x) : heapFrontMergeBlock m base b.addr x = m x := by
  simp only [heapFrontMergeBlock]
  rw [setCurrentBlocks_frame _ _ _ hc, setNext_frame _ _ _ hx]

/-- Merging a block with its successor. -/
theorem HeapInv.merge (hi : HeapInv m base size (pre ++ b :: c :: post)) :
    HeapInv (heapFrontMergeBlock m base b.addr) base size (pre ++ absorb b c :: post) := by
  have hi' : HeapInv m base size (pre ++ [b, c] ++ post) := by simpa using hi
  have hbd := hi.bounds (b := b) (by simp)
  have hcd := hi.bounds (b := c) (by simp)
  have hlen := tiles_length hi.tiles
  have htop := hi.top
  have hpair := hi.pair_tiles
  have hbc := hpair.2.2.1
  simp only [Blk.fin] at hbc
  -- the new link of `b` is the old link of `c`
  have hnext : blockNext m (blockNext m b.addr) = link (base + size) c.fin := by
    rw [hi.next]
    exact (hi.headers c (by simp)).next
  have hlink : link (base + size) c.fin < 4294967296 :=
    link_lt (by simp only [Blk.fin]; omega) hi.top
  have hb := hi.headers b (by simp)
  have hres : HeapInv (heapFrontMergeBlock m base b.addr) base size
      (pre ++ [absorb b c] ++ post) := by
    refine hi'.replace hpair (by simp) ⟨rfl, ?_, ?_⟩ ?_ ?_ ?_
    · simp only [Blk.fin, absorb_addr, absorb_size]
      omega
    · simp only [Tiles, Blk.fin, absorb_addr, absorb_size]
      omega
    · intro x hx hr
      simp only [Blk.fin] at hr
      exact heapFrontMergeBlock_frame (by omega) hx
    · intro d hd
      obtain rfl := List.mem_singleton.mp hd
      -- magic and state of `b` are untouched, its link is the new one
      refine ⟨?_, ?_, ?_⟩
      · refine (load16_congr fun x h₁ h₂ => ?_).trans hb.magic
        exact heapFrontMergeBlock_frame (by simp at h₁ h₂; omega) (by simp at h₁ h₂; omega)
      · have hbyte : heapFrontMergeBlock m base b.addr (b.addr + 2) = m (b.addr + 2) :=
          heapFrontMergeBlock_frame (by omega) (by omega)
        simp only [blockUsed, absorb_addr, absorb_used, hbyte]
        exact hb.used
      · have hcell : blockNext (heapFrontMergeBlock m base b.addr) b.addr =
            blockNext (setNext m b.addr (link (base + size) c.fin)) b.addr := by
          simp only [heapFrontMergeBlock, hnext]
          exact load32_congr fun x h₁ h₂ => setCurrentBlocks_frame _ _ _ (by omega)
        rw [absorb_addr, hcell, blockNext_setNext, Nat.mod_eq_of_lt hlink]
        simp only [Blk.fin, absorb_addr, absorb_size]
        congr 1
        omega
    · have hcell : currentBlocks (setNext m b.addr (blockNext m (blockNext m b.addr))) base =
          currentBlocks m base :=
        load32_congr fun x h₁ h₂ => setNext_frame _ _ _ (by omega)
      simp only [heapFrontMergeBlock, currentBlocks_setCurrentBlocks, hcell, hi.count, sub32]
      simp only [List.length_append, List.length_cons, List.length_nil] at hlen ⊢
      omega
  simpa using hres

/-- Merging changes no payload byte. -/
theorem HeapInv.merge_frame (hi : HeapInv m base size (pre ++ b :: c :: post)) :
    Frame m (heapFrontMergeBlock m base b.addr) base size (pre ++ b :: c :: post) := by
  have hi' : HeapInv m base size (pre ++ [b, c] ++ post) := by simpa using hi
  have hpair := hi.pair_tiles
  have hbd := hi.bounds (b := b) (by simp)
  have hbc := hpair.2.2.1
  simp only [Blk.fin] at hbc
  have hres : Frame m (heapFrontMergeBlock m base b.addr) base size (pre ++ [b, c] ++ post) := by
    refine Frame.of_region hi' hpair (by simp) ?_ ?_
    · intro x hx hr
      simp only [Blk.fin] at hr
      exact heapFrontMergeBlock_frame (by omega) hx
    · intro d hd _ x h₁ h₂
      simp only [Blk.payload, Blk.fin] at h₁ h₂
      have hd' : d = b ∨ d = c := by simpa using hd
      refine heapFrontMergeBlock_frame ?_ ?_ <;> rcases hd' with rfl | rfl <;> omega
  simpa using hres

/-- Merging unused blocks keeps the used ones. -/
theorem sameUsed_merge (hb : b.used = false) (hc : c.used = false) :
    SameUsed (pre ++ b :: c :: post) (pre ++ absorb b c :: post) := by
  intro d hd
  have hdb : d ≠ b := by
    rintro rfl
    simp [hb] at hd
  have hdc : d ≠ c := by
    rintro rfl
    simp [hc] at hd
  have hda : d ≠ absorb b c := by
    rintro rfl
    simp [hb] at hd
  simp [hdb, hdc, hda]

/-- `heap_is_next_unused` says that there is a next block and it is unused. -/
theorem HeapInv.isNextUnused (hi : HeapInv m base size (pre ++ b :: post)) :
    heapIsNextUnused m b.addr = match post with
      | [] => false
      | c :: _ => !c.used := by
  have hnext := hi.next
  cases post with
  | nil => simp [heapIsNextUnused, hnext, headAddr]
  | cons c cs =>
    have hc := hi.bounds (b := c) (by simp)
    have hu := (hi.headers c (by simp)).used
    have hpos : c.addr ≠ 0 := by omega
    simp [heapIsNextUnused, hnext, headAddr, hu, hpos]

end Merge

/-- What merging forward from `b` until `r` fits leads to. -/
structure MergeRun (m m' : Mem) (base size r : Nat) (pre : List Blk) (b : Blk)
    (post : List Blk) (b' : Blk) (rest : List Blk) : Prop where
  inv : HeapInv m' base size (pre ++ b' :: rest)
  frame : Frame m m' base size (pre ++ b :: post)
  same : SameUsed (pre ++ b :: post) (pre ++ b' :: rest)
  addr : b'.addr = b.addr
  unused : b'.used = false
  absorbed : ∃ cs, post = cs ++ rest ∧ (∀ c ∈ cs, c.used = false) ∧ b' = cs.foldl absorb b
  stop : r ≤ b'.size ∨ ∀ c ∈ rest.head?, c.used = true

/-- `heap_front_merge_size_fit` ends, and says whether the merged block holds
`r` bytes. -/
theorem heapFrontMergeSizeFit_spec {m : Mem} {base size r : Nat} {pre post : List Blk} {b : Blk}
    {fuel : Nat} (hi : HeapInv m base size (pre ++ b :: post)) (hb : b.used = false)
    (hfuel : post.length < fuel) :
    ∃ m' b' rest, heapFrontMergeSizeFit fuel m base b.addr r = some (m', decide (r ≤ b'.size)) ∧
      MergeRun m m' base size r pre b post b' rest := by
  induction post generalizing m b fuel with
  | nil =>
    obtain ⟨k, rfl⟩ : ∃ k, fuel = k + 1 := ⟨fuel - 1, by omega⟩
    have hsize := hi.blockSize (b := b) (by simp)
    have hnext : blockNext m b.addr = 0 := hi.next
    refine ⟨m, b, [], ?_, hi, Frame.refl _ _ _ _, SameUsed.refl _, rfl, hb,
      ⟨[], rfl, by simp, rfl⟩, Or.inr (by simp)⟩
    simp [heapFrontMergeSizeFit, hnext, hsize]
  | cons c cs ih =>
    obtain ⟨k, rfl⟩ : ∃ k, fuel = k + 1 := ⟨fuel - 1, by omega⟩
    have hsize := hi.blockSize (b := b) (by simp)
    have hnext : blockNext m b.addr = c.addr := hi.next
    have hcd := hi.bounds (b := c) (by simp)
    have hpos : c.addr ≠ 0 := by omega
    have hunused : heapIsNextUnused m b.addr = !c.used := hi.isNextUnused
    by_cases hfit : r ≤ b.size
    · -- it fits already
      refine ⟨m, b, c :: cs, ?_, hi, Frame.refl _ _ _ _, SameUsed.refl _, rfl, hb,
        ⟨[], rfl, by simp, rfl⟩, Or.inl hfit⟩
      have hle : ¬ b.size < r := by omega
      simp [heapFrontMergeSizeFit, hnext, hpos, hsize, hfit, hle]
    · have hlt : b.size < r := by omega
      cases hc : c.used with
      | true =>
        -- a used block ends the run
        refine ⟨m, b, c :: cs, ?_, hi, Frame.refl _ _ _ _, SameUsed.refl _, rfl, hb,
          ⟨[], rfl, by simp, rfl⟩, Or.inr (by simpa using hc)⟩
        simp [heapFrontMergeSizeFit, hnext, hpos, hsize, hlt, hunused, hc]
      | false =>
        obtain ⟨m', b', rest, hrun, hres⟩ := ih (m := heapFrontMergeBlock m base b.addr)
          (b := absorb b c) hi.merge hb (show cs.length < k by simp at hfuel; omega)
        have hs : SameUsed (pre ++ b :: c :: cs) (pre ++ absorb b c :: cs) := sameUsed_merge hb hc
        obtain ⟨ds, hds, hall, hfold⟩ := hres.absorbed
        refine ⟨m', b', rest, ?_, hres.inv, hi.merge_frame.trans hs hres.frame,
          hs.trans hres.same, hres.addr, hres.unused, ⟨c :: ds, ?_, ?_, ?_⟩, hres.stop⟩
        · rw [absorb_addr] at hrun
          simp only [heapFrontMergeSizeFit, hnext, hsize]
          rw [if_pos ⟨hpos, hlt⟩, if_pos (by simp [hunused, hc])]
          exact hrun
        · simp [hds]
        · simp only [List.mem_cons]
          rintro d (rfl | hd)
          · exact hc
          · exact hall d hd
        · simpa using hfold

/-! ## Taking a block -/

/-- The blocks that stand for `b` after its first `r` bytes have been taken. -/
def useBlocks (b : Blk) (r : Nat) : List Blk :=
  if r + 8 < b.size then [⟨b.addr, r, true⟩, ⟨b.addr + 8 + r, b.size - r - 8, false⟩]
  else [{ b with used := true }]

section Use

variable {m : Mem} {base size r : Nat} {pre post : List Blk} {b : Blk}

/-- One block tiles its own range. -/
theorem tiles_single (b : Blk) : Tiles Blk.addr Blk.fin b.addr [b] b.fin := by
  simp only [Tiles, Blk.fin, true_and, and_true]
  omega

theorem useBlocks_tiles (hr : r ≤ b.size) :
    Tiles Blk.addr Blk.fin b.addr (useBlocks b r) b.fin := by
  unfold useBlocks
  split
  · simp only [Tiles, Blk.fin, true_and]
    omega
  · simp only [Tiles, Blk.fin, true_and, and_true]
    omega

/-- Writing the state of a block. -/
theorem HeapInv.mark (hi : HeapInv m base size (pre ++ b :: post)) (u : Bool) :
    HeapInv (setUsed m b.addr u) base size (pre ++ { b with used := u } :: post) := by
  have hi' : HeapInv m base size (pre ++ [b] ++ post) := by simpa using hi
  have hbd := hi.bounds (b := b) (by simp)
  have hb := hi.headers b (by simp)
  have hres : HeapInv (setUsed m b.addr u) base size
      (pre ++ [{ b with used := u }] ++ post) := by
    refine hi'.replace (tiles_single b) (by simp) (tiles_single { b with used := u }) ?_ ?_ ?_
    · intro x hx hout
      simp only [Blk.fin] at hout
      exact setUsed_frame _ _ _ (by omega)
    · intro d hd
      obtain rfl := List.mem_singleton.mp hd
      refine ⟨?_, by simp, ?_⟩
      · exact (load16_congr (a := b.addr) fun x h₁ h₂ =>
          setUsed_frame _ _ _ (by omega)).trans hb.magic
      · exact (load32_congr (a := b.addr + 4) fun x h₁ h₂ =>
          setUsed_frame _ _ _ (by omega)).trans hb.next
    · have hcell : currentBlocks (setUsed m b.addr u) base = currentBlocks m base :=
        load32_congr fun x h₁ h₂ => setUsed_frame _ _ _ (by omega)
      rw [hcell, hi.count]
      simp
  simpa using hres

/-- The state byte is no payload byte. -/
theorem HeapInv.mark_frame (hi : HeapInv m base size (pre ++ b :: post)) (u : Bool) :
    Frame m (setUsed m b.addr u) base size (pre ++ b :: post) := by
  have hi' : HeapInv m base size (pre ++ [b] ++ post) := by simpa using hi
  have hres : Frame m (setUsed m b.addr u) base size (pre ++ [b] ++ post) := by
    refine Frame.of_region hi' (tiles_single b) (by simp) ?_ ?_
    · intro x hx hout
      simp only [Blk.fin] at hout
      exact setUsed_frame _ _ _ (by omega)
    · intro d hd _ x h₁ h₂
      obtain rfl := List.mem_singleton.mp hd
      simp only [Blk.payload] at h₁
      exact setUsed_frame _ _ _ (by omega)
  simpa using hres

/-- A block just created has its header in memory. -/
theorem heapBlockCreate_header {h nb z sz stop : Nat} {u f : Bool}
    (hc : nb + 8 ≤ h + 8 ∨ h + 12 ≤ nb) (hz : z < 4294967296) (hlink : link stop (nb + 8 + sz) = z) :
    HeaderAt (heapBlockCreate m h nb u z f) stop ⟨nb, sz, false⟩ := by
  have hcount : ∀ (m' : Mem) (v x : Nat), nb ≤ x → x < nb + 8 →
      setCurrentBlocks m' h v x = m' x := fun m' v x h₁ h₂ =>
    setCurrentBlocks_frame _ _ _ (by omega)
  refine ⟨?_, ?_, ?_⟩
  · simp only [heapBlockCreate, blockMagic]
    rw [load16_congr fun x h₁ h₂ => hcount _ _ x h₁ (by omega),
      load16_congr (m := setMagic m nb heapBlockMagic) fun x h₁ h₂ => ?_]
    · simp [setMagic, heapBlockMagic]
    · rw [setFlags, store8_ne _ _ (by omega), setNext_frame _ _ _ (by omega),
        setUsed_frame _ _ _ (by omega)]
  · simp only [heapBlockCreate, blockUsed]
    rw [hcount _ _ _ (by omega) (by omega), setFlags, store8_ne _ _ (by omega),
      setNext_frame _ _ _ (by omega)]
    simp [setUsed, Bool.toUInt8]
  · simp only [heapBlockCreate, blockNext]
    rw [load32_congr fun x h₁ h₂ => hcount _ _ x (by omega) (by omega),
      load32_congr (m := setNext (setUsed (setMagic m nb heapBlockMagic) nb false) nb z)
        fun x h₁ h₂ => ?_]
    · rw [setNext, load32_store32, Nat.mod_eq_of_lt hz]
      exact hlink.symm
    · rw [setFlags, store8_ne _ _ (by omega)]

/-- `heap_alloc` on a fitting unused block: the invariant, with the block split
when a header and a byte fit behind the request. -/
theorem HeapInv.use (hi : HeapInv m base size (pre ++ b :: post)) (hr : r ≤ b.size) :
    HeapInv (heapUseBlock m base b.addr r) base size (pre ++ useBlocks b r ++ post) := by
  have hi' : HeapInv m base size (pre ++ [b] ++ post) := by simpa using hi
  have hbd := hi.bounds (b := b) (by simp)
  have hb := hi.headers b (by simp)
  have hsize : heapBlockSize m base b.addr = b.size := hi.blockSize (by simp)
  have htop := hi.top
  have hroom := hi.room
  have hlen := tiles_length hi.tiles
  have hfin : b.fin ≤ base + size := by simp only [Blk.fin]; omega
  have hone := tiles_single b
  have hadd : add32 r 8 = r + 8 := add32_eq (by omega)
  by_cases hsplit : r + 8 < b.size
  · -- a new header at `nb` takes the rest of the payload
    have hnb : add32 (add32 b.addr 8) r = b.addr + 8 + r := by
      rw [add32_eq (a := b.addr) (b := 8) (by omega), add32_eq (by omega)]
    have hnext : blockNext m b.addr < 4294967296 := load32_lt _ _
    have hmem : heapUseBlock m base b.addr r =
        setUsed (setNext (heapBlockCreate m base (b.addr + 8 + r) false (blockNext m b.addr)
          (blockFlags m b.addr)) b.addr (b.addr + 8 + r)) b.addr true := by
      simp only [heapUseBlock, sizeofHeapBlock, hsize, hadd, hnb, if_pos hsplit]
    refine hi'.replace hone (by simp) (useBlocks_tiles hr) ?_ ?_ ?_
    · intro x hx hout
      simp only [Blk.fin] at hout
      rw [hmem, setUsed_frame _ _ _ (by omega), setNext_frame _ _ _ (by omega),
        heapBlockCreate_frame _ _ _ (by omega) hx]
    · intro d hd
      simp only [useBlocks, if_pos hsplit, List.mem_cons, List.not_mem_nil, or_false] at hd
      rw [hmem]
      rcases hd with rfl | rfl
      · refine ⟨?_, by simp, ?_⟩
        · refine (load16_congr fun x h₁ h₂ => ?_).trans hb.magic
          simp only at h₁ h₂
          rw [setUsed_frame _ _ _ (by omega), setNext_frame _ _ _ (by omega),
            heapBlockCreate_frame _ _ _ (by omega) (by omega)]
        · have hcell : blockNext (setUsed (setNext (heapBlockCreate m base (b.addr + 8 + r) false
              (blockNext m b.addr) (blockFlags m b.addr)) b.addr (b.addr + 8 + r)) b.addr true)
              b.addr = b.addr + 8 + r := by
            have hsame := load32_congr (a := b.addr + 4)
              (m := setNext (heapBlockCreate m base (b.addr + 8 + r) false
                (blockNext m b.addr) (blockFlags m b.addr)) b.addr (b.addr + 8 + r))
              fun x h₁ h₂ => setUsed_frame _ b.addr true (x := x) (by omega)
            refine hsame.trans ?_
            rw [setNext, load32_store32, Nat.mod_eq_of_lt (by omega)]
          rw [hcell, link, if_neg (by simp only [Blk.fin]; omega)]
          rfl
      · refine HeaderAt.frame (heapBlockCreate_header (m := m) (h := base) (u := false)
          (f := blockFlags m b.addr) (by omega) hnext ?_) ?_
        · rw [hb.next]
          simp only [Blk.fin]
          congr 1
          omega
        · intro x h₁ h₂
          simp only at h₁ h₂
          rw [setUsed_frame _ _ _ (by omega), setNext_frame _ _ _ (by omega)]
    · have hcell : currentBlocks (heapUseBlock m base b.addr r) base =
          add32 (currentBlocks m base) 1 := by
        have hsame : ∀ x, base + 8 ≤ x → x < base + 8 + 4 → heapUseBlock m base b.addr r x =
            heapBlockCreate m base (b.addr + 8 + r) false (blockNext m b.addr)
              (blockFlags m b.addr) x := fun x h₁ h₂ => by
          rw [hmem, setUsed_frame _ _ _ (by omega), setNext_frame _ _ _ (by omega)]
        have hkeep : currentBlocks (setFlags (setNext (setUsed (setMagic m (b.addr + 8 + r)
            heapBlockMagic) (b.addr + 8 + r) false) (b.addr + 8 + r) (blockNext m b.addr))
            (b.addr + 8 + r) (blockFlags m b.addr)) base = currentBlocks m base :=
          load32_congr fun x h₁ h₂ => by
            rw [setFlags, store8_ne _ _ (by omega), setNext_frame _ _ _ (by omega),
              setUsed_frame _ _ _ (by omega), setMagic, store16_frame _ _ (by omega)]
        refine (load32_congr hsame).trans ?_
        simp only [heapBlockCreate]
        refine (currentBlocks_setCurrentBlocks _ _ _).trans ?_
        rw [hkeep, Nat.mod_eq_of_lt (add32_lt _ _)]
      rw [hcell, hi.count]
      simp only [useBlocks, if_pos hsplit, List.length_append, List.length_cons,
        List.length_nil] at hlen ⊢
      rw [add32_eq (by omega)]
      omega
  · -- the whole block is taken
    have hmem : heapUseBlock m base b.addr r = setUsed m b.addr true := by
      simp only [heapUseBlock, sizeofHeapBlock, hsize, hadd, if_neg hsplit]
    rw [hmem]
    simpa [useBlocks, if_neg hsplit] using hi.mark true

/-- Taking an unused block leaves the bytes that are handed out, and those outside the block. -/
theorem HeapInv.use_outside (hi : HeapInv m base size (pre ++ b :: post)) (hr : r ≤ b.size)
    {x : Nat} (hx : x < base + 8 ∨ base + 12 ≤ x)
    (hout : x < b.addr ∨ b.addr + 8 + b.size ≤ x ∨ (b.addr + 8 ≤ x ∧ x < b.addr + 8 + r)) :
    heapUseBlock m base b.addr r x = m x := by
  have hbd := hi.bounds (b := b) (by simp)
  have hsize := hi.blockSize (b := b) (by simp)
  have htop := hi.top
  have hadd : add32 r 8 = r + 8 := add32_eq (by omega)
  simp only [heapUseBlock, sizeofHeapBlock, hsize, hadd]
  rw [setUsed_frame _ _ _ (by omega)]
  split
  · rw [setNext_frame _ _ _ (by omega), heapBlockCreate_frame _ _ _ ?_ hx]
    rw [add32_eq (a := b.addr) (b := 8) (by omega), add32_eq (by omega)]
    omega
  · rfl

/-- Taking an unused block changes no payload byte of a used one. -/
theorem HeapInv.use_frame (hi : HeapInv m base size (pre ++ b :: post)) (hb : b.used = false)
    (hr : r ≤ b.size) :
    Frame m (heapUseBlock m base b.addr r) base size (pre ++ b :: post) := by
  have hi' : HeapInv m base size (pre ++ [b] ++ post) := by simpa using hi
  have hone := tiles_single b
  have hres : Frame m (heapUseBlock m base b.addr r) base size (pre ++ [b] ++ post) := by
    refine Frame.of_region hi' hone (by simp) ?_ ?_
    · intro x hx hout
      simp only [Blk.fin] at hout
      exact hi.use_outside hr hx (by omega)
    · intro d hd hu
      obtain rfl := List.mem_singleton.mp hd
      rw [hb] at hu
      cases hu
  simpa using hres

/-- The block handed out is the first of `useBlocks`; the other used blocks
are those of before. -/
theorem mem_useBlocks (hb : b.used = false) {d : Blk} (hd : d.used = true) :
    d ∈ pre ++ useBlocks b r ++ post ↔
      d ∈ pre ++ b :: post ∨ d = ⟨b.addr, if r + 8 < b.size then r else b.size, true⟩ := by
  have hdb : d ≠ b := by
    rintro rfl
    simp [hb] at hd
  unfold useBlocks
  split
  · have hrest : d ≠ ⟨b.addr + 8 + r, b.size - r - 8, false⟩ := by
      rintro rfl
      simp at hd
    simp only [List.mem_append, List.mem_cons, List.not_mem_nil, or_false, hdb, false_or, hrest]
    tauto
  · simp only [List.mem_append, List.mem_cons, List.not_mem_nil, or_false, hdb, false_or]
    tauto

end Use

end MeOS.Heap
