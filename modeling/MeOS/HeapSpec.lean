import MeOS.HeapOps

/-! # One specification for each heap function

`heap_create` establishes the chain invariant; `heap_alloc`, `heap_free`,
`heap_realloc` and `heap_defrag` keep it, end with enough fuel, and change the
set of used blocks by exactly the block they hand out or take back.
-/

namespace MeOS.Heap

open Bytes Extents

/-- Block `b` of at least `r` bytes has been handed out. -/
structure Allocated (m m' : Mem) (base size r : Nat) (bs bs' : List Blk) (b : Blk) : Prop where
  inv : HeapInv m' base size bs'
  frame : Frame m m' base size bs
  used : b.used = true
  fits : r ≤ b.size
  fresh : ∀ c ∈ bs, c.used = true → c.addr ≠ b.addr
  mem_iff : ∀ d : Blk, d.used = true → (d ∈ bs' ↔ d ∈ bs ∨ d = b)

/-- Nothing has been handed out or taken back. -/
structure Reshaped (m m' : Mem) (base size : Nat) (bs bs' : List Blk) : Prop where
  inv : HeapInv m' base size bs'
  frame : Frame m m' base size bs
  same : SameUsed bs bs'

/-- Block `b` has been taken back. -/
structure Freed (m m' : Mem) (base size : Nat) (bs bs' : List Blk) (b : Blk) : Prop where
  inv : HeapInv m' base size bs'
  frame : Frame m m' base size bs
  mem_iff : ∀ d : Blk, d.used = true → (d ∈ bs' ↔ d ∈ bs ∧ d ≠ b)

section

variable {m m₁ m' : Mem} {base size r : Nat} {bs bs₁ bs' pre post : List Blk} {b : Blk}

theorem Reshaped.refl (hi : HeapInv m base size bs) : Reshaped m m base size bs bs :=
  ⟨hi, Frame.refl _ _ _ _, SameUsed.refl _⟩

theorem Reshaped.trans (h₁ : Reshaped m m₁ base size bs bs₁)
    (h₂ : Reshaped m₁ m' base size bs₁ bs') : Reshaped m m' base size bs bs' :=
  ⟨h₂.inv, h₁.frame.trans h₁.same h₂.frame, h₁.same.trans h₂.same⟩

theorem Reshaped.of_allocated (h₁ : Reshaped m m₁ base size bs bs₁)
    (h₂ : Allocated m₁ m' base size r bs₁ bs' b) : Allocated m m' base size r bs bs' b where
  inv := h₂.inv
  frame := h₁.frame.trans h₁.same h₂.frame
  used := h₂.used
  fits := h₂.fits
  fresh c hc hu := h₂.fresh c ((h₁.same c hu).mpr hc) hu
  mem_iff d hd := by rw [h₂.mem_iff d hd, h₁.same d hd]

theorem MergeRun.reshaped {rest : List Blk} {b' : Blk}
    (h : MergeRun m m' base size r pre b post b' rest) :
    Reshaped m m' base size (pre ++ b :: post) (pre ++ b' :: rest) :=
  ⟨h.inv, h.frame, h.same⟩

/-- The block handed out when an unused fitting block is taken. -/
theorem HeapInv.use_allocated (hi : HeapInv m base size (pre ++ b :: post))
    (hb : b.used = false) (hr : r ≤ b.size) :
    Allocated m (heapUseBlock m base b.addr r) base size r (pre ++ b :: post)
      (pre ++ useBlocks b r ++ post)
      ⟨b.addr, if r + 8 < b.size then r else b.size, true⟩ where
  inv := hi.use hr
  frame := hi.use_frame hb hr
  used := rfl
  fits := by
    show r ≤ if r + 8 < b.size then r else b.size
    split <;> omega
  fresh c hc hu h := by
    have hcb : c = b := hi.eq_of_addr hc (by simp) h
    rw [hcb, hb] at hu
    cases hu
  mem_iff d hd := mem_useBlocks hb hd

/-! ## `heap_create` -/

/-- A new heap is one unused block. -/
theorem heapCreate_spec (m : Mem) (hroom : 20 ≤ size) (htop : base + size ≤ 4294967296) :
    HeapInv (heapCreate m base size) base size [⟨base + 12, size - 20, false⟩] := by
  have hstart : add32 base 12 = base + 12 := add32_eq (by omega)
  have hsub : sub32 size 12 = size - 12 := by
    simp only [sub32]
    omega
  have hmem : heapCreate m base size =
      heapBlockCreate (setCurrentBlocks (store32 (store32 m base (base + 12)) (base + 4)
        (size - 12)) base 0) base (base + 12) false 0 false := by
    have hload : startAddress (setCurrentBlocks (store32 (store32 m base (base + 12)) (base + 4)
        (size - 12)) base 0) base = base + 12 := by
      have hsame : ∀ x, base ≤ x → x < base + 4 → setCurrentBlocks (store32 (store32 m base
          (base + 12)) (base + 4) (size - 12)) base 0 x = store32 m base (base + 12) x :=
        fun x h₁ h₂ => by
          rw [setCurrentBlocks_frame _ _ _ (by omega), store32_frame _ _ (by omega)]
      rw [startAddress, load32_congr hsame, load32_store32, Nat.mod_eq_of_lt (by omega)]
    simp only [heapCreate, sizeofHeap, hstart, hsub, hload]
  rw [hmem]
  refine
    { room := hroom, top := htop, start := ?_, sizeEq := ?_, count := ?_, tiles := ?_,
      headers := ?_ }
  · refine (load32_congr fun x h₁ h₂ => ?_).trans
      ((load32_store32 m base (base + 12)).trans (Nat.mod_eq_of_lt (by omega)))
    rw [heapBlockCreate_frame _ _ _ (by omega) (by omega), setCurrentBlocks_frame _ _ _ (by omega),
      store32_frame _ _ (by omega)]
  · refine (load32_congr fun x h₁ h₂ => ?_).trans
      ((load32_store32 (store32 m base (base + 12)) (base + 4) (size - 12)).trans
        (Nat.mod_eq_of_lt (by omega)))
    rw [heapBlockCreate_frame _ _ _ (by omega) (by omega), setCurrentBlocks_frame _ _ _ (by omega)]
  · -- the counter goes from 0 to 1
    simp only [heapBlockCreate, currentBlocks_setCurrentBlocks, List.length_singleton]
    have hkeep : currentBlocks (setFlags (setNext (setUsed (setMagic (setCurrentBlocks (store32
        (store32 m base (base + 12)) (base + 4) (size - 12)) base 0) (base + 12) heapBlockMagic)
        (base + 12) false) (base + 12) 0) (base + 12) false) base = 0 := by
      refine (load32_congr fun x h₁ h₂ => ?_).trans
        (currentBlocks_setCurrentBlocks (store32 (store32 m base (base + 12)) (base + 4)
          (size - 12)) base 0)
      rw [setFlags, store8_ne _ _ (by omega), setNext_frame _ _ _ (by omega),
        setUsed_frame _ _ _ (by omega), setMagic, store16_frame _ _ (by omega)]
    rw [hkeep]
    rfl
  · refine ⟨rfl, ?_, ?_⟩
    · simp only [Blk.fin]
      omega
    · simp only [Tiles, Blk.fin]
      omega
  · intro b hb
    obtain rfl := List.mem_singleton.mp hb
    refine heapBlockCreate_header (by omega) (by omega) ?_
    rw [link, if_pos (by omega)]

/-! ## `heap_alloc` -/

/-- What one turn of the walk does at the block `b`, with `k` turns left: a used block is skipped,
an unused one is merged with the unused ones behind it, and taken if it has room. -/
inductive AllocTurn (m : Mem) (base size r k : Nat) (pre : List Blk) (b : Blk) (rest : List Blk) :
    Prop
  | skip (used : b.used = true) (inv : HeapInv m base size (pre ++ [b] ++ rest))
      (run : heapAllocLoop (k + 1) m base r (headAddr (b :: rest)) =
        heapAllocLoop k m base r (headAddr rest))
  | take (m₁ : Mem) (b₁ : Blk) (rest₁ : List Blk) (used : b.used = false)
      (merge : MergeRun m m₁ base size r pre b rest b₁ rest₁)
      (merged : heapFrontMergeSizeFit k m base b.addr r = some (m₁, decide (r ≤ b₁.size)))
      (fit : r ≤ b₁.size)
      (run : heapAllocLoop (k + 1) m base r (headAddr (b :: rest)) =
        some (heapUseBlock m₁ base b₁.addr r, .ok b₁.payload))
  | pass (m₁ : Mem) (b₁ : Blk) (rest₁ : List Blk) (used : b.used = false)
      (merge : MergeRun m m₁ base size r pre b rest b₁ rest₁)
      (merged : heapFrontMergeSizeFit k m base b.addr r = some (m₁, decide (r ≤ b₁.size)))
      (fit : ¬ r ≤ b₁.size) (inv : HeapInv m₁ base size (pre ++ [b₁] ++ rest₁))
      (shorter : rest₁.length < k)
      (run : heapAllocLoop (k + 1) m base r (headAddr (b :: rest)) =
        heapAllocLoop k m₁ base r (headAddr rest₁))

/-- The turn at a block of the heap. -/
theorem heapAllocLoop_turn {k : Nat} {rest : List Blk}
    (hi : HeapInv m base size (pre ++ b :: rest)) (hr : 0 < r) (hk : rest.length < k) :
    AllocTurn m base size r k pre b rest := by
  have hbd := hi.bounds (b := b) (by simp)
  have hhead := hi.headers b (by simp)
  have htop := hi.top
  have hpos : b.addr ≠ 0 := by omega
  have hmagic := hhead.magic
  have hused := hhead.used
  cases hu : b.used with
  | true =>
    refine .skip hu (by simpa using hi) ?_
    simp [heapAllocLoop, headAddr, hpos, hmagic, hused, hu, hi.next]
  | false =>
    obtain ⟨m₁, b₁, rest₁, hrun, hmerge⟩ := heapFrontMergeSizeFit_spec (r := r) hi hu hk
    by_cases hfit : r ≤ b₁.size
    · have hbd₁ := hmerge.inv.bounds (b := b₁) (by simp)
      have hstart : heapBlockStartAddress b.addr = b.addr + 8 := by
        rw [hmerge.addr] at hbd₁
        simp only [heapBlockStartAddress, sizeofHeapBlock]
        exact add32_eq (by omega)
      refine .take m₁ b₁ rest₁ hu hmerge hrun hfit ?_
      simp [heapAllocLoop, headAddr, hpos, hmagic, hused, hu, hrun, hfit, hstart, hmerge.addr,
        Blk.payload]
    · have hnext : blockNext m₁ b.addr = headAddr rest₁ := by
        rw [← hmerge.addr]
        exact hmerge.inv.next
      obtain ⟨cs, hcs, _, _⟩ := hmerge.absorbed
      have hlen : rest₁.length < k := by
        rw [hcs, List.length_append] at hk
        omega
      refine .pass m₁ b₁ rest₁ hu hmerge hrun hfit (by simpa using hmerge.inv) hlen ?_
      simp [heapAllocLoop, headAddr, hpos, hmagic, hused, hu, hrun, hfit, hnext]

/-- The walk over the blocks `post` still to visit. It ends, and either hands
out a block or finds none. -/
theorem heapAllocLoop_spec {fuel : Nat} (hi : HeapInv m base size (pre ++ post)) (hr : 0 < r)
    (hfuel : post.length < fuel) :
    (∃ m' bs' b, heapAllocLoop fuel m base r (headAddr post) = some (m', .ok b.payload) ∧
      Allocated m m' base size r (pre ++ post) bs' b) ∨
    (∃ m' bs', heapAllocLoop fuel m base r (headAddr post) = some (m', .error .outOfMemory) ∧
      Reshaped m m' base size (pre ++ post) bs') := by
  induction fuel generalizing m pre post with
  | zero => omega
  | succ k ih =>
    cases post with
    | nil =>
      refine Or.inr ⟨m, pre ++ [], ?_, Reshaped.refl hi⟩
      simp [heapAllocLoop, headAddr]
    | cons b rest =>
      have hk : rest.length < k := by
        simp only [List.length_cons] at hfuel
        omega
      cases heapAllocLoop_turn hi hr hk with
      | skip _ hi' hstep =>
        rw [hstep]
        simpa using ih hi' hk
      | take m₁ b₁ rest₁ _ hmerge _ hfit hstep =>
        exact Or.inl ⟨heapUseBlock m₁ base b₁.addr r, pre ++ useBlocks b₁ r ++ rest₁,
          ⟨b₁.addr, if r + 8 < b₁.size then r else b₁.size, true⟩, hstep,
          hmerge.reshaped.of_allocated (hmerge.inv.use_allocated hmerge.unused hfit)⟩
      | pass m₁ b₁ rest₁ _ hmerge _ _ hi₁ hlen hstep =>
        -- the merged block stays, and the walk goes on behind it
        rw [hstep]
        rcases ih hi₁ hlen with ⟨m', bs', b', hres, halloc⟩ | ⟨m', bs', hres, hshape⟩
        · refine Or.inl ⟨m', bs', b', hres, ?_⟩
          exact hmerge.reshaped.of_allocated (by simpa using halloc)
        · refine Or.inr ⟨m', bs', hres, ?_⟩
          exact hmerge.reshaped.trans (by simpa using hshape)

/-- `heap_alloc` of a heap that is not at address 0. -/
theorem heapAlloc_spec {fuel : Nat} (hi : HeapInv m base size bs) (hbase : base ≠ 0)
    (hr : 0 < r) (hfuel : bs.length < fuel) :
    (∃ m' bs' b, heapAlloc fuel m base r = some (m', .ok b.payload) ∧
      Allocated m m' base size r bs bs' b) ∨
    (∃ m' bs', heapAlloc fuel m base r = some (m', .error .outOfMemory) ∧
      Reshaped m m' base size bs bs') := by
  have hargs : ¬ (base = 0 ∨ r = 0) := by omega
  have h := heapAllocLoop_spec (show HeapInv m base size ([] ++ bs) from hi) hr hfuel
  simpa only [heapAlloc, if_neg hargs, hi.startAddress_eq, List.nil_append] using h

/-! ## `heap_free` -/

/-- `heap_free` of the payload of a used block. -/
theorem heapFree_spec (hi : HeapInv m base size bs) (hb : b ∈ bs) (hu : b.used = true)
    (hsize : 0 < b.size) (hbase : base ≠ 0) :
    ∃ m' bs', heapFree m base b.payload = (m', .ok ()) ∧ Freed m m' base size bs bs' b := by
  obtain ⟨pre, post, rfl⟩ := List.append_of_mem hb
  have hbd := hi.bounds (b := b) (by simp)
  have htop := hi.top
  have hblock : sub32 b.payload 8 = b.addr := by
    simp only [Blk.payload]
    rw [sub32_eq (by omega) (by omega)]
    omega
  have hargs : ¬ (base = 0 ∨ b.payload = 0) := by
    simp only [Blk.payload]
    omega
  have hmagic := (hi.headers b (by simp)).magic
  have hi₁ := hi.mark false
  have hnext := hi₁.isNextUnused
  -- the used blocks after the block has been marked unused
  have hmem : ∀ d : Blk, d.used = true →
      (d ∈ pre ++ { b with used := false } :: post ↔ d ∈ pre ++ b :: post ∧ d ≠ b) := by
    intro d hd
    have hne : d ≠ { b with used := false } := by
      rintro rfl
      simp at hd
    have hother : d ∈ pre ∨ d ∈ post → d ≠ b := by
      rintro hin rfl
      have hsplit := hi.split
      rcases hin with hin | hin
      · have := (hsplit.1.mem_bounds hin).2.2
        simp only [Blk.fin] at this
        omega
      · have := (hsplit.2.mem_bounds hin).1
        simp only [Blk.fin] at this
        omega
    simp only [List.mem_append, List.mem_cons, hne, false_or]
    constructor
    · intro hin
      refine ⟨?_, hother hin⟩
      rcases hin with hin | hin
      · exact Or.inl hin
      · exact Or.inr (Or.inr hin)
    · rintro ⟨hin | rfl | hin, hdb⟩
      · exact Or.inl hin
      · exact absurd rfl hdb
      · exact Or.inr hin
  cases hmerge : heapIsNextUnused (setUsed m b.addr false) b.addr with
  | false =>
    refine ⟨setUsed m b.addr false, _, ?_, hi₁, hi.mark_frame false, hmem⟩
    simp [heapFree, hargs, hblock, hmagic, hmerge]
  | true =>
    -- the next block is unused too: the two are merged
    cases post with
    | nil => simp [hmerge] at hnext
    | cons c cs =>
      have hc : c.used = false := by simpa [hmerge] using hnext
      have hs : SameUsed (pre ++ { b with used := false } :: c :: cs)
          (pre ++ absorb { b with used := false } c :: cs) := sameUsed_merge rfl hc
      refine ⟨heapFrontMergeBlock (setUsed m b.addr false) base b.addr, _, ?_, hi₁.merge, ?_, ?_⟩
      · simp [heapFree, hargs, hblock, hmagic, hmerge]
      · constructor
        · intro d hd hdu x h₁ h₂
          by_cases hdb : d = b
          · subst hdb
            -- the payload of the block itself is not written either
            have hcd := hi.bounds (b := c) (by simp)
            have hbc := hi.pair_tiles.2.2.1
            simp only [Blk.payload, Blk.fin] at h₁ h₂ hbc
            rw [heapFrontMergeBlock_frame (by omega) (by omega), setUsed_frame _ _ _ (by omega)]
          · have hd₁ := (hmem d hdu).mpr ⟨hd, hdb⟩
            exact (hi₁.merge_frame.payload d hd₁ hdu x h₁ h₂).trans
              ((hi.mark_frame false).payload d hd hdu x h₁ h₂)
        · intro x hx
          exact (hi₁.merge_frame.outside x hx).trans ((hi.mark_frame false).outside x hx)
      · intro d hd
        rw [hs d hd, hmem d hd]

/-! ## `heap_realloc` -/

/-- The content of block `b` has moved to block `c` of at least `r` bytes, and
`b` has been taken back. -/
structure Reallocated (m m' : Mem) (base size r : Nat) (bs bs' : List Blk) (b c : Blk) : Prop where
  inv : HeapInv m' base size bs'
  frame : Frame m m' base size bs
  pos : 0 < r
  used : c.used = true
  fits : r ≤ c.size
  fresh : ∀ d ∈ bs, d.used = true → d.addr ≠ c.addr
  apart : b.fin ≤ c.addr ∨ c.fin ≤ b.addr
  mem_iff : ∀ d : Blk, d.used = true → (d ∈ bs' ↔ (d ∈ bs ∨ d = c) ∧ d ≠ b)
  copied : ∀ i, i < min b.size r → m' (c.payload + i) = m (b.payload + i)

/-- Writes that stay inside payloads of used blocks or outside the heap do not
touch the chain. -/
theorem HeapInv.of_payload_writes (hi : HeapInv m base size bs)
    (hsame : ∀ x, base ≤ x → x < base + size →
      (∀ b ∈ bs, b.used = true → x < b.payload ∨ b.fin ≤ x) → m' x = m x) :
    HeapInv m' base size bs := by
  have hroom := hi.room
  -- a byte in front of the first payload, or in a header, is in no payload
  have hrec : ∀ x, base ≤ x → x < base + 12 → m' x = m x := by
    intro x h₁ h₂
    refine hsame x h₁ (by omega) fun b hb _ => Or.inl ?_
    have hbd := hi.bounds hb
    simp only [Blk.payload]
    omega
  have hhead : ∀ b ∈ bs, ∀ x, b.addr ≤ x → x < b.addr + 8 → m' x = m x := by
    intro b hb x h₁ h₂
    have hbd := hi.bounds hb
    refine hsame x (by omega) (by omega) fun c hc _ => ?_
    simp only [Blk.payload, Blk.fin]
    by_cases hbc : b = c
    · subst hbc
      omega
    · have happ := hi.apart hb hc hbc
      omega
  refine
    { room := hroom, top := hi.top, start := ?_, sizeEq := ?_, count := ?_, tiles := hi.tiles,
      headers := fun b hb => (hi.headers b hb).frame (hhead b hb) }
  · exact (load32_congr fun x h₁ h₂ => hrec x h₁ (by omega)).trans hi.start
  · exact (load32_congr fun x h₁ h₂ => hrec x (by omega) (by omega)).trans hi.sizeEq
  · exact (load32_congr fun x h₁ h₂ => hrec x (by omega) (by omega)).trans hi.count

/-- `heap_realloc` of the payload of a used block: the block has the size
already, or there is no new block, or the content moves to one. -/
theorem heapRealloc_spec {fuel : Nat} (hi : HeapInv m base size bs) (hb : b ∈ bs)
    (hu : b.used = true) (hsize : 0 < b.size) (hbase : base ≠ 0) (hfuel : bs.length < fuel) :
    (heapRealloc fuel m base b.payload r = some (m, .ok b.payload) ∧ b.size = r) ∨
    (∃ m' bs' e, heapRealloc fuel m base b.payload r = some (m', .error e) ∧
      Reshaped m m' base size bs bs') ∨
    (∃ m' bs' c, heapRealloc fuel m base b.payload r = some (m', .ok c.payload) ∧
      Reallocated m m' base size r bs bs' b c) := by
  have hbd := hi.bounds hb
  have htop := hi.top
  have hblock : sub32 b.payload 8 = b.addr := by
    simp only [Blk.payload]
    rw [sub32_eq (by omega) (by omega)]
    omega
  have hargs : ¬ (base = 0 ∨ b.payload = 0) := by
    simp only [Blk.payload]
    omega
  have hmagic := (hi.headers b hb).magic
  have hbsize := hi.blockSize hb
  by_cases hsame : b.size = r
  · refine Or.inl ⟨?_, hsame⟩
    simp [heapRealloc, hargs, hblock, hmagic, hbsize, hsame]
  by_cases hr : r = 0
  · -- no block of size 0 is handed out
    refine Or.inr (Or.inl ⟨m, bs, .badArgument, ?_, Reshaped.refl hi⟩)
    have hne : b.size ≠ 0 := by omega
    simp [heapRealloc, heapAlloc, hargs, hblock, hmagic, hbsize, hne, hr]
  rcases heapAlloc_spec hi hbase (Nat.pos_of_ne_zero hr) hfuel with
    ⟨m₁, bs₁, c, hrun, halloc⟩ | ⟨m₁, bs₁, hrun, hshape⟩
  · -- the new block is another one, so the copy does not overlap
    have hb₁ : b ∈ bs₁ := (halloc.mem_iff b hu).mpr (Or.inl hb)
    have hc₁ : c ∈ bs₁ := (halloc.mem_iff c halloc.used).mpr (Or.inr rfl)
    have hbc : b ≠ c := fun h => halloc.fresh b hb hu (congrArg Blk.addr h)
    have happ := halloc.inv.apart hb₁ hc₁ hbc
    have hfits := halloc.fits
    have hcopy : memcpy m₁ c.payload b.payload (min b.size r) =
        blit m₁ c.payload m₁ b.payload (min b.size r) := by
      refine memcpy_eq _ _ _ _ ?_
      simp only [Blk.payload]
      omega
    have hout : ∀ x, (x < c.payload ∨ c.fin ≤ x) →
        blit m₁ c.payload m₁ b.payload (min b.size r) x = m₁ x := fun x hx => by
      refine blit_frame _ _ _ ?_
      simp only [Blk.payload, Blk.fin] at hx ⊢
      omega
    have hi₂ : HeapInv (blit m₁ c.payload m₁ b.payload (min b.size r)) base size bs₁ :=
      halloc.inv.of_payload_writes fun x _ _ hx => hout x (hx c hc₁ halloc.used)
    obtain ⟨m₃, bs₃, hfree, hfreed⟩ := heapFree_spec hi₂ hb₁ hu hsize hbase
    have hcd := halloc.inv.bounds hc₁
    refine Or.inr (Or.inr ⟨m₃, bs₃, c, ?_, ?_⟩)
    · simp [heapRealloc, hargs, hblock, hmagic, hbsize, hsame, hrun, minimum_eq, hcopy, hfree]
    · refine ⟨hfreed.inv, ⟨?_, ?_⟩, Nat.pos_of_ne_zero hr, halloc.used, halloc.fits,
        halloc.fresh, happ, ?_, ?_⟩
      · intro d hd hdu x h₁ h₂
        have hd₁ : d ∈ bs₁ := (halloc.mem_iff d hdu).mpr (Or.inl hd)
        have hdc : d ≠ c := fun h => halloc.fresh d hd hdu (congrArg Blk.addr h)
        have hapart := halloc.inv.apart hd₁ hc₁ hdc
        rw [hfreed.frame.payload d hd₁ hdu x h₁ h₂, hout x ?_,
          halloc.frame.payload d hd hdu x h₁ h₂]
        simp only [Blk.payload, Blk.fin] at h₁ h₂ ⊢
        omega
      · intro x hx
        rw [hfreed.frame.outside x hx, hout x ?_, halloc.frame.outside x hx]
        simp only [Blk.payload, Blk.fin]
        omega
      · intro d hd
        rw [hfreed.mem_iff d hd, halloc.mem_iff d hd]
      · intro i hi'
        have hin : i < b.size ∧ i < r := by omega
        rw [hfreed.frame.payload c hc₁ halloc.used _ (by omega)
            (by simp only [Blk.payload, Blk.fin]; omega),
          blit_at _ _ _ _ (by omega)]
        refine halloc.frame.payload b hb hu _ (by omega) ?_
        simp only [Blk.payload, Blk.fin]
        omega
  · refine Or.inr (Or.inl ⟨m₁, bs₁, .outOfMemory, ?_, hshape⟩)
    simp [heapRealloc, hargs, hblock, hmagic, hbsize, hsame, hrun]

/-! ## `heap_defrag` -/

/-- A turn of the walk of `heap_defrag`: two neighbouring unused blocks are merged and the walk
stays, or it goes on. -/
theorem heapDefragLoop_turn (hi : HeapInv m base size (pre ++ b :: post)) (k count : Nat) :
    (∃ c cs, post = c :: cs ∧ b.used = false ∧ c.used = false ∧
      heapDefragLoop (k + 1) m base (headAddr (b :: post)) count =
        heapDefragLoop k (heapFrontMergeBlock m base b.addr) base (headAddr (absorb b c :: cs))
          (add32 count 1)) ∨
    ((b.used = true ∨ ∀ c ∈ post.head?, c.used = true) ∧
      heapDefragLoop (k + 1) m base (headAddr (b :: post)) count =
        heapDefragLoop k m base (headAddr post) count) := by
  have hbd := hi.bounds (b := b) (by simp)
  have hpos : b.addr ≠ 0 := by omega
  have hused := (hi.headers b (by simp)).used
  have hnext := hi.isNextUnused
  by_cases hmerge : blockUsed m b.addr = false ∧ heapIsNextUnused m b.addr = true
  · cases post with
    | nil => simp [hmerge.2] at hnext
    | cons c cs =>
      have hb : b.used = false := hused.symm.trans hmerge.1
      have hc : c.used = false := by simpa [hmerge.2] using hnext
      exact Or.inl ⟨c, cs, rfl, hb, hc, by simp [heapDefragLoop, headAddr, hpos, hmerge]⟩
  · refine Or.inr ⟨?_, by simp [heapDefragLoop, headAddr, hpos, hmerge, hi.next]⟩
    cases hu : b.used with
    | true => exact Or.inl rfl
    | false =>
      refine Or.inr fun c hc => ?_
      cases post with
      | nil => cases hc
      | cons e es =>
        obtain rfl : e = c := by simpa using hc
        have hun : heapIsNextUnused m b.addr = !e.used := hnext
        by_contra hcu
        exact hmerge ⟨hused.trans hu, by simp [hun, Bool.eq_false_of_not_eq_true hcu]⟩

/-- The walk of `heap_defrag` over the blocks still to visit. -/
theorem heapDefragLoop_spec {fuel : Nat} (count : Nat) (hi : HeapInv m base size (pre ++ post))
    (hfuel : post.length < fuel) :
    ∃ m' bs' n, heapDefragLoop fuel m base (headAddr post) count = some (m', n) ∧
      Reshaped m m' base size (pre ++ post) bs' := by
  induction fuel generalizing m pre post count with
  | zero => omega
  | succ k ih =>
    cases post with
    | nil =>
      refine ⟨m, pre ++ [], count, ?_, Reshaped.refl hi⟩
      simp [heapDefragLoop, headAddr]
    | cons b rest =>
      simp only [List.length_cons] at hfuel
      rcases heapDefragLoop_turn hi k count with ⟨c, cs, rfl, hb, hc, hstep⟩ | ⟨_, hstep⟩
      · obtain ⟨m', bs', n, hrun, hshape⟩ := ih (add32 count 1) hi.merge
          (by simp only [List.length_cons] at hfuel ⊢; omega)
        refine ⟨m', bs', n, hstep.trans hrun, ?_⟩
        exact Reshaped.trans ⟨hi.merge, hi.merge_frame, sameUsed_merge hb hc⟩ hshape
      · have hi' : HeapInv m base size (pre ++ [b] ++ rest) := by simpa using hi
        obtain ⟨m', bs', n, hrun, hshape⟩ := ih count hi' (by omega)
        refine ⟨m', bs', n, hstep.trans hrun, ?_⟩
        simpa using hshape

/-- `heap_defrag` of a heap that is not at address 0. -/
theorem heapDefrag_spec {fuel : Nat} (hi : HeapInv m base size bs) (hbase : base ≠ 0)
    (hfuel : bs.length < fuel) :
    ∃ m' bs' n, heapDefrag fuel m base = some (m', .ok n) ∧ Reshaped m m' base size bs bs' := by
  obtain ⟨m', bs', n, hrun, hshape⟩ :=
    heapDefragLoop_spec 0 (show HeapInv m base size ([] ++ bs) from hi) hfuel
  rw [← hi.startAddress_eq] at hrun
  refine ⟨m', bs', n, ?_, hshape⟩
  simp [heapDefrag, hbase, hrun]

end

end MeOS.Heap
