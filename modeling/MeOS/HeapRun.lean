import MeOS.HeapSpec
import MeOS.Lib.Runs

/-! # Heaps in use

A run starts with `heap_create` and continues with calls of `heap_alloc`,
`heap_free`, `heap_realloc` and `heap_defrag`, where blocks are freed and
reallocated at live addresses only. Between calls the owners of live
allocations write to their bytes.

`live` records what the callers hold: the requested size at each address that
has been handed out and not been taken back.
-/

namespace MeOS.Heap

open Bytes Extents Runs

/-! ## Results do not depend on the fuel -/

theorem heapFrontMergeSizeFit_mono (m : Mem) (h prev rSize : Nat) :
    FuelMono fun fuel => heapFrontMergeSizeFit fuel m h prev rSize := by
  intro n k r hn hk
  induction n generalizing m k with
  | zero => simp [heapFrontMergeSizeFit] at hn
  | succ n ih =>
    obtain ⟨k, rfl⟩ : ∃ j, k = j + 1 := ⟨k - 1, by omega⟩
    simp only [heapFrontMergeSizeFit] at hn ⊢
    split
    · rename_i hcond
      rw [if_pos hcond] at hn
      split
      · rename_i hun
        rw [if_pos hun] at hn
        exact ih _ k hn (by omega)
      · rename_i hun
        rwa [if_neg hun] at hn
    · rename_i hcond
      rwa [if_neg hcond] at hn

theorem heapAllocLoop_mono (m : Mem) (h rSize block : Nat) :
    FuelMono fun fuel => heapAllocLoop fuel m h rSize block := by
  intro n k r hn hk
  induction n generalizing m k block with
  | zero => simp [heapAllocLoop] at hn
  | succ n ih =>
    obtain ⟨k, rfl⟩ : ∃ j, k = j + 1 := ⟨k - 1, by omega⟩
    have hnk : n ≤ k := by omega
    simp only [heapAllocLoop] at hn ⊢
    by_cases hnull : block = 0
    · rwa [if_pos hnull] at hn ⊢
    rw [if_neg hnull] at hn ⊢
    by_cases hmagic : blockMagic m block ≠ heapBlockMagic
    · rwa [if_pos hmagic] at hn ⊢
    rw [if_neg hmagic] at hn ⊢
    by_cases hused : blockUsed m block
    · rw [if_pos hused] at hn ⊢
      exact ih _ _ k hn hnk
    rw [if_neg hused] at hn ⊢
    cases hfit : heapFrontMergeSizeFit n m h block rSize with
    | none => simp [hfit] at hn
    | some res =>
      obtain ⟨m₁, fits⟩ := res
      have hfit' : heapFrontMergeSizeFit k m h block rSize = some (m₁, fits) :=
        heapFrontMergeSizeFit_mono m h block rSize n k _ hfit hnk
      rw [hfit] at hn
      rw [hfit']
      cases fits with
      | true => exact hn
      | false => exact ih _ _ k hn hnk

theorem heapAlloc_mono (m : Mem) (h rSize : Nat) :
    FuelMono fun fuel => heapAlloc fuel m h rSize := by
  intro n k r hn hk
  simp only [heapAlloc] at hn ⊢
  split
  · rename_i hargs
    rwa [if_pos hargs] at hn
  · rename_i hargs
    rw [if_neg hargs] at hn
    exact heapAllocLoop_mono m h rSize _ n k r hn hk

theorem heapRealloc_mono (m : Mem) (h address newSize : Nat) :
    FuelMono fun fuel => heapRealloc fuel m h address newSize := by
  intro n k r hn hk
  simp only [heapRealloc] at hn ⊢
  by_cases hargs : h = 0 ∨ address = 0
  · rwa [if_pos hargs] at hn ⊢
  rw [if_neg hargs] at hn ⊢
  by_cases hmagic : blockMagic m (sub32 address sizeofHeapBlock) ≠ heapBlockMagic
  · rwa [if_pos hmagic] at hn ⊢
  rw [if_neg hmagic] at hn ⊢
  by_cases hsame : heapBlockSize m h (sub32 address sizeofHeapBlock) = newSize
  · rwa [if_pos hsame] at hn ⊢
  rw [if_neg hsame] at hn ⊢
  cases halloc : heapAlloc n m h newSize with
  | none => simp [halloc] at hn
  | some res =>
    have halloc' : heapAlloc k m h newSize = some res :=
      heapAlloc_mono m h newSize n k _ halloc hk
    rw [halloc] at hn
    rw [halloc']
    exact hn

theorem heapDefragLoop_mono (m : Mem) (h block blocksMerged : Nat) :
    FuelMono fun fuel => heapDefragLoop fuel m h block blocksMerged := by
  intro n k r hn hk
  induction n generalizing m k block blocksMerged with
  | zero => simp [heapDefragLoop] at hn
  | succ n ih =>
    obtain ⟨k, rfl⟩ : ∃ j, k = j + 1 := ⟨k - 1, by omega⟩
    simp only [heapDefragLoop] at hn ⊢
    split
    · rename_i hnull
      rwa [if_pos hnull] at hn
    · rename_i hnull
      rw [if_neg hnull] at hn
      split
      · rename_i hmerge
        rw [if_pos hmerge] at hn
        exact ih _ _ _ k hn (by omega)
      · rename_i hmerge
        rw [if_neg hmerge] at hn
        exact ih _ _ _ k hn (by omega)

theorem heapDefrag_mono (m : Mem) (h : Nat) : FuelMono fun fuel => heapDefrag fuel m h := by
  intro n k r hn hk
  simp only [heapDefrag] at hn ⊢
  split
  · rename_i hnull
    rwa [if_pos hnull] at hn
  · rename_i hnull
    rw [if_neg hnull] at hn
    obtain ⟨res, hres, rfl⟩ := Option.map_eq_some_iff.mp hn
    have hres' : heapDefragLoop k m h (startAddress m h) 0 = some res :=
      heapDefragLoop_mono m h _ 0 n k res hres hk
    rw [hres']
    rfl

/-! ## The system -/

/-- A call of the heap. -/
inductive Call where
  | alloc (rSize : Nat)
  | free (address : Nat)
  | realloc (address newSize : Nat)
  | defrag
deriving Repr, DecidableEq

/-- The memory after a call and what the call returned: an address, a count, or
the error it set. -/
def Call.run (fuel : Nat) (m : Mem) (h : Nat) : Call → Option (Mem × Except HeapError Nat)
  | .alloc rSize => heapAlloc fuel m h rSize
  | .free address =>
    let res := heapFree m h address
    some (res.1, res.2.map fun _ => 0)
  | .realloc address newSize => heapRealloc fuel m h address newSize
  | .defrag => heapDefrag fuel m h

theorem Call.run_mono (m : Mem) (h : Nat) (c : Call) : FuelMono fun fuel => c.run fuel m h := by
  cases c with
  | alloc rSize => exact heapAlloc_mono m h rSize
  | free address =>
    intro n k r hn _
    exact hn
  | realloc address newSize => exact heapRealloc_mono m h address newSize
  | defrag => exact heapDefrag_mono m h

/-- The live allocations: the requested size at each address. -/
abbrev Live := Nat → Option Nat

/-- What the callers hold after a call returned `res`. -/
def Call.track (live : Live) : Call → Except HeapError Nat → Live
  | _, .error _ => live
  | .alloc rSize, .ok a => Function.update live a (some rSize)
  | .free address, .ok _ => Function.update live address none
  | .realloc address newSize, .ok a =>
    Function.update (Function.update live address none) a (some newSize)
  | .defrag, .ok _ => live

/-- Blocks are freed and reallocated at live addresses only. -/
def Call.Allowed (live : Live) : Call → Prop
  | .free address => live address ≠ none
  | .realloc address _ => live address ≠ none
  | _ => True

/-- The address a call takes back or moves. -/
def Call.target : Call → Option Nat
  | .free address => some address
  | .realloc address _ => some address
  | _ => none

/-- Memory, and what the callers hold. -/
structure State where
  mem : Mem
  live : Live

/-- `x` is a byte of a live allocation. -/
def Live.Holds (live : Live) (x : Nat) : Prop :=
  ∃ a r, live a = some r ∧ a ≤ x ∧ x < a + r

/-- A step of a heap at `base` of `size` bytes: a call, or a write by an owner
of live bytes or by someone outside the heap. -/
inductive Step (base size : Nat) : State → State → Prop where
  | call {s : State} (c : Call) (fuel : Nat) {m' : Mem} {res : Except HeapError Nat}
      (hallowed : c.Allowed s.live) (hrun : c.run fuel s.mem base = some (m', res)) :
      Step base size s ⟨m', c.track s.live res⟩
  | write {s : State} (m' : Mem)
      (hsame : ∀ x, base ≤ x → x < base + size → ¬ s.live.Holds x → m' x = s.mem x) :
      Step base size s ⟨m', s.live⟩

/-- Runs from `heap_create(base, size)` in any memory. -/
def system (base size : Nat) : System State where
  Init s := ∃ m, s = ⟨heapCreate m base size, fun _ => none⟩
  Next := Step base size

instance (live : Live) : (c : Call) → Decidable (c.Allowed live)
  | .alloc _ => isTrue trivial
  | .free address => inferInstanceAs (Decidable (live address ≠ none))
  | .realloc address _ => inferInstanceAs (Decidable (live address ≠ none))
  | .defrag => isTrue trivial

/-- The state a call leads to, when it returns within its fuel. -/
def State.after (base fuel : Nat) (s : State) (c : Call) : State :=
  match c.run fuel s.mem base with
  | none => s
  | some (m', res) => ⟨m', c.track s.live res⟩

theorem State.after_reachable {base size : Nat} {s : State} {c : Call}
    (h : (system base size).Reachable s) (fuel : Nat) (hc : c.Allowed s.live) :
    (system base size).Reachable (s.after base fuel c) := by
  unfold State.after
  cases hrun : c.run fuel s.mem base with
  | none => exact h
  | some res => exact .next h (Step.call c fuel hc hrun)

/-! ## The invariant -/

/-- The live addresses are the payloads of the used blocks `bs`, and hold the
requested sizes. -/
structure Tracks (live : Live) (bs : List Blk) : Prop where
  block : ∀ a r, live a = some r → 0 < r ∧ ∃ b ∈ bs, b.used = true ∧ b.payload = a ∧ r ≤ b.size
  owned : ∀ b ∈ bs, b.used = true → live b.payload ≠ none

/-- The heap has a chain of blocks and its used blocks are the live ones. -/
def Inv (base size : Nat) (s : State) : Prop :=
  ∃ bs, HeapInv s.mem base size bs ∧ Tracks s.live bs

section Tracking

variable {m m' : Mem} {base size r : Nat} {bs bs' : List Blk} {b c : Blk} {live : Live}

theorem Tracks.of_same (h : Tracks live bs) (hs : SameUsed bs bs') : Tracks live bs' where
  block a r ha := by
    obtain ⟨hr, b, hb, hu, hrest⟩ := h.block a r ha
    exact ⟨hr, b, (hs b hu).mpr hb, hu, hrest⟩
  owned b hb hu := h.owned b ((hs b hu).mp hb) hu

/-- A used block of a tracked heap is not empty. -/
theorem Tracks.size_pos (h : Tracks live bs) (hi : HeapInv m base size bs) (hb : b ∈ bs)
    (hu : b.used = true) : 0 < b.size := by
  obtain ⟨r, hr⟩ := Option.ne_none_iff_exists'.mp (h.owned b hb hu)
  obtain ⟨hpos, c, hc, _, hcb, hle⟩ := h.block _ r hr
  have hbc : c = b := hi.eq_of_addr hc hb (by simp only [Blk.payload] at hcb; omega)
  rw [← hbc]
  omega

/-- The used block behind a live address. -/
theorem Tracks.block_of (h : Tracks live bs) {a : Nat} (ha : live a ≠ none) :
    ∃ b ∈ bs, b.used = true ∧ b.payload = a := by
  obtain ⟨r, hr⟩ := Option.ne_none_iff_exists'.mp ha
  obtain ⟨_, b, hb, hu, hp, _⟩ := h.block a r hr
  exact ⟨b, hb, hu, hp⟩

/-- Blocks of one heap have different payload addresses. -/
theorem HeapInv.eq_of_payload (hi : HeapInv m base size bs) (hb : b ∈ bs) (hc : c ∈ bs)
    (h : b.payload = c.payload) : b = c :=
  hi.eq_of_addr hb hc (by simp only [Blk.payload] at h; omega)

/-- A live address is not the payload of a fresh block. -/
theorem Tracks.fresh (h : Tracks live bs) {a : Nat} (ha : live a = some r)
    (hf : ∀ d ∈ bs, d.used = true → d.addr ≠ b.addr) : a ≠ b.payload := by
  obtain ⟨_, d, hd, hu, rfl, _⟩ := h.block a r ha
  have hne := hf d hd hu
  simp only [Blk.payload]
  omega

theorem Tracks.alloc (h : Tracks live bs) (hr : 0 < r)
    (ha : Allocated m m' base size r bs bs' b) :
    Tracks (Function.update live b.payload (some r)) bs' where
  block a n hn := by
    by_cases hab : a = b.payload
    · subst hab
      simp only [Function.update_self, Option.some.injEq] at hn
      subst hn
      exact ⟨hr, b, (ha.mem_iff b ha.used).mpr (Or.inr rfl), ha.used, rfl, ha.fits⟩
    · rw [Function.update_of_ne hab] at hn
      obtain ⟨hpos, c, hc, hu, hrest⟩ := h.block a n hn
      exact ⟨hpos, c, (ha.mem_iff c hu).mpr (Or.inl hc), hu, hrest⟩
  owned c hc hu := by
    rcases (ha.mem_iff c hu).mp hc with hc | rfl
    · by_cases hcb : c.payload = b.payload
      · simp [hcb]
      · rw [Function.update_of_ne hcb]
        exact h.owned c hc hu
    · simp

theorem Tracks.free (h : Tracks live bs) (hi : HeapInv m base size bs) (hb : b ∈ bs)
    (hf : Freed m m' base size bs bs' b) :
    Tracks (Function.update live b.payload none) bs' where
  block a n hn := by
    have hab : a ≠ b.payload := by
      rintro rfl
      simp at hn
    rw [Function.update_of_ne hab] at hn
    obtain ⟨hpos, c, hc, hu, hp, hle⟩ := h.block a n hn
    have hcb : c ≠ b := by
      rintro rfl
      exact hab hp.symm
    exact ⟨hpos, c, (hf.mem_iff c hu).mpr ⟨hc, hcb⟩, hu, hp, hle⟩
  owned c hc hu := by
    obtain ⟨hc, hcb⟩ := (hf.mem_iff c hu).mp hc
    have hne : c.payload ≠ b.payload := fun h => hcb (hi.eq_of_payload hc hb h)
    rw [Function.update_of_ne hne]
    exact h.owned c hc hu

theorem Tracks.realloc (h : Tracks live bs) (hi : HeapInv m base size bs) (hb : b ∈ bs)
    (hu : b.used = true) (hm : Reallocated m m' base size r bs bs' b c) :
    Tracks (Function.update (Function.update live b.payload none) c.payload (some r)) bs' where
  block a n hn := by
    by_cases hac : a = c.payload
    · subst hac
      simp only [Function.update_self, Option.some.injEq] at hn
      subst hn
      have hcb : c ≠ b := by
        rintro rfl
        exact hm.fresh c hb hu rfl
      exact ⟨hm.pos, c, (hm.mem_iff c hm.used).mpr ⟨Or.inr rfl, hcb⟩, hm.used, rfl, hm.fits⟩
    · rw [Function.update_of_ne hac] at hn
      have hab : a ≠ b.payload := by
        rintro rfl
        simp at hn
      rw [Function.update_of_ne hab] at hn
      obtain ⟨hpos, d, hd, hdu, hp, hle⟩ := h.block a n hn
      have hdb : d ≠ b := by
        rintro rfl
        exact hab hp.symm
      exact ⟨hpos, d, (hm.mem_iff d hdu).mpr ⟨Or.inl hd, hdb⟩, hdu, hp, hle⟩
  owned d hd hdu := by
    obtain ⟨hd | rfl, hdb⟩ := (hm.mem_iff d hdu).mp hd
    · by_cases hdc : d.payload = c.payload
      · simp [hdc]
      · have hne : d.payload ≠ b.payload := fun h => hdb (hi.eq_of_payload hd hb h)
        rw [Function.update_of_ne hdc, Function.update_of_ne hne]
        exact h.owned d hd hdu
    · simp

/-- A reallocation in place records the new size. -/
theorem Tracks.resize (h : Tracks live bs) (hi : HeapInv m base size bs) (hb : b ∈ bs)
    (hu : b.used = true) :
    Tracks (Function.update (Function.update live b.payload none) b.payload (some b.size)) bs where
  block a n hn := by
    by_cases hab : a = b.payload
    · subst hab
      simp only [Function.update_self, Option.some.injEq] at hn
      subst hn
      exact ⟨h.size_pos hi hb hu, b, hb, hu, rfl, le_refl _⟩
    · rw [Function.update_of_ne hab, Function.update_of_ne hab] at hn
      exact h.block a n hn
  owned c hc hcu := by
    by_cases hcb : c.payload = b.payload
    · simp [hcb]
    · rw [Function.update_of_ne hcb, Function.update_of_ne hcb]
      exact h.owned c hc hcu

end Tracking

/-! ## Steps -/

section Steps

variable {base size : Nat} {s s' : State} {c : Call}

/-- An allowed call has returned `res` and left memory `m'`. -/
structure Served (base size : Nat) (s : State) (c : Call) (m' : Mem)
    (res : Except HeapError Nat) : Prop where
  inv : Inv base size ⟨m', c.track s.live res⟩
  tracked : ∀ a r, s.live a = some r → c.target ≠ some a → c.track s.live res a = some r
  kept : ∀ a r, s.live a = some r → ∀ x, a ≤ x → x < a + r → m' x = s.mem x
  outside : ∀ x, x < base ∨ base + size ≤ x → m' x = s.mem x

/-- A call that fails without touching the memory. -/
theorem Served.refused (h : Inv base size s) (e : HeapError) :
    Served base size s c s.mem (.error e) := by
  refine ⟨?_, fun a r ha _ => ?_, fun _ _ _ _ _ _ => rfl, fun _ _ => rfl⟩
  · cases c <;> exact h
  · cases c <;> exact ha

/-- A frame that spares the used blocks spares the live bytes. -/
theorem Served.of_frame {m' : Mem} {res : Except HeapError Nat} {bs : List Blk}
    (ht : Tracks s.live bs) (hinv : Inv base size ⟨m', c.track s.live res⟩)
    (hf : Frame s.mem m' base size bs)
    (htracked : ∀ a r, s.live a = some r → c.target ≠ some a → c.track s.live res a = some r) :
    Served base size s c m' res where
  inv := hinv
  tracked := htracked
  kept a r ha x h₁ h₂ := by
    obtain ⟨_, b, hb, hu, rfl, hle⟩ := ht.block a r ha
    refine hf.payload b hb hu x h₁ ?_
    simp only [Blk.payload, Blk.fin] at h₂ ⊢
    omega
  outside := hf.outside

/-- A call that only reshapes unused space. -/
theorem Served.of_reshaped {m' : Mem} {bs bs' : List Blk} {res : Except HeapError Nat}
    (ht : Tracks s.live bs) (hr : Reshaped s.mem m' base size bs bs')
    (hsame : c.track s.live res = s.live) : Served base size s c m' res :=
  Served.of_frame ht ⟨bs', hr.inv, by rw [hsame]; exact ht.of_same hr.same⟩ hr.frame
    fun a r ha _ => by rw [hsame, ha]

/-- Every allowed call returns, and serves its caller. -/
theorem call_served (h : Inv base size s) (hc : c.Allowed s.live) :
    ∃ fuel m' res, c.run fuel s.mem base = some (m', res) ∧ Served base size s c m' res := by
  by_cases hbase : base = 0
  · -- a heap at address 0 is a null pointer for its own functions
    subst hbase
    refine ⟨1, s.mem, .error .badArgument, ?_, Served.refused h _⟩
    cases c <;> simp [Call.run, heapAlloc, heapFree, heapRealloc, heapDefrag, Except.map]
  obtain ⟨bs, hi, ht⟩ := h
  have hfuel : bs.length < bs.length + 1 := Nat.lt_succ_self _
  cases c with
  | alloc r =>
    by_cases hr : r = 0
    · refine ⟨1, s.mem, .error .badArgument, ?_, Served.refused ⟨bs, hi, ht⟩ _⟩
      simp [Call.run, heapAlloc, hr]
    have hpos := Nat.pos_of_ne_zero hr
    rcases heapAlloc_spec hi hbase hpos hfuel with
      ⟨m', bs', b, hrun, halloc⟩ | ⟨m', bs', hrun, hshape⟩
    · refine ⟨_, m', _, hrun,
        Served.of_frame ht ⟨bs', halloc.inv, ht.alloc hpos halloc⟩ halloc.frame ?_⟩
      intro a n ha _
      have hab : a ≠ b.payload := fun h => ht.fresh ha halloc.fresh h
      simp only [Call.track]
      rw [Function.update_of_ne hab, ha]
    · exact ⟨_, m', _, hrun, Served.of_reshaped ht hshape rfl⟩
  | free a =>
    obtain ⟨b, hb, hu, rfl⟩ := ht.block_of hc
    obtain ⟨m', bs', hrun, hfreed⟩ := heapFree_spec hi hb hu (ht.size_pos hi hb hu) hbase
    refine ⟨1, m', .ok 0, ?_,
      Served.of_frame ht ⟨bs', hfreed.inv, ht.free hi hb hfreed⟩ hfreed.frame ?_⟩
    · simp [Call.run, hrun, Except.map]
    · intro a n ha htarget
      have hab : a ≠ b.payload := fun h => htarget (by rw [h]; rfl)
      simp only [Call.track]
      rw [Function.update_of_ne hab, ha]
  | realloc a r =>
    obtain ⟨b, hb, hu, rfl⟩ := ht.block_of hc
    have hsize := ht.size_pos hi hb hu
    rcases heapRealloc_spec (r := r) hi hb hu hsize hbase hfuel with
      ⟨hrun, rfl⟩ | ⟨m', bs', e, hrun, hshape⟩ | ⟨m', bs', d, hrun, hmoved⟩
    · refine ⟨_, s.mem, _, hrun,
        Served.of_frame ht ⟨bs, hi, ht.resize hi hb hu⟩ (Frame.refl _ _ _ _) ?_⟩
      intro a n ha htarget
      have hab : a ≠ b.payload := fun h => htarget (by rw [h]; rfl)
      simp only [Call.track]
      rw [Function.update_of_ne hab, Function.update_of_ne hab, ha]
    · exact ⟨_, m', _, hrun, Served.of_reshaped ht hshape rfl⟩
    · refine ⟨_, m', _, hrun, Served.of_frame ht
        ⟨bs', hmoved.inv, ht.realloc hi hb hu hmoved⟩ hmoved.frame ?_⟩
      intro a n ha htarget
      have had : a ≠ d.payload := fun h => ht.fresh ha hmoved.fresh h
      have hab : a ≠ b.payload := fun h => htarget (by rw [h]; rfl)
      simp only [Call.track]
      rw [Function.update_of_ne had, Function.update_of_ne hab, ha]
  | defrag =>
    obtain ⟨m', bs', n, hrun, hshape⟩ := heapDefrag_spec hi hbase hfuel
    exact ⟨_, m', _, hrun, Served.of_reshaped ht hshape rfl⟩

/-- What an allowed call that has returned did. -/
theorem served_of_run {fuel : Nat} {m' : Mem} {res : Except HeapError Nat}
    (h : Inv base size s) (hc : c.Allowed s.live)
    (hrun : c.run fuel s.mem base = some (m', res)) : Served base size s c m' res := by
  obtain ⟨fuel', m'', res', hrun', hserved⟩ := call_served h hc
  have heq := (Call.run_mono s.mem base c).unique hrun hrun'
  cases heq
  exact hserved

/-- A live allocation lies inside the heap. -/
theorem Inv.inside (h : Inv base size s) {a r : Nat} (ha : s.live a = some r) :
    base ≤ a ∧ a + r ≤ base + size := by
  obtain ⟨bs, hi, ht⟩ := h
  obtain ⟨_, b, hb, _, rfl, hle⟩ := ht.block a r ha
  have hbd := hi.bounds hb
  simp only [Blk.payload]
  omega

/-- Live allocations are disjoint. -/
theorem Inv.apart (h : Inv base size s) {a r a' r' : Nat} (ha : s.live a = some r)
    (ha' : s.live a' = some r') (hne : a ≠ a') : a + r ≤ a' ∨ a' + r' ≤ a := by
  obtain ⟨bs, hi, ht⟩ := h
  obtain ⟨_, b, hb, _, rfl, hle⟩ := ht.block a r ha
  obtain ⟨_, c, hc, _, rfl, hle'⟩ := ht.block a' r' ha'
  have hbc : b ≠ c := fun h => hne (congrArg Blk.payload h)
  have happ := hi.apart hb hc hbc
  simp only [Blk.payload]
  omega

/-- Writes to live bytes or outside the heap keep the invariant. -/
theorem Inv.write (h : Inv base size s) {m' : Mem}
    (hsame : ∀ x, base ≤ x → x < base + size → ¬ s.live.Holds x → m' x = s.mem x) :
    Inv base size ⟨m', s.live⟩ := by
  obtain ⟨bs, hi, ht⟩ := h
  refine ⟨bs, hi.of_payload_writes fun x h₁ h₂ hx => hsame x h₁ h₂ ?_, ht⟩
  rintro ⟨a, r, ha, hlo, hhi⟩
  obtain ⟨_, b, hb, hu, rfl, hle⟩ := ht.block a r ha
  have hxb := hx b hb hu
  simp only [Blk.fin, Blk.payload] at hxb hlo hhi
  omega

/-- The invariant is inductive. -/
theorem inv_inductive (hroom : 20 ≤ size) (htop : base + size ≤ 4294967296) :
    (system base size).Inductive (Inv base size) where
  init := by
    rintro _ ⟨m, rfl⟩
    refine ⟨_, heapCreate_spec m hroom htop, ⟨fun a r ha => by simp at ha, fun b hb hu => ?_⟩⟩
    obtain rfl := List.mem_singleton.mp hb
    simp at hu
  next := by
    intro s s' h hs
    cases hs with
    | call c fuel hallowed hrun => exact (served_of_run h hallowed hrun).inv
    | write m' hsame => exact h.write hsame

end Steps

/-! ## The chain in memory -/

/-- The headers reached from `b` over `next`, up to null. -/
inductive Chain (m : Mem) : Nat → List Nat → Prop where
  | null : Chain m 0 []
  | block {b : Nat} {rest : List Nat} (hb : b ≠ 0) (h : Chain m (blockNext m b) rest) :
      Chain m b (b :: rest)

/-- The representation invariant of a heap, read off its memory. -/
structure Represents (base size : Nat) (s : State) (chain : List Nat) : Prop where
  start : startAddress s.mem base = base + 12
  stop : startAddress s.mem base + heapSize s.mem base = base + size
  links : Chain s.mem (startAddress s.mem base) chain
  increasing : chain.Pairwise (· < ·)
  magic : ∀ b ∈ chain, blockMagic s.mem b = heapBlockMagic
  tiles : Tiles id (fun b => b + 8 + heapBlockSize s.mem base b)
    (startAddress s.mem base) chain (startAddress s.mem base + heapSize s.mem base)
  used : ∀ b ∈ chain, blockUsed s.mem b = true ↔ s.live (b + 8) ≠ none
  live : ∀ a, s.live a ≠ none → ∃ b ∈ chain, a = b + 8
  count : currentBlocks s.mem base = chain.length

section Represent

variable {m : Mem} {base size : Nat} {bs pre post : List Blk} {s : State}

/-- The blocks of the invariant are the chain in memory. -/
theorem HeapInv.chain (hi : HeapInv m base size (pre ++ post)) :
    Chain m (headAddr post) (post.map Blk.addr) := by
  induction post generalizing pre with
  | nil => exact Chain.null
  | cons b rest ih =>
    have hbd := hi.bounds (b := b) (by simp)
    refine Chain.block (b := b.addr) (by omega) ?_
    rw [hi.next]
    exact ih (show HeapInv m base size ((pre ++ [b]) ++ rest) by simpa using hi)

/-- The sizes the source computes tile the heap like the blocks do. -/
theorem HeapInv.tiles_addr {a z : Nat} {l : List Blk} (hi : HeapInv m base size bs)
    (hl : ∀ b ∈ l, b ∈ bs) (h : Tiles Blk.addr Blk.fin a l z) :
    Tiles id (fun b => b + 8 + heapBlockSize m base b) a (l.map Blk.addr) z := by
  induction l generalizing a with
  | nil => exact h
  | cons b rest ih =>
    obtain ⟨haddr, hle, htail⟩ := h
    have hsize := hi.blockSize (hl b (by simp))
    have hfin : b.addr + 8 + heapBlockSize m base b.addr = b.fin := by
      rw [hsize]
      rfl
    refine ⟨haddr, ?_, ?_⟩
    · show a ≤ b.addr + 8 + heapBlockSize m base b.addr
      rw [hfin]
      exact hle
    · show Tiles id _ (b.addr + 8 + heapBlockSize m base b.addr) _ _
      rw [hfin]
      exact ih (fun c hc => hl c (by simp [hc])) htail

/-- Addresses of a tiling by blocks increase. -/
theorem tiles_increasing {a z : Nat} {l : List Blk} (h : Tiles Blk.addr Blk.fin a l z) :
    (l.map Blk.addr).Pairwise (· < ·) := by
  rw [List.pairwise_map]
  refine h.ordered.imp fun {b c} hbc => ?_
  simp only [Before, Blk.fin] at hbc
  omega

theorem Inv.represents (h : Inv base size s) : ∃ chain, Represents base size s chain := by
  obtain ⟨bs, hi, ht⟩ := h
  have hroom := hi.room
  have hstart := hi.start
  have hstop : startAddress s.mem base + heapSize s.mem base = base + size := by
    rw [hstart, hi.sizeEq]
    omega
  refine ⟨bs.map Blk.addr, ?_⟩
  refine
    { start := hstart, stop := hstop, links := ?_, increasing := tiles_increasing hi.tiles,
      magic := ?_, tiles := ?_, used := ?_, live := ?_, count := ?_ }
  · rw [hi.startAddress_eq]
    exact HeapInv.chain (show HeapInv s.mem base size ([] ++ bs) from hi)
  · intro x hx
    obtain ⟨b, hb, rfl⟩ := List.mem_map.mp hx
    exact (hi.headers b hb).magic
  · rw [hstop, hstart]
    exact hi.tiles_addr (fun b hb => hb) hi.tiles
  · intro x hx
    obtain ⟨b, hb, rfl⟩ := List.mem_map.mp hx
    rw [(hi.headers b hb).used]
    refine ⟨fun hu => ht.owned b hb hu, fun hlive => ?_⟩
    obtain ⟨c, hc, hu, hcb⟩ := ht.block_of hlive
    rw [← hi.eq_of_payload hc hb hcb]
    exact hu
  · intro a ha
    obtain ⟨b, hb, _, rfl⟩ := ht.block_of ha
    exact ⟨b.addr, List.mem_map_of_mem hb, rfl⟩
  · rw [hi.count, List.length_map]

end Represent

/-! ## What runs guarantee -/

section Guarantees

variable {base size : Nat} {s : State}

/-- Every reachable heap is well formed, and every allowed call on it returns. -/
theorem heap_wellFormed (hroom : 20 ≤ size) (htop : base + size ≤ 4294967296)
    (h : (system base size).Reachable s) :
    (∃ chain, Represents base size s chain) ∧
      ∀ c : Call, c.Allowed s.live → ∃ fuel m' res, c.run fuel s.mem base = some (m', res) := by
  have hinv := (inv_inductive hroom htop).holds h
  refine ⟨hinv.represents, fun c hc => ?_⟩
  obtain ⟨fuel, m', res, hrun, _⟩ := call_served hinv hc
  exact ⟨fuel, m', res, hrun⟩

/-- A heap of 1000 bytes at 4096, in zeroed memory, after `heap_alloc(h, 16)`. -/
def oneAllocation : State :=
  ⟨heapUseBlock (heapCreate (fun _ => 0) 4096 1000) 4096 4108 16,
    Function.update (fun _ => none) 4116 (some 16)⟩

theorem oneAllocation_reachable : (system 4096 1000).Reachable oneAllocation :=
  .next (.init ⟨fun _ => 0, rfl⟩) (Step.call (.alloc 16) 3 trivial
    (show Call.run 3 _ 4096 (.alloc 16) = some (_, .ok 4116) from rfl))

theorem heap_wellFormed_oneAllocation :
    (∃ chain, Represents 4096 1000 oneAllocation chain) ∧
      ∀ c : Call, c.Allowed oneAllocation.live →
        ∃ fuel m' res, c.run fuel oneAllocation.mem 4096 = some (m', res) :=
  heap_wellFormed (by decide) (by decide) oneAllocation_reachable

/-- Live allocations lie inside the heap, are disjoint, and keep their bytes
through every call that does not take them back. -/
theorem heap_live_safe (hroom : 20 ≤ size) (htop : base + size ≤ 4294967296)
    (h : (system base size).Reachable s) :
    (∀ a r, s.live a = some r → base ≤ a ∧ a + r ≤ base + size) ∧
    (∀ a₁ r₁ a₂ r₂, s.live a₁ = some r₁ → s.live a₂ = some r₂ → a₁ ≠ a₂ →
      a₁ + r₁ ≤ a₂ ∨ a₂ + r₂ ≤ a₁) ∧
    (∀ (c : Call) fuel m' res, c.Allowed s.live → c.run fuel s.mem base = some (m', res) →
      ∀ a r, s.live a = some r → c.target ≠ some a →
        c.track s.live res a = some r ∧ ∀ x, a ≤ x → x < a + r → m' x = s.mem x) := by
  have hinv := (inv_inductive hroom htop).holds h
  refine ⟨fun a r ha => hinv.inside ha, ?_, ?_⟩
  · intro a₁ r₁ a₂ r₂ h₁ h₂ hne
    exact hinv.apart h₁ h₂ hne
  · intro c fuel m' res hc hrun a r ha htarget
    have hserved := served_of_run hinv hc hrun
    exact ⟨hserved.tracked a r ha htarget, hserved.kept a r ha⟩

theorem heap_live_safe_oneAllocation :
    (∀ a r, oneAllocation.live a = some r → 4096 ≤ a ∧ a + r ≤ 4096 + 1000) ∧
    (∀ a₁ r₁ a₂ r₂, oneAllocation.live a₁ = some r₁ → oneAllocation.live a₂ = some r₂ →
      a₁ ≠ a₂ → a₁ + r₁ ≤ a₂ ∨ a₂ + r₂ ≤ a₁) ∧
    (∀ (c : Call) fuel m' res, c.Allowed oneAllocation.live →
      c.run fuel oneAllocation.mem 4096 = some (m', res) →
      ∀ a r, oneAllocation.live a = some r → c.target ≠ some a →
        c.track oneAllocation.live res a = some r ∧
          ∀ x, a ≤ x → x < a + r → m' x = oneAllocation.mem x) :=
  heap_live_safe (by decide) (by decide) oneAllocation_reachable

end Guarantees

end MeOS.Heap
