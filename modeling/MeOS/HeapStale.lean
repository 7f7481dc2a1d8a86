import MeOS.HeapRun

/-! # Calls on stale addresses

The one check `heap_free` and `heap_realloc` make of an address is the magic
word in front of it. A header that has been freed or merged away stays in
memory, so the check says whether someone has written over it since, not
whether the address is live. Histories record every address that has been
handed out, and tell exactly which stale addresses are turned away.
-/

namespace MeOS.Heap

open Bytes Extents Runs

/-- The address a call has handed out. -/
def Call.returned : Call → Except HeapError Nat → Option Nat
  | .alloc _, .ok a => some a
  | .realloc _ _, .ok a => some a
  | _, _ => none

/-- A heap in use, and the addresses handed out so far. -/
structure History where
  state : State
  issued : List Nat

/-- A step of the heap, with the address it hands out. -/
inductive HistoryStep (base size : Nat) : History → History → Prop where
  | call {h : History} (c : Call) (fuel : Nat) {m' : Mem} {res : Except HeapError Nat}
      (hallowed : c.Allowed h.state.live) (hrun : c.run fuel h.state.mem base = some (m', res)) :
      HistoryStep base size h
        ⟨⟨m', c.track h.state.live res⟩, (c.returned res).toList ++ h.issued⟩
  | write {h : History} (m' : Mem)
      (hsame : ∀ x, base ≤ x → x < base + size → ¬ h.state.live.Holds x →
        m' x = h.state.mem x) :
      HistoryStep base size h ⟨⟨m', h.state.live⟩, h.issued⟩

/-- Runs from `heap_create(base, size)`, with what they have handed out. -/
def histories (base size : Nat) : System History where
  Init h := (system base size).Init h.state ∧ h.issued = []
  Next := HistoryStep base size

/-- A call has failed and left the chain, the counter and the live bytes. -/
structure Rejected (base size : Nat) (s : State) {β : Type} (m' : Mem)
    (res : Except HeapError β) : Prop where
  error : ∃ e, res = .error e
  chain : ∀ bs, HeapInv s.mem base size bs → HeapInv m' base size bs
  count : currentBlocks m' base = currentBlocks s.mem base
  bytes : ∀ x, s.live.Holds x → m' x = s.mem x

section Histories

variable {base size : Nat} {h : History} {s : State} {a : Nat}

/-- The heap of a history is a heap in use. -/
theorem histories_reachable (hr : (histories base size).Reachable h) :
    (system base size).Reachable h.state := by
  induction hr with
  | init hinit => exact .init hinit.1
  | next _ hstep ih =>
    cases hstep with
    | call c fuel hallowed hrun => exact .next ih (Step.call c fuel hallowed hrun)
    | write m' hsame => exact .next ih (Step.write m' hsame)

/-- An address that is handed out is live then. -/
theorem Call.track_returned {c : Call} {live : Live} {res : Except HeapError Nat}
    (hret : c.returned res = some a) : c.track live res a ≠ none := by
  cases c with
  | alloc r =>
    cases res with
    | error e => cases hret
    | ok b =>
      obtain rfl : b = a := by simpa [Call.returned] using hret
      simp [Call.track]
  | realloc b n =>
    cases res with
    | error e => cases hret
    | ok d =>
      obtain rfl : d = a := by simpa [Call.returned] using hret
      simp [Call.track]
  | free b => cases res <;> cases hret
  | defrag => cases res <;> cases hret

/-- A null heap hands out nothing. -/
theorem Call.returned_null {c : Call} {m m' : Mem} {fuel : Nat} {res : Except HeapError Nat}
    (hrun : c.run fuel m 0 = some (m', res)) : c.returned res = none := by
  cases c with
  | alloc r =>
    obtain ⟨_, rfl⟩ : m = m' ∧ Except.error HeapError.badArgument = res := by
      simpa [Call.run, heapAlloc] using hrun
    rfl
  | realloc b n =>
    obtain ⟨_, rfl⟩ : m = m' ∧ Except.error HeapError.badArgument = res := by
      simpa [Call.run, heapRealloc] using hrun
    rfl
  | free b => cases res <;> rfl
  | defrag => cases res <;> rfl

/-- A live address has room for a header in front of it. -/
theorem Inv.live_bounds (hinv : Inv base size s) (ha : s.live a ≠ none) :
    base + 20 ≤ a ∧ a < base + size := by
  obtain ⟨bs, hi, ht⟩ := hinv
  obtain ⟨b, hb, hu, rfl⟩ := ht.block_of ha
  have hbd := hi.bounds hb
  have hpos := ht.size_pos hi hb hu
  simp only [Blk.payload]
  omega

/-- Every address a run has handed out was one of a heap that is not null, with
room for a header in front of it. -/
theorem issued_bounds (hroom : 20 ≤ size) (htop : base + size ≤ 4294967296)
    (hr : (histories base size).Reachable h) :
    ∀ a ∈ h.issued, base ≠ 0 ∧ base + 20 ≤ a ∧ a < base + size := by
  induction hr with
  | init hinit => simp [hinit.2]
  | next hprev hstep ih =>
    have hinv := (inv_inductive hroom htop).holds (histories_reachable hprev)
    cases hstep with
    | write m' hsame => exact ih
    | call c fuel hallowed hrun =>
      intro a ha
      rcases List.mem_append.mp ha with ha | ha
      · -- the address this call has handed out
        have hret := Option.mem_toList.mp ha
        refine ⟨?_, Inv.live_bounds (served_of_run hinv hallowed hrun).inv (c.track_returned hret)⟩
        rintro rfl
        rw [Call.returned_null hrun] at hret
        cases hret
      · exact ih a ha

/-- `heap_free` leaves the magic word of the block it takes back. -/
theorem heapFree_magic {m : Mem} (hlo : base + 20 ≤ a) (hhi : a < 4294967296) :
    blockMagic (heapFree m base a).1 (a - 8) = blockMagic m (a - 8) := by
  have hblock : sub32 a 8 = a - 8 := sub32_eq (by omega) (by omega)
  refine load16_congr fun x h₁ h₂ => ?_
  simp only [heapFree, sizeofHeapBlock, hblock]
  split
  · rfl
  split
  · rfl
  have hmark : setUsed m (a - 8) false x = m x := setUsed_frame _ _ _ (by omega)
  split
  · have hmerge : heapFrontMergeBlock (setUsed m (a - 8) false) base (a - 8) x =
        setUsed m (a - 8) false x :=
      heapFrontMergeBlock_frame (b := ⟨a - 8, 0, false⟩) (Or.inl (by simp only; omega))
        (Or.inr (by omega))
    exact hmerge.trans hmark
  · exact hmark

/-- A live address that is freed twice is accepted twice. -/
theorem heapFree_twice (hroom : 20 ≤ size) (htop : base + size ≤ 4294967296) (hbase : base ≠ 0)
    (hr : (system base size).Reachable s) (ha : s.live a ≠ none) :
    (heapFree s.mem base a).2 = .ok () ∧
      (heapFree (heapFree s.mem base a).1 base a).2 = .ok () := by
  have hinv := (inv_inductive hroom htop).holds hr
  obtain ⟨hlo, hhi⟩ := hinv.live_bounds ha
  obtain ⟨bs, hi, ht⟩ := hinv
  obtain ⟨b, hb, hu, rfl⟩ := ht.block_of ha
  have hmagic : blockMagic s.mem (b.payload - 8) = heapBlockMagic := by
    simpa [Blk.payload] using (hi.headers b hb).magic
  have hargs : ¬ (base = 0 ∨ b.payload = 0) := by omega
  have hblock : sub32 b.payload 8 = b.payload - 8 := sub32_eq (by omega) (by omega)
  -- the magic is all that is looked at
  have haccept : ∀ m : Mem, blockMagic m (b.payload - 8) = heapBlockMagic →
      (heapFree m base b.payload).2 = .ok () := by
    intro m hm
    simp only [heapFree, if_neg hargs, sizeofHeapBlock, hblock, hm, ne_eq, not_true_eq_false,
      if_false]
    split <;> rfl
  refine ⟨haccept _ hmagic, haccept _ ?_⟩
  rw [heapFree_magic hlo (by omega)]
  exact hmagic

/-- `heap_free` and `heap_realloc` turn an address that has been handed out
away exactly when the magic word of its header has been written over: stale or
not makes no difference to them. -/
theorem stale_rejected_iff (hroom : 20 ≤ size) (htop : base + size ≤ 4294967296)
    (hr : (histories base size).Reachable h) (ha : a ∈ h.issued) :
    (Rejected base size h.state (heapFree h.state.mem base a).1 (heapFree h.state.mem base a).2 ∧
      ∀ n, ∃ fuel m' res, heapRealloc fuel h.state.mem base a n = some (m', res) ∧
        Rejected base size h.state m' res) ↔
      blockMagic h.state.mem (a - 8) ≠ heapBlockMagic := by
  obtain ⟨hbase, hlo, hhi⟩ := issued_bounds hroom htop hr a ha
  have hargs : ¬ (base = 0 ∨ a = 0) := by omega
  have hblock : sub32 a 8 = a - 8 := sub32_eq (by omega) (by omega)
  constructor
  · rintro ⟨hfree, _⟩ hmagic
    -- with the magic in place `heap_free` answers `ERROR_OK`
    obtain ⟨e, he⟩ := hfree.error
    simp only [heapFree, if_neg hargs, sizeofHeapBlock, hblock, hmagic, ne_eq, not_true_eq_false,
      if_false] at he
    split at he <;> cases he
  · intro hmagic
    have hsame : ∀ {β : Type} (e : HeapError),
        Rejected base size h.state h.state.mem (Except.error (α := β) e) := fun e =>
      ⟨⟨e, rfl⟩, fun _ hi => hi, rfl, fun _ _ => rfl⟩
    refine ⟨?_, fun n => ⟨0, h.state.mem, .error .badMagic, ?_, hsame _⟩⟩
    · have hfree : heapFree h.state.mem base a = (h.state.mem, .error .badMagic) := by
        simp [heapFree, hargs, hblock, hmagic]
      rw [hfree]
      exact hsame _
    · simp [heapRealloc, hargs, hblock, hmagic]

end Histories

/-! ## A stale address inside a live allocation -/

/-- The history a call leads to, when it returns within its fuel. -/
def History.after (base fuel : Nat) (h : History) (c : Call) : History :=
  match c.run fuel h.state.mem base with
  | none => h
  | some (m', res) => ⟨⟨m', c.track h.state.live res⟩, (c.returned res).toList ++ h.issued⟩

theorem History.after_reachable {base size : Nat} {h : History} {c : Call}
    (hr : (histories base size).Reachable h) (fuel : Nat) (hc : c.Allowed h.state.live) :
    (histories base size).Reachable (h.after base fuel c) := by
  unfold History.after
  cases hrun : c.run fuel h.state.mem base with
  | none => exact hr
  | some res => exact .next hr (HistoryStep.call c fuel hc hrun)

/-- A new heap of 1000 bytes at 4096. -/
def newHistory : History := ⟨⟨heapCreate (fun _ => 0) 4096 1000, fun _ => none⟩, []⟩

theorem newHistory_reachable : (histories 4096 1000).Reachable newHistory :=
  .init ⟨⟨fun _ => 0, rfl⟩, rfl⟩

/-- Three blocks of 16 bytes, freed in the order two, one, three; then 40 bytes
that cover the header of the second. -/
def coveredHeader : History :=
  [Call.alloc 16, .alloc 16, .alloc 16, .free 4140, .free 4116, .free 4164, .alloc 40].foldl
    (History.after 4096 9) newHistory

theorem coveredHeader_reachable : (histories 4096 1000).Reachable coveredHeader := by
  have h₁ := History.after_reachable (c := .alloc 16) newHistory_reachable 9 trivial
  have h₂ := History.after_reachable (c := .alloc 16) h₁ 9 trivial
  have h₃ := History.after_reachable (c := .alloc 16) h₂ 9 trivial
  have h₄ := History.after_reachable (c := .free 4140) h₃ 9 (by decide +kernel)
  have h₅ := History.after_reachable (c := .free 4116) h₄ 9 (by decide +kernel)
  have h₆ := History.after_reachable (c := .free 4164) h₅ 9 (by decide +kernel)
  exact History.after_reachable (c := .alloc 40) h₆ 9 trivial

theorem stale_rejected_iff_coveredHeader :
    (Rejected 4096 1000 coveredHeader.state (heapFree coveredHeader.state.mem 4096 4140).1
        (heapFree coveredHeader.state.mem 4096 4140).2 ∧
      ∀ n, ∃ fuel m' res,
        heapRealloc fuel coveredHeader.state.mem 4096 4140 n = some (m', res) ∧
          Rejected 4096 1000 coveredHeader.state m' res) ↔
      blockMagic coveredHeader.state.mem (4140 - 8) ≠ heapBlockMagic :=
  stale_rejected_iff (by decide) (by decide) coveredHeader_reachable (by decide +kernel)

/-- Freeing the stale second address succeeds: a byte of the 40 changes and the
block counter no longer counts the blocks. -/
theorem stale_free_accepted :
    ∃ h, (histories 4096 1000).Reachable h ∧ 4140 ∈ h.issued ∧ h.state.live 4140 = none ∧
      h.state.live 4116 = some 40 ∧ (heapFree h.state.mem 4096 4140).2 = .ok () ∧
      (heapFree h.state.mem 4096 4140).1 4136 ≠ h.state.mem 4136 ∧
      currentBlocks (heapFree h.state.mem 4096 4140).1 4096 ≠ currentBlocks h.state.mem 4096 := by
  refine ⟨coveredHeader, coveredHeader_reachable, by decide +kernel, by decide +kernel,
    by decide +kernel, ?_, by decide +kernel, by decide +kernel⟩
  rfl

end MeOS.Heap
