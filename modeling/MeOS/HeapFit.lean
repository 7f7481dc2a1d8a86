import MeOS.HeapRun
import MeOS.Lib.MaximalRuns

/-! # First fit over runs of unused blocks

`heap_alloc` merges while it scans, and leaves what it has merged. Seen from
the chain it started with, it looks at the maximal runs of unused blocks from
low to high and takes the first one that offers enough payload bytes, where
the headers of a run after its first one count as payload. What it leaves of
the run it took from is an exact account: `TakenFrom.space`.
-/

namespace MeOS.Heap

open Bytes Extents MaximalRuns Runs

/-- The blocks `heap_alloc` may take. -/
def Blk.unused (b : Blk) : Bool := !b.used

@[simp] theorem Blk.unused_eq_true {b : Blk} : b.unused = true ↔ b.used = false := by
  simp [Blk.unused]

@[simp] theorem Blk.unused_eq_false {b : Blk} : b.unused = false ↔ b.used = true := by
  simp [Blk.unused]

/-- The bytes of `bs` with their headers. -/
def spaceOf (bs : List Blk) : Nat := (bs.map fun b => 8 + b.size).sum

/-- The payload bytes a run offers: the headers after the first one count. -/
def runSize (run : List Blk) : Nat := spaceOf run - 8

@[simp] theorem spaceOf_nil : spaceOf [] = 0 := rfl

@[simp] theorem spaceOf_cons (b : Blk) (bs : List Blk) :
    spaceOf (b :: bs) = 8 + b.size + spaceOf bs := by
  simp [spaceOf]

@[simp] theorem spaceOf_append (bs cs : List Blk) :
    spaceOf (bs ++ cs) = spaceOf bs + spaceOf cs := by
  simp [spaceOf]

theorem runSize_cons (b : Blk) (bs : List Blk) : runSize (b :: bs) = b.size + spaceOf bs := by
  simp only [runSize, spaceOf_cons]
  omega

/-- A block that has absorbed its successors offers what the run did. -/
theorem foldl_absorb_size (b : Blk) (cs : List Blk) :
    (cs.foldl absorb b).size = runSize (b :: cs) := by
  induction cs generalizing b with
  | nil => simp [runSize_cons]
  | cons c cs ih =>
    rw [List.foldl_cons, ih, runSize_cons, runSize_cons, absorb_size, spaceOf_cons]
    omega

/-- Block `b` of at least `r` bytes has been taken from the front of `run`; the
blocks `left` behind it are what is left of the run. -/
structure TakenFrom (m' : Mem) (base size r : Nat) (front run left post : List Blk) (b : Blk) :
    Prop where
  inv : HeapInv m' base size (front ++ b :: left ++ post)
  used : b.used = true
  addr : ∀ c ∈ run.head?, b.addr = c.addr
  fits : r ≤ b.size
  tight : b.size ≤ r + 8
  unused : ∀ c ∈ left, c.used = false
  space : b.size + spaceOf left = runSize run

section Scan

variable {m m' : Mem} {base size r : Nat} {pre post rest : List Blk} {b b' : Blk}

/-- Taking a merged block leaves the unmerged rest of its run. -/
theorem MergeRun.taken (h : MergeRun m m' base size r pre b post b' rest) (hb : b.used = false)
    (hfit : r ≤ b'.size) :
    ∃ run back left c, b :: post = run ++ back ∧ run ≠ [] ∧ (∀ d ∈ run, d.unused = true) ∧
      (∀ d ∈ back.head?, d.unused = false) ∧ c.addr = b'.addr ∧ r ≤ runSize run ∧
      TakenFrom (heapUseBlock m' base b'.addr r) base size r pre run left back c := by
  obtain ⟨cs, hcs, hunused, hfold⟩ := h.absorbed
  obtain ⟨ds, back, hrest, hds, hback⟩ := exists_stretch Blk.unused rest
  have hinv := h.inv.use hfit
  have hsize : b'.size = runSize (b :: cs) := by rw [hfold, foldl_absorb_size]
  have hrun : runSize (b :: cs ++ ds) = b'.size + spaceOf ds := by
    rw [hsize, List.cons_append, runSize_cons, runSize_cons, spaceOf_append]
    omega
  have hall : ∀ d ∈ b :: cs ++ ds, d.unused = true := by
    intro d hd
    rcases List.mem_append.mp hd with hd | hd
    · rcases List.mem_cons.mp hd with rfl | hd
      · simpa using hb
      · simpa using hunused d hd
    · exact hds d hd
  have hdsu : ∀ d ∈ ds, d.used = false := fun d hd => by simpa using hds d hd
  by_cases hsplit : r + 8 < b'.size
  · -- a new block takes the rest of the merged block
    refine ⟨b :: cs ++ ds, back, ⟨b'.addr + 8 + r, b'.size - r - 8, false⟩ :: ds,
      ⟨b'.addr, r, true⟩, ?_, by simp, hall, hback, rfl, by omega, ?_⟩
    · rw [hcs, hrest]
      simp
    · refine ⟨?_, rfl, ?_, le_refl r, by simp only; omega, ?_, ?_⟩
      · simpa [useBlocks, hsplit, hrest] using hinv
      · intro c hc
        obtain rfl : b = c := by simpa using hc
        exact h.addr
      · intro d hd
        rcases List.mem_cons.mp hd with rfl | hd
        · rfl
        · exact hdsu d hd
      · rw [hrun]
        simp only [spaceOf_cons]
        omega
  · -- the merged block is taken as a whole
    refine ⟨b :: cs ++ ds, back, ds, { b' with used := true }, ?_, by simp, hall, hback, rfl,
      by omega, ?_⟩
    · rw [hcs, hrest]
      simp
    · refine ⟨?_, rfl, ?_, hfit, by simp only; omega, hdsu, hrun.symm⟩
      · simpa [useBlocks, hsplit, hrest] using hinv
      · intro c hc
        obtain rfl : b = c := by simpa using hc
        exact h.addr

/-- A merge that does not make room has swallowed the whole run. -/
theorem MergeRun.passed (h : MergeRun m m' base size r pre b post b' rest) (hb : b.used = false)
    (hfit : ¬ r ≤ b'.size) :
    ∃ run, b :: post = run ++ rest ∧ run ≠ [] ∧ (∀ d ∈ run, d.unused = true) ∧
      (∀ d ∈ rest.head?, d.unused = false) ∧ runSize run < r := by
  obtain ⟨cs, hcs, hunused, hfold⟩ := h.absorbed
  have hsize : b'.size = runSize (b :: cs) := by rw [hfold, foldl_absorb_size]
  have hstop := h.stop.resolve_left hfit
  refine ⟨b :: cs, by simp [hcs], by simp, ?_, ?_, by omega⟩
  · intro d hd
    rcases List.mem_cons.mp hd with rfl | hd
    · simpa using hb
    · simpa using hunused d hd
  · intro d hd
    simpa using hstop d hd

/-- The walk of `heap_alloc` over the blocks `post`: it fails when no run of
them offers `r` bytes, and takes from the first run that does. -/
theorem heapAllocLoop_fit {fuel : Nat} (hi : HeapInv m base size (pre ++ post)) (hr : 0 < r)
    (hfuel : post.length < fuel) :
    (∃ m', heapAllocLoop fuel m base r (headAddr post) = some (m', .error .outOfMemory) ∧
      ∀ p run q, MaximalRun Blk.unused post p run q → runSize run < r) ∨
    (∃ m' p run q front left b,
      heapAllocLoop fuel m base r (headAddr post) = some (m', .ok b.payload) ∧
      FirstRun Blk.unused (r ≤ runSize ·) post p run q ∧
      TakenFrom m' base size r front run left q b) := by
  induction fuel generalizing m pre post with
  | zero => omega
  | succ k ih =>
    cases post with
    | nil =>
      refine Or.inl ⟨m, by simp [heapAllocLoop, headAddr], fun p run q hrun => ?_⟩
      exact hrun.nil_false.elim
    | cons b rest =>
      have hk : rest.length < k := by
        simp only [List.length_cons] at hfuel
        omega
      cases heapAllocLoop_turn hi hr hk with
      | skip hu hi' hstep =>
        -- a used block starts no run
        have hb : b.unused = false := by simpa using hu
        rw [hstep]
        rcases ih hi' hk with ⟨m', hres, hsmall⟩ | ⟨m', p, run, q, front, left, c, hres, hfirst, ht⟩
        · refine Or.inl ⟨m', hres, fun p run q hrun => ?_⟩
          obtain ⟨p', _, hrun'⟩ := (maximalRun_cons hb).mp hrun
          exact hsmall p' run q hrun'
        · exact Or.inr ⟨m', b :: p, run, q, front, left, c, hres, hfirst.cons hb, ht⟩
      | take m₁ b₁ rest₁ hu hmerge _ hfit hstep =>
        -- the run at hand offers enough
        obtain ⟨run, back, left, c, hsplit, hne, hall, hback, hc, hcap, ht⟩ :=
          hmerge.taken hu hfit
        refine Or.inr ⟨heapUseBlock m₁ base b₁.addr r, [], run, back, pre, left, c, ?_, ?_, ht⟩
        · rw [hstep]
          simp [hmerge.addr, hc, Blk.payload]
        · rw [hsplit]
          exact FirstRun.head hall hne hback hcap
      | pass m₁ b₁ rest₁ hu hmerge _ hfit hi₁ hlen hstep =>
        -- the whole run is one block now, and too small
        obtain ⟨run, hsplit, hne, hall, hback, hsmall⟩ := hmerge.passed hu hfit
        rw [hstep, hsplit]
        rcases ih hi₁ hlen with
          ⟨m', hres, hrest⟩ | ⟨m', p, run', q, front, left, c, hres, hfirst, ht⟩
        · refine Or.inl ⟨m', hres, fun p run' q hmax => ?_⟩
          rcases (maximalRun_append hall hne hback).mp hmax with
            ⟨_, rfl, _⟩ | ⟨p', _, hmax'⟩
          · exact hsmall
          · exact hrest p' run' q hmax'
        · refine Or.inr ⟨m', run ++ p, run', q, front, left, c, hres, ?_, ht⟩
          exact hfirst.append hall hne hback (by omega)

end Scan

/-! ## The guarantee -/

section Guarantees

variable {base size : Nat} {s : State}

/-- In every reachable heap an allocation fails exactly when no maximal run of
unused blocks offers the bytes asked for. Otherwise it takes from the first
run that does; what it leaves of the run stays unused, and the block handed
out is at most a header larger than asked for. -/
theorem heapAlloc_firstFit (hroom : 20 ≤ size) (htop : base + size ≤ 4294967296)
    (hbase : base ≠ 0) (h : (system base size).Reachable s) :
    ∃ bs, HeapInv s.mem base size bs ∧ Tracks s.live bs ∧ ∀ r, 0 < r →
      ∃ fuel m' res, heapAlloc fuel s.mem base r = some (m', res) ∧
        ((∃ e, res = .error e) ↔
          ∀ pre run post, MaximalRun Blk.unused bs pre run post → runSize run < r) ∧
        ∀ a, res = .ok a → ∃ pre run post front left b,
          FirstRun Blk.unused (r ≤ runSize ·) bs pre run post ∧ a = b.payload ∧
            TakenFrom m' base size r front run left post b := by
  obtain ⟨bs, hi, ht⟩ := (inv_inductive hroom htop).holds h
  refine ⟨bs, hi, ht, fun r hr => ?_⟩
  have hargs : ¬ (base = 0 ∨ r = 0) := by omega
  have hrun : heapAlloc (bs.length + 1) s.mem base r =
      heapAllocLoop (bs.length + 1) s.mem base r (headAddr bs) := by
    rw [heapAlloc, if_neg hargs, hi.startAddress_eq]
  have hloop := heapAllocLoop_fit (show HeapInv s.mem base size ([] ++ bs) from hi) hr
    (Nat.lt_succ_self bs.length)
  rcases hloop with ⟨m', hres, hsmall⟩ | ⟨m', p, run, q, front, left, b, hres, hfirst, htaken⟩
  · refine ⟨_, m', _, hrun.trans hres, ⟨fun _ => hsmall, fun _ => ⟨_, rfl⟩⟩, ?_⟩
    intro a ha
    cases ha
  · refine ⟨_, m', _, hrun.trans hres, ⟨?_, fun hall => ?_⟩, ?_⟩
    · rintro ⟨e, he⟩
      cases he
    · exact absurd (hall p run q hfirst.maximal) (Nat.not_lt.mpr hfirst.fits)
    · intro a ha
      cases ha
      exact ⟨p, run, q, front, left, b, hfirst, rfl, htaken⟩

theorem heapAlloc_firstFit_oneAllocation :
    ∃ bs, HeapInv oneAllocation.mem 4096 1000 bs ∧ Tracks oneAllocation.live bs ∧ ∀ r, 0 < r →
      ∃ fuel m' res, heapAlloc fuel oneAllocation.mem 4096 r = some (m', res) ∧
        ((∃ e, res = .error e) ↔
          ∀ pre run post, MaximalRun Blk.unused bs pre run post → runSize run < r) ∧
        ∀ a, res = .ok a → ∃ pre run post front left b,
          FirstRun Blk.unused (r ≤ runSize ·) bs pre run post ∧ a = b.payload ∧
            TakenFrom m' 4096 1000 r front run left post b :=
  heapAlloc_firstFit (by decide) (by decide) (by decide) oneAllocation_reachable

/-- Blocks of 24 and of 100 bytes, freed in this order in front of a used one:
a run of two unused blocks. -/
def twoUnused : State :=
  [Call.alloc 24, .alloc 100, .alloc 1, .free 4116, .free 4148].foldl (State.after 4096 9)
    ⟨heapCreate (fun _ => 0) 4096 1000, fun _ => none⟩

theorem twoUnused_reachable : (system 4096 1000).Reachable twoUnused := by
  have h₀ : (system 4096 1000).Reachable ⟨heapCreate (fun _ => 0) 4096 1000, fun _ => none⟩ :=
    .init ⟨fun _ => 0, rfl⟩
  have h₁ := State.after_reachable (c := .alloc 24) h₀ 9 trivial
  have h₂ := State.after_reachable (c := .alloc 100) h₁ 9 trivial
  have h₃ := State.after_reachable (c := .alloc 1) h₂ 9 trivial
  have h₄ := State.after_reachable (c := .free 4116) h₃ 9 (by decide +kernel)
  exact State.after_reachable (c := .free 4148) h₄ 9 (by decide +kernel)

/-- Sixteen bytes are taken from a run of 132: the first block goes as a whole,
and the run that is left offers 100 bytes, not 132 - 16 without a header. -/
theorem heapAlloc_keeps_slack :
    ∃ s bs run post m' left, (system 4096 1000).Reachable s ∧ HeapInv s.mem 4096 1000 bs ∧
      MaximalRun Blk.unused bs [] run post ∧ 16 ≤ runSize run ∧
      heapAlloc 9 s.mem 4096 16 = some (m', .ok 4116) ∧
      HeapInv m' 4096 1000 (⟨4108, 24, true⟩ :: left ++ post) ∧
      MaximalRun Blk.unused (⟨4108, 24, true⟩ :: left ++ post) [⟨4108, 24, true⟩] left post ∧
      runSize left + 8 < runSize run - 16 := by
  refine ⟨twoUnused,
    [⟨4108, 24, false⟩, ⟨4140, 100, false⟩, ⟨4248, 1, true⟩, ⟨4257, 831, false⟩],
    [⟨4108, 24, false⟩, ⟨4140, 100, false⟩], [⟨4248, 1, true⟩, ⟨4257, 831, false⟩],
    heapUseBlock twoUnused.mem 4096 4108 16, [⟨4140, 100, false⟩], twoUnused_reachable,
    by decide +kernel, by decide +kernel, by decide, ?_, by decide +kernel, by decide +kernel,
    by decide⟩
  rfl

end Guarantees

end MeOS.Heap
