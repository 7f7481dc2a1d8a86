import MeOS.Lib.Runs
import Mathlib.Logic.Function.Basic

/-! # `file.cpp`: the length at the end of `write_file_global`

Several writers adjust the length of one file, each cut at its accesses to
`file_length`. Whether to extend is decided on the first read only: a writer whose
compare-and-swap fails reads the length again and goes on to swap, without a
second look at its own end.
-/

namespace MeOS

open Runs

/-- Where a writer is in the length update. -/
inductive LengthPc where
  /-- Before `length = file_length` in front of the test. -/
  | read
  /-- Before `CAS(&file_length, length, start + bytes_written)`. -/
  | cas (length : Nat)
  /-- Before `length = file_length` in the body of the loop. -/
  | again
  | done
deriving Repr, DecidableEq

/-- The length of the file, and the writers by number. -/
structure LengthRun where
  fileLength : Nat
  pc : Nat → LengthPc

/-- The writer `t` goes on at `pc`. -/
def LengthRun.goto (s : LengthRun) (t : Nat) (pc : LengthPc) : LengthRun :=
  { s with pc := Function.update s.pc t pc }

/-- `CAS`: `cmpxchg` on the length. -/
def LengthRun.cas (s : LengthRun) (oldVal newVal : Nat) : LengthRun × Bool :=
  if s.fileLength = oldVal then ({ s with fileLength := newVal }, true) else (s, false)

/-- The next access of the writer `t`, whose data ends at `stop`. -/
def LengthRun.access (s : LengthRun) (t stop : Nat) : LengthRun :=
  match s.pc t with
  | .read => if stop > s.fileLength then s.goto t (.cas s.fileLength) else s.goto t .done
  | .cas length =>
    match s.cas length stop with
    | (s, true) => s.goto t .done
    | (s, false) => s.goto t .again
  | .again => s.goto t (.cas s.fileLength)
  | .done => s

/-- Every writer is in front of its first read. -/
def LengthRun.Fresh (initial : Nat) (s : LengthRun) : Prop :=
  s.fileLength = initial ∧ ∀ t, s.pc t = .read

/-- The writers of data that ends at `ends`, in any order. -/
def lengthSystem (initial : Nat) (ends : List Nat) : System LengthRun where
  Init := LengthRun.Fresh initial
  Next s s' := ∃ t stop, ends[t]? = some stop ∧ s' = s.access t stop

/-! ## Retries that still extend -/

/-- If the writer `t` is about to read the length again, it is not above its own end. -/
def StillExtends (s : LengthRun) (t stop : Nat) : Prop :=
  s.pc t = .again → s.fileLength ≤ stop

instance (s : LengthRun) (t stop : Nat) : Decidable (StillExtends s t stop) :=
  inferInstanceAs (Decidable (_ → _))

/-- The runs in which a retry reads no length above the end of its writer. -/
def extendingSystem (initial : Nat) (ends : List Nat) : System LengthRun where
  Init := LengthRun.Fresh initial
  Next s s' := ∃ t stop, ends[t]? = some stop ∧ StillExtends s t stop ∧ s' = s.access t stop

/-- What the length says about the writers. -/
structure LengthInv (initial : Nat) (ends : List Nat) (s : LengthRun) : Prop where
  mem : s.fileLength ∈ initial :: ends
  low : initial ≤ s.fileLength
  /-- A swap that succeeds does not shrink the file. -/
  swaps : ∀ t stop length, ends[t]? = some stop → s.pc t = .cas length → length ≤ stop
  inside : ∀ t stop, ends[t]? = some stop → s.pc t = .done → stop ≤ s.fileLength

section Length

variable {initial t u stop : Nat} {ends : List Nat} {s : LengthRun} {pc : LengthPc}

@[simp] theorem LengthRun.goto_same : (s.goto t pc).pc t = pc :=
  Function.update_self _ _ _

theorem LengthRun.goto_other (h : u ≠ t) : (s.goto t pc).pc u = s.pc u :=
  Function.update_of_ne h _ _

/-- The writer `t` moves, the length is the same. -/
theorem LengthInv.moved (h : LengthInv initial ends s) (hend : ends[t]? = some stop)
    (hcas : ∀ length, pc = .cas length → length ≤ stop)
    (hdone : pc = .done → stop ≤ s.fileLength) : LengthInv initial ends (s.goto t pc) where
  mem := h.mem
  low := h.low
  swaps := by
    intro u stop' length hend' hpc
    by_cases hut : u = t
    · subst hut
      rw [LengthRun.goto_same] at hpc
      rw [hend] at hend'
      cases hend'
      exact hcas length hpc
    · rw [LengthRun.goto_other hut] at hpc
      exact h.swaps u stop' length hend' hpc
  inside := by
    intro u stop' hend' hpc
    by_cases hut : u = t
    · subst hut
      rw [LengthRun.goto_same] at hpc
      rw [hend] at hend'
      cases hend'
      exact hdone hpc
    · rw [LengthRun.goto_other hut] at hpc
      exact h.inside u stop' hend' hpc

/-- The file is extended to the end of a writer. -/
theorem LengthInv.extended (h : LengthInv initial ends s) (hend : ends[t]? = some stop)
    (hle : s.fileLength ≤ stop) : LengthInv initial ends { s with fileLength := stop } where
  mem := List.mem_cons_of_mem _ (List.mem_of_getElem? hend)
  low := Nat.le_trans h.low hle
  swaps := h.swaps
  inside := fun u stop' hend' hpc => Nat.le_trans (h.inside u stop' hend' hpc) hle

/-- An access by a writer that still extends keeps the invariant and does not shrink the file. -/
theorem LengthInv.access (h : LengthInv initial ends s) (hend : ends[t]? = some stop)
    (hstill : StillExtends s t stop) :
    LengthInv initial ends (s.access t stop) ∧ s.fileLength ≤ (s.access t stop).fileLength := by
  unfold LengthRun.access
  cases hpc : s.pc t with
  | read =>
    by_cases hlt : stop > s.fileLength
    · simp only [if_pos hlt]
      refine ⟨h.moved hend ?_ (by simp), Nat.le_refl _⟩
      intro length heq
      cases heq
      exact Nat.le_of_lt hlt
    · simp only [if_neg hlt]
      exact ⟨h.moved hend (by simp) (fun _ => Nat.le_of_not_gt hlt), Nat.le_refl _⟩
  | cas length =>
    by_cases hsame : s.fileLength = length
    · simp only [LengthRun.cas, if_pos hsame]
      have hle : s.fileLength ≤ stop := by
        rw [hsame]
        exact h.swaps t stop length hend hpc
      exact ⟨(h.extended hend hle).moved hend (by simp) (fun _ => Nat.le_refl _), hle⟩
    · simp only [LengthRun.cas, if_neg hsame]
      exact ⟨h.moved hend (by simp) (by simp), Nat.le_refl _⟩
  | again =>
    refine ⟨h.moved hend ?_ (by simp), Nat.le_refl _⟩
    intro length heq
    cases heq
    exact hstill hpc
  | done => exact ⟨h, Nat.le_refl _⟩

/-- The invariant holds in the runs whose retries still extend. -/
theorem lengthInv_inductive (initial : Nat) (ends : List Nat) :
    (extendingSystem initial ends).Inductive (LengthInv initial ends) where
  init := by
    intro s hfresh
    rcases hfresh with ⟨hlen, hpc⟩
    constructor
    · rw [hlen]
      exact List.mem_cons_self
    · exact Nat.le_of_eq hlen.symm
    · intro t stop length _ hcas
      rw [hpc t] at hcas
      cases hcas
    · intro t stop _ hdone
      rw [hpc t] at hdone
      cases hdone
  next := by
    intro s s' hinv hnext
    rcases hnext with ⟨t, stop, hend, hstill, rfl⟩
    exact (hinv.access hend hstill).1

/-- When all writers are done, the length is the largest of the initial one and the ends. -/
theorem LengthInv.max (h : LengthInv initial ends s)
    (hdone : ∀ t, t < ends.length → s.pc t = .done) :
    (initial :: ends).max? = some s.fileLength := by
  rw [List.max?_eq_some_iff]
  refine ⟨h.mem, ?_⟩
  intro b hb
  rcases List.mem_cons.mp hb with rfl | hb
  · exact h.low
  · rcases List.mem_iff_getElem?.mp hb with ⟨t, ht⟩
    have hlt : t < ends.length := by
      by_contra hge
      rw [List.getElem?_eq_none (Nat.le_of_not_lt hge)] at ht
      cases ht
    exact h.inside t b ht (hdone t hlt)

/-- A retry that reads a length above its end shrinks the file with its next two accesses. -/
theorem shrinks_of_not_stillExtends (h : ¬ StillExtends s t stop) :
    ((s.access t stop).access t stop).fileLength < s.fileLength := by
  rcases Classical.not_imp.mp h with ⟨hpc, hgt⟩
  have hlt : stop < s.fileLength := Nat.lt_of_not_le hgt
  have hread : s.access t stop = s.goto t (.cas s.fileLength) := by
    simp only [LengthRun.access, hpc]
  have hcas : (s.access t stop).pc t = .cas s.fileLength := by
    rw [hread]
    exact LengthRun.goto_same
  have hsame : (s.access t stop).fileLength = s.fileLength := by
    rw [hread]
    rfl
  have hswap : ((s.access t stop).access t stop).fileLength = stop := by
    generalize s.access t stop = s' at hcas hsame
    simp only [LengthRun.access, hcas, LengthRun.cas, if_pos hsame]
    rfl
  rw [hswap]
  exact hlt

end Length

/-! ## A lone writer -/

/-- What the length is when nobody else writes. -/
def LengthRun.Alone (initial stop : Nat) (s : LengthRun) : Prop :=
  match s.pc 0 with
  | .read => s.fileLength = initial
  | .cas length => s.fileLength = initial ∧ length = initial ∧ stop > initial
  | .again => False
  | .done => s.fileLength = if stop > initial then stop else initial

/-- Alone, the loop sets the length as `writeFileGlobal` does, and its first swap succeeds. -/
theorem length_alone (initial stop : Nat) {s : LengthRun}
    (h : (lengthSystem initial [stop]).Reachable s) : s.Alone initial stop := by
  induction h with
  | init h => simpa only [LengthRun.Alone, h.2 0] using h.1
  | @next s s' _ hs ih =>
    rcases hs with ⟨t, stop', hend, rfl⟩
    -- there is one thread
    have ht : t = 0 := by
      by_contra hne
      have hlen : [stop].length ≤ t := Nat.one_le_iff_ne_zero.mpr hne
      rw [List.getElem?_eq_none hlen] at hend
      cases hend
    subst ht
    cases hend
    unfold LengthRun.Alone at ih
    unfold LengthRun.access
    cases hpc : s.pc 0 with
    | read =>
      simp only [hpc] at ih
      by_cases hlt : stop > s.fileLength
      · simp only [if_pos hlt, LengthRun.Alone, LengthRun.goto_same]
        exact ⟨ih, ih, by rwa [ih] at hlt⟩
      · simp only [if_neg hlt, LengthRun.Alone, LengthRun.goto_same]
        rw [ih] at hlt
        rw [if_neg hlt]
        exact ih
    | cas length =>
      simp only [hpc] at ih
      rcases ih with ⟨hlen, hold, hlt⟩
      simp only [LengthRun.cas, if_pos (hlen.trans hold.symm), LengthRun.Alone,
        LengthRun.goto_same, if_pos hlt]
      rfl
    | again => simp only [hpc] at ih
    | done =>
      simp only [LengthRun.Alone, hpc] at ih ⊢
      exact ih

/-- While the retries still extend, the length never decreases, and it ends as the largest of its
initial value and the ends of all writers. -/
theorem length_only_grows (initial : Nat) (ends : List Nat) (s : LengthRun)
    (h : (extendingSystem initial ends).Reachable s) :
    (∀ s', (extendingSystem initial ends).Next s s' → s.fileLength ≤ s'.fileLength) ∧
      ((∀ t, t < ends.length → s.pc t = .done) →
        (initial :: ends).max? = some s.fileLength) := by
  have hinv := (lengthInv_inductive initial ends).holds h
  constructor
  · intro s' hnext
    rcases hnext with ⟨t, stop, hend, hstill, rfl⟩
    exact (hinv.access hend hstill).2
  · exact hinv.max

/-- Before the first read of any writer. -/
def lengthStart (initial : Nat) : LengthRun where
  fileLength := initial
  pc := fun _ => .read

/-- Both writers read 0, the shorter one swaps first, and the retry of the other extends. -/
theorem length_only_grows_retry :
    ∃ s, s.fileLength = 100 ∧ (0 :: [100, 50]).max? = some s.fileLength ∧
      (extendingSystem 0 [100, 50]).Reachable s := by
  have hstart : (extendingSystem 0 [100, 50]).Reachable (lengthStart 0) :=
    .init ⟨rfl, fun _ => rfl⟩
  have hrun : (extendingSystem 0 [100, 50]).Reachable
      ((((((lengthStart 0).access 0 100).access 1 50).access 1 50).access 0 100).access 0 100
        |>.access 0 100) := by
    have h₁ := hstart.next ⟨0, 100, rfl, by decide, rfl⟩
    have h₂ := h₁.next ⟨1, 50, rfl, by decide, rfl⟩
    have h₃ := h₂.next ⟨1, 50, rfl, by decide, rfl⟩
    have h₄ := h₃.next ⟨0, 100, rfl, by decide, rfl⟩
    have h₅ := h₄.next ⟨0, 100, rfl, by decide, rfl⟩
    exact h₅.next ⟨0, 100, rfl, by decide, rfl⟩
  refine ⟨_, by decide, ?_, hrun⟩
  apply (length_only_grows 0 [100, 50] _ hrun).2
  intro t ht
  match t, ht with
  | 0, _ => decide
  | 1, _ => decide

/-- Both writers read 0, the longer one swaps first, and the retry of the other shrinks the file. -/
theorem length_shrinks :
    ¬ ∀ initial ends s, (lengthSystem initial ends).Reachable s →
      (∀ s', (lengthSystem initial ends).Next s s' → s.fileLength ≤ s'.fileLength) ∧
        ((∀ t, t < ends.length → s.pc t = .done) →
          (initial :: ends).max? = some s.fileLength) := by
  intro hclaim
  have hstart : (lengthSystem 0 [100, 50]).Reachable (lengthStart 0) :=
    .init ⟨rfl, fun _ => rfl⟩
  have h₁ := hstart.next ⟨0, 100, rfl, rfl⟩
  have h₂ := h₁.next ⟨1, 50, rfl, rfl⟩
  have h₃ := h₂.next ⟨0, 100, rfl, rfl⟩
  have h₄ := h₃.next ⟨1, 50, rfl, rfl⟩
  have h₅ := h₄.next ⟨1, 50, rfl, rfl⟩
  have hle := (hclaim 0 [100, 50] _ h₅).1 _ ⟨1, 50, rfl, rfl⟩
  revert hle
  decide

end MeOS
