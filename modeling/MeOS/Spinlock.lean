import MeOS.Lib.Runs
import Mathlib.Logic.Function.Basic

/-! # `spinlock.cpp` on one processor

The threads that use a spinlock, cut at each instruction that touches the lock or
the interrupt flag. A tick needs the flag and may change threads. Both ways of
leaving the processor save the flag set: a tick is taken only when it is set, and
`thread_sleep` sets it in front of `pushfd`. So a thread that comes back from
`thread_sleep` tests the lock with interrupts enabled.

No two threads hold the lock as long as none finds it free while another is
between its test and its store.
-/

namespace MeOS

open Runs

/-- Where a thread is in `spinlock_acquire` or `spinlock_try_acquire`. -/
inductive SpinPc where
  | idle
  /-- `spinlock_acquire`, before `INT_OFF`. -/
  | acquireOff
  /-- Before `*lock == 1`. -/
  | acquireTest
  /-- In `thread_sleep`, behind the `INT_ON` that is in front of the saved frame. -/
  | sleeping
  /-- Before `*lock = 1`. -/
  | acquireStore
  /-- Before `INT_ON`. -/
  | acquireOn
  /-- `spinlock_try_acquire`, before `INT_OFF`. -/
  | tryOff
  /-- Before `*lock == 0`. -/
  | tryTest
  /-- Before `INT_ON` in the branch that takes the lock. -/
  | tryOn
  /-- Before `*lock = 1`. -/
  | tryStore
  /-- Before `INT_ON` in the branch that returns `false`. -/
  | tryFail
deriving Repr, DecidableEq

/-- The processor with the threads that use a spinlock. -/
structure SpinRun where
  lock : Nat
  current : Nat
  /-- The interrupt flag of the processor. -/
  interrupts : Bool
  /-- The interrupt flag in the saved frame of a thread. -/
  frame : Nat → Bool
  /-- In the sleep queue. -/
  asleep : Nat → Bool
  pc : Nat → SpinPc
  /-- Between a successful acquire and its release. -/
  holds : Nat → Bool

/-- The current thread goes on at `pc`. -/
def SpinRun.goto (s : SpinRun) (pc : SpinPc) : SpinRun :=
  { s with pc := Function.update s.pc s.current pc }

/-- The frame of the current thread is saved, and `thread` runs with its own. -/
def SpinRun.switchTo (s : SpinRun) (thread : Nat) : SpinRun :=
  let frame := Function.update s.frame s.current s.interrupts
  { s with current := thread, frame := frame, interrupts := frame thread }

/-- The current thread stores 1 and holds the lock. -/
def SpinRun.store (s : SpinRun) (pc : SpinPc) : SpinRun :=
  { s.goto pc with lock := 1, holds := Function.update s.holds s.current true }

/-- A step of the current thread. Only a holder calls `spinlock_release`. -/
inductive SpinStep : SpinRun → SpinRun → Prop where
  /-- `thread_get_current_node` leaves the interrupts enabled. -/
  | callAcquire {s} (hpc : s.pc s.current = .idle) :
    SpinStep s { s.goto .acquireOff with interrupts := true }
  | acquireOff {s} (hpc : s.pc s.current = .acquireOff) :
    SpinStep s { s.goto .acquireTest with interrupts := false }
  | acquireFree {s} (hpc : s.pc s.current = .acquireTest) (hlock : s.lock ≠ 1) :
    SpinStep s (s.goto .acquireStore)
  | acquireTaken {s} (hpc : s.pc s.current = .acquireTest) (hlock : s.lock = 1) :
    SpinStep s { s.goto .sleeping with
      interrupts := true, asleep := Function.update s.asleep s.current true }
  /-- `THREAD_SAVE_STATE`; the saved frame returns behind the call of `thread_sleep`. -/
  | sleep {s} (hpc : s.pc s.current = .sleeping) (thread : Nat)
    (hready : s.asleep thread = false) :
    SpinStep s ((s.goto .acquireTest).switchTo thread)
  | acquireStore {s} (hpc : s.pc s.current = .acquireStore) : SpinStep s (s.store .acquireOn)
  | acquireOn {s} (hpc : s.pc s.current = .acquireOn) :
    SpinStep s { s.goto .idle with interrupts := true }
  | callTryAcquire {s} (hpc : s.pc s.current = .idle) : SpinStep s (s.goto .tryOff)
  | tryOff {s} (hpc : s.pc s.current = .tryOff) :
    SpinStep s { s.goto .tryTest with interrupts := false }
  | tryFree {s} (hpc : s.pc s.current = .tryTest) (hlock : s.lock = 0) :
    SpinStep s (s.goto .tryOn)
  | tryTaken {s} (hpc : s.pc s.current = .tryTest) (hlock : s.lock ≠ 0) :
    SpinStep s (s.goto .tryFail)
  | tryOn {s} (hpc : s.pc s.current = .tryOn) :
    SpinStep s { s.goto .tryStore with interrupts := true }
  | tryStore {s} (hpc : s.pc s.current = .tryStore) : SpinStep s (s.store .idle)
  | tryFail {s} (hpc : s.pc s.current = .tryFail) :
    SpinStep s { s.goto .idle with interrupts := true }
  | release {s} (hpc : s.pc s.current = .idle) (hholds : s.holds s.current = true) :
    SpinStep s { s with lock := 0, holds := Function.update s.holds s.current false }

/-- A tick between two instructions: `scheduler_interrupt` runs a ready thread, the same or another
one, and wakes those whose time is over. -/
inductive SpinTick : SpinRun → SpinRun → Prop where
  | switch {s} (hon : s.interrupts = true) (thread : Nat) (hready : s.asleep thread = false)
    (expired : Nat → Bool) :
    SpinTick s { s.switchTo thread with asleep := fun t => s.asleep t && !expired t }

/-- A free lock, and threads that use nothing. -/
def SpinRun.Fresh (s : SpinRun) : Prop :=
  s.lock = 0 ∧ s.interrupts = true ∧ (∀ t, s.frame t = true) ∧ (∀ t, s.asleep t = false) ∧
    (∀ t, s.pc t = .idle) ∧ ∀ t, s.holds t = false

/-- Any threads, and a tick wherever interrupts are enabled. -/
def spinSystem : System SpinRun where
  Init := SpinRun.Fresh
  Next s s' := SpinStep s s' ∨ SpinTick s s'

/-! ## The test and the store -/

/-- The lock was found free and is not yet stored. -/
def SpinPc.between : SpinPc → Bool
  | .acquireStore | .tryOn | .tryStore => true
  | _ => false

/-- At a test that finds the lock free. -/
def SpinRun.passes (s : SpinRun) : Prop :=
  s.pc s.current = .acquireTest ∧ s.lock ≠ 1 ∨ s.pc s.current = .tryTest ∧ s.lock = 0

/-- A lock is found free only when no other thread is between its test and its store. -/
def TestsAlone (s : SpinRun) : Prop :=
  s.passes → ∀ t, t ≠ s.current → (s.pc t).between = false

/-- The runs in which the tests are alone. -/
def aloneSystem : System SpinRun where
  Init := SpinRun.Fresh
  Next s s' := SpinStep s s' ∧ TestsAlone s ∨ SpinTick s s'

/-- The runs in which no tick comes between a test and its store. -/
def undisturbedSystem : System SpinRun where
  Init := SpinRun.Fresh
  Next s s' := SpinStep s s' ∨ SpinTick s s' ∧ (s.pc s.current).between = false

/-- What the lock says about the threads. -/
structure SpinInv (s : SpinRun) : Prop where
  bit : s.lock = 0 ∨ s.lock = 1
  taken : ∀ t, s.holds t = true → s.lock = 1
  holder : ∀ t u, s.holds t = true → s.holds u = true → t = u
  free : ∀ t, (s.pc t).between = true → s.lock = 0
  tester : ∀ t u, (s.pc t).between = true → (s.pc u).between = true → t = u

section Spin

variable {s s' : SpinRun} {t u : Nat} {pc : SpinPc}

@[simp] theorem SpinRun.goto_same : (s.goto pc).pc s.current = pc :=
  Function.update_self _ _ _

theorem SpinRun.goto_other (h : t ≠ s.current) : (s.goto pc).pc t = s.pc t :=
  Function.update_of_ne h _ _

/-- The current thread moves to a place that is not between a test and a store. -/
theorem SpinRun.between_goto (hpc : pc.between = false)
    (h : ((s.goto pc).pc t).between = true) : t ≠ s.current ∧ (s.pc t).between = true := by
  by_cases ht : t = s.current
  · subst ht
    rw [goto_same, hpc] at h
    cases h
  · rw [goto_other ht] at h
    exact ⟨ht, h⟩

/-- Neither the lock nor its holder nor the threads in front of a store change. -/
theorem SpinInv.kept (h : SpinInv s) (hlock : s'.lock = s.lock) (hholds : s'.holds = s.holds)
    (hpc : ∀ t, (s'.pc t).between = true → (s.pc t).between = true) : SpinInv s' where
  bit := by
    rw [hlock]
    exact h.bit
  taken := by
    intro t ht
    rw [hlock]
    exact h.taken t (by rwa [hholds] at ht)
  holder := by
    rw [hholds]
    exact h.holder
  free := by
    intro t ht
    rw [hlock]
    exact h.free t (hpc t ht)
  tester := fun t u ht hu => h.tester t u (hpc t ht) (hpc u hu)

/-- The current thread moves on without the lock. -/
theorem SpinInv.moved (h : SpinInv s) (pc : SpinPc) (hpc : pc.between = false)
    (hlock : s'.lock = s.lock) (hholds : s'.holds = s.holds) (hpcs : s'.pc = (s.goto pc).pc) :
    SpinInv s' := by
  apply h.kept hlock hholds
  intro t ht
  rw [hpcs] at ht
  exact (SpinRun.between_goto hpc ht).2

/-- The current thread finds the lock free while no other is in front of its store. -/
theorem SpinInv.passed (h : SpinInv s) (hfree : s.lock = 0)
    (halone : ∀ t, t ≠ s.current → (s.pc t).between = false) : SpinInv (s.goto pc) where
  bit := h.bit
  taken := h.taken
  holder := h.holder
  free := fun _ _ => hfree
  tester := by
    have hme : ∀ t, ((s.goto pc).pc t).between = true → t = s.current := by
      intro t ht
      by_contra hne
      rw [SpinRun.goto_other hne, halone t hne] at ht
      cases ht
    intro t u ht hu
    rw [hme t ht, hme u hu]

/-- The store of the only thread in front of one. -/
theorem SpinInv.store (h : SpinInv s) (hbetween : (s.pc s.current).between = true)
    (hpc : pc.between = false) : SpinInv (s.store pc) := by
  have hfree := h.free _ hbetween
  have hholder : ∀ t, (s.store pc).holds t = true → t = s.current := by
    intro t ht
    by_contra hne
    have hsame : (s.store pc).holds t = s.holds t := Function.update_of_ne hne _ _
    rw [hsame] at ht
    have htaken := h.taken t ht
    omega
  have hnone : ∀ t, ((s.store pc).pc t).between = true → False := by
    intro t ht
    rcases SpinRun.between_goto hpc ht with ⟨hne, hother⟩
    exact hne (h.tester t s.current hother hbetween)
  constructor
  · exact Or.inr rfl
  · exact fun _ _ => rfl
  · intro t u ht hu
    rw [hholder t ht, hholder u hu]
  · exact fun t ht => (hnone t ht).elim
  · exact fun t _ ht _ => (hnone t ht).elim

/-- The release by the holder. -/
theorem SpinInv.release (h : SpinInv s) (hholds : s.holds s.current = true) :
    SpinInv { s with lock := 0, holds := Function.update s.holds s.current false } := by
  have hnone : ∀ t, Function.update s.holds s.current false t = true → False := by
    intro t ht
    by_cases heq : t = s.current
    · rw [heq, Function.update_self] at ht
      cases ht
    · rw [Function.update_of_ne heq] at ht
      exact heq (h.holder t s.current ht hholds)
  constructor
  · exact Or.inl rfl
  · exact fun t ht => (hnone t ht).elim
  · exact fun t _ ht _ => (hnone t ht).elim
  · exact fun _ _ => rfl
  · exact h.tester

/-- Steps whose test is alone keep the lock right. -/
theorem SpinInv.step (h : SpinInv s) (hstep : SpinStep s s') (halone : TestsAlone s) :
    SpinInv s' := by
  cases hstep with
  | callAcquire hpc => exact h.moved .acquireOff rfl rfl rfl rfl
  | acquireOff hpc => exact h.moved .acquireTest rfl rfl rfl rfl
  | acquireFree hpc hlock =>
    have hfree : s.lock = 0 := by
      rcases h.bit with hzero | hone
      · exact hzero
      · exact absurd hone hlock
    exact h.passed hfree (halone (Or.inl ⟨hpc, hlock⟩))
  | acquireTaken hpc hlock => exact h.moved .sleeping rfl rfl rfl rfl
  | sleep hpc thread hready => exact h.moved .acquireTest rfl rfl rfl rfl
  | acquireStore hpc => exact h.store (by rw [hpc]; rfl) rfl
  | acquireOn hpc => exact h.moved .idle rfl rfl rfl rfl
  | callTryAcquire hpc => exact h.moved .tryOff rfl rfl rfl rfl
  | tryOff hpc => exact h.moved .tryTest rfl rfl rfl rfl
  | tryFree hpc hlock => exact h.passed hlock (halone (Or.inr ⟨hpc, hlock⟩))
  | tryTaken hpc hlock => exact h.moved .tryFail rfl rfl rfl rfl
  | tryOn hpc =>
    -- it was in front of its store and still is
    have hsame : ∀ t, ((s.goto .tryStore).pc t).between = true → (s.pc t).between = true := by
      intro t ht
      by_cases heq : t = s.current
      · rw [heq, hpc]
        rfl
      · rwa [SpinRun.goto_other heq] at ht
    exact h.kept rfl rfl hsame
  | tryStore hpc => exact h.store (by rw [hpc]; rfl) rfl
  | tryFail hpc => exact h.moved .idle rfl rfl rfl rfl
  | release hpc hholds => exact h.release hholds

/-- A tick changes neither the lock nor what the threads know of it. -/
theorem SpinInv.tick (h : SpinInv s) (htick : SpinTick s s') : SpinInv s' := by
  cases htick with
  | switch hon thread hready expired => exact h.kept rfl rfl fun _ ht => ht

theorem SpinInv.init (h : s.Fresh) : SpinInv s := by
  rcases h with ⟨hlock, _, _, _, hpc, hholds⟩
  have hnone : ∀ t, (s.pc t).between = false := by
    intro t
    rw [hpc t]
    rfl
  constructor
  · exact Or.inl hlock
  · intro t ht
    rw [hholds t] at ht
    cases ht
  · intro t u ht
    rw [hholds t] at ht
    cases ht
  · exact fun _ _ => hlock
  · intro t u ht
    rw [hnone t] at ht
    cases ht

theorem aloneSystem_inv : aloneSystem.Inductive SpinInv where
  init := fun _ h => SpinInv.init h
  next := by
    rintro s s' h (⟨hstep, halone⟩ | htick)
    · exact h.step hstep halone
    · exact h.tick htick

/-! ## Ticks -/

/-- Only the current thread is between a test and its store. -/
def Undisturbed (s : SpinRun) : Prop := ∀ t, (s.pc t).between = true → t = s.current

/-- The current thread stays current. -/
theorem Undisturbed.moved (h : Undisturbed s) (hcurrent : s'.current = s.current)
    (hpcs : s'.pc = (s.goto pc).pc) : Undisturbed s' := by
  intro t ht
  rw [hcurrent]
  by_contra hne
  rw [hpcs, SpinRun.goto_other hne] at ht
  exact hne (h t ht)

/-- A thread leaves the processor only when it is not in front of a store. -/
theorem Undisturbed.step (h : Undisturbed s) (hstep : SpinStep s s') : Undisturbed s' := by
  cases hstep with
  | sleep hpc thread hready =>
    intro t ht
    rcases SpinRun.between_goto rfl ht with ⟨hne, hother⟩
    exact absurd (h t hother) hne
  | release hpc hholds => exact h
  | _ => exact h.moved rfl rfl

theorem Undisturbed.tick (h : Undisturbed s) (htick : SpinTick s s')
    (hpc : (s.pc s.current).between = false) : Undisturbed s' := by
  cases htick with
  | switch hon thread hready expired =>
    intro t ht
    have hold : (s.pc t).between = true := ht
    rw [h t hold, hpc] at hold
    cases hold

/-- Without a tick between a test and its store the tests are alone. -/
theorem Undisturbed.testsAlone (h : Undisturbed s) : TestsAlone s := by
  intro _ t hne
  rw [← Bool.not_eq_true]
  exact fun ht => hne (h t ht)

theorem undisturbedSystem_inv :
    undisturbedSystem.Inductive fun s => Undisturbed s ∧ aloneSystem.Reachable s where
  init := by
    intro s h
    refine ⟨?_, .init h⟩
    intro t ht
    rw [h.2.2.2.2.1 t] at ht
    cases ht
  next := by
    rintro s s' ⟨h, hreach⟩ (hstep | ⟨htick, hpc⟩)
    · exact ⟨h.step hstep, hreach.next (Or.inl ⟨hstep, h.testsAlone⟩)⟩
    · exact ⟨h.tick htick hpc, hreach.next (Or.inr htick)⟩

/-- So a lock that is taken without a tick between the test and the store excludes. -/
theorem undisturbed_exclusive (h : undisturbedSystem.Reachable s) (ht : s.holds t = true)
    (hu : s.holds u = true) : t = u :=
  (aloneSystem_inv.holds (undisturbedSystem_inv.holds h).2).holder t u ht hu

/-- In every run in which the lock is found free only when no other thread is between
its test and its store, at most one thread holds it. -/
theorem spinlock_exclusive (h : aloneSystem.Reachable s) (ht : s.holds t = true)
    (hu : s.holds u = true) : t = u :=
  (aloneSystem_inv.holds h).holder t u ht hu

/-! ## Two threads -/

/-- Threads that use nothing yet. -/
def freshSpin : SpinRun where
  lock := 0
  current := 0
  interrupts := true
  frame := fun _ => true
  asleep := fun _ => false
  pc := fun _ => .idle
  holds := fun _ => false

theorem freshSpin_fresh : freshSpin.Fresh :=
  ⟨rfl, rfl, fun _ => rfl, fun _ => rfl, fun _ => rfl, fun _ => rfl⟩

/-- A call of `spinlock_acquire` on a free lock. -/
theorem spinlock_exclusive_first :
    ∃ s : SpinRun, s.holds 0 = true ∧ ∀ t, s.holds t = true → t = 0 := by
  have hinit : aloneSystem.Reachable freshSpin := .init freshSpin_fresh
  have hcall := hinit.next (Or.inl ⟨.callAcquire rfl, fun hpass => by
    rcases hpass with ⟨hpc, _⟩ | ⟨hpc, _⟩ <;> cases hpc⟩)
  have htest := hcall.next (Or.inl ⟨.acquireOff rfl, fun hpass => by
    rcases hpass with ⟨hpc, _⟩ | ⟨hpc, _⟩ <;> cases hpc⟩)
  have hfree := htest.next (Or.inl ⟨.acquireFree rfl (by decide), fun _ t ht => by
    have hidle := (Function.update_of_ne ht SpinPc.acquireTest
      (Function.update freshSpin.pc 0 .acquireOff)).trans (Function.update_of_ne ht _ _)
    exact congrArg SpinPc.between hidle⟩)
  have hstore := hfree.next (Or.inl ⟨.acquireStore rfl, fun hpass => by
    rcases hpass with ⟨hpc, _⟩ | ⟨hpc, _⟩ <;> cases hpc⟩)
  exact ⟨_, rfl, fun t ht => spinlock_exclusive hstore ht rfl⟩

/-- Thread 1 sleeps while thread 0 has the lock. After the release it finds the lock
free with interrupts enabled, and a tick comes before its store. -/
theorem spinlock_shared : ¬∀ s, spinSystem.Reachable s →
    ∀ t u, s.holds t = true → s.holds u = true → t = u := by
  intro hall
  have hinit : spinSystem.Reachable freshSpin := .init freshSpin_fresh
  -- thread 0 takes the lock
  have hcall := (hinit.next (Or.inl (.callAcquire rfl))).next (Or.inl (.acquireOff rfl))
  have hheld := ((hcall.next (Or.inl (.acquireFree rfl (by decide)))).next
    (Or.inl (.acquireStore rfl))).next (Or.inl (.acquireOn rfl))
  -- thread 1 finds it taken and sleeps
  have hother := (hheld.next (Or.inr (.switch rfl 1 rfl fun _ => false))).next
    (Or.inl (.callAcquire rfl))
  have htaken := (hother.next (Or.inl (.acquireOff rfl))).next (Or.inl (.acquireTaken rfl rfl))
  have hslept := htaken.next (Or.inl (.sleep rfl 0 rfl))
  -- thread 0 releases it, and thread 1 wakes and finds it free
  have hreleased := (hslept.next (Or.inl (.release rfl rfl))).next
    (Or.inr (.switch rfl 0 rfl fun _ => true))
  have hwoken := (hreleased.next (Or.inr (.switch rfl 1 rfl fun _ => false))).next
    (Or.inl (.acquireFree rfl (by decide)))
  -- a tick lets thread 0 take it once more
  have hagain := (hwoken.next (Or.inr (.switch rfl 0 rfl fun _ => false))).next
    (Or.inl (.callAcquire rfl))
  have hfirst := ((hagain.next (Or.inl (.acquireOff rfl))).next
    (Or.inl (.acquireFree rfl (by decide)))).next (Or.inl (.acquireStore rfl))
  have hback := (hfirst.next (Or.inl (.acquireOn rfl))).next
    (Or.inr (.switch rfl 1 rfl fun _ => false))
  have hboth := hback.next (Or.inl (.acquireStore rfl))
  have heq := hall _ hboth 0 1 rfl rfl
  cases heq

end Spin

end MeOS
