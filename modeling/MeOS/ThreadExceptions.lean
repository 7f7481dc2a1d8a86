import MeOS.Lib.Runs
import Mathlib.Logic.Function.Basic
import Mathlib.Data.List.Basic

/-! # `isr.cpp` and the exception queue of a thread

An exception has two halves. The handler of its number runs first, with interrupts disabled; the
one of page faults puts a `thread_exception` into the queue of the current thread. Then
`isr_handler` tries to take `exception_lock` of that thread, and whoever has it takes the queue
apart, one bottom half at a time. Anything in between may be interrupted by another exception of
the same thread, whose `isr_handler` runs on top and returns first, and by the timer, which runs
another thread.

A handler runs in one step, being the only half with interrupts disabled. The queue has one
producer and, by the lock, one consumer, so it is the list of its entries. Bottom halves are not
modelled here beyond their beginning and their end.
-/

namespace MeOS.Isr

open Runs

/-- `thread_exception`; the target thread is its number. -/
structure ThreadException where
  exceptionNumber : Nat
  data : Nat × Nat
  targetThread : Nat
deriving Repr, DecidableEq, Inhabited

/-- Where an activation of `isr_handler` is. -/
inductive IsrPc where
  /-- Before the handler in `interrupt_handlers`. -/
  | handler
  /-- Before the `CAS` on `exception_lock`. -/
  | cas
  /-- Before `queue_spsc_is_empty`. -/
  | test
  /-- Before `queue_spsc_peek`. -/
  | peek
  /-- Before `queue_spsc_remove`. -/
  | remove (te : ThreadException)
  /-- Before the test of `bottom_interrupt_handlers[regs.int_no]`. -/
  | dispatch (te : ThreadException)
  /-- In the bottom half. -/
  | bottom (te : ThreadException)
  /-- Before `exception_lock = 0`. -/
  | unlock
deriving Repr, DecidableEq

/-- An activation of `isr_handler`: `int_no`, `cr2` and `err_code`. -/
structure Frame where
  intNo : Nat
  cr2 : Nat
  errCode : Nat
  pc : IsrPc
deriving Repr, DecidableEq

/-- The activation has taken `exception_lock`. -/
def Frame.drains (f : Frame) : Bool :=
  match f.pc with
  | .handler | .cas => false
  | _ => true

/-- The exception that was removed from the queue and has not been dispatched. -/
def Frame.carries (f : Frame) : Option ThreadException :=
  match f.pc with
  | .dispatch te => some te
  | _ => none

/-- The activation will look at the queue, or at the lock. -/
def Frame.looks (f : Frame) : Bool :=
  match f.pc with
  | .handler | .unlock => false
  | _ => true

/-- What a thread has to do with exceptions; the innermost activation comes first. `accepted` lists
the exceptions put into the queue, `taken` the ones dispatched, each with the number whose bottom
half it was given to, and `late` is set by an exception that is put into the queue while an
activation of the thread stands in front of `exception_lock = 0`. -/
structure IsrThread where
  exceptions : List ThreadException
  exceptionLock : Nat
  frames : List Frame
  accepted : List ThreadException
  taken : List (Nat × ThreadException)
  late : Bool

namespace IsrThread

/-- `page_fault` in thread `thread`; the queue has ten cells, of which one stays empty. -/
def pageFault (th : IsrThread) (thread cr2 errCode : Nat) : IsrThread :=
  if th.exceptions.length + 1 < 10 then
    { th with
      exceptions := th.exceptions ++ [⟨14, (cr2, errCode), thread⟩]
      accepted := th.accepted ++ [⟨14, (cr2, errCode), thread⟩]
      late := th.late || th.frames.any fun f => f.pc == .unlock }
  else th

/-- The next statement of the innermost `isr_handler`; `bottomInterruptHandlers` says which numbers
have a bottom half. -/
def next (bottomInterruptHandlers : Nat → Bool) (thread : Nat) (th : IsrThread) :
    Option IsrThread :=
  match th.frames with
  | [] => none
  | f :: rest =>
    match f.pc with
    | .handler =>
      let th := if f.intNo = 14 then th.pageFault thread f.cr2 f.errCode else th
      some { th with frames := { f with pc := .cas } :: rest }
    | .cas =>
      if th.exceptionLock = 0 then
        some { th with exceptionLock := 1, frames := { f with pc := .test } :: rest }
      else some { th with frames := rest }
    | .test =>
      let pc := if th.exceptions.isEmpty then .unlock else .peek
      some { th with frames := { f with pc := pc } :: rest }
    | .peek =>
      some { th with frames := { f with pc := .remove (th.exceptions.headD default) } :: rest }
    | .remove te =>
      some { th with
        exceptions := th.exceptions.tail
        frames := { f with pc := .dispatch te } :: rest }
    | .dispatch te =>
      let pc := if bottomInterruptHandlers f.intNo then .bottom te else .test
      some { th with taken := th.taken ++ [(f.intNo, te)], frames := { f with pc := pc } :: rest }
    | .bottom _ => some { th with frames := { f with pc := .test } :: rest }
    | .unlock => some { th with exceptionLock := 0, frames := rest }

/-- An exception interrupts the thread. -/
def raise (intNo cr2 errCode : Nat) (th : IsrThread) : IsrThread :=
  { th with frames := ⟨intNo, cr2, errCode, .handler⟩ :: th.frames }

end IsrThread

/-- The threads and the current one. -/
structure IsrRun where
  threads : Nat → IsrThread
  current : Nat

/-- What may happen next. -/
inductive IsrEvent where
  /-- The current thread raises an exception. -/
  | raise (intNo cr2 errCode : Nat)
  /-- It goes on in `isr_handler`. -/
  | next
  /-- The timer runs another thread. -/
  | switch (thread : Nat)
deriving Repr, DecidableEq

/-- One step. -/
def IsrRun.step (bottomInterruptHandlers : Nat → Bool) (s : IsrRun) : IsrEvent → Option IsrRun
  | .raise intNo cr2 errCode =>
    let th := (s.threads s.current).raise intNo cr2 errCode
    some { s with threads := Function.update s.threads s.current th }
  | .next =>
    ((s.threads s.current).next bottomInterruptHandlers s.current).map fun th =>
      { s with threads := Function.update s.threads s.current th }
  | .switch thread => some { s with current := thread }

/-- After `thread_create`: the queue is empty and the lock free. -/
def IsrThread.new : IsrThread := ⟨[], 0, [], [], [], false⟩

/-- Any exceptions in any threads under any schedule. -/
def isrSystem (bottomInterruptHandlers : Nat → Bool) : System IsrRun where
  Init s := ∀ t, s.threads t = .new
  Next s s' := ∃ e, s.step bottomInterruptHandlers e = some s'

/-! ## The invariant of a thread -/

/-- The lock belongs to the one activation that takes the queue apart, and nothing that was put
into the queue gets lost or overtaken. -/
structure IsrInv (t : Nat) (th : IsrThread) : Prop where
  lock : th.frames.countP Frame.drains = th.exceptionLock
  lock_le : th.exceptionLock ≤ 1
  split : th.accepted = th.taken.map Prod.snd ++ th.frames.filterMap Frame.carries ++
    th.exceptions
  found : ∀ f ∈ th.frames, f.pc = .peek → th.exceptions ≠ []
  seen : ∀ f ∈ th.frames, ∀ te, f.pc = .remove te → ∃ l, th.exceptions = te :: l
  room : th.exceptions.length < 10
  own : ∀ te ∈ th.accepted, te.exceptionNumber = 14 ∧ te.targetThread = t
  looked : th.exceptions ≠ [] → th.late = false → ∃ f ∈ th.frames, f.looks = true
  emptied : th.late = false → ∀ f ∈ th.frames, f.pc = .unlock → th.exceptions = []

section Steps

variable {bottomInterruptHandlers : Nat → Bool} {t : Nat} {th th' : IsrThread} {f g : Frame}
  {fs rest : List Frame}

/-- An activation without the lock has not reached the queue. -/
theorem waiting (h : fs.countP Frame.drains = 0) (hf : f ∈ fs) :
    f.pc = .handler ∨ f.pc = .cas := by
  rw [List.countP_eq_zero] at h
  have hno := h f hf
  unfold Frame.drains at hno
  cases hpc : f.pc with
  | handler => exact Or.inl rfl
  | cas => exact Or.inr rfl
  | test | peek | remove te | dispatch te | bottom te | unlock =>
    rw [hpc] at hno
    exact absurd rfl hno

/-- Without the lock nothing is carried. -/
theorem carries_nil (h : fs.countP Frame.drains = 0) : fs.filterMap Frame.carries = [] := by
  rw [List.filterMap_eq_nil_iff]
  intro f hf
  unfold Frame.carries
  rcases waiting h hf with hpc | hpc <;> rw [hpc]

/-- The activations below one that has the lock do not have it. -/
theorem IsrInv.alone (h : IsrInv t th) (hframes : th.frames = f :: rest)
    (hf : f.drains = true) : th.exceptionLock = 1 ∧ rest.countP Frame.drains = 0 := by
  have hlock := h.lock
  have hle := h.lock_le
  rw [hframes, List.countP_cons_of_pos hf] at hlock
  omega

/-- The innermost activation has the lock and goes on as `g`, still with the lock. -/
theorem IsrInv.goes (h : IsrInv t th) (hframes : th.frames = f :: rest) (hf : f.drains = true)
    (hg : g.drains = true) (hframes' : th'.frames = g :: rest)
    (hlock : th'.exceptionLock = th.exceptionLock) (haccepted : th'.accepted = th.accepted)
    (hsplit : th'.accepted = th'.taken.map Prod.snd ++ g.carries.toList ++ th'.exceptions)
    (hfound : g.pc = .peek → th'.exceptions ≠ [])
    (hseen : ∀ te, g.pc = .remove te → ∃ l, th'.exceptions = te :: l)
    (hroom : th'.exceptions.length < 10)
    (hemptied : g.pc = .unlock → th'.exceptions = []) : IsrInv t th' := by
  obtain ⟨hone, hrest⟩ := h.alone hframes hf
  refine ⟨?_, ?_, ?_, ?_, ?_, hroom, ?_, ?_, ?_⟩
  · rw [hframes', List.countP_cons_of_pos hg, hrest, hlock, hone]
  · rw [hlock]
    exact h.lock_le
  · rw [hsplit, hframes']
    cases hc : g.carries with
    | none => rw [List.filterMap_cons_none hc, carries_nil hrest]; rfl
    | some te => rw [List.filterMap_cons_some hc, carries_nil hrest]; rfl
  · intro x hx hpc
    rw [hframes'] at hx
    rcases List.mem_cons.mp hx with rfl | hx
    · exact hfound hpc
    · rcases waiting hrest hx with e | e <;> cases hpc.symm.trans e
  · intro x hx te hpc
    rw [hframes'] at hx
    rcases List.mem_cons.mp hx with rfl | hx
    · exact hseen te hpc
    · rcases waiting hrest hx with e | e <;> cases hpc.symm.trans e
  · rw [haccepted]
    exact h.own
  · intro hne _
    refine ⟨g, hframes' ▸ List.mem_cons_self, ?_⟩
    unfold Frame.drains at hg
    unfold Frame.looks
    cases hpc : g.pc with
    | unlock => exact absurd (hemptied hpc) hne
    | handler => rw [hpc] at hg; cases hg
    | cas | test | peek | remove te | dispatch te | bottom te => rfl
  · intro _ x hx hpc
    rw [hframes'] at hx
    rcases List.mem_cons.mp hx with rfl | hx
    · exact hemptied hpc
    · rcases waiting hrest hx with e | e <;> cases hpc.symm.trans e

/-- `page_fault` keeps the invariant. -/
theorem IsrInv.handled (h : IsrInv t th) (hframes : th.frames = f :: rest)
    (hf : f.pc = .handler)
    (hth : th' = { (if f.intNo = 14 then th.pageFault t f.cr2 f.errCode else th) with
      frames := { f with pc := .cas } :: rest }) : IsrInv t th' := by
  have hlock := h.lock
  have hsplit := h.split
  have hnot : f.drains = false := by unfold Frame.drains; rw [hf]
  have hnone : f.carries = none := by unfold Frame.carries; rw [hf]
  rw [hframes, List.countP_cons_of_neg (by rw [hnot]; decide)] at hlock
  rw [hframes, List.filterMap_cons_none hnone] at hsplit
  by_cases hput : f.intNo = 14 ∧ th.exceptions.length + 1 < 10
  · -- the exception is put into the queue
    rw [if_pos hput.1, IsrThread.pageFault, if_pos hput.2] at hth
    subst hth
    refine ⟨hlock, h.lock_le, ?_, ?_, ?_, ?_, ?_, ?_, ?_⟩
    · show th.accepted ++ _ = _ ++ (({ f with pc := .cas } :: rest).filterMap _) ++ (_ ++ _)
      rw [List.filterMap_cons_none rfl, hsplit]
      simp only [List.append_assoc]
    · intro g _ _
      exact List.append_ne_nil_of_right_ne_nil _ (List.cons_ne_nil _ _)
    · intro g hg te hgpc
      rcases List.mem_cons.mp hg with rfl | hg
      · cases hgpc
      · obtain ⟨l, hl⟩ := h.seen g (by rw [hframes]; exact List.mem_cons_of_mem _ hg) te hgpc
        exact ⟨l ++ _, by rw [hl]; rfl⟩
    · show (th.exceptions ++ [_]).length < 10
      rw [List.length_append, List.length_singleton]
      exact hput.2
    · intro te hte
      rcases List.mem_append.mp hte with hte | hte
      · exact h.own te hte
      · rw [List.mem_singleton.mp hte]
        exact ⟨rfl, rfl⟩
    · intro _ _
      exact ⟨_, List.mem_cons_self, rfl⟩
    · intro hlate g hg hgpc
      -- an activation in front of the reset makes the exception late
      have hlate : (th.late || th.frames.any fun f => f.pc == .unlock) = false := hlate
      rw [Bool.or_eq_false_iff, List.any_eq_false] at hlate
      rcases List.mem_cons.mp hg with rfl | hg
      · cases hgpc
      · have := hlate.2 g (by rw [hframes]; exact List.mem_cons_of_mem _ hg)
        rw [hgpc] at this
        exact absurd rfl this
  · have hsame : (if f.intNo = 14 then th.pageFault t f.cr2 f.errCode else th) = th := by
      by_cases hno : f.intNo = 14
      · rw [if_pos hno, IsrThread.pageFault, if_neg fun hroom => hput ⟨hno, hroom⟩]
      · rw [if_neg hno]
    rw [hsame] at hth
    subst hth
    refine ⟨hlock, h.lock_le, ?_, ?_, ?_, h.room, h.own, ?_, ?_⟩
    · show th.accepted = _ ++ (({ f with pc := .cas } :: rest).filterMap _) ++ _
      rw [List.filterMap_cons_none rfl]
      exact hsplit
    · intro g hg hgpc
      rcases List.mem_cons.mp hg with rfl | hg
      · cases hgpc
      · exact h.found g (by rw [hframes]; exact List.mem_cons_of_mem _ hg) hgpc
    · intro g hg te hgpc
      rcases List.mem_cons.mp hg with rfl | hg
      · cases hgpc
      · exact h.seen g (by rw [hframes]; exact List.mem_cons_of_mem _ hg) te hgpc
    · intro _ _
      exact ⟨_, List.mem_cons_self, rfl⟩
    · intro hlate g hg hgpc
      rcases List.mem_cons.mp hg with rfl | hg
      · cases hgpc
      · exact h.emptied hlate g (by rw [hframes]; exact List.mem_cons_of_mem _ hg) hgpc

/-- The innermost activation leaves without the lock, or gives it back with the queue empty. -/
theorem IsrInv.leaves (h : IsrInv t th) (hframes : th.frames = f :: rest)
    (hcarries : f.carries = none) (hframes' : th'.frames = rest)
    (hlock : rest.countP Frame.drains = th'.exceptionLock) (hle : th'.exceptionLock ≤ 1)
    (hexceptions : th'.exceptions = th.exceptions) (haccepted : th'.accepted = th.accepted)
    (htaken : th'.taken = th.taken) (hlate : th'.late = th.late)
    (hlooked : th.exceptions ≠ [] → th.late = false → ∃ g ∈ rest, g.looks = true) :
    IsrInv t th' := by
  have hin : ∀ g ∈ rest, g ∈ th.frames := by
    intro g hg
    rw [hframes]
    exact List.mem_cons_of_mem _ hg
  refine ⟨?_, hle, ?_, ?_, ?_, ?_, ?_, ?_, ?_⟩
  · rw [hframes', hlock]
  · have hsplit := h.split
    rw [hframes, List.filterMap_cons_none hcarries] at hsplit
    rw [haccepted, htaken, hexceptions, hframes', hsplit]
  · rw [hframes', hexceptions]
    exact fun g hg => h.found g (hin g hg)
  · rw [hframes', hexceptions]
    exact fun g hg => h.seen g (hin g hg)
  · rw [hexceptions]
    exact h.room
  · rw [haccepted]
    exact h.own
  · rw [hexceptions, hlate, hframes']
    exact hlooked
  · rw [hexceptions, hlate, hframes']
    exact fun hno g hg => h.emptied hno g (hin g hg)

/-- An activation at the `CAS` either takes the lock or finds it taken. -/
theorem IsrInv.contends (h : IsrInv t th) (hframes : th.frames = f :: rest) (hf : f.pc = .cas)
    (hth : th' = if th.exceptionLock = 0 then
        { th with exceptionLock := 1, frames := { f with pc := .test } :: rest }
      else { th with frames := rest }) : IsrInv t th' := by
  have hlock := h.lock
  have hsplit := h.split
  have hnot : f.drains = false := by unfold Frame.drains; rw [hf]
  have hnone : f.carries = none := by unfold Frame.carries; rw [hf]
  rw [hframes, List.countP_cons_of_neg (by rw [hnot]; decide)] at hlock
  by_cases hfree : th.exceptionLock = 0
  · rw [if_pos hfree] at hth
    subst hth
    have hrest : rest.countP Frame.drains = 0 := hlock.trans hfree
    rw [hframes, List.filterMap_cons_none hnone] at hsplit
    refine ⟨?_, Nat.le_refl 1, ?_, ?_, ?_, h.room, h.own, ?_, ?_⟩
    · show ({ f with pc := .test } :: rest).countP Frame.drains = 1
      rw [List.countP_cons_of_pos rfl, hrest]
    · show th.accepted = _ ++ ({ f with pc := .test } :: rest).filterMap Frame.carries ++ _
      rw [List.filterMap_cons_none rfl]
      exact hsplit
    · intro x hx hpc
      rcases List.mem_cons.mp hx with rfl | hx
      · cases hpc
      · rcases waiting hrest hx with e | e <;> cases hpc.symm.trans e
    · intro x hx te hpc
      rcases List.mem_cons.mp hx with rfl | hx
      · cases hpc
      · rcases waiting hrest hx with e | e <;> cases hpc.symm.trans e
    · intro _ _
      exact ⟨_, List.mem_cons_self, rfl⟩
    · intro _ x hx hpc
      rcases List.mem_cons.mp hx with rfl | hx
      · cases hpc
      · rcases waiting hrest hx with e | e <;> cases hpc.symm.trans e
  · rw [if_neg hfree] at hth
    subst hth
    refine h.leaves hframes hnone rfl hlock h.lock_le rfl rfl rfl rfl ?_
    intro hne hlate
    -- the activation that has the lock is not in front of its reset, for then the queue is empty
    have hpos : 0 < rest.countP Frame.drains := by omega
    obtain ⟨g, hg, hdrains⟩ := List.countP_pos_iff.mp hpos
    refine ⟨g, hg, ?_⟩
    unfold Frame.drains at hdrains
    unfold Frame.looks
    cases hpc : g.pc with
    | unlock =>
      have hin : g ∈ th.frames := by
        rw [hframes]
        exact List.mem_cons_of_mem _ hg
      exact absurd (h.emptied hlate g hin hpc) hne
    | handler => rw [hpc] at hdrains; cases hdrains
    | cas | test | peek | remove te | dispatch te | bottom te => rfl

/-- Every statement of `isr_handler` keeps the invariant. -/
theorem IsrInv.next (h : IsrInv t th) (hnext : th.next bottomInterruptHandlers t = some th') :
    IsrInv t th' := by
  have hsplit := h.split
  unfold IsrThread.next at hnext
  cases hframes : th.frames with
  | nil => rw [hframes] at hnext; cases hnext
  | cons f rest =>
    rw [hframes] at hnext hsplit
    obtain ⟨intNo, cr2, errCode, pc⟩ := f
    cases pc with
    | handler => exact h.handled hframes rfl (Option.some.inj hnext).symm
    | cas =>
      refine h.contends hframes rfl ?_
      by_cases hfree : th.exceptionLock = 0
      · rw [if_pos hfree]
        exact (Option.some.inj ((if_pos hfree).symm.trans hnext)).symm
      · rw [if_neg hfree]
        exact (Option.some.inj ((if_neg hfree).symm.trans hnext)).symm
    | test =>
      obtain ⟨_, hrest⟩ := h.alone hframes rfl
      rw [List.filterMap_cons_none rfl, carries_nil hrest] at hsplit
      by_cases hq : th.exceptions = []
      · have hth : th' = { th with frames := ⟨intNo, cr2, errCode, .unlock⟩ :: rest } := by
          rw [← Option.some.inj hnext, hq]
          rfl
        subst hth
        exact h.goes hframes rfl rfl rfl rfl rfl hsplit nofun nofun h.room fun _ => hq
      · have hth : th' = { th with frames := ⟨intNo, cr2, errCode, .peek⟩ :: rest } := by
          rw [← Option.some.inj hnext, if_neg fun hempty => hq (List.isEmpty_iff.mp hempty)]
        subst hth
        exact h.goes hframes rfl rfl rfl rfl rfl hsplit (fun _ => hq) nofun h.room nofun
    | peek =>
      obtain ⟨_, hrest⟩ := h.alone hframes rfl
      rw [List.filterMap_cons_none rfl, carries_nil hrest] at hsplit
      have hne := h.found ⟨intNo, cr2, errCode, .peek⟩ (hframes ▸ List.mem_cons_self) rfl
      obtain ⟨te, l, hq⟩ := List.exists_cons_of_ne_nil hne
      have hth : th' = { th with frames := ⟨intNo, cr2, errCode, .remove te⟩ :: rest } := by
        rw [← Option.some.inj hnext, hq]
        rfl
      subst hth
      refine h.goes hframes rfl rfl rfl rfl rfl hsplit nofun ?_ h.room nofun
      rintro te' hte
      cases hte
      exact ⟨l, hq⟩
    | remove te =>
      obtain ⟨_, hrest⟩ := h.alone hframes rfl
      rw [List.filterMap_cons_none rfl, carries_nil hrest] at hsplit
      obtain ⟨l, hq⟩ :=
        h.seen ⟨intNo, cr2, errCode, .remove te⟩ (hframes ▸ List.mem_cons_self) te rfl
      have hroom := h.room
      have hth : th' = { th with
          exceptions := l
          frames := ⟨intNo, cr2, errCode, .dispatch te⟩ :: rest } := by
        rw [← Option.some.inj hnext, hq]
        rfl
      subst hth
      rw [hq] at hsplit hroom
      refine h.goes hframes rfl rfl rfl rfl rfl ?_ nofun nofun (Nat.lt_of_succ_lt hroom) nofun
      show th.accepted = th.taken.map Prod.snd ++ [te] ++ l
      rw [hsplit]
      simp
    | dispatch te =>
      obtain ⟨_, hrest⟩ := h.alone hframes rfl
      have hcarried : (⟨intNo, cr2, errCode, .dispatch te⟩ :: rest : List Frame).filterMap
          Frame.carries = te :: rest.filterMap Frame.carries := rfl
      rw [hcarried, carries_nil hrest] at hsplit
      have htaken : th.accepted =
          (th.taken ++ [(intNo, te)]).map Prod.snd ++ [] ++ th.exceptions := by
        rw [hsplit]
        simp
      by_cases hbottom : bottomInterruptHandlers intNo = true
      · have hth : th' = { th with
            taken := th.taken ++ [(intNo, te)]
            frames := ⟨intNo, cr2, errCode, .bottom te⟩ :: rest } := by
          rw [← Option.some.inj hnext, if_pos hbottom]
        subst hth
        exact h.goes hframes rfl rfl rfl rfl rfl htaken nofun nofun h.room nofun
      · have hth : th' = { th with
            taken := th.taken ++ [(intNo, te)]
            frames := ⟨intNo, cr2, errCode, .test⟩ :: rest } := by
          rw [← Option.some.inj hnext, if_neg hbottom]
        subst hth
        exact h.goes hframes rfl rfl rfl rfl rfl htaken nofun nofun h.room nofun
    | bottom te =>
      obtain ⟨_, hrest⟩ := h.alone hframes rfl
      rw [List.filterMap_cons_none rfl, carries_nil hrest] at hsplit
      cases hnext
      exact h.goes hframes rfl rfl rfl rfl rfl hsplit nofun nofun h.room nofun
    | unlock =>
      obtain ⟨_, hrest⟩ := h.alone hframes rfl
      cases hnext
      refine h.leaves hframes rfl rfl hrest (Nat.zero_le 1) rfl rfl rfl rfl ?_
      intro hne hlate
      exact absurd (h.emptied hlate _ (hframes ▸ List.mem_cons_self) rfl) hne

/-- An exception keeps it, too. -/
theorem IsrInv.raise (h : IsrInv t th) (intNo cr2 errCode : Nat) :
    IsrInv t (th.raise intNo cr2 errCode) := by
  refine ⟨h.lock, h.lock_le, h.split, ?_, ?_, h.room, h.own, ?_, ?_⟩
  · intro f hf hpc
    rcases List.mem_cons.mp hf with rfl | hf
    · cases hpc
    · exact h.found f hf hpc
  · intro f hf te hpc
    rcases List.mem_cons.mp hf with rfl | hf
    · cases hpc
    · exact h.seen f hf te hpc
  · intro hne hlate
    obtain ⟨f, hf, hlooks⟩ := h.looked hne hlate
    exact ⟨f, List.mem_cons_of_mem _ hf, hlooks⟩
  · intro hlate f hf hpc
    rcases List.mem_cons.mp hf with rfl | hf
    · cases hpc
    · exact h.emptied hlate f hf hpc

theorem IsrInv.new (t : Nat) : IsrInv t .new :=
  ⟨rfl, Nat.zero_le 1, rfl, nofun, nofun, by decide, nofun, fun hne => absurd rfl hne, nofun⟩

/-- The invariant holds for every thread. -/
theorem isrInv_inductive :
    (isrSystem bottomInterruptHandlers).Inductive fun s => ∀ t, IsrInv t (s.threads t) := by
  refine ⟨?_, ?_⟩
  · intro s hs t
    rw [hs t]
    exact .new t
  · rintro s s' hinv ⟨e, hstep⟩
    have hupdate : ∀ th, IsrInv s.current th → ∀ t,
        IsrInv t (Function.update s.threads s.current th t) := by
      intro th hth t
      by_cases ht : t = s.current
      · subst ht
        rwa [Function.update_self]
      · rw [Function.update_of_ne ht]
        exact hinv t
    cases e with
    | raise intNo cr2 errCode =>
      cases hstep
      exact hupdate _ ((hinv _).raise intNo cr2 errCode)
    | next =>
      simp only [IsrRun.step, Option.map_eq_some_iff] at hstep
      obtain ⟨th, hnext, rfl⟩ := hstep
      exact hupdate _ ((hinv _).next hnext)
    | switch thread =>
      cases hstep
      exact hinv

/-- Whatever interrupts whatever, in every thread one activation at most has `exception_lock`, and
the page faults of this thread that were put into the queue are dispatched, each once and in their
order, to the bottom half of the number of that activation, if there is one. A thread that has
left all its handlers has left the lock and, unless a fault came between the last test of the
queue and the reset of the lock, nothing in the queue. -/
theorem exceptions_served {s : IsrRun} (h : (isrSystem bottomInterruptHandlers).Reachable s)
    (t : Nat) :
    ((s.threads t).accepted = (s.threads t).taken.map Prod.snd ++
      (s.threads t).frames.filterMap Frame.carries ++ (s.threads t).exceptions) ∧
    ((s.threads t).frames.countP Frame.drains = (s.threads t).exceptionLock ∧
      (s.threads t).exceptionLock ≤ 1) ∧
    (∀ te ∈ (s.threads t).accepted, te.exceptionNumber = 14 ∧ te.targetThread = t) ∧
    ((s.threads t).frames = [] → (s.threads t).exceptionLock = 0 ∧
      ((s.threads t).late = false → (s.threads t).exceptions = [] ∧
        (s.threads t).taken.map Prod.snd = (s.threads t).accepted)) := by
  have hinv := isrInv_inductive.holds h t
  refine ⟨hinv.split, ⟨hinv.lock, hinv.lock_le⟩, hinv.own, ?_⟩
  intro hframes
  have hlock := hinv.lock
  have hsplit := hinv.split
  rw [hframes] at hlock hsplit
  refine ⟨hlock.symm, fun hlate => ?_⟩
  have hempty : (s.threads t).exceptions = [] := by
    by_contra hne
    obtain ⟨f, hf, _⟩ := hinv.looked hne hlate
    rw [hframes] at hf
    cases hf
  refine ⟨hempty, ?_⟩
  rw [hsplit, hempty, List.filterMap_nil, List.append_nil, List.append_nil]

end Steps

/-- Steps one after the other; one that cannot happen is skipped. -/
def IsrRun.run (bottomInterruptHandlers : Nat → Bool) (s : IsrRun) (es : List IsrEvent) : IsrRun :=
  es.foldl (fun s e => (s.step bottomInterruptHandlers e).getD s) s

theorem reachable_run {bottomInterruptHandlers : Nat → Bool} {s : IsrRun}
    (h : (isrSystem bottomInterruptHandlers).Reachable s) (es : List IsrEvent) :
    (isrSystem bottomInterruptHandlers).Reachable (s.run bottomInterruptHandlers es) := by
  induction es generalizing s with
  | nil => exact h
  | cons e es ih =>
    refine ih (s := (s.step bottomInterruptHandlers e).getD s) ?_
    cases hstep : s.step bottomInterruptHandlers e with
    | none => exact h
    | some s' => exact h.next ⟨e, hstep⟩

/-- A page fault in thread 2, whose bottom half is interrupted by another page fault. -/
def nestedFaults : IsrRun :=
  IsrRun.run (fun n => n == 14) ⟨fun _ => .new, 2⟩
    ([.raise 14 0x1000 2] ++ List.replicate 6 .next ++ [.raise 14 0x2000 0, .next, .next])

theorem exceptions_served_nestedFaults :
    ((nestedFaults.threads 2).accepted = (nestedFaults.threads 2).taken.map Prod.snd ++
      (nestedFaults.threads 2).frames.filterMap Frame.carries ++
      (nestedFaults.threads 2).exceptions) ∧
    ((nestedFaults.threads 2).frames.countP Frame.drains = (nestedFaults.threads 2).exceptionLock ∧
      (nestedFaults.threads 2).exceptionLock ≤ 1) ∧
    (∀ te ∈ (nestedFaults.threads 2).accepted, te.exceptionNumber = 14 ∧ te.targetThread = 2) ∧
    ((nestedFaults.threads 2).frames = [] → (nestedFaults.threads 2).exceptionLock = 0 ∧
      ((nestedFaults.threads 2).late = false → (nestedFaults.threads 2).exceptions = [] ∧
        (nestedFaults.threads 2).taken.map Prod.snd = (nestedFaults.threads 2).accepted)) := by
  have h : (isrSystem fun n => n == 14).Reachable nestedFaults :=
    reachable_run (.init fun _ => rfl) _
  exact exceptions_served h 2

end MeOS.Isr
