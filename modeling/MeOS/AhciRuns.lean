import MeOS.Ahci
import MeOS.Lib.Queue

/-! # One disk command at a time

The request unit keeps all calls but one away from the device. The call that has it
issues one command; the units of `ahci_callback_sem` are the interrupts that no call
has used. Without surplus interrupts there is a unit for it only when its own command
is complete.
-/

namespace MeOS

open HandOff Runs

/-- An interrupt is raised only when more commands are complete than interrupts were raised. -/
def AhciRun.OncePerCommand (s : AhciRun) : AhciEvent → Prop
  | .interrupt _ => s.interrupts + s.outstanding.length < s.issued
  | _ => True

/-- The runs of a device that raises no surplus interrupt. -/
def onceSystem : System AhciRun where
  Init := AhciRun.Fresh
  Next s s' := ∃ e, s.OncePerCommand e ∧ s.step e = some s'

/-! ## Who has what -/

/-- Has the request unit. -/
def AhciPc.holds : AhciPc → Bool
  | .setup | .issue | .await _ | .callbackBlocked _ | .finish _ => true
  | _ => false

/-- Has issued a command and not yet been granted a unit of `ahci_callback_sem`. -/
def AhciPc.awaits : AhciPc → Bool
  | .await _ | .callbackBlocked _ => true
  | _ => false

/-- In the waiting list of `ahci_request_sem`. -/
def AhciPc.requestWaits : AhciPc → Bool
  | .requestBlocked => true
  | _ => false

/-- In the waiting list of `ahci_callback_sem`. -/
def AhciPc.callbackWaits : AhciPc → Bool
  | .callbackBlocked _ => true
  | _ => false

/-- The command that was issued. -/
def AhciPc.command : AhciPc → Option Nat
  | .await c | .callbackBlocked c | .finish c | .returned c => some c
  | _ => none

/-- The command that is taken to be complete. -/
def AhciPc.settled : AhciPc → Option Nat
  | .finish c | .returned c => some c
  | _ => none

/-- One thread at most has the request unit. -/
structure RequestInv (s : AhciRun) : Prop where
  unit : s.requestSem.lock = 0 ∨ s.requestSem.lock = 1
  free : s.requestSem.lock = 1 → s.requestSem.waiting = [] ∧ ∀ t, (s.pc t).holds = false
  one : ∀ t u, (s.pc t).holds = true → (s.pc u).holds = true → t = u
  waits : ∀ t, t ∈ s.requestSem.waiting ↔ (s.pc t).requestWaits = true
  nodup : s.requestSem.waiting.Nodup

/-- The waiting list of `ahci_callback_sem`. -/
structure CallbackInv (s : AhciRun) : Prop where
  nonneg : 0 ≤ s.callbackSem.lock
  idle : s.callbackSem.waiting ≠ [] → s.callbackSem.lock = 0
  waits : ∀ t, t ∈ s.callbackSem.waiting ↔ (s.pc t).callbackWaits = true
  nodup : s.callbackSem.waiting.Nodup

/-- The units of `ahci_callback_sem` are the interrupts that no call has used; every call but the
one that awaits has used one, and no interrupt is surplus. -/
structure UnitsInv (s : AhciRun) : Prop where
  awaiting : ∀ t, (s.pc t).awaits = true → (s.issued : Int) + s.callbackSem.lock = s.interrupts + 1
  quiet : (∀ t, (s.pc t).awaits = false) → (s.issued : Int) + s.callbackSem.lock = s.interrupts
  raised : s.interrupts + s.outstanding.length ≤ s.issued

/-- The commands that threads take to be complete are. -/
structure CommandsInv (s : AhciRun) : Prop where
  known : ∀ t c, (s.pc t).command = some c → c < s.issued
  numbered : ∀ c ∈ s.outstanding, c < s.issued
  nodup : s.outstanding.Nodup
  settled : ∀ t c, (s.pc t).settled = some c → c ∉ s.outstanding

/-- The invariant of the runs without surplus interrupts. -/
structure AhciInv (s : AhciRun) : Prop where
  request : RequestInv s
  callback : CallbackInv s
  units : UnitsInv s
  commands : CommandsInv s

/-- The thread `t` has moved to `pc`. -/
structure Moved (s s' : AhciRun) (t : Nat) (pc : AhciPc) : Prop where
  here : s'.pc t = pc
  others : ∀ u, u ≠ t → s'.pc u = s.pc u

section Moves

variable {s s' : AhciRun} {t u c : Nat} {pc : AhciPc}

theorem AhciRun.goto_moved : Moved s (s.goto t pc) t pc where
  here := Function.update_self _ _ _
  others := fun _ h => Function.update_of_ne h _ _

/-- A move that does not change `f` for its thread does not change it for any. -/
theorem Moved.keeps {β : Type} (h : Moved s s' t pc) (f : AhciPc → β) (hf : f pc = f (s.pc t))
    (u : Nat) : f (s'.pc u) = f (s.pc u) := by
  by_cases hut : u = t
  · rw [hut, h.here, hf]
  · rw [h.others u hut]

/-- A move learns nothing about commands that its thread did not know. -/
theorem Moved.drops (h : Moved s s' t pc) (f : AhciPc → Option Nat)
    (hf : ∀ c, f pc = some c → f (s.pc t) = some c) (u c : Nat) (hc : f (s'.pc u) = some c) :
    f (s.pc u) = some c := by
  by_cases hut : u = t
  · rw [hut, h.here] at hc
    rw [hut]
    exact hf c hc
  · rwa [h.others u hut] at hc

theorem AhciPc.holds_of_awaits (h : pc.awaits = true) : pc.holds = true := by
  cases pc with
  | await _ | callbackBlocked _ => rfl
  | _ => cases h

theorem AhciPc.awaits_of_callbackWaits (h : pc.callbackWaits = true) : pc.awaits = true := by
  cases pc with
  | callbackBlocked _ => rfl
  | _ => cases h

theorem AhciPc.command_of_settled (h : pc.settled = some c) : pc.command = some c := by
  cases pc with
  | finish _ | returned _ => exact h
  | _ => cases h

theorem AhciPc.eq_of_callbackWaits (h : pc.callbackWaits = true) :
    ∃ c, pc = .callbackBlocked c := by
  cases pc with
  | callbackBlocked c => exact ⟨c, rfl⟩
  | _ => cases h

theorem AhciPc.eq_of_requestWaits (h : pc.requestWaits = true) : pc = .requestBlocked := by
  cases pc with
  | requestBlocked => rfl
  | _ => cases h

/-- A thread that calls `ahci_data_transfer` has nothing. -/
theorem AhciPc.outside (h : AhciRun.inCall pc = false) :
    pc.holds = false ∧ pc.requestWaits = false ∧ pc.callbackWaits = false ∧ pc.awaits = false := by
  cases pc with
  | idle | returned _ | failed => exact ⟨rfl, rfl, rfl, rfl⟩
  | _ => cases h

/-! ## The request unit -/

theorem RequestInv.queue (h : RequestInv s) :
    Queue.Lists s.requestSem.waiting fun t => (s.pc t).requestWaits = true :=
  ⟨h.nodup, h.waits⟩

/-- Neither the semaphore nor who holds or waits changes. -/
theorem RequestInv.same (h : RequestInv s) (hsem : s'.requestSem = s.requestSem)
    (hholds : ∀ u, (s'.pc u).holds = (s.pc u).holds)
    (hwaits : ∀ u, (s'.pc u).requestWaits = (s.pc u).requestWaits) : RequestInv s' where
  unit := by
    rw [hsem]
    exact h.unit
  free := by
    intro hlock
    rw [hsem] at hlock
    rcases h.free hlock with ⟨hempty, hnone⟩
    rw [hsem]
    exact ⟨hempty, fun t => by rw [hholds t, hnone t]⟩
  one := by
    intro t u ht hu
    rw [hholds] at ht hu
    exact h.one t u ht hu
  waits := by
    intro t
    rw [hsem, hwaits]
    exact h.waits t
  nodup := by
    rw [hsem]
    exact h.nodup

theorem RequestInv.lock_zero (h : RequestInv s) (ht : (s.pc t).holds = true) :
    s.requestSem.lock = 0 := by
  rcases h.unit with hzero | hone
  · exact hzero
  · have hnone := (h.free hone).2 t
    rw [ht] at hnone
    cases hnone

/-- While a thread has the request unit no other one awaits. -/
theorem RequestInv.awaits_other (h : RequestInv s) (ht : (s.pc t).holds = true) (hut : u ≠ t) :
    (s.pc u).awaits = false := by
  by_contra hu
  rw [Bool.not_eq_false] at hu
  exact hut (h.one u t (AhciPc.holds_of_awaits hu) ht)

/-- The unit is taken already: the thread queues up. -/
theorem RequestInv.queues (h : RequestInv s) (ht : AhciRun.inCall (s.pc t) = false)
    (hlock : s.requestSem.lock ≤ 0) (hmoved : Moved s s' t .requestBlocked)
    (hsem : s'.requestSem = { s.requestSem with waiting := s.requestSem.waiting ++ [t] }) :
    RequestInv s' := by
  rcases AhciPc.outside ht with ⟨hholds, hwaits, _, _⟩
  have hqueue : Queue.Lists s'.requestSem.waiting fun u => (s'.pc u).requestWaits = true := by
    rw [hsem]
    refine h.queue.push (by simp [hwaits]) ?_ fun u hut => ?_
    · rw [hmoved.here]
      rfl
    · rw [hmoved.others u hut]
  have hzero : s.requestSem.lock = 0 := by
    rcases h.unit with hzero | hone
    · exact hzero
    · omega
  have hsame := hmoved.keeps AhciPc.holds (by rw [hholds]; rfl)
  constructor
  · rw [hsem]
    exact Or.inl hzero
  · intro hone
    rw [hsem] at hone
    have hone' : s.requestSem.lock = 1 := hone
    omega
  · intro a b ha hb
    rw [hsame] at ha hb
    exact h.one a b ha hb
  · exact hqueue.mem
  · exact hqueue.nodup

/-- The thread takes the unit. -/
theorem RequestInv.takes (h : RequestInv s) (ht : AhciRun.inCall (s.pc t) = false)
    (hlock : ¬ s.requestSem.lock ≤ 0) (hmoved : Moved s s' t .setup)
    (hsem : s'.requestSem = { s.requestSem with lock := s.requestSem.lock - 1 }) :
    RequestInv s' := by
  rcases AhciPc.outside ht with ⟨_, hwaits, _, _⟩
  have hone : s.requestSem.lock = 1 := by
    rcases h.unit with hzero | hone
    · omega
    · exact hone
  rcases h.free hone with ⟨hempty, hnone⟩
  have hme : ∀ a, (s'.pc a).holds = true → a = t := by
    intro a ha
    by_contra hat
    rw [hmoved.others a hat, hnone a] at ha
    cases ha
  have hzero : s'.requestSem.lock = 0 := by
    rw [hsem]
    show s.requestSem.lock - 1 = 0
    omega
  constructor
  · exact Or.inl hzero
  · intro hone'
    omega
  · intro a b ha hb
    rw [hme a ha, hme b hb]
  · intro a
    rw [hsem, hmoved.keeps AhciPc.requestWaits (by rw [hwaits]; rfl) a]
    exact h.waits a
  · rw [hsem]
    exact h.nodup

/-- The thread with the unit goes without giving it back. -/
theorem RequestInv.loses (h : RequestInv s) (ht : (s.pc t).holds = true)
    (hmoved : Moved s s' t .failed)
    (hsem : s'.requestSem = s.requestSem) : RequestInv s' := by
  have hzero := h.lock_zero ht
  have hnone : ∀ a, (s'.pc a).holds = true → False := by
    intro a ha
    by_cases hat : a = t
    · rw [hat, hmoved.here] at ha
      cases ha
    · rw [hmoved.others a hat] at ha
      exact hat (h.one a t ha ht)
  have hwaits : (s.pc t).requestWaits = false := by
    revert ht
    cases s.pc t <;> simp [AhciPc.holds, AhciPc.requestWaits]
  constructor
  · rw [hsem]
    exact Or.inl hzero
  · intro hone
    rw [hsem] at hone
    omega
  · exact fun a _ ha _ => (hnone a ha).elim
  · intro a
    rw [hsem, hmoved.keeps AhciPc.requestWaits (by rw [hwaits]; rfl) a]
    exact h.waits a
  · rw [hsem]
    exact h.nodup

/-- The thread with the unit gives it back, to the first thread that waits for it. -/
theorem RequestInv.finish (h : RequestInv s) (hpc : s.pc t = .finish c) :
    RequestInv { (s.goto t (.returned c)).wake s.requestSem with
      requestSem := (s.requestSem.signal t).1 } := by
  have ht : (s.pc t).holds = true := by rw [hpc]; rfl
  have hzero := h.lock_zero ht
  -- `t` was the only holder, so between its return and the wake there is none
  have hreturned : ∀ a, ((s.goto t (.returned c)).pc a).holds = true → False := by
    intro a ha
    by_cases hat : a = t
    · rw [hat, AhciRun.goto_moved.here] at ha
      cases ha
    · rw [AhciRun.goto_moved.others a hat] at ha
      exact hat (h.one a t ha ht)
  have hmoved : Moved s (s.goto t (.returned c)) t (.returned c) := AhciRun.goto_moved
  have hwaits := hmoved.keeps AhciPc.requestWaits (by rw [hpc]; rfl)
  unfold AhciRun.wake Sem.signal
  cases hqueue : s.requestSem.waiting with
  | nil =>
    constructor
    · right
      show s.requestSem.lock + 1 = 1
      omega
    · intro _
      refine ⟨rfl, ?_⟩
      intro a
      rw [← Bool.not_eq_true]
      exact hreturned a
    · exact fun a _ ha _ => (hreturned a ha).elim
    · intro a
      show a ∈ [] ↔ ((s.goto t (.returned c)).pc a).requestWaits = true
      rw [hwaits a, ← h.waits a, hqueue]
    · exact List.nodup_nil
  | cons n rest =>
    -- the first waiter takes the lock over: it goes to its set-up with the count still at 0
    have hlists := h.queue
    rw [hqueue] at hlists
    have hrest : Queue.Lists rest fun a =>
        (((s.goto t (.returned c)).goto n .setup).pc a).requestWaits = true := by
      refine hlists.pop ?_ fun a han => ?_
      · rw [AhciRun.goto_moved.here]
        simp [AhciPc.requestWaits]
      · rw [AhciRun.goto_moved.others a han, hwaits a]
    have hn : (s.pc n).requestWaits = true :=
      (h.waits n).mp (by rw [hqueue]; exact List.mem_cons_self)
    have hnt : ((s.goto t (.returned c)).pc n).woken = .setup := by
      have hn' := hwaits n
      rw [hn] at hn'
      revert hn'
      cases (s.goto t (.returned c)).pc n <;> simp [AhciPc.requestWaits, AhciPc.woken]
    simp only [hnt]
    -- the woken thread is then the only holder
    have hme : ∀ a, (((s.goto t (.returned c)).goto n .setup).pc a).holds = true → a = n := by
      intro a ha
      by_contra han
      rw [AhciRun.goto_moved.others a han] at ha
      exact hreturned a ha
    constructor
    · exact Or.inl hzero
    · intro hone
      have hone' : s.requestSem.lock = 1 := hone
      omega
    · intro a b ha hb
      rw [hme a ha, hme b hb]
    · exact hrest.mem
    · exact hrest.nodup

/-! ## The callback semaphore -/

theorem CallbackInv.queue (h : CallbackInv s) :
    Queue.Lists s.callbackSem.waiting fun t => (s.pc t).callbackWaits = true :=
  ⟨h.nodup, h.waits⟩

/-- Neither the semaphore nor who waits for it changes. -/
theorem CallbackInv.same (h : CallbackInv s) (hsem : s'.callbackSem = s.callbackSem)
    (hwaits : ∀ u, (s'.pc u).callbackWaits = (s.pc u).callbackWaits) : CallbackInv s' where
  nonneg := by
    rw [hsem]
    exact h.nonneg
  idle := by
    rw [hsem]
    exact h.idle
  waits := by
    intro t
    rw [hsem, hwaits]
    exact h.waits t
  nodup := by
    rw [hsem]
    exact h.nodup

/-- No unit is there: the thread waits for the interrupt. -/
theorem CallbackInv.queues (h : CallbackInv s) (hpc : s.pc t = .await c)
    (hlock : s.callbackSem.lock ≤ 0) (hmoved : Moved s s' t (.callbackBlocked c))
    (hsem : s'.callbackSem = { s.callbackSem with waiting := s.callbackSem.waiting ++ [t] }) :
    CallbackInv s' := by
  have hqueue : Queue.Lists s'.callbackSem.waiting fun u => (s'.pc u).callbackWaits = true := by
    rw [hsem]
    refine h.queue.push (by simp [hpc, AhciPc.callbackWaits]) ?_ fun u hut => ?_
    · rw [hmoved.here]
      rfl
    · rw [hmoved.others u hut]
  have hnonneg := h.nonneg
  constructor
  · rw [hsem]
    exact hnonneg
  · intro _
    rw [hsem]
    show s.callbackSem.lock = 0
    omega
  · exact hqueue.mem
  · exact hqueue.nodup

/-- The thread takes a unit. -/
theorem CallbackInv.takes (h : CallbackInv s) (hlock : ¬ s.callbackSem.lock ≤ 0)
    (hwaits : ∀ u, (s'.pc u).callbackWaits = (s.pc u).callbackWaits)
    (hsem : s'.callbackSem = { s.callbackSem with lock := s.callbackSem.lock - 1 }) :
    CallbackInv s' := by
  have hempty : s.callbackSem.waiting = [] := by
    by_contra hne
    have hzero := h.idle hne
    omega
  constructor
  · rw [hsem]
    show 0 ≤ s.callbackSem.lock - 1
    omega
  · rw [hsem]
    exact fun hne => absurd hempty hne
  · intro a
    rw [hsem, hwaits]
    exact h.waits a
  · rw [hsem]
    exact h.nodup

/-- The interrupt adds a unit. -/
theorem CallbackInv.adds (h : CallbackInv s) (hempty : s.callbackSem.waiting = [])
    (hpc : s'.pc = s.pc)
    (hsem : s'.callbackSem = { s.callbackSem with lock := s.callbackSem.lock + 1 }) :
    CallbackInv s' := by
  have hnonneg := h.nonneg
  constructor
  · rw [hsem]
    show 0 ≤ s.callbackSem.lock + 1
    omega
  · rw [hsem]
    exact fun hne => absurd hempty hne
  · intro a
    rw [hsem, hpc]
    exact h.waits a
  · rw [hsem]
    exact h.nodup

/-- The interrupt releases the first thread that waits. -/
theorem CallbackInv.releases (h : CallbackInv s) {n : Nat} {rest : List Nat}
    (hqueue : s.callbackSem.waiting = n :: rest) (hmoved : Moved s s' n (.finish c))
    (hsem : s'.callbackSem = { s.callbackSem with waiting := rest }) : CallbackInv s' := by
  have hlists := h.queue
  rw [hqueue] at hlists
  have hrest : Queue.Lists s'.callbackSem.waiting fun a => (s'.pc a).callbackWaits = true := by
    rw [hsem]
    refine hlists.pop ?_ fun a han => ?_
    · rw [hmoved.here]
      simp [AhciPc.callbackWaits]
    · rw [hmoved.others a han]
  have hzero : s.callbackSem.lock = 0 := h.idle (by simp [hqueue])
  constructor
  · rw [hsem]
    exact h.nonneg
  · rw [hsem]
    exact fun _ => hzero
  · exact hrest.mem
  · exact hrest.nodup

/-! ## Units and commands -/

/-- Nothing is issued, completed, raised or granted. -/
theorem UnitsInv.same (h : UnitsInv s) (hsem : s'.callbackSem.lock = s.callbackSem.lock)
    (hissued : s'.issued = s.issued) (hout : s'.outstanding.length ≤ s.outstanding.length)
    (hints : s'.interrupts = s.interrupts) (hawaits : ∀ u, (s'.pc u).awaits = (s.pc u).awaits) :
    UnitsInv s' where
  awaiting := by
    intro t ht
    rw [hawaits] at ht
    rw [hissued, hsem, hints]
    exact h.awaiting t ht
  quiet := by
    intro hnone
    rw [hissued, hsem, hints]
    exact h.quiet fun t => by rw [← hawaits t, hnone t]
  raised := by
    have hraised := h.raised
    rw [hissued, hints]
    omega

/-- One thread awaits and the units add up. -/
theorem UnitsInv.of_awaiting (ht : (s.pc t).awaits = true)
    (hunits : (s.issued : Int) + s.callbackSem.lock = s.interrupts + 1)
    (hraised : s.interrupts + s.outstanding.length ≤ s.issued) : UnitsInv s where
  awaiting := fun _ _ => hunits
  quiet := by
    intro hnone
    rw [hnone t] at ht
    cases ht
  raised := hraised

/-- No thread awaits and the units add up. -/
theorem UnitsInv.of_quiet (hnone : ∀ t, (s.pc t).awaits = false)
    (hunits : (s.issued : Int) + s.callbackSem.lock = s.interrupts)
    (hraised : s.interrupts + s.outstanding.length ≤ s.issued) : UnitsInv s where
  awaiting := by
    intro t ht
    rw [hnone t] at ht
    cases ht
  quiet := fun _ => hunits
  raised := hraised

/-- One command at most is outstanding. -/
theorem UnitsInv.at_most_one (h : UnitsInv s) (hnonneg : 0 ≤ s.callbackSem.lock) :
    s.outstanding.length ≤ 1 := by
  have hraised := h.raised
  by_cases hsome : ∃ t, (s.pc t).awaits = true
  · rcases hsome with ⟨t, ht⟩
    have hunits := h.awaiting t ht
    omega
  · have hunits := h.quiet fun t => by
      rw [← Bool.not_eq_true]
      exact fun ht => hsome ⟨t, ht⟩
    omega

/-- No thread learns of a command. -/
theorem CommandsInv.same (h : CommandsInv s) (hissued : s'.issued = s.issued)
    (hout : s'.outstanding = s.outstanding)
    (hcommand : ∀ u c, (s'.pc u).command = some c → (s.pc u).command = some c)
    (hsettled : ∀ u c, (s'.pc u).settled = some c → (s.pc u).settled = some c) :
    CommandsInv s' where
  known := by
    intro t c ht
    rw [hissued]
    exact h.known t c (hcommand t c ht)
  numbered := by
    rw [hissued, hout]
    exact h.numbered
  nodup := by
    rw [hout]
    exact h.nodup
  settled := by
    intro t c ht
    rw [hout]
    exact h.settled t c (hsettled t c ht)

/-- A thread issues the next command. -/
theorem CommandsInv.issue (h : CommandsInv s) (hmoved : Moved s s' t (.await s.issued))
    (hissued : s'.issued = s.issued + 1) (hout : s'.outstanding = s.outstanding ++ [s.issued]) :
    CommandsInv s' := by
  have hfresh : s.issued ∉ s.outstanding := fun hmem =>
    absurd (h.numbered _ hmem) (Nat.lt_irrefl _)
  constructor
  · intro u c hc
    rw [hissued]
    by_cases hut : u = t
    · rw [hut, hmoved.here] at hc
      cases hc
      exact Nat.lt_succ_self _
    · rw [hmoved.others u hut] at hc
      exact Nat.lt_succ_of_lt (h.known u c hc)
  · intro c hc
    rw [hout, List.mem_append, List.mem_singleton] at hc
    rw [hissued]
    rcases hc with hc | rfl
    · exact Nat.lt_succ_of_lt (h.numbered c hc)
    · exact Nat.lt_succ_self _
  · rw [hout]
    exact Queue.nodup_push h.nodup hfresh
  · intro u c hc
    by_cases hut : u = t
    · rw [hut, hmoved.here] at hc
      cases hc
    · rw [hmoved.others u hut] at hc
      have hlt := h.known u c (AhciPc.command_of_settled hc)
      rw [hout, List.mem_append, List.mem_singleton, not_or]
      exact ⟨h.settled u c hc, Nat.ne_of_lt hlt⟩

/-- With nothing outstanding, a thread may take its command to be complete. -/
theorem CommandsInv.settles (h : CommandsInv s) (hc : (s.pc t).command = some c)
    (hempty : s.outstanding = []) (hmoved : Moved s s' t (.finish c))
    (hissued : s'.issued = s.issued) (hout : s'.outstanding = s.outstanding) : CommandsInv s' where
  known := by
    intro u d hd
    rw [hissued]
    by_cases hut : u = t
    · rw [hut, hmoved.here] at hd
      cases hd
      exact h.known t c hc
    · rw [hmoved.others u hut] at hd
      exact h.known u d hd
  numbered := by
    rw [hissued, hout]
    exact h.numbered
  nodup := by
    rw [hout]
    exact h.nodup
  settled := by
    intro u d _
    rw [hout, hempty]
    exact List.not_mem_nil

/-- The device completes a command. -/
theorem CommandsInv.complete (h : CommandsInv s) (c : Nat) :
    CommandsInv { s with outstanding := s.outstanding.erase c } where
  known := h.known
  numbered := fun d hd => h.numbered d (List.mem_of_mem_erase hd)
  nodup := h.nodup.erase c
  settled := fun t d hd hmem => h.settled t d hd (List.mem_of_mem_erase hmem)

/-! ## Steps -/

/-- A call of `ahci_data_transfer`. -/
theorem AhciInv.call (h : AhciInv s) (ht : AhciRun.inCall (s.pc t) = false) :
    AhciInv (s.ahciDataTransfer t) := by
  rcases AhciPc.outside ht with ⟨_, _, hcallback, hawaits⟩
  have hrest : ∀ pc, pc.awaits = false → pc.callbackWaits = false → pc.command = none →
      pc.settled = none → ∀ s', Moved s s' t pc → s'.callbackSem = s.callbackSem →
        s'.issued = s.issued → s'.outstanding = s.outstanding → s'.interrupts = s.interrupts →
          CallbackInv s' ∧ UnitsInv s' ∧ CommandsInv s' := by
    intro pc hpc₁ hpc₂ hpc₃ hpc₄ s' hmoved hsem hissued hout hints
    refine ⟨?_, ?_, ?_⟩
    · exact h.callback.same hsem (hmoved.keeps _ (by rw [hpc₂, hcallback]))
    · exact h.units.same (by rw [hsem]) hissued (Nat.le_of_eq (by rw [hout])) hints
        (hmoved.keeps _ (by rw [hpc₁, hawaits]))
    · apply h.commands.same hissued hout
      · exact hmoved.drops _ (by simp [hpc₃])
      · exact hmoved.drops _ (by simp [hpc₄])
  unfold AhciRun.ahciDataTransfer Sem.wait
  by_cases hlock : s.requestSem.lock ≤ 0
  · simp only [if_pos hlock]
    have hmoved : Moved s (s.goto t .requestBlocked) t .requestBlocked := AhciRun.goto_moved
    have hother := hrest .requestBlocked rfl rfl rfl rfl { s.goto t .requestBlocked with
      requestSem := { s.requestSem with waiting := s.requestSem.waiting ++ [t] } }
      ⟨hmoved.here, hmoved.others⟩ rfl rfl rfl rfl
    exact ⟨h.request.queues ht hlock ⟨hmoved.here, hmoved.others⟩ rfl, hother.1, hother.2.1,
      hother.2.2⟩
  · simp only [if_neg hlock]
    have hmoved : Moved s (s.goto t .setup) t .setup := AhciRun.goto_moved
    have hother := hrest .setup rfl rfl rfl rfl { s.goto t .setup with
      requestSem := { s.requestSem with lock := s.requestSem.lock - 1 } }
      ⟨hmoved.here, hmoved.others⟩ rfl rfl rfl rfl
    exact ⟨h.request.takes ht hlock ⟨hmoved.here, hmoved.others⟩ rfl, hother.1, hother.2.1,
      hother.2.2⟩

/-- The port is no longer busy. -/
theorem AhciInv.ready (h : AhciInv s) (hpc : s.pc t = .setup) : AhciInv (s.goto t .issue) := by
  have hmoved : Moved s (s.goto t .issue) t .issue := AhciRun.goto_moved
  constructor
  · exact h.request.same rfl (hmoved.keeps _ (by rw [hpc]; rfl)) (hmoved.keeps _ (by rw [hpc]; rfl))
  · exact h.callback.same rfl (hmoved.keeps _ (by rw [hpc]; rfl))
  · exact h.units.same rfl rfl (Nat.le_refl _) rfl (hmoved.keeps _ (by rw [hpc]; rfl))
  · exact h.commands.same rfl rfl (hmoved.drops _ nofun) (hmoved.drops _ nofun)

/-- The port stays busy. -/
theorem AhciInv.timeout (h : AhciInv s) (hpc : s.pc t = .setup) : AhciInv (s.goto t .failed) := by
  have hmoved : Moved s (s.goto t .failed) t .failed := AhciRun.goto_moved
  constructor
  · exact h.request.loses (by rw [hpc]; rfl) hmoved rfl
  · exact h.callback.same rfl (hmoved.keeps _ (by rw [hpc]; rfl))
  · exact h.units.same rfl rfl (Nat.le_refl _) rfl (hmoved.keeps _ (by rw [hpc]; rfl))
  · exact h.commands.same rfl rfl (hmoved.drops _ nofun) (hmoved.drops _ nofun)

/-- The command is issued; nobody else awaits. -/
theorem AhciInv.issue (h : AhciInv s) (hpc : s.pc t = .issue) :
    AhciInv { s.goto t (.await s.issued) with
      issued := s.issued + 1, outstanding := s.outstanding ++ [s.issued] } := by
  have hmoved : Moved s (s.goto t (.await s.issued)) t (.await s.issued) := AhciRun.goto_moved
  have hquiet : ∀ u, (s.pc u).awaits = false := by
    intro u
    by_cases hut : u = t
    · rw [hut, hpc]
      rfl
    · exact h.request.awaits_other (by rw [hpc]; rfl) hut
  have hunits := h.units.quiet hquiet
  have hraised := h.units.raised
  constructor
  · exact h.request.same rfl (hmoved.keeps _ (by rw [hpc]; rfl)) (hmoved.keeps _ (by rw [hpc]; rfl))
  · exact h.callback.same rfl (hmoved.keeps _ (by rw [hpc]; rfl))
  · apply UnitsInv.of_awaiting (t := t)
    · show ((s.goto t (.await s.issued)).pc t).awaits = true
      rw [hmoved.here]
      rfl
    · show ((s.issued + 1 : Nat) : Int) + s.callbackSem.lock = s.interrupts + 1
      push_cast
      omega
    · show s.interrupts + (s.outstanding ++ [s.issued]).length ≤ s.issued + 1
      rw [List.length_append, List.length_singleton]
      omega
  · exact h.commands.issue ⟨hmoved.here, hmoved.others⟩ rfl rfl

/-- The thread waits for the interrupt, or takes a unit; then its command is complete. -/
theorem AhciInv.await (h : AhciInv s) (hpc : s.pc t = .await c) :
    AhciInv { s.goto t (if s.callbackSem.lock ≤ 0 then .callbackBlocked c else .finish c)
      with callbackSem := (s.callbackSem.wait t).1 } := by
  have hawaits : (s.pc t).awaits = true := by rw [hpc]; rfl
  have hunits := h.units.awaiting t hawaits
  have hraised := h.units.raised
  unfold Sem.wait
  by_cases hlock : s.callbackSem.lock ≤ 0
  · simp only [if_pos hlock]
    have hmoved : Moved s (s.goto t (.callbackBlocked c)) t (.callbackBlocked c) :=
      AhciRun.goto_moved
    constructor
    · exact h.request.same rfl (hmoved.keeps _ (by rw [hpc]; rfl))
        (hmoved.keeps _ (by rw [hpc]; rfl))
    · exact h.callback.queues hpc hlock ⟨hmoved.here, hmoved.others⟩ rfl
    · exact h.units.same rfl rfl (Nat.le_refl _) rfl (hmoved.keeps _ (by rw [hpc]; rfl))
    · exact h.commands.same rfl rfl (hmoved.drops _ (by rw [hpc]; exact fun _ hd => hd))
        (hmoved.drops _ nofun)
  · simp only [if_neg hlock]
    have hmoved : Moved s (s.goto t (.finish c)) t (.finish c) := AhciRun.goto_moved
    have hempty : s.outstanding = [] := List.eq_nil_of_length_eq_zero (by omega)
    constructor
    · exact h.request.same rfl (hmoved.keeps _ (by rw [hpc]; rfl))
        (hmoved.keeps _ (by rw [hpc]; rfl))
    · exact h.callback.takes hlock (hmoved.keeps _ (by rw [hpc]; rfl)) rfl
    · apply UnitsInv.of_quiet
      · intro u
        by_cases hut : u = t
        · show ((s.goto t (.finish c)).pc u).awaits = false
          rw [hut, hmoved.here]
          rfl
        · show ((s.goto t (.finish c)).pc u).awaits = false
          rw [hmoved.others u hut]
          exact h.request.awaits_other (AhciPc.holds_of_awaits hawaits) hut
      · show (s.issued : Int) + (s.callbackSem.lock - 1) = s.interrupts
        omega
      · exact hraised
    · exact h.commands.settles (by rw [hpc]; rfl) hempty ⟨hmoved.here, hmoved.others⟩ rfl rfl

/-- The call returns, and the first thread that waits for the request unit goes on. -/
theorem AhciInv.finish (h : AhciInv s) (hpc : s.pc t = .finish c) :
    AhciInv { (s.goto t (.returned c)).wake s.requestSem with
      requestSem := (s.requestSem.signal t).1 } := by
  have hmoved : Moved s (s.goto t (.returned c)) t (.returned c) := AhciRun.goto_moved
  have hcommand := hmoved.drops AhciPc.command (by rw [hpc]; exact fun _ hd => hd)
  have hsettled := hmoved.drops AhciPc.settled (by rw [hpc]; exact fun _ hd => hd)
  have hawaits := hmoved.keeps AhciPc.awaits (by rw [hpc]; rfl)
  have hwaits := hmoved.keeps AhciPc.callbackWaits (by rw [hpc]; rfl)
  have hreturned : CallbackInv (s.goto t (.returned c)) ∧ UnitsInv (s.goto t (.returned c)) ∧
      CommandsInv (s.goto t (.returned c)) :=
    ⟨h.callback.same rfl hwaits, h.units.same rfl rfl (Nat.le_refl _) rfl hawaits,
      h.commands.same rfl rfl hcommand hsettled⟩
  have hrequest := h.request.finish hpc
  unfold AhciRun.wake at hrequest ⊢
  cases hqueue : s.requestSem.waiting with
  | nil =>
    simp only [hqueue] at hrequest ⊢
    rcases hreturned with ⟨hcallback, hunits, hcommands⟩
    exact ⟨hrequest, ⟨hcallback.nonneg, hcallback.idle, hcallback.waits, hcallback.nodup⟩,
      ⟨hunits.awaiting, hunits.quiet, hunits.raised⟩,
      ⟨hcommands.known, hcommands.numbered, hcommands.nodup, hcommands.settled⟩⟩
  | cons n rest =>
    simp only [hqueue] at hrequest ⊢
    -- the first thread in the list waits for the request unit
    have hn : (s.goto t (.returned c)).pc n = .requestBlocked := by
      apply AhciPc.eq_of_requestWaits
      rw [hmoved.keeps AhciPc.requestWaits (by rw [hpc]; rfl) n, ← h.request.waits n, hqueue]
      exact List.mem_cons_self
    rw [hn] at hrequest ⊢
    have hwoken :
        Moved (s.goto t (.returned c)) ((s.goto t (.returned c)).goto n .setup) n .setup :=
      AhciRun.goto_moved
    rcases hreturned with ⟨hcallback, hunits, hcommands⟩
    constructor
    · exact hrequest
    · exact hcallback.same rfl (hwoken.keeps _ (by rw [hn]; rfl))
    · exact hunits.same rfl rfl (Nat.le_refl _) rfl (hwoken.keeps _ (by rw [hn]; rfl))
    · exact hcommands.same rfl rfl (hwoken.drops _ nofun) (hwoken.drops _ nofun)

/-- The device completes a command. -/
theorem AhciInv.complete (h : AhciInv s) (c : Nat) :
    AhciInv { s with outstanding := s.outstanding.erase c } where
  request := h.request.same rfl (fun _ => rfl) fun _ => rfl
  callback := h.callback.same rfl fun _ => rfl
  units := h.units.same rfl rfl (List.length_erase_le) rfl fun _ => rfl
  commands := h.commands.complete c

/-- An interrupt that is not surplus: it adds a unit, or releases the thread whose command is
complete. -/
theorem AhciInv.interrupt (h : AhciInv s)
    (honce : s.interrupts + s.outstanding.length < s.issued) : AhciInv s.ahciCallback := by
  unfold AhciRun.ahciCallback AhciRun.wake Sem.signal
  cases hqueue : s.callbackSem.waiting with
  | nil =>
    have hsem : ({ lock := s.callbackSem.lock + 1, waiting := [] } : Sem Nat) =
        { s.callbackSem with lock := s.callbackSem.lock + 1 } := by
      show _ = (⟨s.callbackSem.lock + 1, s.callbackSem.waiting⟩ : Sem Nat)
      rw [hqueue]
    simp only [hsem]
    constructor
    · exact h.request.same rfl (fun _ => rfl) fun _ => rfl
    · exact h.callback.adds hqueue rfl rfl
    · constructor
      · intro t ht
        have hunits := h.units.awaiting t ht
        show (s.issued : Int) + (s.callbackSem.lock + 1) = ((s.interrupts + 1 : Nat) : Int) + 1
        push_cast
        omega
      · intro hquiet
        have hunits := h.units.quiet hquiet
        show (s.issued : Int) + (s.callbackSem.lock + 1) = ((s.interrupts + 1 : Nat) : Int)
        push_cast
        omega
      · show s.interrupts + 1 + s.outstanding.length ≤ s.issued
        omega
    · exact h.commands.same rfl rfl (fun _ _ hd => hd) fun _ _ hd => hd
  | cons n rest =>
    -- a thread waits, so the count is 0 and the interrupt is that of its command
    have hn : (s.pc n).callbackWaits = true :=
      (h.callback.waits n).mp (by rw [hqueue]; exact List.mem_cons_self)
    have hawaits := AhciPc.awaits_of_callbackWaits hn
    rcases AhciPc.eq_of_callbackWaits hn with ⟨c, hpc⟩
    have hzero : s.callbackSem.lock = 0 := h.callback.idle (by simp [hqueue])
    have hunits := h.units.awaiting n hawaits
    -- one command is out at a time: with its interrupt none is outstanding
    have hempty : s.outstanding = [] := List.eq_nil_of_length_eq_zero (by omega)
    have hmoved : Moved s (s.goto n (.finish c)) n (.finish c) := AhciRun.goto_moved
    have hwoken : (s.pc n).woken = .finish c := by
      rw [hpc]
      rfl
    simp only [hwoken]
    constructor
    · exact h.request.same rfl (hmoved.keeps _ (by rw [hpc]; rfl))
        (hmoved.keeps _ (by rw [hpc]; rfl))
    · exact h.callback.releases hqueue ⟨hmoved.here, hmoved.others⟩ rfl
    · apply UnitsInv.of_quiet
      · intro u
        by_cases hun : u = n
        · show ((s.goto n (.finish c)).pc u).awaits = false
          rw [hun, hmoved.here]
          rfl
        · show ((s.goto n (.finish c)).pc u).awaits = false
          rw [hmoved.others u hun]
          exact h.request.awaits_other (AhciPc.holds_of_awaits hawaits) hun
      · show (s.issued : Int) + s.callbackSem.lock = ((s.interrupts + 1 : Nat) : Int)
        push_cast
        omega
      · show s.interrupts + 1 + s.outstanding.length ≤ s.issued
        omega
    · exact h.commands.settles (by rw [hpc]; rfl) hempty ⟨hmoved.here, hmoved.others⟩ rfl rfl

/-- A step without a surplus interrupt keeps the invariant. -/
theorem AhciInv.step (h : AhciInv s) {e : AhciEvent} (honce : s.OncePerCommand e)
    (hstep : s.step e = some s') : AhciInv s' := by
  cases e with
  | call t =>
    simp only [AhciRun.step] at hstep
    cases hin : AhciRun.inCall (s.pc t) with
    | true =>
      rw [hin] at hstep
      cases hstep
    | false =>
      rw [hin] at hstep
      cases hstep
      exact h.call hin
  | next t =>
    simp only [AhciRun.step, AhciRun.transferNext] at hstep
    cases hpc : s.pc t with
    | setup =>
      rw [hpc] at hstep
      cases hstep
      exact h.ready hpc
    | issue =>
      rw [hpc] at hstep
      cases hstep
      exact h.issue hpc
    | await c =>
      rw [hpc] at hstep
      cases hstep
      exact h.await hpc
    | finish c =>
      rw [hpc] at hstep
      cases hstep
      exact h.finish hpc
    | _ =>
      rw [hpc] at hstep
      cases hstep
  | timeout t =>
    simp only [AhciRun.step] at hstep
    by_cases hpc : s.pc t = .setup
    · rw [if_pos hpc] at hstep
      cases hstep
      exact h.timeout hpc
    · rw [if_neg hpc] at hstep
      cases hstep
  | complete c =>
    simp only [AhciRun.step] at hstep
    by_cases hmem : c ∈ s.outstanding
    · rw [if_pos hmem] at hstep
      cases hstep
      exact h.complete c
    · rw [if_neg hmem] at hstep
      cases hstep
  | interrupt c =>
    simp only [AhciRun.step] at hstep
    by_cases hlt : c < s.issued
    · rw [if_pos hlt] at hstep
      cases hstep
      exact h.interrupt honce
    · rw [if_neg hlt] at hstep
      cases hstep

theorem AhciInv.init (h : s.Fresh) : AhciInv s := by
  have hpc : ∀ t, s.pc t = .idle := h.pc
  constructor
  · constructor
    · rw [h.requestSem]
      exact Or.inr rfl
    · intro _
      rw [h.requestSem]
      exact ⟨rfl, fun t => by rw [hpc t]; rfl⟩
    · intro t u ht
      rw [hpc t] at ht
      cases ht
    · intro t
      rw [h.requestSem, hpc t]
      simp [AhciPc.requestWaits]
    · rw [h.requestSem]
      exact List.nodup_nil
  · constructor
    · simp [h.callbackSem]
    · intro _
      rw [h.callbackSem]
    · intro t
      rw [h.callbackSem, hpc t]
      simp [AhciPc.callbackWaits]
    · rw [h.callbackSem]
      exact List.nodup_nil
  · apply UnitsInv.of_quiet
    · intro t
      rw [hpc t]
      rfl
    · rw [h.issued, h.callbackSem, h.interrupts]
      rfl
    · rw [h.issued, h.outstanding, h.interrupts]
      exact Nat.le_refl _
  · constructor
    · intro t c hc
      rw [hpc t] at hc
      cases hc
    · rw [h.outstanding]
      simp
    · rw [h.outstanding]
      exact List.nodup_nil
    · intro t c hc
      rw [hpc t] at hc
      cases hc

end Moves

/-- Without surplus interrupts one command at most is outstanding, and no call returns `ERROR_OK`
before the device has completed its command. -/
theorem ahci_one_command (s : AhciRun) (h : onceSystem.Reachable s) :
    s.outstanding.length ≤ 1 ∧ ∀ t c, s.pc t = .returned c → c ∉ s.outstanding := by
  have hinv : AhciInv s := by
    induction h with
    | init h => exact .init h
    | next _ hs ih =>
      rcases hs with ⟨e, honce, hstep⟩
      exact ih.step honce hstep
  constructor
  · exact hinv.units.at_most_one hinv.callback.nonneg
  · intro t c hpc
    apply hinv.commands.settled t c
    rw [hpc]
    rfl

/-- After `init_ahci`. -/
def ahciStart : AhciRun where
  requestSem := ⟨1, []⟩
  callbackSem := ⟨0, []⟩
  issued := 0
  outstanding := []
  interrupts := 0
  pc := fun _ => .idle

theorem ahciStart_fresh : ahciStart.Fresh := by
  constructor
  · rfl
  · rfl
  · rfl
  · rfl
  · rfl
  · exact fun _ => rfl

/-- One call, whose command completes before its interrupt. -/
theorem ahci_one_command_call :
    ∃ s, s.pc 0 = .returned 0 ∧ 0 ∉ s.outstanding ∧ onceSystem.Reachable s := by
  have h₀ : onceSystem.Reachable ahciStart := .init ahciStart_fresh
  have h₁ := h₀.next ⟨.call 0, trivial, rfl⟩
  have h₂ := h₁.next ⟨.next 0, trivial, rfl⟩
  have h₃ := h₂.next ⟨.next 0, trivial, rfl⟩
  have h₄ := h₃.next ⟨.next 0, trivial, rfl⟩
  have h₅ := h₄.next ⟨.complete 0, trivial, rfl⟩
  have h₆ := h₅.next ⟨.interrupt 0, (by decide : 0 + 0 < 1), rfl⟩
  have h₇ := h₆.next ⟨.next 0, trivial, rfl⟩
  exact ⟨_, rfl, (ahci_one_command _ h₇).2 0 0 rfl, h₇⟩

/-- Two interrupts for the first command: the second call returns before its command is complete,
and the third issues one more. -/
theorem ahci_returns_early :
    (¬ ∀ s, ahciSystem.Reachable s → s.outstanding.length ≤ 1) ∧
      ¬ ∀ s, ahciSystem.Reachable s → ∀ t c, s.pc t = .returned c → c ∉ s.outstanding := by
  have h₀ : ahciSystem.Reachable ahciStart := .init ahciStart_fresh
  have h₁ := h₀.next ⟨.call 0, rfl⟩
  have h₂ := h₁.next ⟨.next 0, rfl⟩
  have h₃ := h₂.next ⟨.next 0, rfl⟩
  have h₄ := h₃.next ⟨.next 0, rfl⟩
  have h₅ := h₄.next ⟨.complete 0, rfl⟩
  have h₆ := h₅.next ⟨.interrupt 0, rfl⟩
  have h₇ := h₆.next ⟨.interrupt 0, rfl⟩
  have h₈ := h₇.next ⟨.next 0, rfl⟩
  -- the second call
  have k₁ := h₈.next ⟨.call 1, rfl⟩
  have k₂ := k₁.next ⟨.next 1, rfl⟩
  have k₃ := k₂.next ⟨.next 1, rfl⟩
  have k₄ := k₃.next ⟨.next 1, rfl⟩
  have k₅ := k₄.next ⟨.next 1, rfl⟩
  -- the third call
  have l₁ := k₅.next ⟨.call 2, rfl⟩
  have l₂ := l₁.next ⟨.next 2, rfl⟩
  have l₃ := l₂.next ⟨.next 2, rfl⟩
  constructor
  · intro hclaim
    have hlen := hclaim _ l₃
    revert hlen
    decide
  · intro hclaim
    have hmem := hclaim _ k₅ 1 1 rfl
    revert hmem
    decide

end MeOS
