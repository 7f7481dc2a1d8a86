import MeOS.Keyboard

/-! # Wake-ups of the keyboard daemon and of the reader

A side that found its queue empty is woken by what is queued next, unless the
notification comes before it is blocked. As long as no interrupt and no
notification falls between the test and the block, and one thread at a time is
inside `user_buffer`, nobody sleeps in front of a queue with something in it.
-/

namespace MeOS

open Runs

/-! ## The windows -/

/-- The daemon found `keycode_buffer` empty and is not blocked yet. -/
def DaemonPc.window : DaemonPc → Bool
  | .getNode | .blockCall => true
  | _ => false

/-- The reader found `user_buffer` empty, or is about to, and is not blocked yet. -/
def ReaderPc.Window (head : Nat) : ReaderPc → Prop
  | .testHead _ tail => tail = head
  | .getNode _ | .blockCall _ => True
  | _ => False

/-- Between the first read of the test and the removal. -/
def ReaderPc.inside : ReaderPc → Bool
  | .testHead _ _ | .peek _ | .remove _ | .removeTail _ _ | .removeAgain _
  | .removeStore _ _ => true
  | _ => false

/-- What may not happen: an interrupt in the window of the daemon, a notification of the active
reader in its window, a test of `user_buffer` with another thread inside. -/
def KybdRun.Undisturbed (s : KybdRun) : KybdEvent → Prop
  | .key _ => s.daemon.window = false
  | .next _ =>
    (s.current = keyboardDaemon → ∀ t, s.daemon = .notifyCall t → s.active = some t →
      ¬ (s.reader t).Window s.userHead) ∧
    (s.current ≠ keyboardDaemon → ∀ count, s.reader s.current = .test (count + 1) →
      ∀ u, u ≠ s.current → (s.reader u).inside = false)
  | _ => True

/-- The runs whose steps are undisturbed. -/
def undisturbedKybdSystem (kybrdScancodeStd : Nat → Nat) : System KybdRun where
  Init := KybdRun.Fresh
  Next s s' := ∃ e, s.Undisturbed e ∧ s.step kybrdScancodeStd e = some s'

/-! ## The first stage -/

/-- The daemon does not sleep, or is not about to, in front of a keycode. -/
def DaemonAwake (s : KybdRun) : Prop :=
  s.daemon.window = true ∨ s.blocked keyboardDaemon = true → s.keycodes = []

/-- The current thread is not blocked, the daemon is not a reader, and it is blocked only in front
of its test. -/
structure Scheduled (s : KybdRun) : Prop where
  running : s.blocked s.current = false
  daemon : s.active ≠ some keyboardDaemon
  parked : s.blocked keyboardDaemon = true → s.daemon = .test

/-! ## The second stage -/

/-- What a reader knows about the indices of `user_buffer`. -/
def ReaderPc.Knows (head tail : Nat) : ReaderPc → Prop
  | .testHead _ seen => seen ≠ head → head ≠ tail
  | .peek _ | .remove _ | .removeTail _ _ | .removeAgain _ => head ≠ tail
  | .removeStore _ seen => seen = head ∧ head ≠ tail
  | _ => True

/-- The indices of `user_buffer`, and the threads inside. -/
structure UserRing (s : KybdRun) : Prop where
  head : s.userHead < 10
  tail : s.userTail < 10
  inserting : ∀ key, s.daemon = .insertStore key → (s.userTail + 1) % 10 ≠ s.userHead
  alone : ∀ t u, (s.reader t).inside = true → (s.reader u).inside = true → t = u
  knows : ∀ t, (s.reader t).Knows s.userHead s.userTail

/-- The active reader sleeps, or is about to, only in front of an empty queue or with the daemon on
its way to notify it. -/
def ReaderAwake (s : KybdRun) : Prop :=
  ∀ r, s.active = some r → (s.reader r).Window s.userHead ∨ s.blocked r = true →
    s.userHead = s.userTail ∨ s.daemon = .notify ∨ s.daemon = .notifyCall r

/-- The invariant of undisturbed runs. -/
structure KybdInv (s : KybdRun) : Prop where
  scheduled : Scheduled s
  daemonAwake : DaemonAwake s
  ring : UserRing s
  readerAwake : ReaderAwake s

section Moves

variable {s s' : KybdRun} {pc : ReaderPc} {t u thread code : Nat} {std : Nat → Nat}

@[simp] theorem KybdRun.goto_same : (s.goto pc).reader s.current = pc :=
  Function.update_self _ _ _

theorem KybdRun.goto_other (h : t ≠ s.current) : (s.goto pc).reader t = s.reader t :=
  Function.update_of_ne h _ _

/-- A thread outside the queue knows nothing about it. -/
theorem ReaderPc.knows_of_outside {head tail : Nat} (h : pc.inside = false) :
    pc.Knows head tail := by
  cases pc with
  | testHead _ _ | peek _ | remove _ | removeTail _ _ | removeAgain _ | removeStore _ _ => cases h
  | _ => trivial

/-- An insertion keeps what the readers know. -/
theorem ReaderPc.Knows.inserted {head tail tail' : Nat} (h : pc.Knows head tail)
    (hne : tail' ≠ head) : pc.Knows head tail' := by
  cases pc with
  | testHead _ _ => exact fun _ => hne.symm
  | peek _ | remove _ | removeTail _ _ | removeAgain _ => exact hne.symm
  | removeStore _ _ => exact ⟨h.1, hne.symm⟩
  | _ => trivial

/-! ## Switching threads -/

/-- Nothing changes but the processor. -/
theorem KybdInv.same (h : KybdInv s) (hrun : s'.blocked s'.current = false)
    (hkeys : s'.keycodes = s.keycodes) (hhead : s'.userHead = s.userHead)
    (htail : s'.userTail = s.userTail) (hactive : s'.active = s.active)
    (hblocked : s'.blocked = s.blocked) (hdaemon : s'.daemon = s.daemon)
    (hreader : s'.reader = s.reader) : KybdInv s' where
  scheduled := by
    refine ⟨hrun, ?_, ?_⟩
    · rw [hactive]
      exact h.scheduled.daemon
    · rw [hblocked, hdaemon]
      exact h.scheduled.parked
  daemonAwake := by
    unfold DaemonAwake
    rw [hdaemon, hblocked, hkeys]
    exact h.daemonAwake
  ring := by
    constructor
    · rw [hhead]
      exact h.ring.head
    · rw [htail]
      exact h.ring.tail
    · rw [hdaemon, htail, hhead]
      exact h.ring.inserting
    · rw [hreader]
      exact h.ring.alone
    · rw [hreader, hhead, htail]
      exact h.ring.knows
  readerAwake := by
    unfold ReaderAwake
    rw [hactive, hreader, hhead, hblocked, htail, hdaemon]
    exact h.readerAwake

/-- A ready thread runs. -/
theorem KybdInv.switchTo (h : KybdInv s) (hready : s.blocked thread = false) :
    KybdInv (s.switchTo thread) :=
  h.same hready rfl rfl rfl rfl rfl rfl rfl

/-- Only the interrupt flag changes. -/
theorem KybdInv.setInterrupts (h : KybdInv s) (flag : Bool) :
    KybdInv { s with interrupts := flag } :=
  h.same h.scheduled.running rfl rfl rfl rfl rfl rfl rfl

/-! ## Waking and blocking -/

/-- A thread is woken that is not the active reader in its window; `active` readers that are woken
have nothing left to wait for. -/
theorem ReaderAwake.woken (h : ReaderAwake s) (hreader : s'.reader = s.reader)
    (hactive : s'.active = s.active) (hhead : s'.userHead = s.userHead)
    (htail : s'.userTail = s.userTail) (hdaemon : s'.daemon = s.daemon)
    (hblocked : ∀ t, s'.blocked t = true → s.blocked t = true) : ReaderAwake s' := by
  intro r hr hsleeps
  rw [hactive] at hr
  rw [hreader, hhead] at hsleeps
  rw [hhead, htail, hdaemon]
  apply h r hr
  rcases hsleeps with hwindow | hblock
  · exact Or.inl hwindow
  · exact Or.inr (hblocked r hblock)

/-- A notified thread is not blocked, whether it was or not. -/
theorem KybdRun.threadNotify_eq : s.threadNotify t =
    { s with blocked := Function.update s.blocked t false, interrupts := !s.blocked t } := by
  unfold threadNotify
  cases hb : s.blocked t with
  | true => rfl
  | false =>
    have hsame : Function.update s.blocked t false = s.blocked := by
      rw [← hb]
      exact Function.update_eq_self t s.blocked
    simp only [hsame]
    rfl

/-- The interrupt queues the code if there is room and unblocks the daemon. -/
theorem KybdRun.keyboardCallback_eq : s.keyboardCallback code =
    { s with
      keycodes := if s.keycodes.length + 1 < 10 then s.keycodes ++ [code] else s.keycodes
      blocked := Function.update s.blocked keyboardDaemon false } := by
  simp only [keyboardCallback, threadNotify_eq]

theorem KybdRun.unblocked (h : Function.update s.blocked t false u = true) :
    s.blocked u = true ∧ u ≠ t := by
  by_cases hut : u = t
  · rw [hut, Function.update_self] at h
    cases h
  · rw [Function.update_of_ne hut] at h
    exact ⟨h, hut⟩

theorem Scheduled.daemon_running (h : Scheduled s) (hcurrent : s.current = keyboardDaemon)
    (hblocked : s.blocked keyboardDaemon = true) : False := by
  have hrun := h.running
  rw [hcurrent, hblocked] at hrun
  cases hrun

theorem Scheduled.woken (h : Scheduled s) :
    Function.update s.blocked t false s.current = false := by
  by_contra hb
  rw [Bool.not_eq_false] at hb
  have hrun := (KybdRun.unblocked hb).1
  rw [h.running] at hrun
  cases hrun

/-- A blocked thread gives the processor to a ready one. -/
theorem KybdRun.threadBlock_eq (h : s.threadBlock thread = some s') :
    Function.update s.blocked s.current true thread = false ∧
      s' = ({ s with
        blocked := Function.update s.blocked s.current true, interrupts := false }).switchTo
          thread := by
  unfold threadBlock at h
  cases hb : Function.update s.blocked s.current true thread with
  | true =>
    simp only [hb] at h
    cases h
  | false =>
    simp only [hb] at h
    exact ⟨rfl, (Option.some.inj h).symm⟩

/-! ## The interrupt -/

/-- An interrupt outside the window of the daemon wakes it. -/
theorem KybdInv.keyboardCallback (h : KybdInv s) (hwindow : s.daemon.window = false) :
    KybdInv (s.keyboardCallback code) := by
  rw [KybdRun.keyboardCallback_eq]
  constructor
  · refine ⟨h.scheduled.woken, h.scheduled.daemon, ?_⟩
    intro hblocked
    have hblocked' : Function.update s.blocked keyboardDaemon false keyboardDaemon = true :=
      hblocked
    exact h.scheduled.parked (KybdRun.unblocked hblocked').1
  · intro hsleeps
    rcases hsleeps with hwindow' | hblocked
    · have hsame : s.daemon.window = true := hwindow'
      rw [hwindow] at hsame
      cases hsame
    · have hblocked' : Function.update s.blocked keyboardDaemon false keyboardDaemon = true :=
        hblocked
      exact absurd rfl (KybdRun.unblocked hblocked').2
  · exact ⟨h.ring.head, h.ring.tail, h.ring.inserting, h.ring.alone, h.ring.knows⟩
  · exact h.readerAwake.woken rfl rfl rfl rfl rfl fun t ht => (KybdRun.unblocked ht).1

/-! ## The daemon -/

/-- The daemon moves, and `user_buffer` is as before. -/
theorem KybdInv.daemonMoves (h : KybdInv s) (hcurrent : s.current = keyboardDaemon)
    (pc : DaemonPc) (keycodes : List Nat) (interrupts : Bool)
    (hkeys : pc.window = true → keycodes = [])
    (hinsert : ∀ key, pc = .insertStore key → (s.userTail + 1) % 10 ≠ s.userHead)
    (hnotify : ∀ r, s.active = some r → s.daemon = .notify ∨ s.daemon = .notifyCall r →
      pc = .notify ∨ pc = .notifyCall r) :
    KybdInv { s with daemon := pc, keycodes := keycodes, interrupts := interrupts } where
  scheduled := ⟨h.scheduled.running, h.scheduled.daemon, fun hblocked =>
    (h.scheduled.daemon_running hcurrent hblocked).elim⟩
  daemonAwake := by
    intro hsleeps
    rcases hsleeps with hwindow | hblocked
    · exact hkeys hwindow
    · exact (h.scheduled.daemon_running hcurrent hblocked).elim
  ring := ⟨h.ring.head, h.ring.tail, hinsert, h.ring.alone, h.ring.knows⟩
  readerAwake := by
    intro r hr hsleeps
    rcases h.readerAwake r hr hsleeps with hempty | hdaemon
    · exact Or.inl hempty
    · exact Or.inr (hnotify r hr hdaemon)

/-- The daemon puts a key into `user_buffer` and goes on to notify. -/
theorem KybdInv.inserted (h : KybdInv s) {key : Nat} (hdaemon : s.daemon = .insertStore key)
    (cells : Nat → Nat) :
    KybdInv { s with
      userCells := cells, userTail := (s.userTail + 1) % 10, daemon := .notify } := by
  have hne := h.ring.inserting key hdaemon
  constructor
  · refine ⟨h.scheduled.running, h.scheduled.daemon, ?_⟩
    intro hblocked
    have htest := h.scheduled.parked hblocked
    rw [hdaemon] at htest
    cases htest
  · intro hsleeps
    apply h.daemonAwake
    rcases hsleeps with hwindow | hblocked
    · cases hwindow
    · exact Or.inr hblocked
  · refine ⟨h.ring.head, Nat.mod_lt _ (by decide), ?_, h.ring.alone, ?_⟩
    · intro key' hkey
      cases hkey
    · exact fun t => (h.ring.knows t).inserted hne
  · exact fun _ _ _ => Or.inr (Or.inl rfl)

/-- The daemon notifies a thread that is not the active reader in its window. -/
theorem KybdInv.notified (h : KybdInv s) (hdaemon : s.daemon = .notifyCall t)
    (hwindow : s.active = some t → ¬ (s.reader t).Window s.userHead) :
    KybdInv { s.threadNotify t with daemon := .test } := by
  rw [KybdRun.threadNotify_eq]
  constructor
  · exact ⟨h.scheduled.woken, h.scheduled.daemon, fun _ => rfl⟩
  · intro hsleeps
    apply h.daemonAwake
    rcases hsleeps with hwindow' | hblocked
    · cases hwindow'
    · exact Or.inr (KybdRun.unblocked hblocked).1
  · refine ⟨h.ring.head, h.ring.tail, ?_, h.ring.alone, h.ring.knows⟩
    intro key hkey
    cases hkey
  · intro r hr hsleeps
    -- the thread that is notified is the active one, or the queue is empty
    have hr' : s.active = some r := hr
    rcases hsleeps with hwindow' | hblocked
    · have hwindow'' : (s.reader r).Window s.userHead := hwindow'
      rcases h.readerAwake r hr' (Or.inl hwindow'') with hempty | hnotify | hcall
      · exact Or.inl hempty
      · rw [hdaemon] at hnotify
        cases hnotify
      · rw [hdaemon] at hcall
        cases hcall
        exact absurd hwindow'' (hwindow hr')
    · rcases KybdRun.unblocked hblocked with ⟨hblocked', hne⟩
      rcases h.readerAwake r hr' (Or.inr hblocked') with hempty | hnotify | hcall
      · exact Or.inl hempty
      · rw [hdaemon] at hnotify
        cases hnotify
      · rw [hdaemon] at hcall
        cases hcall
        exact absurd rfl hne

/-- The daemon blocks itself and `thread` runs. -/
theorem KybdInv.daemonBlocks (h : KybdInv s) (hcurrent : s.current = keyboardDaemon)
    (hdaemon : s.daemon = .blockCall)
    (hblock : ({ s with daemon := .test } : KybdRun).threadBlock thread = some s') :
    KybdInv s' := by
  rcases KybdRun.threadBlock_eq hblock with ⟨hready, rfl⟩
  have hempty : s.keycodes = [] := h.daemonAwake (Or.inl (by rw [hdaemon]; rfl))
  constructor
  · exact ⟨hready, h.scheduled.daemon, fun _ => rfl⟩
  · exact fun _ => hempty
  · refine ⟨h.ring.head, h.ring.tail, ?_, h.ring.alone, h.ring.knows⟩
    intro key hkey
    cases hkey
  · intro r hr hsleeps
    have hr' : s.active = some r := hr
    -- the active reader is another thread
    have hne : r ≠ s.current := by
      intro heq
      rw [heq, hcurrent] at hr'
      exact h.scheduled.daemon hr'
    have hsleeps' : (s.reader r).Window s.userHead ∨ s.blocked r = true := by
      rcases hsleeps with hwindow | hblocked
      · exact Or.inl hwindow
      · have hblocked' : Function.update s.blocked s.current true r = true := hblocked
        rw [Function.update_of_ne hne] at hblocked'
        exact Or.inr hblocked'
    rcases h.readerAwake r hr' hsleeps' with hempty' | hnotify | hcall
    · exact Or.inl hempty'
    · rw [hdaemon] at hnotify
      cases hnotify
    · rw [hdaemon] at hcall
      cases hcall

/-- The daemon moves while no notification is under way. -/
theorem KybdInv.daemonPlain (h : KybdInv s) (hcurrent : s.current = keyboardDaemon)
    (hplain : s.daemon ≠ .notify ∧ ∀ r, s.daemon ≠ .notifyCall r)
    (pc : DaemonPc) (keycodes : List Nat) (interrupts : Bool)
    (hkeys : pc.window = true → keycodes = [])
    (hinsert : ∀ key, pc = .insertStore key → (s.userTail + 1) % 10 ≠ s.userHead) :
    KybdInv { s with daemon := pc, keycodes := keycodes, interrupts := interrupts } := by
  apply h.daemonMoves hcurrent pc keycodes interrupts hkeys hinsert
  intro r _ hdaemon
  rcases hdaemon with hnotify | hcall
  · exact absurd hnotify hplain.1
  · exact absurd hcall (hplain.2 r)

/-- A step of `keyboard_irq`. -/
theorem KybdInv.keyboardIrq (h : KybdInv s) (hcurrent : s.current = keyboardDaemon)
    (hnotify : ∀ t, s.daemon = .notifyCall t → s.active = some t →
      ¬ (s.reader t).Window s.userHead)
    (hstep : s.keyboardIrq std thread = some s') : KybdInv s' := by
  unfold KybdRun.keyboardIrq at hstep
  cases hpc : s.daemon with
  | test =>
    simp only [hpc] at hstep
    cases hstep
    apply h.daemonPlain hcurrent (by simp [hpc])
    · intro hwindow
      by_contra hne
      rw [if_neg hne] at hwindow
      cases hwindow
    · intro key hkey
      split at hkey <;> cases hkey
  | take =>
    simp only [hpc] at hstep
    cases hstep
    exact h.daemonPlain hcurrent (by simp [hpc]) (.handle _) _ _ (by simp [DaemonPc.window])
      (by simp)
  | handle code =>
    simp only [hpc] at hstep
    split at hstep
    · cases hstep
      exact h.daemonPlain hcurrent (by simp [hpc]) .test _ _ (by simp [DaemonPc.window]) (by simp)
    · split at hstep
      · cases hstep
        exact h.daemonPlain hcurrent (by simp [hpc]) .test _ _ (by simp [DaemonPc.window])
          (by simp)
      · cases hstep
        exact h.daemonPlain hcurrent (by simp [hpc]) (.insert _) _ _ (by simp [DaemonPc.window])
          (by simp)
  | insert key =>
    -- the queue is full when the tail is one behind the head; the key is then dropped
    simp only [hpc] at hstep
    by_cases hroom : (s.userTail + 1) % 10 ≠ s.userHead
    · rw [if_pos hroom] at hstep
      cases hstep
      exact h.daemonPlain hcurrent (by simp [hpc]) (.insertStore key) _ _
        (by simp [DaemonPc.window]) (fun _ _ => hroom)
    · rw [if_neg hroom] at hstep
      cases hstep
      exact h.daemonPlain hcurrent (by simp [hpc]) .notify _ _ (by simp [DaemonPc.window])
        (by simp)
  | insertStore key =>
    simp only [hpc] at hstep
    cases hstep
    exact h.inserted hpc _
  | notify =>
    simp only [hpc] at hstep
    rcases Option.map_eq_some_iff.mp hstep with ⟨t, hactive, rfl⟩
    apply h.daemonMoves hcurrent (.notifyCall t) s.keycodes s.interrupts (by simp [DaemonPc.window])
      (by simp)
    intro r hr _
    rw [hactive] at hr
    cases hr
    exact Or.inr rfl
  | notifyCall t =>
    simp only [hpc] at hstep
    cases hstep
    exact h.notified hpc (hnotify t hpc)
  | getNode =>
    simp only [hpc] at hstep
    cases hstep
    apply h.daemonPlain hcurrent (by simp [hpc]) .blockCall _ _ _ (by simp)
    intro _
    exact h.daemonAwake (Or.inl (by rw [hpc]; rfl))
  | blockCall =>
    simp only [hpc] at hstep
    exact h.daemonBlocks hcurrent hpc hstep

/-! ## The readers -/

/-- The current thread goes on at `pc`, which it may be inside `user_buffer` with, and in whose
window it was before or the queue is empty. -/
theorem KybdInv.readerMoves (h : KybdInv s) (pc : ReaderPc) (interrupts : Bool)
    (hinside : pc.inside = true → ∀ u, u ≠ s.current → (s.reader u).inside = false)
    (hknows : pc.Knows s.userHead s.userTail)
    (hwindow : pc.Window s.userHead →
      s.userHead = s.userTail ∨ (s.reader s.current).Window s.userHead) :
    KybdInv { s.goto pc with interrupts := interrupts } := by
  constructor
  · exact ⟨h.scheduled.running, h.scheduled.daemon, h.scheduled.parked⟩
  · exact h.daemonAwake
  · refine ⟨h.ring.head, h.ring.tail, h.ring.inserting, ?_, ?_⟩
    · intro t u ht hu
      -- only the running reader moves, so each fact is checked for it and kept for the others
      by_cases htc : t = s.current
      · by_cases huc : u = s.current
        · rw [htc, huc]
        · subst htc
          have hpc : pc.inside = true := by simpa using ht
          have hu' : (s.reader u).inside = true := by rwa [← KybdRun.goto_other huc]
          rw [hinside hpc u huc] at hu'
          cases hu'
      · have ht' : (s.reader t).inside = true := by rwa [← KybdRun.goto_other htc]
        by_cases huc : u = s.current
        · subst huc
          have hpc : pc.inside = true := by simpa using hu
          rw [hinside hpc t htc] at ht'
          cases ht'
        · have hu' : (s.reader u).inside = true := by rwa [← KybdRun.goto_other huc]
          exact h.ring.alone t u ht' hu'
    · intro t
      by_cases htc : t = s.current
      · subst htc
        show ((s.goto pc).reader s.current).Knows s.userHead s.userTail
        rw [KybdRun.goto_same]
        exact hknows
      · show ((s.goto pc).reader t).Knows s.userHead s.userTail
        rw [KybdRun.goto_other htc]
        exact h.ring.knows t
  · intro r hr hsleeps
    by_cases hrc : r = s.current
    · subst hrc
      rcases hsleeps with hwindow' | hblocked
      · have hpc : pc.Window s.userHead := by
          have hpc' : ((s.goto pc).reader s.current).Window s.userHead := hwindow'
          rwa [KybdRun.goto_same] at hpc'
        rcases hwindow hpc with hempty | hold
        · exact Or.inl hempty
        · exact h.readerAwake _ hr (Or.inl hold)
      · exact h.readerAwake _ hr (Or.inr hblocked)
    · apply h.readerAwake r hr
      rcases hsleeps with hwindow' | hblocked
      · left
        have hpc' : ((s.goto pc).reader r).Window s.userHead := hwindow'
        rwa [KybdRun.goto_other hrc] at hpc'
      · exact Or.inr hblocked

/-- `active` changes to a thread that does not sleep. -/
theorem KybdInv.setActive (h : KybdInv s) (a : Option Nat) (hdaemon : a ≠ some keyboardDaemon)
    (hawake : ∀ r, a = some r → ¬ (s.reader r).Window s.userHead ∧ s.blocked r = false) :
    KybdInv { s with active := a } where
  scheduled := ⟨h.scheduled.running, hdaemon, h.scheduled.parked⟩
  daemonAwake := h.daemonAwake
  ring := ⟨h.ring.head, h.ring.tail, h.ring.inserting, h.ring.alone, h.ring.knows⟩
  readerAwake := by
    intro r hr hsleeps
    rcases hawake r hr with ⟨hwindow, hblocked⟩
    rcases hsleeps with hwindow' | hblocked'
    · exact absurd hwindow' hwindow
    · have hblocked'' : s.blocked r = true := hblocked'
      rw [hblocked] at hblocked''
      cases hblocked''

/-- A reader takes the first key; it is alone inside. -/
theorem KybdInv.removed (h : KybdInv s) {count head : Nat}
    (hpc : s.reader s.current = .removeStore count head) :
    KybdInv { s.goto (.test (count - 1)) with userHead := (head + 1) % 10 } := by
  have hknows := h.ring.knows s.current
  rw [hpc] at hknows
  rcases hknows with ⟨rfl, hne⟩
  have hhead := h.ring.head
  have htail := h.ring.tail
  have houtside : ∀ u, u ≠ s.current → (s.reader u).inside = false := by
    intro u hu
    by_contra hinside
    rw [Bool.not_eq_false] at hinside
    exact hu (h.ring.alone u s.current hinside (by rw [hpc]; rfl))
  have hreader : ∀ t, ((s.goto (.test (count - 1))).reader t).inside = false := by
    intro t
    by_cases htc : t = s.current
    · subst htc
      rw [KybdRun.goto_same]
      rfl
    · rw [KybdRun.goto_other htc]
      exact houtside t htc
  constructor
  · exact ⟨h.scheduled.running, h.scheduled.daemon, h.scheduled.parked⟩
  · exact h.daemonAwake
  · refine ⟨Nat.mod_lt _ (by decide), htail, ?_, ?_, ?_⟩
    · intro key hkey
      show (s.userTail + 1) % 10 ≠ (s.userHead + 1) % 10
      omega
    · intro t u ht _
      rw [hreader t] at ht
      cases ht
    · exact fun t => ReaderPc.knows_of_outside (hreader t)
  · intro r hr hsleeps
    have hr' : s.active = some r := hr
    right
    -- the queue was not empty, so a reader that sleeps is about to be notified
    have hsleeps' : (s.reader r).Window s.userHead ∨ s.blocked r = true := by
      rcases hsleeps with hwindow | hblocked
      · left
        by_cases hrc : r = s.current
        · subst hrc
          have hpc' : ((s.goto (.test (count - 1))).reader s.current).Window
            ((s.userHead + 1) % 10) := hwindow
          rw [KybdRun.goto_same] at hpc'
          exact hpc'.elim
        · have hpc' : ((s.goto (.test (count - 1))).reader r).Window
            ((s.userHead + 1) % 10) := hwindow
          rw [KybdRun.goto_other hrc] at hpc'
          have hout := houtside r hrc
          revert hpc' hout
          cases s.reader r with
          | getNode _ => exact fun _ _ => trivial
          | blockCall _ => exact fun _ _ => trivial
          | testHead _ _ => exact fun _ hout => by cases hout
          | _ => exact fun hfalse _ => hfalse.elim
      · exact Or.inr hblocked
    rcases h.readerAwake r hr' hsleeps' with hempty | hdaemon
    · exact absurd hempty hne
    · exact hdaemon

/-- A reader blocks itself and `thread` runs. -/
theorem KybdInv.readerBlocks (h : KybdInv s) (hcurrent : s.current ≠ keyboardDaemon) {count : Nat}
    (hpc : s.reader s.current = .blockCall count)
    (hblock : (s.goto (.test count)).threadBlock thread = some s') : KybdInv s' := by
  rcases KybdRun.threadBlock_eq hblock with ⟨hready, rfl⟩
  have hmoved : KybdInv (s.goto (.test count)) :=
    h.readerMoves (.test count) s.interrupts (fun hin => by cases hin) trivial False.elim
  constructor
  · refine ⟨hready, h.scheduled.daemon, ?_⟩
    intro hblocked
    have hblocked' : Function.update s.blocked s.current true keyboardDaemon = true := hblocked
    rw [Function.update_of_ne hcurrent.symm] at hblocked'
    exact h.scheduled.parked hblocked'
  · intro hsleeps
    apply h.daemonAwake
    rcases hsleeps with hwindow | hblocked
    · exact Or.inl hwindow
    · right
      have hblocked' : Function.update s.blocked s.current true keyboardDaemon = true := hblocked
      rwa [Function.update_of_ne hcurrent.symm] at hblocked'
  · exact ⟨h.ring.head, h.ring.tail, h.ring.inserting, hmoved.ring.alone, hmoved.ring.knows⟩
  · intro r hr hsleeps
    have hr' : s.active = some r := hr
    by_cases hrc : r = s.current
    · apply h.readerAwake r hr'
      left
      rw [hrc, hpc]
      trivial
    · apply hmoved.readerAwake r hr'
      rcases hsleeps with hwindow | hblocked
      · exact Or.inl hwindow
      · right
        have hblocked' : Function.update s.blocked s.current true r = true := hblocked
        rwa [Function.update_of_ne hrc] at hblocked'

/-- A step of `kybd_read`. -/
theorem KybdInv.kybdRead (h : KybdInv s) (hcurrent : s.current ≠ keyboardDaemon)
    (halone : ∀ count, s.reader s.current = .test (count + 1) →
      ∀ u, u ≠ s.current → (s.reader u).inside = false)
    (hstep : s.kybdRead thread = some s') : KybdInv s' := by
  have hknows := h.ring.knows s.current
  -- who is inside stays alone
  have hinside : (s.reader s.current).inside = true →
      ∀ u, u ≠ s.current → (s.reader u).inside = false := by
    intro hin u hu
    by_contra hinu
    rw [Bool.not_eq_false] at hinu
    exact hu (h.ring.alone u s.current hinu hin)
  unfold KybdRun.kybdRead at hstep
  cases hpc : s.reader s.current with
  | idle =>
    simp only [hpc] at hstep
    cases hstep
  | begin count =>
    simp only [hpc] at hstep
    cases hstep
    have hmoved : KybdInv (s.goto (.test count)) :=
      h.readerMoves (.test count) s.interrupts (fun hin => by cases hin) trivial False.elim
    apply hmoved.setActive
    · intro heq
      exact hcurrent (Option.some.inj heq)
    · intro r hr
      cases hr
      refine ⟨?_, h.scheduled.running⟩
      rw [KybdRun.goto_same]
      exact id
  | test count =>
    cases count with
    | zero =>
      simp only [hpc] at hstep
      cases hstep
      exact h.readerMoves .finish s.interrupts (fun hin => by cases hin) trivial False.elim
    | succ count =>
      simp only [hpc] at hstep
      cases hstep
      exact h.readerMoves (.testHead (count + 1) s.userTail) s.interrupts
        (fun _ => halone count hpc) (fun hne => hne.symm) (fun heq => Or.inl heq.symm)
  | testHead count tail =>
    simp only [hpc] at hstep hknows
    by_cases hsame : tail = s.userHead
    · rw [if_pos hsame] at hstep
      cases hstep
      apply h.readerMoves (.getNode count) s.interrupts (fun hin => by cases hin) trivial
      intro _
      right
      rw [hpc]
      exact hsame
    · rw [if_neg hsame] at hstep
      cases hstep
      exact h.readerMoves (.peek count) s.interrupts (fun _ => hinside (by rw [hpc]; rfl))
        (hknows hsame) False.elim
  | peek count =>
    simp only [hpc] at hstep hknows
    cases hstep
    exact h.readerMoves (.remove count) s.interrupts (fun _ => hinside (by rw [hpc]; rfl)) hknows
      False.elim
  | remove count =>
    simp only [hpc] at hstep hknows
    cases hstep
    exact h.readerMoves (.removeTail count s.userHead) s.interrupts
      (fun _ => hinside (by rw [hpc]; rfl)) hknows False.elim
  | removeTail count head =>
    simp only [hpc] at hstep hknows
    split at hstep
    · cases hstep
      exact h.readerMoves (.removeAgain count) s.interrupts (fun _ => hinside (by rw [hpc]; rfl))
        hknows False.elim
    · cases hstep
      exact h.readerMoves (.test (count - 1)) s.interrupts (fun hin => by cases hin) trivial
        False.elim
  | removeAgain count =>
    simp only [hpc] at hstep hknows
    cases hstep
    exact h.readerMoves (.removeStore count s.userHead) s.interrupts
      (fun _ => hinside (by rw [hpc]; rfl)) ⟨rfl, hknows⟩ False.elim
  | removeStore count head =>
    simp only [hpc] at hstep
    cases hstep
    exact h.removed hpc
  | getNode count =>
    simp only [hpc] at hstep
    cases hstep
    apply h.readerMoves (.blockCall count) true (fun hin => by cases hin) trivial
    intro _
    right
    rw [hpc]
    trivial
  | blockCall count =>
    simp only [hpc] at hstep
    exact h.readerBlocks hcurrent hpc hstep
  | finish =>
    simp only [hpc] at hstep
    cases hstep
    have hmoved : KybdInv (s.goto .idle) :=
      h.readerMoves .idle s.interrupts (fun hin => by cases hin) trivial False.elim
    exact hmoved.setActive none (by simp) (by simp)

/-! ## Runs -/

/-- An undisturbed step keeps the invariant. -/
theorem KybdInv.step (h : KybdInv s) {e : KybdEvent} (hcalm : s.Undisturbed e)
    (hstep : s.step std e = some s') : KybdInv s' := by
  cases e with
  | key code =>
    simp only [KybdRun.step] at hstep
    split at hstep
    · cases hstep
      exact h.keyboardCallback hcalm
    · cases hstep
  | tick next =>
    simp only [KybdRun.step] at hstep
    split at hstep
    · rename_i hready
      cases hstep
      simp only [Bool.and_eq_true, Bool.not_eq_true'] at hready
      exact h.switchTo hready.2
    · cases hstep
  | next thread =>
    simp only [KybdRun.step] at hstep
    by_cases hcurrent : s.current = keyboardDaemon
    · rw [if_pos hcurrent] at hstep
      exact h.keyboardIrq hcurrent (hcalm.1 hcurrent) hstep
    · rw [if_neg hcurrent] at hstep
      exact h.kybdRead hcurrent (hcalm.2 hcurrent) hstep
  | call count =>
    simp only [KybdRun.step] at hstep
    split at hstep
    · cases hstep
      exact h.readerMoves (.begin count) true (fun hin => by cases hin) trivial False.elim
    · cases hstep
  | work flag =>
    simp only [KybdRun.step] at hstep
    split at hstep
    · cases hstep
      exact h.setInterrupts flag
    · cases hstep
  | leave flag next =>
    simp only [KybdRun.step] at hstep
    split at hstep
    · rename_i hready
      cases hstep
      exact (h.setInterrupts flag).switchTo hready.2.2
    · cases hstep

theorem KybdInv.init (h : s.Fresh) : KybdInv s := by
  constructor
  · refine ⟨?_, ?_, fun _ => h.daemon⟩
    · rw [h.blocked]
      simpa using h.current
    · rw [h.active]
      simp
  · exact fun _ => h.keycodes
  · constructor
    · rw [h.userHead]
      decide
    · rw [h.userTail]
      decide
    · intro key hkey
      rw [h.daemon] at hkey
      cases hkey
    · intro t u ht
      rw [h.reader t] at ht
      cases ht
    · intro t
      rw [h.reader t]
      trivial
  · intro r hr
    rw [h.active] at hr
    cases hr

end Moves

/-- In an undisturbed run the daemon is not blocked in front of a keycode, and the active reader is
not blocked in front of a key while the daemon is blocked. -/
theorem kybd_no_lost_wakeup (kybrdScancodeStd : Nat → Nat) (s : KybdRun)
    (h : (undisturbedKybdSystem kybrdScancodeStd).Reachable s) :
    (s.blocked keyboardDaemon = true → s.keycodes = []) ∧
      ∀ r, s.active = some r → s.blocked r = true → s.blocked keyboardDaemon = true →
        s.userHead = s.userTail := by
  have hinv : KybdInv s := by
    induction h with
    | init h => exact .init h
    | next _ hs ih =>
      rcases hs with ⟨e, hcalm, hstep⟩
      exact ih.step hcalm hstep
  constructor
  · exact fun hblocked => hinv.daemonAwake (Or.inr hblocked)
  · intro r hr hblocked hdaemon
    have htest := hinv.scheduled.parked hdaemon
    rcases hinv.readerAwake r hr (Or.inr hblocked) with hempty | hnotify | hcall
    · exact hempty
    · rw [htest] at hnotify
      cases hnotify
    · rw [htest] at hcall
      cases hcall

/-- After `init_keyboard`, in thread 1. -/
def kybdStart : KybdRun where
  keycodes := []
  userHead := 0
  userTail := 0
  userCells := fun _ => 0
  active := none
  current := 1
  interrupts := true
  frame := fun _ => true
  blocked := fun t => decide (t = keyboardDaemon)
  daemon := .test
  reader := fun _ => .idle

theorem kybdStart_fresh : kybdStart.Fresh := by
  constructor
  · rfl
  · rfl
  · rfl
  · rfl
  · decide
  · exact fun _ => rfl
  · rfl
  · exact fun _ => rfl

theorem KybdRun.undisturbed_next {s : KybdRun} (pc : DaemonPc) (thread : Nat)
    (hplain : ∀ t, pc ≠ .notifyCall t) (hcurrent : s.current = keyboardDaemon)
    (hpc : s.daemon = pc) : s.Undisturbed (.next thread) := by
  refine ⟨?_, fun hne => absurd hcurrent hne⟩
  intro _ t ht
  rw [hpc] at ht
  exact absurd ht (hplain t)

/-- The daemon handles a key and is blocked again. -/
theorem kybd_no_lost_wakeup_key :
    ∃ s, s.blocked keyboardDaemon = true ∧ s.keycodes = [] ∧
      (undisturbedKybdSystem id).Reachable s := by
  have h₀ : (undisturbedKybdSystem id).Reachable kybdStart := .init kybdStart_fresh
  have h₁ := h₀.next ⟨.key 30, rfl, rfl⟩
  have h₂ := h₁.next ⟨.tick 0, trivial, rfl⟩
  have h₃ := h₂.next ⟨.next 1, KybdRun.undisturbed_next .test 1 (by simp) rfl rfl, rfl⟩
  have h₄ := h₃.next ⟨.next 1, KybdRun.undisturbed_next .take 1 (by simp) rfl rfl, rfl⟩
  have h₅ := h₄.next ⟨.next 1, KybdRun.undisturbed_next (.handle 30) 1 (by simp) rfl rfl, rfl⟩
  have h₆ := h₅.next ⟨.next 1, KybdRun.undisturbed_next .test 1 (by simp) rfl rfl, rfl⟩
  have h₇ := h₆.next ⟨.next 1, KybdRun.undisturbed_next .getNode 1 (by simp) rfl rfl, rfl⟩
  have h₈ := h₇.next ⟨.next 1, KybdRun.undisturbed_next .blockCall 1 (by simp) rfl rfl, rfl⟩
  exact ⟨_, rfl, (kybd_no_lost_wakeup id _ h₈).1 rfl, h₈⟩

/-- The events of a run, one after the other. -/
def KybdRun.run (kybrdScancodeStd : Nat → Nat) (s : KybdRun) : List KybdEvent → Option KybdRun
  | [] => some s
  | e :: events => (s.step kybrdScancodeStd e).bind fun s => s.run kybrdScancodeStd events

theorem KybdRun.reachable_run {std : Nat → Nat} {s s' : KybdRun} {events : List KybdEvent}
    (h : (kybdSystem std).Reachable s) (hrun : s.run std events = some s') :
    (kybdSystem std).Reachable s' := by
  induction events generalizing s with
  | nil =>
    cases hrun
    exact h
  | cons e events ih =>
    rcases Option.bind_eq_some_iff.mp hrun with ⟨mid, hmid, hrest⟩
    exact ih (h.next ⟨e, hmid⟩) hrest

/-- A key comes between the test of the daemon and its block: the daemon sleeps in front of it.
A key is queued and notified between the test of the reader and its block: both sleep. -/
theorem kybd_loses_wakeup :
    (¬ ∀ s, (kybdSystem id).Reachable s → s.blocked keyboardDaemon = true → s.keycodes = []) ∧
      ¬ ∀ s, (kybdSystem id).Reachable s → ∀ r, s.active = some r → s.blocked r = true →
        s.blocked keyboardDaemon = true → s.userHead = s.userTail := by
  have hstart : (kybdSystem id).Reachable kybdStart := .init kybdStart_fresh
  constructor
  · intro hclaim
    have hrun := KybdRun.reachable_run hstart (Option.eq_some_of_isSome
      (show (kybdStart.run id [.key 30, .tick 0, .next 1, .next 1, .next 1, .next 1, .next 1,
        .key 31, .next 1]).isSome = true by decide))
    have hempty := hclaim _ hrun (by decide)
    revert hempty
    decide
  · intro hclaim
    have hrun := KybdRun.reachable_run hstart (Option.eq_some_of_isSome
      (show (kybdStart.run id [.call 1, .next 2, .next 2, .next 2, .next 2, .key 30, .tick 0,
        .next 1, .next 1, .next 1, .next 1, .next 1, .next 1, .next 1, .next 1, .next 1, .next 1,
        .next 2]).isSome = true by decide))
    have hempty := hclaim _ hrun 1 (by decide) (by decide) (by decide)
    revert hempty
    decide

end MeOS
