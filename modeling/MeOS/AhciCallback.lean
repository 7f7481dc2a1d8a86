import MeOS.Lib.Register

/-! # `AHCI.cpp`: the interrupt of the controller

`ahci_callback` looks at the ports one after the other and signals `ahci_callback_sem` for every
port whose bit of the interrupt status is set. A write to the status clears the bits that are one
in what is written; `ahci_clear_interrupt` writes back what it has read, with the bit of its port.
-/

namespace MeOS.AhciCallback

open Register

/-! ## The registers -/

/-- The bit of a port. -/
abbrev portBit (port : Nat) : Nat := 1 <<< port

/-- What the handler works on: the status of the controller, the status of the ports, and the
ports for which `ahci_callback_sem` has been signalled. -/
structure Hba where
  is : Nat
  portIs : Nat → Nat
  signals : List Nat

/-- `ahci_get_no_ports`. -/
def ahciGetNoPorts (cap : Nat) : Nat := (cap &&& 0xF) + 1

/-- `ahci_is_port_ok`. -/
def ahciIsPortOk (portOk port : Nat) : Bool := portOk &&& portBit port ≠ 0

/-- `ahci_is_interrupt_pending`. -/
def ahciIsInterruptPending (portOk is port : Nat) : Bool :=
  if ahciIsPortOk portOk port = false ∨ is &&& portBit port = 0 then false else true

/-- `ahci_clear_interrupt`. -/
def ahciClearInterrupt (portOk port : Nat) (h : Hba) : Hba :=
  if ahciIsInterruptPending portOk h.is port then
    { h with is := writeOneToClear h.is (h.is ||| portBit port) }
  else h

/-- What the handler does about port `i`. -/
def callbackTurn (portOk i : Nat) (h : Hba) : Hba :=
  if ahciIsInterruptPending portOk h.is i then
    let h := { h with
      portIs := Function.update h.portIs i (writeOneToClear (h.portIs i) 0xFFFFFFFF) }
    let h := ahciClearInterrupt portOk i h
    { h with signals := h.signals ++ [i] }
  else h

/-- The loop of `ahci_callback` from port `i` on, with `n` ports left. -/
def callbackLoop (portOk : Nat) : Nat → Nat → Hba → Hba
  | 0, _, h => h
  | n + 1, i, h => callbackLoop portOk n (i + 1) (callbackTurn portOk i h)

/-- `ahci_callback`. -/
def ahciCallback (cap portOk : Nat) (h : Hba) : Hba :=
  callbackLoop portOk (ahciGetNoPorts cap) 0 h

/-! ## What a run is to do -/

/-- The status when the handler is entered. -/
def entered (is : Nat) (portIs : Nat → Nat) : Hba := ⟨is, portIs, []⟩

/-- The port is ok and its interrupt is pending. -/
def Pending (portOk is port : Nat) : Prop :=
  portOk.testBit port = true ∧ is.testBit port = true

instance (portOk is port : Nat) : Decidable (Pending portOk is port) :=
  inferInstanceAs (Decidable (_ ∧ _))

/-- No interrupt is swallowed: each pending port has one signal, and after every turn the bit of a
port that has not been signalled for is as it was. -/
structure NoneSwallowed (cap portOk is : Nat) (portIs : Nat → Nat) : Prop where
  once : ∀ port, (ahciCallback cap portOk (entered is portIs)).signals.count port =
    if Pending portOk is port then 1 else 0
  kept : ∀ n, n ≤ ahciGetNoPorts cap → ∀ port, is.testBit port = true →
    port ∉ (callbackLoop portOk n 0 (entered is portIs)).signals →
    (callbackLoop portOk n 0 (entered is portIs)).is.testBit port = true

section Turns

variable {cap portOk is port n i a b q : Nat} {portIs : Nat → Nat} {h : Hba}

theorem ahciIsInterruptPending_iff :
    ahciIsInterruptPending portOk is port = true ↔ Pending portOk is port := by
  have hok : ahciIsPortOk portOk port = portOk.testBit port := by
    unfold ahciIsPortOk
    cases hbit : portOk.testBit port with
    | true => simp [portBit, and_bit, hbit]
    | false => simp [portBit, and_bit, hbit]
  unfold ahciIsInterruptPending Pending
  simp only [hok, portBit, and_bit]
  cases portOk.testBit port with
  | true =>
    cases is.testBit port with
    | true => simp
    | false => simp
  | false => simp

/-- A turn with nothing pending does nothing. -/
theorem callbackTurn_idle (hidle : ¬ Pending portOk h.is i) : callbackTurn portOk i h = h := by
  rw [callbackTurn, if_neg (mt ahciIsInterruptPending_iff.mp hidle)]

/-- A turn with a pending interrupt signals once and clears the status of all ports. -/
theorem callbackTurn_pending (hp : Pending portOk h.is i) :
    (callbackTurn portOk i h).is = 0 ∧ (callbackTurn portOk i h).signals = h.signals ++ [i] := by
  have hpending := ahciIsInterruptPending_iff.mpr hp
  unfold callbackTurn ahciClearInterrupt
  dsimp only
  rw [if_pos hpending, if_pos hpending]
  exact ⟨writeOneToClear_readBack _ _, rfl⟩

theorem callbackLoop_add :
    callbackLoop portOk (a + b) i h =
      callbackLoop portOk b (i + a) (callbackLoop portOk a i h) := by
  induction a generalizing i h with
  | zero => rw [Nat.zero_add, Nat.add_zero, callbackLoop]
  | succ a ih =>
    rw [Nat.succ_add, callbackLoop, callbackLoop, ih]
    congr 1
    omega

/-- Turns with nothing pending do nothing. -/
theorem callbackLoop_idle (hidle : ∀ j, i ≤ j → j < i + n → ¬ Pending portOk h.is j) :
    callbackLoop portOk n i h = h := by
  induction n generalizing i with
  | zero => rfl
  | succ n ih =>
    rw [callbackLoop, callbackTurn_idle (hidle i (Nat.le_refl i) (by omega))]
    exact ih fun j hlo hhi => hidle j (by omega) (by omega)

/-- A run of `n` turns signals for the first pending port, and no port is pending after it. -/
theorem callbackLoop_first (portIs : Nat → Nat) (hp : Pending portOk is port) (hport : port < n)
    (hfirst : ∀ j, j < port → ¬ Pending portOk is j) :
    (callbackLoop portOk n 0 (entered is portIs)).is = 0 ∧
      (callbackLoop portOk n 0 (entered is portIs)).signals = [port] := by
  have hbefore : callbackLoop portOk port 0 (entered is portIs) = entered is portIs :=
    callbackLoop_idle fun j _ hj => hfirst j (by omega)
  have hturn := callbackTurn_pending (h := entered is portIs) hp
  have hafter : ∀ m j, callbackLoop portOk m j (callbackTurn portOk port (entered is portIs)) =
      callbackTurn portOk port (entered is portIs) := by
    intro m j
    refine callbackLoop_idle fun k _ _ hk => ?_
    have hbit := hk.2
    rw [hturn.1, Nat.zero_testBit] at hbit
    cases hbit
  obtain ⟨m, rfl⟩ : ∃ m, n = port + (m + 1) := ⟨n - port - 1, by omega⟩
  rw [callbackLoop_add, hbefore, callbackLoop, Nat.zero_add, hafter]
  exact hturn

/-- Either no port that is looked at is pending, or there is a first one. -/
theorem ahciCallback_cases (cap portOk is : Nat) (portIs : Nat → Nat) :
    ((∀ port, port < ahciGetNoPorts cap → ¬ Pending portOk is port) ∧
      ∀ n, n ≤ ahciGetNoPorts cap →
        callbackLoop portOk n 0 (entered is portIs) = entered is portIs) ∨
    ∃ port, port < ahciGetNoPorts cap ∧ Pending portOk is port ∧
      ∀ j, j < port → ¬ Pending portOk is j := by
  by_cases hsome : ∃ port, port < ahciGetNoPorts cap ∧ Pending portOk is port
  · obtain ⟨hlt, hp⟩ := Nat.find_spec hsome
    refine Or.inr ⟨Nat.find hsome, hlt, hp, fun j hj hpj => ?_⟩
    exact Nat.find_min hsome hj ⟨by omega, hpj⟩
  · have hnone : ∀ port, port < ahciGetNoPorts cap → ¬ Pending portOk is port :=
      fun port hlt hp => hsome ⟨port, hlt, hp⟩
    refine Or.inl ⟨hnone, fun n hn => ?_⟩
    exact callbackLoop_idle fun j _ hj => hnone j (by omega)

/-- However many interrupts are pending, a run signals for one port at most. -/
theorem ahciCallback_signals_le (cap portOk is : Nat) (portIs : Nat → Nat) :
    (ahciCallback cap portOk (entered is portIs)).signals.length ≤ 1 := by
  rcases ahciCallback_cases cap portOk is portIs with ⟨_, hrun⟩ | ⟨port, hlt, hp, hfirst⟩
  · rw [ahciCallback, hrun _ (Nat.le_refl _)]
    exact Nat.zero_le 1
  · rw [ahciCallback, (callbackLoop_first portIs hp hlt hfirst).2]
    exact Nat.le_refl 1

theorem pending_portBit (hok : portOk.testBit port = true) :
    Pending portOk (portBit port) q ↔ q = port := by
  unfold Pending
  rw [portBit, Nat.one_shiftLeft, Nat.testBit_two_pow]
  constructor
  · rintro ⟨_, hq⟩
    exact (of_decide_eq_true hq).symm
  · rintro rfl
    exact ⟨hok, decide_eq_true rfl⟩

/-- With nothing pending there is nothing to swallow. -/
theorem noneSwallowed_of_none (hnone : ∀ port, ¬ Pending portOk is port) :
    NoneSwallowed cap portOk is portIs := by
  have hrun (n : Nat) : callbackLoop portOk n 0 (entered is portIs) = entered is portIs :=
    callbackLoop_idle fun j _ _ => hnone j
  constructor
  · intro port
    rw [ahciCallback, hrun, if_neg (hnone port)]
    rfl
  · intro n _ port hbit _
    rw [hrun]
    exact hbit

/-- A single bit is cleared for its own port. -/
theorem noneSwallowed_of_single (hlt : port < ahciGetNoPorts cap)
    (hok : portOk.testBit port = true) : NoneSwallowed cap portOk (portBit port) portIs := by
  have hp : Pending portOk (portBit port) port := (pending_portBit hok).mpr rfl
  have hfirst : ∀ j, j < port → ¬ Pending portOk (portBit port) j := fun j hj hpj =>
    Nat.ne_of_lt hj ((pending_portBit hok).mp hpj)
  constructor
  · intro q
    rw [ahciCallback, (callbackLoop_first portIs hp hlt hfirst).2]
    by_cases hq : q = port
    · rw [hq, if_pos hp]
      exact List.count_singleton_self
    · rw [if_neg (mt (pending_portBit hok).mp hq)]
      exact List.count_eq_zero.mpr (by rwa [List.mem_singleton])
  · intro n _ q hbit hnot
    have hq : q = port := by
      rw [portBit, Nat.one_shiftLeft, Nat.testBit_two_pow] at hbit
      exact (of_decide_eq_true hbit).symm
    by_cases hn : port < n
    · rw [(callbackLoop_first portIs hp hn hfirst).2, List.mem_singleton] at hnot
      exact absurd hq hnot
    · rw [callbackLoop_idle fun j _ hj => hfirst j (by omega)]
      exact hbit

/-- After the first signal no bit is left, so that there has been one only. -/
theorem NoneSwallowed.single (h : NoneSwallowed cap portOk is portIs) (hp : Pending portOk is port)
    (hlt : port < ahciGetNoPorts cap) (hfirst : ∀ j, j < port → ¬ Pending portOk is j) :
    is = portBit port := by
  obtain ⟨his, hsignals⟩ := callbackLoop_first portIs hp hlt hfirst
  apply Nat.eq_of_testBit_eq
  intro q
  rw [portBit, Nat.one_shiftLeft, Nat.testBit_two_pow]
  by_cases hq : port = q
  · rw [← hq, hp.2, decide_eq_true rfl]
  · rw [decide_eq_false hq, ← Bool.not_eq_true]
    intro hbit
    have hnot : q ∉ (callbackLoop portOk (ahciGetNoPorts cap) 0 (entered is portIs)).signals := by
      rw [hsignals, List.mem_singleton]
      exact fun heq => hq heq.symm
    have hkept := h.kept _ (Nat.le_refl _) q hbit hnot
    rw [his, Nat.zero_testBit] at hkept
    cases hkept

/-- No interrupt is swallowed if and only if none is pending, or no other bit of the status is set
than that of a port that is ok and looked at. -/
theorem noneSwallowed_iff :
    NoneSwallowed cap portOk is portIs ↔
      (∀ port, ¬ Pending portOk is port) ∨
        ∃ port, port < ahciGetNoPorts cap ∧ portOk.testBit port = true ∧ is = portBit port := by
  constructor
  · intro h
    rcases ahciCallback_cases cap portOk is portIs with ⟨_, hrun⟩ | ⟨port, hlt, hp, hfirst⟩
    · refine Or.inl fun port hp => ?_
      have honce := h.once port
      rw [ahciCallback, hrun _ (Nat.le_refl _), if_pos hp] at honce
      cases honce
    · exact Or.inr ⟨port, hlt, hp.1, h.single hp hlt hfirst⟩
  · rintro (hnone | ⟨port, hlt, hok, rfl⟩)
    · exact noneSwallowed_of_none hnone
    · exact noneSwallowed_of_single hlt hok

end Turns

/-- Two ports have finished. The first one is signalled for, and the interrupt of the second one is
cleared without a signal. -/
theorem ahciCallback_swallows :
    Pending 3 3 1 ∧ (ahciCallback 1 3 (entered 3 fun _ => 1)).signals = [0] ∧
      (ahciCallback 1 3 (entered 3 fun _ => 1)).is = 0 ∧ ¬ NoneSwallowed 1 3 3 fun _ => 1 := by
  have hp : Pending 3 3 0 := by decide
  obtain ⟨his, hsignals⟩ : (ahciCallback 1 3 (entered 3 fun _ => 1)).is = 0 ∧
      (ahciCallback 1 3 (entered 3 fun _ => 1)).signals = [0] :=
    callbackLoop_first _ hp (by decide) fun j hj => absurd hj (Nat.not_lt_zero j)
  refine ⟨by decide, hsignals, his, fun h => ?_⟩
  have honce := h.once 1
  rw [hsignals] at honce
  exact absurd honce (by decide)

end MeOS.AhciCallback
