import MeOS.Types
import MeOS.Lib.Register

/-! # `AHCI.cpp`: stopping and starting a port

`ahci_stop_cmd` clears ST and FRE in the command register of a port and waits, after each, until
the port shows that it has stopped; `ahci_start_cmd` sets them again and panics when the port
still runs. The waits compare a masked bit with 1, which bits 14 and 15 never are.

The registers show arbitrary values at every read, and so does the clock.
-/

namespace MeOS.AhciPort

open Register

/-! ## The registers -/

/-- `HBA_PxCMD_ST`. -/
abbrev hbaPxCmdSt : Nat := 1

/-- `HBA_PxCMD_CR`. -/
abbrev hbaPxCmdCr : Nat := 1 <<< 15

/-- `HBA_PxCMD_FRE`. -/
abbrev hbaPxCmdFre : Nat := 1 <<< 4

/-- `HBA_PxCMD_FR`. -/
abbrev hbaPxCmdFr : Nat := 1 <<< 14

/-- `~HBA_PxCMD_ST`. -/
abbrev notSt : Nat := 0xFFFFFFFE

/-- `~HBA_PxCMD_FRE`. The macro is `1 << 4` without parentheses, so that this is `~1 << 4`. -/
abbrev notFre : Nat := 0xFFFFFFFE <<< 4 % 4294967296

/-- An access to the command register. -/
inductive Access where
  /-- A read for the bit of a mask. -/
  | check (mask value : Nat)
  /-- A read and the write that follows from it. -/
  | update (old new : Nat)
deriving Repr, DecidableEq

/-- What an access has read. -/
def Access.seen : Access → Nat
  | .check _ value => value
  | .update old _ => old

/-- What the register holds after an access. -/
def Access.left : Access → Nat
  | .check _ value => value
  | .update _ new => new

/-- A `Timer`, with the clock at the calls of `GetElapsedMillis`. -/
structure Timer where
  start : Nat
  millis : Nat → Nat

/-- `GetElapsedMillis`. -/
def Timer.elapsed (t : Timer) (k : Nat) : Nat := sub32 (t.millis k) t.start

/-! ## `ahci_stop_cmd` -/

/-- What `ahci_stop_cmd` reads: the command register before ST is cleared, in the wait for CR,
before FRE is cleared and in the wait for FR, and the timer of each wait. -/
structure StopReads where
  st : Nat
  cr : Nat → Nat
  crTimer : Timer
  fre : Nat
  fr : Nat → Nat
  frTimer : Timer

/-- What a call or a part of it has done: its accesses, and its result unless it is still
running. -/
structure Stopped where
  log : List Access
  result : Option Bool

/-- A loop that waits for a bit from read `k` on; the result tells whether it has ended before the
timeout. -/
def stopLoop (mask : Nat) (cmd : Nat → Nat) (t : Timer) : Nat → Nat → Stopped
  | 0, _ => ⟨[], none⟩
  | fuel + 1, k =>
    if cmd k &&& mask = 1 then
      if t.elapsed k ≥ 500 then ⟨[.check mask (cmd k)], some false⟩
      else
        let rest := stopLoop mask cmd t fuel (k + 1)
        ⟨.check mask (cmd k) :: rest.log, rest.result⟩
    else ⟨[.check mask (cmd k)], some true⟩

/-- `ahci_stop_cmd`, with `fuel` turns of each loop. -/
def ahciStopCmd (fuel : Nat) (d : StopReads) : Stopped :=
  let log := [.update d.st (d.st &&& notSt)]
  let cr := stopLoop hbaPxCmdCr d.cr d.crTimer fuel 0
  if cr.result = some true then
    let log := log ++ cr.log ++ [.update d.fre (d.fre &&& notFre)]
    let fr := stopLoop hbaPxCmdFr d.fr d.frTimer fuel 0
    ⟨log ++ fr.log, fr.result⟩
  else ⟨log ++ cr.log, cr.result⟩

/-! ## `ahci_start_cmd` -/

/-- What `ahci_start_cmd` reads: the command register at the three checks, before FRE is set and
before ST is set, the timer of each wait, and `tfd` (twice) and `ssts` in the second one. -/
structure StartReads where
  cr : Nat
  fr : Nat
  fre : Nat
  setFre : Nat
  settle : Timer
  ready : Timer
  tfdBusy : Nat → Nat
  tfdDrq : Nat → Nat
  ssts : Nat → Nat
  setSt : Nat

/-- How `ahci_start_cmd` ends. -/
inductive StartEnd where
  | panic
  | returns (ok : Bool)
  /-- Not within the turns that were made. -/
  | spinning
deriving Repr, DecidableEq

structure Started where
  log : List Access
  result : StartEnd

/-- The loop that lets 500 ms pass. -/
def settleLoop (t : Timer) : Nat → Nat → Bool
  | 0, _ => false
  | fuel + 1, k => if t.elapsed k ≤ 500 then settleLoop t fuel (k + 1) else true

/-- The loop that waits for the device. -/
def readyLoop (d : StartReads) : Nat → Nat → StartEnd
  | 0, _ => .spinning
  | fuel + 1, k =>
    if d.tfdBusy k &&& 0x80 ≠ 0 ∨ d.tfdDrq k &&& 0x8 ≠ 0 ∨ d.ssts k &&& 0xF ≠ 3 then
      if d.ready.elapsed k ≥ 1000 then .returns false else readyLoop d fuel (k + 1)
    else .returns true

/-- `ahci_start_cmd` behind its checks. -/
def startPort (fuel : Nat) (d : StartReads) : Started :=
  let log := [.update d.setFre (d.setFre ||| hbaPxCmdFre)]
  if settleLoop d.settle fuel 0 then
    match readyLoop d fuel 0 with
    | .returns true => ⟨log ++ [.update d.setSt (d.setSt ||| hbaPxCmdSt)], .returns true⟩
    | r => ⟨log, r⟩
  else ⟨log, .spinning⟩

/-- `ahci_start_cmd`, with `fuel` turns of each loop. -/
def ahciStartCmd (fuel : Nat) (d : StartReads) : Started :=
  let log := [.check hbaPxCmdCr d.cr]
  if d.cr &&& hbaPxCmdCr ≠ 0 then ⟨log, .panic⟩
  else
    let log := log ++ [.check hbaPxCmdFr d.fr]
    if d.fr &&& hbaPxCmdFr ≠ 0 then ⟨log, .panic⟩
    else
      let log := log ++ [.check hbaPxCmdFre d.fre]
      if d.fre &&& hbaPxCmdFre ≠ 0 then ⟨log, .panic⟩
      else
        let rest := startPort fuel d
        ⟨log ++ rest.log, rest.result⟩

/-! ## A stopped port -/

/-- The bit of `mask` has been read clear after a write that has cleared those of `cleared`. -/
def ReadClear (log : List Access) (cleared mask : Nat) : Prop :=
  ∃ before between after old new value,
    log = before ++ .update old new :: (between ++ .check mask value :: after) ∧
      new &&& cleared = 0 ∧ value &&& mask = 0

/-- The bit of `mask` is set at every read until 500 ms are over. -/
def StaysSet (mask : Nat) (cmd : Nat → Nat) (t : Timer) : Prop :=
  ∃ k, (∀ j, j ≤ k → cmd j &&& mask ≠ 0) ∧ t.elapsed k ≥ 500

/-- FRE, FR and CR do not rise by themselves: what is clear after an access is clear at the accesses
that follow. -/
def NoRise (log : List Access) : Prop :=
  log.Pairwise fun x y =>
    ∀ bit ∈ [4, 14, 15], x.left.testBit bit = false → y.seen.testBit bit = false

/-- A port that is reported stopped is stopped. -/
structure StopsPort (d : StopReads) : Prop where
  cr : ∀ fuel, (ahciStopCmd fuel d).result = some true →
    ReadClear (ahciStopCmd fuel d).log hbaPxCmdSt hbaPxCmdCr
  fr : ∀ fuel, (ahciStopCmd fuel d).result = some true →
    ReadClear (ahciStopCmd fuel d).log hbaPxCmdFre hbaPxCmdFr
  crTimeout : StaysSet hbaPxCmdCr d.cr d.crTimer →
    ∃ fuel, (ahciStopCmd fuel d).result = some false
  frTimeout : StaysSet hbaPxCmdFr d.fr d.frTimer →
    ∃ fuel, (ahciStopCmd fuel d).result = some false
  starts : ∀ fuel fuel' s, (ahciStopCmd fuel d).result = some true →
    NoRise ((ahciStopCmd fuel d).log ++ (ahciStartCmd fuel' s).log) →
    (ahciStartCmd fuel' s).result ≠ .panic

section Port

variable {d : StopReads} {s : StartReads} {fuel bit mask k v : Nat} {cmd : Nat → Nat} {t : Timer}

/-- A wait for a bit other than bit 0 ends with its first read, whatever that shows. -/
theorem stopLoop_first (hbit : 0 < bit) :
    stopLoop (1 <<< bit) cmd t (fuel + 1) k = ⟨[.check (1 <<< bit) (cmd k)], some true⟩ := by
  rw [stopLoop, if_neg (and_bit_ne_one hbit)]

/-- What `ahci_stop_cmd` does: four accesses, and it reports that the port is stopped. -/
theorem ahciStopCmd_run :
    ahciStopCmd (fuel + 1) d =
      ⟨[.update d.st (d.st &&& notSt), .check hbaPxCmdCr (d.cr 0),
        .update d.fre (d.fre &&& notFre), .check hbaPxCmdFr (d.fr 0)], some true⟩ := by
  have hcr : stopLoop hbaPxCmdCr d.cr d.crTimer (fuel + 1) 0 = _ := stopLoop_first (by decide)
  have hfr : stopLoop hbaPxCmdFr d.fr d.frTimer (fuel + 1) 0 = _ := stopLoop_first (by decide)
  rw [ahciStopCmd, hcr, hfr]
  rfl

/-- It never fails. -/
theorem ahciStopCmd_ne_false : (ahciStopCmd fuel d).result ≠ some false := by
  cases fuel with
  | zero => nofun
  | succ fuel =>
    rw [ahciStopCmd_run]
    nofun

/-- A bit that has been read clear has been checked. -/
theorem ReadClear.checked {log : List Access} {cleared : Nat} (h : ReadClear log cleared mask) :
    ∃ value, .check mask value ∈ log ∧ value &&& mask = 0 := by
  obtain ⟨_, _, _, _, _, value, rfl, _, hclear⟩ := h
  exact ⟨value, by simp, hclear⟩

/-- A bit that stays set is set at the first read. -/
theorem StaysSet.first (h : StaysSet mask cmd t) : cmd 0 &&& mask ≠ 0 := by
  obtain ⟨k, hset, _⟩ := h
  exact hset 0 (Nat.zero_le k)

/-- Behind the checks there is no panic. -/
theorem readyLoop_ne_panic : readyLoop s fuel k ≠ .panic := by
  induction fuel generalizing k with
  | zero => nofun
  | succ fuel ih =>
    unfold readyLoop
    by_cases hbusy : s.tfdBusy k &&& 0x80 ≠ 0 ∨ s.tfdDrq k &&& 0x8 ≠ 0 ∨ s.ssts k &&& 0xF ≠ 3
    · rw [if_pos hbusy]
      by_cases hover : s.ready.elapsed k ≥ 1000
      · rw [if_pos hover]
        nofun
      · rw [if_neg hover]
        exact ih
    · rw [if_neg hbusy]
      nofun

theorem startPort_ne_panic : (startPort fuel s).result ≠ .panic := by
  unfold startPort
  dsimp only
  by_cases hsettled : settleLoop s.settle fuel 0 = true
  · rw [if_pos hsettled]
    cases hready : readyLoop s fuel 0 with
    | panic => exact absurd hready readyLoop_ne_panic
    | spinning => nofun
    | returns ok =>
      cases ok with
      | true => nofun
      | false => nofun
  · rw [if_neg hsettled]
    nofun

/-- A panic has read one of the three bits set. -/
theorem ahciStartCmd_panic (h : (ahciStartCmd fuel s).result = .panic) :
    ∃ bit ∈ [4, 14, 15], ∃ value, value.testBit bit = true ∧
      Access.check (1 <<< bit) value ∈ (ahciStartCmd fuel s).log := by
  have hset (bit v : Nat) (hne : v &&& 1 <<< bit ≠ 0) : v.testBit bit = true := by
    rw [← Bool.not_eq_false]
    exact mt (and_bit v bit).mpr hne
  unfold ahciStartCmd at h ⊢
  dsimp only at h ⊢
  by_cases hcr : s.cr &&& hbaPxCmdCr ≠ 0
  · rw [if_pos hcr]
    exact ⟨15, by decide, s.cr, hset 15 _ hcr, List.mem_singleton.mpr rfl⟩
  · by_cases hfr : s.fr &&& hbaPxCmdFr ≠ 0
    · rw [if_neg hcr, if_pos hfr]
      exact ⟨14, by decide, s.fr, hset 14 _ hfr,
        List.mem_append_right _ (List.mem_singleton.mpr rfl)⟩
    · by_cases hfre : s.fre &&& hbaPxCmdFre ≠ 0
      · rw [if_neg hcr, if_neg hfr, if_pos hfre]
        exact ⟨4, by decide, s.fre, hset 4 _ hfre,
          List.mem_append_right _ (List.mem_singleton.mpr rfl)⟩
      · rw [if_neg hcr, if_neg hfr, if_neg hfre] at h
        exact absurd h startPort_ne_panic

/-- A bit that is left clear by a call is seen clear by the next one. -/
theorem NoRise.clear {log log' : List Access} {x y : Access} (h : NoRise (log ++ log'))
    (hx : x ∈ log) (hy : y ∈ log') (hbit : bit ∈ [4, 14, 15])
    (hclear : x.left.testBit bit = false) : y.seen.testBit bit = false :=
  (List.pairwise_append.mp h).2.2 x hx y hy bit hbit hclear

/-- After the first reads of the two waits have shown CR and FR clear, and with FRE written clear,
`ahci_start_cmd` does not panic. -/
theorem ahciStartCmd_ne_panic {fuel' : Nat} (hcr : d.cr 0 &&& hbaPxCmdCr = 0)
    (hfr : d.fr 0 &&& hbaPxCmdFr = 0)
    (hrise : NoRise ((ahciStopCmd (fuel + 1) d).log ++ (ahciStartCmd fuel' s).log)) :
    (ahciStartCmd fuel' s).result ≠ .panic := by
  intro hpanic
  obtain ⟨bit, hbit, value, hset, hmem⟩ := ahciStartCmd_panic hpanic
  rw [ahciStopCmd_run] at hrise
  have hleft : ∃ x ∈ [Access.update d.st (d.st &&& notSt), .check hbaPxCmdCr (d.cr 0),
      .update d.fre (d.fre &&& notFre), .check hbaPxCmdFr (d.fr 0)],
      x.left.testBit bit = false := by
    simp only [List.mem_cons, List.not_mem_nil, or_false] at hbit
    rcases hbit with rfl | rfl | rfl
    · refine ⟨.update d.fre (d.fre &&& notFre), by simp, ?_⟩
      rw [Access.left, Nat.testBit_and, show notFre.testBit 4 = false by decide, Bool.and_false]
    · exact ⟨.check hbaPxCmdFr (d.fr 0), by simp, (and_bit _ 14).mp hfr⟩
    · exact ⟨.check hbaPxCmdCr (d.cr 0), by simp, (and_bit _ 15).mp hcr⟩
  obtain ⟨x, hx, hclear⟩ := hleft
  have hseen := hrise.clear hx hmem hbit hclear
  rw [Access.seen, hset] at hseen
  cases hseen

/-- A port that is reported stopped is stopped if and only if the first read of each wait shows
it. -/
theorem stopsPort_iff :
    StopsPort d ↔ d.cr 0 &&& hbaPxCmdCr = 0 ∧ d.fr 0 &&& hbaPxCmdFr = 0 := by
  constructor
  · intro h
    have hcr := (h.cr 1 (by rw [ahciStopCmd_run])).checked
    have hfr := (h.fr 1 (by rw [ahciStopCmd_run])).checked
    rw [ahciStopCmd_run] at hcr hfr
    simp only [List.mem_cons, List.not_mem_nil, or_false, reduceCtorEq, false_or,
      Access.check.injEq] at hcr hfr
    obtain ⟨v, ⟨_, rfl⟩ | ⟨hmask, _⟩, hcrClear⟩ := hcr
    · obtain ⟨w, ⟨hmask, _⟩ | ⟨_, rfl⟩, hfrClear⟩ := hfr
      · exact absurd hmask (by decide)
      · exact ⟨hcrClear, hfrClear⟩
    · exact absurd hmask (by decide)
  · rintro ⟨hcr, hfr⟩
    have hfuel {fuel : Nat} (h : (ahciStopCmd fuel d).result = some true) :
        ∃ n, fuel = n + 1 := by
      cases fuel with
      | zero => cases h
      | succ n => exact ⟨n, rfl⟩
    refine ⟨?_, ?_, fun h => absurd hcr h.first, fun h => absurd hfr h.first, ?_⟩
    · intro fuel h
      obtain ⟨n, rfl⟩ := hfuel h
      rw [ahciStopCmd_run]
      refine ⟨[], [], _, _, _, _, rfl, ?_, hcr⟩
      rw [Nat.and_assoc, show notSt &&& hbaPxCmdSt = 0 by decide, Nat.and_zero]
    · intro fuel h
      obtain ⟨n, rfl⟩ := hfuel h
      rw [ahciStopCmd_run]
      refine ⟨[_, _], [], _, _, _, _, rfl, ?_, hfr⟩
      rw [Nat.and_assoc, show notFre &&& hbaPxCmdFre = 0 by decide, Nat.and_zero]
    · intro fuel fuel' s h hrise
      obtain ⟨n, rfl⟩ := hfuel h
      exact ahciStartCmd_ne_panic hcr hfr hrise

end Port

/-- A port that goes on running. -/
def runningPort : StopReads where
  st := 0xC011
  cr _ := 0xC010
  crTimer := ⟨0, fun k => 500 * k⟩
  fre := 0xC010
  fr _ := 0xC000
  frTimer := ⟨0, fun k => 500 * k⟩

/-- The same port when it is started. -/
def stillRunning : StartReads where
  cr := 0xC000
  fr := 0xC000
  fre := 0xC000
  setFre := 0xC000
  settle := ⟨0, fun k => 500 * k⟩
  ready := ⟨0, fun k => 500 * k⟩
  tfdBusy _ := 0
  tfdDrq _ := 0
  ssts _ := 3
  setSt := 0xC010

/-- It is reported stopped though both bits stay set for the timeout, and to start it panics. -/
theorem ahciStopCmd_running :
    StaysSet hbaPxCmdCr runningPort.cr runningPort.crTimer ∧
      StaysSet hbaPxCmdFr runningPort.fr runningPort.frTimer ∧
      (ahciStopCmd 1 runningPort).result = some true ∧
      NoRise ((ahciStopCmd 1 runningPort).log ++ (ahciStartCmd 1 stillRunning).log) ∧
      (ahciStartCmd 1 stillRunning).result = .panic ∧ ¬ StopsPort runningPort := by
  have hpanic : (ahciStartCmd 1 stillRunning).result = .panic := by decide
  have hstop : (ahciStopCmd 1 runningPort).result = some true := by decide
  have hrise : NoRise ((ahciStopCmd 1 runningPort).log ++ (ahciStartCmd 1 stillRunning).log) := by
    unfold NoRise
    decide
  refine ⟨⟨1, fun _ _ => by show 0xC010 &&& hbaPxCmdCr ≠ 0; decide, by decide⟩,
    ⟨1, fun _ _ => by show 0xC000 &&& hbaPxCmdFr ≠ 0; decide, by decide⟩, hstop, hrise, hpanic, ?_⟩
  exact fun h => h.starts 1 1 stillRunning hstop hrise hpanic

end MeOS.AhciPort
