import MeOS.Utility
import MeOS.Lib.HandOff
import Mathlib.Data.Nat.Bitwise

/-! # `AHCI.cpp`: one call of `ahci_data_transfer`

A call takes the unit of `ahci_request_sem`, looks for a command slot, builds the command in
memory, waits until the port is not busy, issues the command, and waits for its interrupt. It
uses the slot behind the one that the search has found, and when the port stays busy for too long
it returns without the unit.

What the device shows to the call is arbitrary: the registers it reads, the clock, and whether an
interrupt comes.
-/

namespace MeOS.AhciTransfer

open Bytes HandOff

/-! ## The registers and the request -/

/-- What a call reads: the registers of the controller and of the port, `tfd` and the clock at
their successive reads. -/
structure Device where
  cap : Nat
  clb : Nat
  sact : Nat
  /-- `ci` when a slot is searched. -/
  ci : Nat
  tfd : Nat → Nat
  millis : Nat → Nat
  /-- `ci` when the command is issued. -/
  ciIssue : Nat
  /-- Whether the unit of `ahci_callback_sem` comes. -/
  answers : Bool

/-- The arguments of `ahci_data_transfer`. -/
structure Request where
  startl : Nat
  starth : Nat
  count : Nat
  buf : Nat
  read : Bool
deriving Repr, DecidableEq

/-- The errors that `ahci_data_transfer` sets. -/
inductive AhciError where
  /-- `AHCI_NO_PORT_AVAIL`. -/
  | noPortAvail
  /-- `AHCI_SPIN_ERROR`. -/
  | spinError
deriving Repr, DecidableEq

/-- What a call does, in order. -/
inductive Act where
  | waitRequest
  | clearInterrupts
  /-- Fills the header of a slot. -/
  | header (slot : Nat)
  /-- Fills the command table of a slot. -/
  | table (slot : Nat)
  /-- Writes `ci` with the bit of a slot. -/
  | issue (slot value : Nat)
  | waitCallback
  | signalRequest
deriving Repr, DecidableEq

/-! ## The slot -/

/-- `CAP_NCS`. -/
abbrev capNcs : Nat := 0xF <<< 8

/-- `ahci_get_no_command_slots`. -/
def ahciGetNoCommandSlots (cap : Nat) : Nat := (cap &&& capNcs) >>> 8 + 1

/-- The loop of `ahci_find_empty_slot` from slot `i` on, with `n` slots left. -/
def emptySlotLoop : Nat → Nat → Nat → Int
  | 0, _, _ => -1
  | n + 1, i, slots => if slots &&& 1 = 0 then i else emptySlotLoop n (i + 1) (slots >>> 1)

/-- `ahci_find_empty_slot`. -/
def ahciFindEmptySlot (d : Device) : Int :=
  emptySlotLoop (ahciGetNoCommandSlots d.cap) 0 (d.sact ||| d.ci)

/-! ## The command -/

/-- `sizeof(HBA_CMD_HEADER_t)`. -/
abbrev sizeofCmdHeader : Nat := 32

/-- `sizeof(HBA_CMD_TBL_t)`, with one entry. -/
abbrev sizeofCmdTbl : Nat := 144

/-- `sizeof(HBA_PRDT_ENTRY_t)`. -/
abbrev sizeofPrdtEntry : Nat := 16

/-- `cmd->prdtl`. -/
def prdtl (m : Mem) (cmd : Nat) : Nat := load16 m (cmd + 2)

/-- `&cmdtbl->prdt_entry[i]`. -/
def prdtEntry (cmdtbl i : Nat) : Nat := cmdtbl + 128 + sizeofPrdtEntry * i

/-- The header of a command: `cfl` is five bits of the first byte, `w` is its bit 6. -/
def fillHeader (m : Mem) (cmd : Nat) (r : Request) : Mem :=
  let m := store8 m cmd (m cmd &&& 0xE0 ||| 5)
  let m := store8 m cmd (if r.read then m cmd &&& 0xBF else m cmd ||| 0x40)
  store16 m (cmd + 2) ((sub32 r.count 1 >>> 4) % 65536 + 1)

/-- An entry of the table: `dbc` is 22 bits of the last word, `i` is its bit 31. -/
def fillEntry (m : Mem) (entry dba dbc : Nat) : Mem :=
  let m := store32 m entry dba
  let m := store32 m (entry + 12) (load32 m (entry + 12) &&& 0xFFC00000 ||| dbc &&& 0x3FFFFF)
  store32 m (entry + 12) (load32 m (entry + 12) ||| 0x80000000)

/-- What the loop over the entries works on. -/
structure Prdt where
  mem : Mem
  buf : Nat
  count : Nat
  i : Nat

/-- The loop over all entries but the last one. As `i` is a `uint32` it takes less than `2 ^ 32`
turns. -/
def prdtLoop (cmd cmdtbl : Nat) : Nat → Prdt → Prdt
  | 0, p => p
  | n + 1, p =>
    if p.i < sub32 (prdtl p.mem cmd) 1 then
      prdtLoop cmd cmdtbl n
        { mem := fillEntry p.mem (prdtEntry cmdtbl p.i) p.buf (8 * 1024)
          buf := add32 p.buf (4 * 1024), count := sub32 p.count 16, i := p.i + 1 }
    else p

/-- The fields of the `FIS_REG_H2D`, with the count that the loop has left. -/
def fillFis (m : Mem) (cmdfis count : Nat) (r : Request) : Mem :=
  let m := store8 m cmdfis 0x27
  let m := store8 m (cmdfis + 1) (m (cmdfis + 1) ||| 0x80)
  let m := store8 m (cmdfis + 2) (if r.read then 0x25 else 0x35)
  let m := store8 m (cmdfis + 4) (byteOf r.startl 0)
  let m := store8 m (cmdfis + 5) (byteOf r.startl 1)
  let m := store8 m (cmdfis + 6) (byteOf r.startl 2)
  let m := store8 m (cmdfis + 7) 0x40
  let m := store8 m (cmdfis + 8) (byteOf r.startl 3)
  let m := store8 m (cmdfis + 9) (byteOf r.starth 0)
  let m := store8 m (cmdfis + 10) (byteOf r.starth 1)
  let m := store8 m (cmdfis + 12) (byteOf count 0)
  store8 m (cmdfis + 13) (byteOf count 1)

/-- The command table. -/
def fillTable (m : Mem) (cmd cmdtbl : Nat) (r : Request) : Mem :=
  let m := memset m cmdtbl 0
    (add32 sizeofCmdTbl (mul32 (sub32 (prdtl m cmd) 1) sizeofPrdtEntry))
  let p := prdtLoop cmd cmdtbl 4294967295 ⟨m, r.buf, r.count, 0⟩
  let m := fillEntry p.mem (prdtEntry cmdtbl p.i) p.buf (mul32 p.count 512)
  fillFis m cmdtbl p.count r

/-- The command in `slot`: its header and, at `ctba`, its table. -/
def buildCommand (m : Mem) (clb slot : Nat) (r : Request) : Mem :=
  let cmd := clb + sizeofCmdHeader * slot
  let m := fillHeader m cmd r
  fillTable m cmd (load32 m (cmd + 8)) r

/-! ## The call -/

/-- `ATA_DEV_BUSY | ATA_DEV_DRQ`. -/
abbrev busyOrDrq : Nat := 0x80 ||| 0x08

/-- How the wait for the port ends. -/
inductive PortWait where
  | ready
  | timeout
  /-- Not within the checks that were made. -/
  | spinning
deriving Repr, DecidableEq

/-- The loop that waits until the port is no longer busy, from check `k` on. -/
def portWait (d : Device) (cur : Nat) : Nat → Nat → PortWait
  | 0, _ => .spinning
  | fuel + 1, k =>
    if d.tfd k &&& busyOrDrq ≠ 0 then
      if sub32 (d.millis (k + 1)) cur ≥ 500 then .timeout else portWait d cur fuel (k + 1)
    else .ready

/-- What a call leaves: the memory, what it has done, and its result unless it is still running. -/
structure Transferred where
  mem : Mem
  acts : List Act
  result : Option (Except AhciError Unit)

/-- `ahci_data_transfer`, with `fuel` checks of the port. -/
def ahciDataTransfer (fuel : Nat) (d : Device) (m : Mem) (r : Request) : Transferred :=
  let acts := [.waitRequest, .clearInterrupts]
  let slot := ahciFindEmptySlot d + 1
  if slot = -1 then
    ⟨m, acts, some (.error .noPortAvail)⟩
  else
    let slot := slot.toNat
    let m := buildCommand m d.clb slot r
    let acts := acts ++ [.header slot, .table slot]
    match portWait d (d.millis 0) fuel 0 with
    | .spinning => ⟨m, acts, none⟩
    | .timeout => ⟨m, acts, some (.error .spinError)⟩
    | .ready =>
      let acts := acts ++ [.issue slot (d.ciIssue ||| 1 <<< slot), .waitCallback]
      if d.answers then ⟨m, acts ++ [.signalRequest], some (.ok ())⟩ else ⟨m, acts, none⟩

/-! ## The slot that is used -/

/-- The number of command slots that the controller reports: bits 8 to 12 of `cap`, and one. -/
def reportedSlots (cap : Nat) : Nat := cap / 256 % 32 + 1

/-- The slot is neither active nor issued. -/
def Device.Free (d : Device) (slot : Nat) : Prop :=
  d.sact.testBit slot = false ∧ d.ci.testBit slot = false

/-- The slot that an act is about. -/
def Act.slot : Act → Option Nat
  | .header s | .table s | .issue s _ => some s
  | _ => none

/-- The call touches free slots of the controller only, and with all of them busy it touches none
and fails. -/
structure UsesFreeSlot (d : Device) (m : Mem) (t : Transferred) : Prop where
  free : ∀ a ∈ t.acts, ∀ s, a.slot = some s → s < reportedSlots d.cap ∧ d.Free s
  busy : (∀ s, s < reportedSlots d.cap → ¬ d.Free s) →
    (∃ e, t.result = some (.error e)) ∧ t.mem = m ∧ ∀ a ∈ t.acts, a.slot = none

/-- The first free slot among those that are searched. -/
structure FirstFree (d : Device) (f : Nat) : Prop where
  searched : f < ahciGetNoCommandSlots d.cap
  free : d.Free f
  first : ∀ j, j < f → ¬ d.Free j

/-- The acts of a call before it waits for the port. -/
def actsBefore (slot : Nat) : List Act :=
  [.waitRequest, .clearInterrupts, .header slot, .table slot]

/-- The acts that follow when the port is ready. -/
def actsIssue (d : Device) (slot : Nat) : List Act :=
  [.issue slot (d.ciIssue ||| 1 <<< slot), .waitCallback]

section Slots

variable {d : Device} {m : Mem} {r : Request} {fuel f s : Nat}

/-- Four of the five bits of the number are looked at. -/
theorem ahciGetNoCommandSlots_eq (cap : Nat) :
    ahciGetNoCommandSlots cap = cap / 256 % 16 + 1 := by
  have hmask : capNcs >>> 8 = 2 ^ 4 - 1 := by decide
  rw [ahciGetNoCommandSlots, Nat.shiftRight_and_distrib, hmask, Nat.and_two_pow_sub_one_eq_mod,
    Nat.shiftRight_eq_div_pow]

theorem free_iff : (d.sact ||| d.ci).testBit s = false ↔ d.Free s := by
  rw [Nat.testBit_or, Bool.or_eq_false_iff, Device.Free]

/-- The search finds the first clear bit, or there is none. -/
theorem emptySlotLoop_cases (n i slots : Nat) :
    (∃ k, k < n ∧ slots.testBit k = false ∧ (∀ j, j < k → slots.testBit j = true) ∧
      emptySlotLoop n i slots = i + k) ∨
    ((∀ j, j < n → slots.testBit j = true) ∧ emptySlotLoop n i slots = -1) := by
  induction n generalizing i slots with
  | zero => exact Or.inr ⟨nofun, rfl⟩
  | succ n ih =>
    have hbit : slots &&& 1 = 0 ↔ slots.testBit 0 = false := by
      rw [Nat.testBit_zero, Nat.and_one_is_mod]
      have hlt := Nat.mod_lt slots (show 2 > 0 by decide)
      simp only [decide_eq_false_iff_not]
      omega
    have hnext : ∀ j, (slots >>> 1).testBit j = slots.testBit (j + 1) := by
      intro j
      rw [Nat.testBit_shiftRight, Nat.add_comm]
    unfold emptySlotLoop
    by_cases hzero : slots &&& 1 = 0
    · rw [if_pos hzero]
      exact Or.inl ⟨0, Nat.succ_pos n, hbit.mp hzero, nofun, by simp⟩
    · have hset : slots.testBit 0 = true := by
        rw [← Bool.not_eq_false]
        exact fun h => hzero (hbit.mpr h)
      rw [if_neg hzero]
      rcases ih (i + 1) (slots >>> 1) with ⟨k, hk, hclear, hall, heq⟩ | ⟨hall, heq⟩
      · refine Or.inl ⟨k + 1, by omega, ?_, ?_, ?_⟩
        · rwa [hnext] at hclear
        · intro j hj
          cases j with
          | zero => exact hset
          | succ j =>
            rw [← hnext]
            exact hall j (by omega)
        · rw [heq]
          push_cast
          omega
      · refine Or.inr ⟨?_, heq⟩
        intro j hj
        cases j with
        | zero => exact hset
        | succ j =>
          rw [← hnext]
          exact hall j (by omega)

/-- The slot after the search: the one behind the first free one, or slot 0. -/
theorem usedSlot_cases (d : Device) :
    (∃ f, FirstFree d f ∧ ahciFindEmptySlot d + 1 = ((f + 1 : Nat) : Int)) ∨
      ((∀ j, j < ahciGetNoCommandSlots d.cap → ¬ d.Free j) ∧
        ahciFindEmptySlot d + 1 = ((0 : Nat) : Int)) := by
  unfold ahciFindEmptySlot
  rcases emptySlotLoop_cases (ahciGetNoCommandSlots d.cap) 0 (d.sact ||| d.ci) with
    ⟨k, hk, hclear, hall, heq⟩ | ⟨hall, heq⟩
  · refine Or.inl ⟨k, ⟨hk, free_iff.mp hclear, fun j hj hfree => ?_⟩, ?_⟩
    · have hset := hall j hj
      rw [free_iff.mpr hfree] at hset
      cases hset
    · rw [heq]
      push_cast
      omega
  · refine Or.inr ⟨fun j hj hfree => ?_, by rw [heq]; rfl⟩
    have hset := hall j hj
    rw [free_iff.mpr hfree] at hset
    cases hset

/-- The ways a call with `slot` ends, by the wait for the port. -/
inductive Ends (d : Device) (fuel slot : Nat) : List Act → Option (Except AhciError Unit) → Prop
  | spinning (hwait : portWait d (d.millis 0) fuel 0 = .spinning) :
      Ends d fuel slot (actsBefore slot) none
  | timeout (hwait : portWait d (d.millis 0) fuel 0 = .timeout) :
      Ends d fuel slot (actsBefore slot) (some (.error .spinError))
  | unanswered (hwait : portWait d (d.millis 0) fuel 0 = .ready) :
      Ends d fuel slot (actsBefore slot ++ actsIssue d slot) none
  | done (hwait : portWait d (d.millis 0) fuel 0 = .ready) :
      Ends d fuel slot (actsBefore slot ++ actsIssue d slot ++ [.signalRequest]) (some (.ok ()))

/-- The sentinel is compared too late: the call goes on with its slot whatever it is. -/
theorem ahciDataTransfer_ends (fuel : Nat) (d : Device) (m : Mem) (r : Request) :
    ∃ slot : Nat, ahciFindEmptySlot d + 1 = (slot : Int) ∧
      (ahciDataTransfer fuel d m r).mem = buildCommand m d.clb slot r ∧
      Ends d fuel slot (ahciDataTransfer fuel d m r).acts
        (ahciDataTransfer fuel d m r).result := by
  obtain ⟨slot, hslot⟩ : ∃ slot : Nat, ahciFindEmptySlot d + 1 = (slot : Int) := by
    rcases usedSlot_cases d with ⟨f, _, h⟩ | ⟨_, h⟩
    · exact ⟨f + 1, h⟩
    · exact ⟨0, h⟩
  have hgo : ¬ (slot : Int) = -1 := by omega
  refine ⟨slot, hslot, ?_⟩
  unfold ahciDataTransfer
  dsimp only
  rw [hslot, if_neg hgo, Int.toNat_natCast]
  cases hwait : portWait d (d.millis 0) fuel 0 with
  | spinning => exact ⟨rfl, .spinning hwait⟩
  | timeout => exact ⟨rfl, .timeout hwait⟩
  | ready =>
    cases d.answers with
    | true => exact ⟨rfl, .done hwait⟩
    | false => exact ⟨rfl, .unanswered hwait⟩

/-- Every act of a call that is about a slot is about the one that it has chosen. -/
theorem Ends.slot {acts : List Act} {res : Option (Except AhciError Unit)}
    (h : Ends d fuel s acts res) :
    (∀ a ∈ acts, ∀ s', a.slot = some s' → s' = s) ∧ Act.header s ∈ acts := by
  cases h with
  | spinning => exact ⟨by simp [Act.slot, actsBefore], by simp [actsBefore]⟩
  | timeout => exact ⟨by simp [Act.slot, actsBefore], by simp [actsBefore]⟩
  | unanswered => exact ⟨by simp [Act.slot, actsBefore, actsIssue], by simp [actsBefore]⟩
  | done => exact ⟨by simp [Act.slot, actsBefore, actsIssue], by simp [actsBefore]⟩

/-- A slot that has been used is the one that the law is about. -/
theorem usesFreeSlot_of_slot (h : ahciFindEmptySlot d + 1 = (s : Int)) :
    UsesFreeSlot d m (ahciDataTransfer fuel d m r) ↔ s < reportedSlots d.cap ∧ d.Free s := by
  obtain ⟨s₁, hs₁, _, hends⟩ := ahciDataTransfer_ends fuel d m r
  obtain rfl : s = s₁ := by omega
  obtain ⟨hall, hused⟩ := hends.slot
  constructor
  · intro huse
    exact huse.free _ hused s rfl
  · intro hfree
    refine ⟨?_, fun hbusy => absurd hfree.2 (hbusy s hfree.1)⟩
    intro a ha s' hs'
    rw [hall a ha s' hs']
    exact hfree

/-- A call uses a free slot if and only if the slot behind the first free one is free. -/
theorem usesFreeSlot_iff :
    UsesFreeSlot d m (ahciDataTransfer fuel d m r) ↔
      ∃ f, FirstFree d f ∧ f + 1 < reportedSlots d.cap ∧ d.Free (f + 1) := by
  rcases usedSlot_cases d with ⟨f, hf, hslot⟩ | ⟨hbusy, hslot⟩
  · rw [usesFreeSlot_of_slot hslot]
    constructor
    · intro h
      exact ⟨f, hf, h⟩
    · rintro ⟨g, hg, h⟩
      have heq : g = f := by
        rcases Nat.lt_trichotomy g f with hlt | heq | hgt
        · exact absurd hg.free (hf.first g hlt)
        · exact heq
        · exact absurd hf.free (hg.first f hgt)
      rwa [heq] at h
  · rw [usesFreeSlot_of_slot hslot]
    constructor
    · intro h
      exact absurd h.2 (hbusy 0 (Nat.succ_pos _))
    · rintro ⟨f, hf, _⟩
      exact absurd hf.free (hbusy f hf.searched)

end Slots

/-- A controller with two slots, the second of them with a command in flight. -/
def secondInFlight : Device where
  cap := 256
  clb := 0x200000
  sact := 0
  ci := 2
  tfd _ := 0
  millis _ := 0
  ciIssue := 2
  answers := true

/-- The command is built in the slot of the command in flight. -/
theorem ahciDataTransfer_overwrites :
    ¬ secondInFlight.Free 1 ∧ secondInFlight.Free 0 ∧
      ¬ UsesFreeSlot secondInFlight (fun _ => 0)
        (ahciDataTransfer 1 secondInFlight (fun _ => 0) ⟨0, 0, 1, 0, true⟩) := by
  have hslot : ahciFindEmptySlot secondInFlight + 1 = ((1 : Nat) : Int) := by decide
  have hbusy : ¬ secondInFlight.Free 1 := by
    rintro ⟨_, hci⟩
    exact absurd hci (by decide)
  refine ⟨hbusy, ⟨by decide, by decide⟩, ?_⟩
  rw [usesFreeSlot_of_slot hslot]
  rintro ⟨_, hfree⟩
  exact hbusy hfree

/-! ## The units of `ahci_request_sem` -/

/-- An operation on `ahci_request_sem`, of the call or of another thread. -/
structure RequestOp where
  own : Bool
  signal : Bool
  thread : Nat
deriving Repr, DecidableEq

def RequestOp.exec (s : Sem Nat) (op : RequestOp) : Sem Nat :=
  if op.signal then (s.signal op.thread).1 else (s.wait op.thread).1

/-- The units that a signal, or a wait, adds. -/
def unitsOf (signal : Bool) : Int := if signal then 1 else -1

/-- Whether an act is a signal of `ahci_request_sem`, if it is an operation on it. -/
def Act.request : Act → Option Bool
  | .waitRequest => some false
  | .signalRequest => some true
  | _ => none

/-- Whatever other threads do to the semaphore in between, the call has taken as many units as it
has given. -/
def KeepsUnits (acts : List Act) : Prop :=
  ∀ (s : Sem Nat) (ops : List RequestOp),
    (ops.filter (·.own)).map (·.signal) = acts.filterMap Act.request →
      (ops.foldl RequestOp.exec s).net =
        s.net + ((ops.filter fun op => !op.own).map fun op => unitsOf op.signal).sum

/-- The port is busy at every check until 500 ms are over. -/
def TimesOut (d : Device) : Prop :=
  ∃ k, (∀ j, j ≤ k → d.tfd j &&& busyOrDrq ≠ 0) ∧
    (∀ j, j < k → sub32 (d.millis (j + 1)) (d.millis 0) < 500) ∧
    sub32 (d.millis (k + 1)) (d.millis 0) ≥ 500

section Units

variable {d : Device} {m : Mem} {r : Request} {fuel : Nat} {acts : List Act}

theorem net_exec (s : Sem Nat) (op : RequestOp) :
    (op.exec s).net = s.net + unitsOf op.signal := by
  unfold RequestOp.exec unitsOf
  cases op.signal with
  | true => exact s.net_signal op.thread
  | false => exact s.net_wait op.thread

/-- The units after a sequence of operations: those of the call and those of the others. -/
theorem net_foldl (s : Sem Nat) (ops : List RequestOp) :
    (ops.foldl RequestOp.exec s).net =
      s.net + (((ops.filter (·.own)).map (·.signal)).map unitsOf).sum +
        ((ops.filter fun op => !op.own).map fun op => unitsOf op.signal).sum := by
  induction ops generalizing s with
  | nil => simp
  | cons op ops ih =>
    rw [List.foldl_cons, ih, net_exec]
    cases hown : op.own with
    | true =>
      simp only [hown, List.filter_cons, if_true, Bool.not_true, Bool.false_eq_true, if_false,
        List.map_cons, List.sum_cons]
      omega
    | false =>
      simp only [hown, List.filter_cons, if_true, Bool.not_false, Bool.false_eq_true, if_false,
        List.map_cons, List.sum_cons]
      omega

/-- The operations of a call that nothing comes in between of. -/
def ownOps (signals : List Bool) : List RequestOp := signals.map fun b => ⟨true, b, 0⟩

theorem ownOps_own (signals : List Bool) :
    ((ownOps signals).filter (·.own)).map (·.signal) = signals := by
  induction signals with
  | nil => rfl
  | cons b signals ih => exact congrArg (b :: ·) ih

theorem ownOps_others (signals : List Bool) :
    (ownOps signals).filter (fun op => !op.own) = [] := by
  induction signals with
  | nil => rfl
  | cons b signals ih => exact ih

/-- The units are kept when the call signals as often as it waits. -/
theorem keepsUnits_iff_sum :
    KeepsUnits acts ↔ ((acts.filterMap Act.request).map unitsOf).sum = 0 := by
  constructor
  · intro h
    have hown := h ⟨1, []⟩ (ownOps (acts.filterMap Act.request)) (ownOps_own _)
    rw [net_foldl, ownOps_own, ownOps_others] at hown
    omega
  · intro h s ops hops
    rw [net_foldl, hops, h]
    omega

/-- The wait for the port ends in a timeout when the port stays busy for too long. -/
theorem portWait_timeout {cur n k : Nat}
    (hbusy : ∀ j, j ≤ n → d.tfd (k + j) &&& busyOrDrq ≠ 0)
    (hbefore : ∀ j, j < n → sub32 (d.millis (k + j + 1)) cur < 500)
    (hover : sub32 (d.millis (k + n + 1)) cur ≥ 500) : portWait d cur (n + 1) k = .timeout := by
  induction n generalizing k with
  | zero =>
    have hnow : d.tfd k &&& busyOrDrq ≠ 0 := hbusy 0 (Nat.le_refl 0)
    have hend : sub32 (d.millis (k + 1)) cur ≥ 500 := hover
    rw [portWait, if_pos hnow, if_pos hend]
  | succ n ih =>
    have hnow : d.tfd k &&& busyOrDrq ≠ 0 := hbusy 0 (Nat.zero_le _)
    have hfirst : sub32 (d.millis (k + 1)) cur < 500 := hbefore 0 (Nat.succ_pos n)
    rw [portWait, if_pos hnow, if_neg (Nat.not_le.mpr hfirst)]
    refine ih (fun j hj => ?_) (fun j hj => ?_) ?_
    · have h := hbusy (j + 1) (by omega)
      rwa [show k + (j + 1) = k + 1 + j by omega] at h
    · have h := hbefore (j + 1) (by omega)
      rwa [show k + (j + 1) + 1 = k + 1 + j + 1 by omega] at h
    · rwa [show k + (n + 1) + 1 = k + 1 + n + 1 by omega] at hover

/-- A timeout has been waited for. -/
theorem portWait_timeout_inv {cur fuel k : Nat} (h : portWait d cur fuel k = .timeout) :
    ∃ n, n < fuel ∧ (∀ j, j ≤ n → d.tfd (k + j) &&& busyOrDrq ≠ 0) ∧
      (∀ j, j < n → sub32 (d.millis (k + j + 1)) cur < 500) ∧
      sub32 (d.millis (k + n + 1)) cur ≥ 500 := by
  induction fuel generalizing k with
  | zero => cases h
  | succ fuel ih =>
    unfold portWait at h
    by_cases hbusy : d.tfd k &&& busyOrDrq ≠ 0
    · rw [if_pos hbusy] at h
      by_cases hover : sub32 (d.millis (k + 1)) cur ≥ 500
      · refine ⟨0, Nat.succ_pos fuel, fun j hj => ?_, nofun, hover⟩
        obtain rfl : j = 0 := by omega
        exact hbusy
      · rw [if_neg hover] at h
        obtain ⟨n, hn, hall, hbefore, hlast⟩ := ih h
        refine ⟨n + 1, by omega, fun j hj => ?_, fun j hj => ?_, ?_⟩
        · cases j with
          | zero => exact hbusy
          | succ j =>
            rw [show k + (j + 1) = k + 1 + j by omega]
            exact hall j (by omega)
        · cases j with
          | zero => exact Nat.lt_of_not_le hover
          | succ j =>
            rw [show k + (j + 1) + 1 = k + 1 + j + 1 by omega]
            exact hbefore j (by omega)
        · rwa [show k + (n + 1) + 1 = k + 1 + n + 1 by omega]
    · rw [if_neg hbusy] at h
      cases h

theorem portWait_timesOut : (∃ fuel, portWait d (d.millis 0) fuel 0 = .timeout) ↔ TimesOut d := by
  constructor
  · rintro ⟨fuel, h⟩
    obtain ⟨n, _, hbusy, hbefore, hover⟩ := portWait_timeout_inv h
    simp only [Nat.zero_add] at hbusy hbefore hover
    exact ⟨n, hbusy, hbefore, hover⟩
  · rintro ⟨k, hbusy, hbefore, hover⟩
    refine ⟨k + 1, portWait_timeout ?_ ?_ ?_⟩
    · simpa only [Nat.zero_add] using hbusy
    · simpa only [Nat.zero_add] using hbefore
    · simpa only [Nat.zero_add] using hover

/-- Of the ways to return, the timeout alone loses a unit. -/
theorem Ends.units {slot : Nat} {res : Option (Except AhciError Unit)}
    (h : Ends d fuel slot acts res) (hret : res ≠ none) :
    KeepsUnits acts ↔ portWait d (d.millis 0) fuel 0 ≠ .timeout := by
  rw [keepsUnits_iff_sum]
  cases h with
  | spinning => exact absurd rfl hret
  | unanswered => exact absurd rfl hret
  | timeout hwait =>
    refine iff_of_false ?_ (fun h => h hwait)
    show ¬ (-1 : Int) = 0
    decide
  | done hwait =>
    refine iff_of_true rfl ?_
    rw [hwait]
    nofun

/-- A timeout is returned. -/
theorem Ends.timeout_returns {slot : Nat} {res : Option (Except AhciError Unit)}
    (h : Ends d fuel slot acts res) (htimeout : portWait d (d.millis 0) fuel 0 = .timeout) :
    res = some (.error .spinError) := by
  cases h with
  | timeout => rfl
  | spinning hwait => cases hwait.symm.trans htimeout
  | unanswered hwait => cases hwait.symm.trans htimeout
  | done hwait => cases hwait.symm.trans htimeout

/-- Every return of a call leaves the units of the semaphore as they were if and only if the port
does not time out. -/
theorem ahciDataTransfer_keepsUnits_iff :
    (∀ fuel, (ahciDataTransfer fuel d m r).result ≠ none →
      KeepsUnits (ahciDataTransfer fuel d m r).acts) ↔ ¬ TimesOut d := by
  rw [← portWait_timesOut]
  constructor
  · rintro h ⟨fuel, htimeout⟩
    obtain ⟨slot, _, _, hends⟩ := ahciDataTransfer_ends fuel d m r
    have hret : (ahciDataTransfer fuel d m r).result ≠ none := by
      rw [hends.timeout_returns htimeout]
      nofun
    exact (hends.units hret).mp (h fuel hret) htimeout
  · intro h fuel hret
    obtain ⟨slot, _, _, hends⟩ := ahciDataTransfer_ends fuel d m r
    exact (hends.units hret).mpr fun htimeout => h ⟨fuel, htimeout⟩

end Units

/-- A port that stays busy. -/
def stuckPort : Device where
  cap := 256
  clb := 0x200000
  sact := 0
  ci := 0
  tfd _ := 0x80
  millis k := 500 * k
  ciIssue := 0
  answers := true

/-- The call fails and keeps the unit of `ahci_request_sem`. -/
theorem ahciDataTransfer_loses_unit :
    (ahciDataTransfer 1 stuckPort (fun _ => 0) ⟨0, 0, 1, 0, true⟩).result =
        some (.error .spinError) ∧
      ¬ KeepsUnits (ahciDataTransfer 1 stuckPort (fun _ => 0) ⟨0, 0, 1, 0, true⟩).acts := by
  refine ⟨rfl, ?_⟩
  rw [keepsUnits_iff_sum]
  show ¬ (-1 : Int) = 0
  decide

end MeOS.AhciTransfer
