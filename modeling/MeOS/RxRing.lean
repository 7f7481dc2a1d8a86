import MeOS.Lib.Ring
import Mathlib.Data.List.Induction

/-! # `i217.cpp`: the receive ring

The controller owns the descriptors from its head up to the tail register; it fills
the one at its head and raises an interrupt. `e1000_callback` takes the descriptor
at `rx_cur`, moves the tail register to the next one and queues the index for
`e1000_recv_defered`. The tail is moved one too far: the controller owns nothing
when every packet is taken, and the queued descriptor when one is not.
-/

namespace MeOS

open Ring

/-- `E1000_NUM_RX_DESC`. -/
abbrev e1000NumRxDesc : Nat := 32

/-- The receive ring, the packets whose interrupt is not yet handled, and `recv_queue`. -/
structure RxRing where
  /-- `REG_RXDESCHEAD`, moved by the controller. -/
  head : Nat
  /-- `REG_RXDESCTAIL`. -/
  tail : Nat
  rxCur : Nat
  pending : Nat
  recvQueue : List Nat
deriving Repr, DecidableEq

/-- `rx_init`, with an empty queue of 32 cells. -/
def rxInit : RxRing where
  head := 0
  tail := e1000NumRxDesc - 1
  rxCur := 0
  pending := 0
  recvQueue := []

/-- `queue_spsc_insert` on `recv_queue`: one cell stays unused. -/
def recvQueueInsert (queue : List Nat) (element : Nat) : List Nat :=
  if queue.length + 1 < 32 then queue ++ [element] else queue

/-- `e1000_recv_packet`. -/
def e1000RecvPacket (dev : RxRing) : RxRing :=
  let recvIndex := dev.rxCur
  let rxCur := (dev.rxCur + 1) % e1000NumRxDesc
  { dev with
    rxCur := rxCur
    tail := rxCur
    recvQueue := recvQueueInsert dev.recvQueue recvIndex }

/-- What happens to the ring. -/
inductive RxEvent where
  /-- The controller receives a packet. -/
  | arrival
  /-- The interrupt of a packet is handled by `e1000_recv_packet`. -/
  | recvPacket
  /-- `e1000_recv_defered` takes a packet off the queue. -/
  | recvDefered
deriving Repr, DecidableEq

namespace RxRing

/-- The number of descriptors that the controller owns. -/
def ownedCount (s : RxRing) : Nat := dist e1000NumRxDesc s.head s.tail

/-- The controller owns the descriptor `d`. -/
def Owns (s : RxRing) (d : Nat) : Prop := dist e1000NumRxDesc s.head d < s.ownedCount

instance (s : RxRing) (d : Nat) : Decidable (s.Owns d) := inferInstanceAs (Decidable (_ < _))

/-- The controller needs a descriptor for a packet, `e1000_recv_packet` an interrupt and
`e1000_recv_defered` an entry of the queue. -/
def step (s : RxRing) : RxEvent → Option RxRing
  | .arrival =>
    if s.head = s.tail then none
    else some { s with head := (s.head + 1) % e1000NumRxDesc, pending := s.pending + 1 }
  | .recvPacket =>
    if s.pending = 0 then none
    else some (e1000RecvPacket { s with pending := s.pending - 1 })
  | .recvDefered =>
    match s.recvQueue with
    | [] => none
    | _ :: rest => some { s with recvQueue := rest }

/-- A run. -/
def run (s : RxRing) : List RxEvent → Option RxRing
  | [] => some s
  | e :: events => (s.step e).bind fun s => s.run events

/-- No queued descriptor is owned by the controller, and when no packet waits it owns all
descriptors but one. -/
def Ok (s : RxRing) : Prop :=
  (∀ d ∈ s.recvQueue, ¬ s.Owns d) ∧
    (s.pending = 0 → s.recvQueue = [] → s.ownedCount = e1000NumRxDesc - 1)

instance (s : RxRing) : Decidable s.Ok := inferInstanceAs (Decidable (_ ∧ _))

/-- Every state of the run is right. -/
def AlwaysOk (s : RxRing) (events : List RxEvent) : Prop :=
  ∀ before after s', events = before ++ after → s.run before = some s' → s'.Ok

end RxRing

section Ring

variable {s s' : RxRing} {events more : List RxEvent} {e : RxEvent}

theorem RxRing.run_append (s : RxRing) (events more : List RxEvent) :
    s.run (events ++ more) = (s.run events).bind fun s => s.run more := by
  induction events generalizing s with
  | nil => rfl
  | cons e events ih =>
    simp only [List.cons_append, run]
    cases s.step e with
    | none => rfl
    | some s => exact ih s

theorem RxRing.run_split (h : s.run (events ++ e :: more) = some s') :
    ∃ mid next, s.run events = some mid ∧ mid.step e = some next ∧ next.run more = some s' := by
  rw [run_append] at h
  rcases Option.bind_eq_some_iff.mp h with ⟨mid, hmid, hrest⟩
  rcases Option.bind_eq_some_iff.mp hrest with ⟨next, hstep, hmore⟩
  exact ⟨mid, next, hmid, hstep, hmore⟩

theorem RxRing.run_snoc (h : s.run (events ++ [e]) = some s') :
    ∃ mid, s.run events = some mid ∧ mid.step e = some s' := by
  rcases run_split h with ⟨mid, next, hmid, hstep, hsame⟩
  cases hsame
  exact ⟨mid, hmid, hstep⟩

/-! ## Before the first interrupt -/

/-- `n` packets have arrived, none is handled. -/
def RxRing.arrived (n : Nat) : RxRing := { rxInit with head := n, pending := n }

/-- Without `e1000_recv_packet` only arrivals are possible, and 31 of them. -/
theorem run_without_recvPacket (h : rxInit.run events = some s) (hnone : .recvPacket ∉ events) :
    ∃ n, n ≤ 31 ∧ events = List.replicate n .arrival ∧ s = RxRing.arrived n := by
  induction events using List.reverseRecOn generalizing s with
  | nil => exact ⟨0, by decide, rfl, (Option.some.inj h).symm⟩
  | append_singleton events e ih =>
    rcases RxRing.run_snoc h with ⟨mid, hmid, hlast⟩
    simp only [List.mem_append, List.mem_singleton, not_or] at hnone
    rcases ih hmid hnone.1 with ⟨n, hn, hevents, rfl⟩
    cases e with
    | arrival =>
      simp only [RxRing.step] at hlast
      by_cases hfull : (RxRing.arrived n).head = (RxRing.arrived n).tail
      · rw [if_pos hfull] at hlast
        cases hlast
      · rw [if_neg hfull] at hlast
        have hne : n ≠ 31 := hfull
        refine ⟨n + 1, by omega, ?_, ?_⟩
        · rw [hevents, List.replicate_succ']
        · have hmod : (n + 1) % 32 = n + 1 := Nat.mod_eq_of_lt (by omega)
          rw [← Option.some.inj hlast]
          simp only [RxRing.arrived, hmod]
    | recvPacket => exact absurd rfl hnone.2
    | recvDefered => cases hlast

/-- Arrivals alone leave the ring right. -/
theorem RxRing.arrived_ok {n : Nat} : (arrived n).Ok := by
  constructor
  · intro d hd
    cases hd
  · intro hpending _
    have hzero : n = 0 := hpending
    subst hzero
    decide

/-! ## The first interrupt -/

/-- The first interrupt leaves the ring right only when a single packet has arrived. -/
theorem recvPacket_ok {n : Nat} (hn : n ≤ 31)
    (hok : (e1000RecvPacket { RxRing.arrived n with pending := n - 1 }).Ok) : n = 1 := by
  have hqueued : 0 ∈ [0] := List.mem_singleton.mpr rfl
  have hfree := hok.1 0 hqueued
  by_contra hne
  apply hfree
  show (0 + (32 - n)) % 32 < (1 + (32 - n)) % 32
  omega

/-- With the only packet taken and queued nothing can follow without stalling the ring. -/
theorem stalls_of_first (h : (e1000RecvPacket { RxRing.arrived 1 with pending := 0 }).step e =
    some s) : ¬ s.Ok := by
  cases e with
  | arrival => cases h
  | recvPacket => cases h
  | recvDefered =>
    rw [← Option.some.inj h]
    decide

/-! ## The ring stalls -/

/-- The head is ahead of `rx_cur` by the packets not yet handled. -/
def RxRing.Ahead (s : RxRing) : Prop :=
  s.rxCur < 32 ∧ s.head = (s.rxCur + s.pending) % 32

/-- A step keeps the head ahead, and from the first `e1000_recv_packet` on the tail register is
`rx_cur`. -/
theorem RxRing.Ahead.step (h : s.Ahead) (hstep : s.step e = some s') :
    s'.Ahead ∧ (e = .recvPacket ∨ s.tail = s.rxCur → s'.tail = s'.rxCur) := by
  rcases h with ⟨hcur, hhead⟩
  cases e with
  | arrival =>
    -- the card stops when its head has met the tail
    simp only [RxRing.step] at hstep
    by_cases hfull : s.head = s.tail
    · rw [if_pos hfull] at hstep
      cases hstep
    · rw [if_neg hfull] at hstep
      rw [← Option.some.inj hstep]
      refine ⟨⟨hcur, ?_⟩, ?_⟩
      · show (s.head + 1) % 32 = (s.rxCur + (s.pending + 1)) % 32
        omega
      · intro htail
        exact htail.resolve_left (by simp)
  | recvPacket =>
    simp only [RxRing.step] at hstep
    by_cases hnone : s.pending = 0
    · rw [if_pos hnone] at hstep
      cases hstep
    · rw [if_neg hnone] at hstep
      rw [← Option.some.inj hstep]
      refine ⟨⟨Nat.mod_lt _ (by decide), ?_⟩, fun _ => rfl⟩
      show s.head = ((s.rxCur + 1) % 32 + (s.pending - 1)) % 32
      omega
  | recvDefered =>
    simp only [RxRing.step] at hstep
    cases hqueue : s.recvQueue with
    | nil =>
      rw [hqueue] at hstep
      cases hstep
    | cons d rest =>
      rw [hqueue] at hstep
      rw [← Option.some.inj hstep]
      exact ⟨⟨hcur, hhead⟩, fun htail => htail.resolve_left (by simp)⟩

/-- A run keeps the head ahead, and sets the tail register to `rx_cur`. -/
theorem run_ahead (h : rxInit.run events = some s) :
    s.Ahead ∧ (.recvPacket ∈ events → s.tail = s.rxCur) := by
  induction events using List.reverseRecOn generalizing s with
  | nil =>
    cases h
    exact ⟨⟨by decide, rfl⟩, fun hmem => absurd hmem List.not_mem_nil⟩
  | append_singleton events e ih =>
    rcases RxRing.run_snoc h with ⟨mid, hmid, hlast⟩
    rcases ih hmid with ⟨hahead, htail⟩
    rcases hahead.step hlast with ⟨hahead', htail'⟩
    refine ⟨hahead', ?_⟩
    intro hmem
    apply htail'
    rcases List.mem_append.mp hmem with hmem | hmem
    · exact Or.inr (htail hmem)
    · exact Or.inl (List.mem_singleton.mp hmem).symm

/-- When every packet is handled and the tail register is `rx_cur`, the controller owns nothing
and receives nothing any more. -/
theorem RxRing.Ahead.stalls (h : s.Ahead) (htail : s.tail = s.rxCur) (hpending : s.pending = 0)
    (hrun : s.run more = some s') : .arrival ∉ more := by
  induction more generalizing s with
  | nil => exact List.not_mem_nil
  | cons e more ih =>
    rcases Option.bind_eq_some_iff.mp hrun with ⟨mid, hmid, hrest⟩
    rcases h.step hmid with ⟨hahead', htail'⟩
    have hrest' := fun hpending' => ih hahead' (htail' (Or.inr htail)) hpending' hrest
    cases e with
    | arrival =>
      have hempty : s.head = s.tail := by
        rw [h.2, hpending, Nat.add_zero, Nat.mod_eq_of_lt h.1, htail]
      simp only [RxRing.step, if_pos hempty] at hmid
      cases hmid
    | recvPacket =>
      simp only [RxRing.step, if_pos hpending] at hmid
      cases hmid
    | recvDefered =>
      have hsame : mid.pending = s.pending := by
        simp only [RxRing.step] at hmid
        cases hqueue : s.recvQueue with
        | nil =>
          rw [hqueue] at hmid
          cases hmid
        | cons d rest =>
          rw [hqueue] at hmid
          rw [← Option.some.inj hmid]
      simpa using hrest' (hsame.trans hpending)

/-- Once the driver has handled every packet that arrived, no packet arrives any more. -/
theorem reception_stalls (h : rxInit.run events = some s) (hrecv : .recvPacket ∈ events)
    (hpending : s.pending = 0) (hrun : s.run more = some s') : .arrival ∉ more := by
  rcases run_ahead h with ⟨hahead, htail⟩
  exact hahead.stalls (htail hrecv) hpending hrun

end Ring

/-! ## The runs that are right -/

/-- The ring is right throughout a run exactly when no interrupt is handled, or the run ends as soon
as the first packet, alone in the ring, is taken. -/
theorem rx_ring_ok_iff (events : List RxEvent) (s : RxRing) (h : rxInit.run events = some s) :
    rxInit.AlwaysOk events ↔
      .recvPacket ∉ events ∨ events = [.arrival, .recvPacket] := by
  constructor
  · intro hok
    by_contra hcond
    rw [not_or, not_not] at hcond
    rcases hcond with ⟨hrecv, hevents⟩
    -- the events up to the first interrupt
    rcases List.eq_append_cons_of_mem hrecv with ⟨before, after, rfl, hnone⟩
    rcases RxRing.run_split h with ⟨mid, next, hbefore, hfirst, hafter⟩
    rcases run_without_recvPacket hbefore hnone with ⟨n, hn, hreplicate, rfl⟩
    have hnext : next = e1000RecvPacket { RxRing.arrived n with pending := n - 1 } := by
      simp only [RxRing.step] at hfirst
      by_cases hzero : (RxRing.arrived n).pending = 0
      · rw [if_pos hzero] at hfirst
        cases hfirst
      · rw [if_neg hzero] at hfirst
        exact (Option.some.inj hfirst).symm
    have hrun : rxInit.run (before ++ [.recvPacket]) = some next := by
      rw [RxRing.run_append, hbefore]
      show ((RxRing.arrived n).step .recvPacket).bind (fun s => s.run []) = some next
      rw [hfirst]
      rfl
    have hone : n = 1 := by
      apply recvPacket_ok hn
      rw [← hnext]
      exact hok (before ++ [.recvPacket]) after next (by simp) hrun
    subst hone
    cases after with
    | nil =>
      apply hevents
      rw [hreplicate]
      rfl
    | cons e rest =>
      rcases Option.bind_eq_some_iff.mp hafter with ⟨last, hlast, _⟩
      rw [hnext] at hlast
      apply stalls_of_first hlast
      apply hok (before ++ [.recvPacket] ++ [e]) rest last (by simp)
      rw [RxRing.run_append, hrun]
      show (next.step e).bind (fun s => s.run []) = some last
      rw [hnext, hlast]
      rfl
  · intro hcond before after s' hsplit hs'
    rcases hcond with hnone | hevents
    · have hnone' : .recvPacket ∉ before := by
        intro hmem
        apply hnone
        rw [hsplit]
        exact List.mem_append_left after hmem
      rcases run_without_recvPacket hs' hnone' with ⟨n, _, _, rfl⟩
      exact RxRing.arrived_ok
    · rw [hevents] at hsplit
      match before, hsplit, hs' with
      | [], _, hs' =>
        cases hs'
        decide
      | [_], hsplit, hs' =>
        cases hsplit
        cases hs'
        decide
      | [_, _], hsplit, hs' =>
        cases hsplit
        cases hs'
        decide

/-- Two packets arrive and none is taken yet. -/
theorem rx_ring_ok_two : rxInit.AlwaysOk [.arrival, .arrival] :=
  (rx_ring_ok_iff [.arrival, .arrival] (RxRing.arrived 2) rfl).mpr (Or.inl (by decide))

/-- With two packets in the ring the first interrupt gives the queued descriptor to the controller;
with one, the controller owns nothing once the packet is processed. -/
theorem rx_ring_gives_away :
    (¬ ∀ events s, rxInit.run events = some s → ∀ d ∈ s.recvQueue, ¬ s.Owns d) ∧
      ¬ ∀ events s, rxInit.run events = some s → s.pending = 0 → s.recvQueue = [] →
        s.ownedCount = e1000NumRxDesc - 1 := by
  constructor
  · intro hclaim
    have hfree := hclaim [.arrival, .arrival, .recvPacket] _ rfl 0 (by decide)
    revert hfree
    decide
  · intro hclaim
    have hcount := hclaim [.arrival, .recvPacket, .recvDefered] _ rfl (by decide) (by decide)
    revert hcount
    decide

end MeOS
