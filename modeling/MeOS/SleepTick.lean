import MeOS.Lib.MaximalRuns
import MeOS.SchedRuns

/-! # `scheduler_decrease_sleep_time`

On every tick the loop walks the sleep queue with a trailing pointer `prev`. The first
node of the queue is taken off with `dl_list_remove_front_node`; behind a node that stays,
the node that is taken off is that of `prev`. So the tick does what it is for as long as
the expired sleepers stand in front of the others.
-/

namespace MeOS

open Links

/-! ## The tick -/

/-- The loop of `scheduler_decrease_sleep_time`, in a queue of less than `fuel` nodes. -/
def decreaseSleepTimeFrom (elapsed : Nat) : Nat → Nat → Nat → Scheduler → Outcome Scheduler
  | 0, _, _, _ => .running
  | fuel + 1, ptr, prev, s =>
    if ptr = 0 then .ret s
    else
      let thread := s.nodes.data ptr
      if elapsed > (s.tcbs thread).sleepTime then do
        let next := s.nodes.next ptr
        let (s, node) ←
          (if prev = 0 then s.removeFrontNode .sleep else .ret (s.removeNode .sleep prev))
        let s := s.setState thread .ready
        let s := s.setSleepTime thread 0
        let q ← readyQueue (s.tcbs thread)
        decreaseSleepTimeFrom elapsed fuel next prev (s.insertBackNode q node)
      else
        let s := s.setSleepTime thread ((s.tcbs thread).sleepTime - elapsed)
        decreaseSleepTimeFrom elapsed fuel (s.nodes.next ptr) ptr s

/-- `scheduler_decrease_sleep_time`; `frequency` is that of the timer. -/
def schedulerDecreaseSleepTime (s : Scheduler) (frequency : Nat) : Outcome Scheduler :=
  if frequency = 0 then .undefined
  else
    let queue := s.lists .sleep
    decreaseSleepTimeFrom (1000 / frequency) (queue.count + 1) queue.head 0 s

/-! ## What a tick is for -/

/-- The time of the sleeper is over. -/
def Expired (s : Scheduler) (elapsed n : Nat) : Prop := (s.tcbOf n).sleepTime < elapsed

instance (s : Scheduler) (elapsed n : Nat) : Decidable (Expired s elapsed n) :=
  inferInstanceAs (Decidable (_ < _))

/-- The sleepers of `s` whose time is over are woken in `s'`, and only they. -/
structure TickWakes (s s' : Scheduler) (elapsed : Nat) : Prop where
  lists : ∀ r, Lists s'.nodes (s'.lists r) (s'.queued r)
  sleepers : s'.queued .sleep = (s.queued .sleep).filter fun n => ¬ Expired s elapsed n
  ready : ∀ i, s'.queued (.ready i) = s.queued (.ready i) ++ (s.queued .sleep).filter fun n =>
    Expired s elapsed n ∧ threadGetPriority (s.tcbOf n) = i
  other : ∀ r, r ≠ .sleep → (∀ i, r ≠ .ready i) → s'.queued r = s.queued r
  woken : ∀ n ∈ s.queued .sleep, Expired s elapsed n →
    s'.tcbOf n = { s.tcbOf n with state := .ready, sleepTime := 0 }
  asleep : ∀ n ∈ s.queued .sleep, ¬ Expired s elapsed n → (s'.tcbOf n).state = .sleep ∧
    s'.tcbOf n = { s.tcbOf n with sleepTime := (s.tcbOf n).sleepTime - elapsed }

/-- No sleeper whose time is over stands behind one that sleeps on. -/
def ExpiredFirst (s : Scheduler) (elapsed : Nat) : Prop :=
  (s.queued .sleep).Pairwise fun n n' => Expired s elapsed n' → Expired s elapsed n

instance (s : Scheduler) (elapsed : Nat) : Decidable (ExpiredFirst s elapsed) :=
  inferInstanceAs (Decidable ((s.queued .sleep).Pairwise _))

/-! ## Waking the front -/

/-- `s'` and `b'` are `s` and `b` with the sleepers `E` woken, who stood in front of `U`. -/
structure Woken (s : Scheduler) (b : Board) (E U : List Nat) (s' : Scheduler) (b' : Board) :
    Prop where
  shows : Shows s' b'
  sorted : b'.Sorted
  ok : b.Ok → b'.Ok
  on : ∀ n, b'.On n ↔ b.On n
  sleep : b'.queue .sleep = U
  ready : ∀ i, b'.queue (.ready i) = b.queue (.ready i) ++ E.filter fun n => b.priority n = i
  other : ∀ r, r ≠ .sleep → (∀ i, r ≠ .ready i) → b'.queue r = b.queue r
  priority : b'.priority = b.priority
  data : s'.nodes.data = s.nodes.data
  woken : ∀ n ∈ E, s'.tcbOf n = { s.tcbOf n with state := .ready, sleepTime := 0 }
  kept : ∀ t, (∀ n ∈ E, s.nodes.data n ≠ t) → s'.tcbs t = s.tcbs t

section Front

variable {s s₁ s₂ : Scheduler} {b b₁ b₂ : Board} {n elapsed : Nat} {E U : List Nat}

theorem Woken.refl (h : Shows s b) (hs : b.Sorted) (hq : b.queue .sleep = U) :
    Woken s b [] U s b where
  shows := h
  sorted := hs
  ok := id
  on := fun _ => Iff.rfl
  sleep := hq
  ready := fun _ => (List.append_nil _).symm
  other := fun _ _ _ => rfl
  priority := rfl
  data := rfl
  woken := fun _ hn => absurd hn List.not_mem_nil
  kept := fun _ _ => rfl

/-- The sleepers in front are other threads than those behind them. -/
theorem Shows.sleepers_apart (h : Shows s b) (hq : b.queue .sleep = E ++ U) {a : Nat} (ha : a ∈ E)
    (hn : n ∈ U) : s.nodes.data a ≠ s.nodes.data n := by
  intro heq
  have hin : ∀ c ∈ E ++ U, c ∈ b.queue .sleep := fun c hc => hq ▸ hc
  have hlist := h.lists .sleep
  rw [hq] at hlist
  have hsame := h.threads (hin a (List.mem_append_left U ha)) (hin n (List.mem_append_right E hn)) heq
  exact List.disjoint_of_nodup_append hlist.nodup ha (hsame ▸ hn)

/-- Who sleeps behind the woken ones is left as it was. -/
theorem Woken.tcbOf_behind (hw : Woken s b E U s₁ b₁) (h : Shows s b)
    (hq : b.queue .sleep = E ++ U) (hn : n ∈ U) : s₁.tcbOf n = s.tcbOf n := by
  unfold Scheduler.tcbOf
  rw [hw.data]
  exact hw.kept _ fun a ha => h.sleepers_apart hq ha hn

theorem Woken.cons (h₁ : Woken s b [n] (E ++ U) s₁ b₁) (h₂ : Woken s₁ b₁ E U s₂ b₂)
    (hdata : ∀ a ∈ E, s.nodes.data a ≠ s.nodes.data n) : Woken s b (n :: E) U s₂ b₂ where
  shows := h₂.shows
  sorted := h₂.sorted
  ok := fun hok => h₂.ok (h₁.ok hok)
  on := fun a => (h₂.on a).trans (h₁.on a)
  sleep := h₂.sleep
  ready := by
    intro i
    rw [h₂.ready, h₁.ready, h₁.priority, List.append_assoc, ← List.filter_append]
    rfl
  other := fun r hr hr' => (h₂.other r hr hr').trans (h₁.other r hr hr')
  priority := h₂.priority.trans h₁.priority
  data := h₂.data.trans h₁.data
  woken := by
    intro a ha
    rcases List.mem_cons.mp ha with rfl | ha
    · have hkept : s₂.tcbs (s₁.nodes.data a) = s₁.tcbs (s₁.nodes.data a) := by
        apply h₂.kept
        intro a' ha'
        rw [h₁.data]
        exact hdata a' ha'
      unfold Scheduler.tcbOf
      rw [h₂.data, hkept]
      exact h₁.woken a List.mem_cons_self
    · have hkept : s₁.tcbOf a = s.tcbOf a := by
        unfold Scheduler.tcbOf
        rw [h₁.data]
        apply h₁.kept
        intro a' ha'
        rw [List.mem_singleton.mp ha']
        exact Ne.symm (hdata a ha)
      rw [h₂.woken a ha, hkept]
  kept := by
    intro t ht
    rw [h₂.kept t, h₁.kept t]
    · intro a ha
      exact ht a (List.mem_singleton.mp ha ▸ List.mem_cons_self)
    · intro a ha
      rw [h₁.data]
      exact ht a (List.mem_cons_of_mem n ha)

/-- The thread is ready and its time is 0. -/
theorem wake_self (s : Scheduler) (t : Nat) :
    ((s.setState t .ready).setSleepTime t 0).tcbs t =
      { s.tcbs t with state := .ready, sleepTime := 0 } := by
  simp [Scheduler.setState, Scheduler.setSleepTime]

theorem wake_other (s : Scheduler) {t t' : Nat} (h : t' ≠ t) :
    ((s.setState t .ready).setSleepTime t 0).tcbs t' = s.tcbs t' := by
  simp [Scheduler.setState, Scheduler.setSleepTime, h]

/-- What the move of a sleeper to its ready queue does. -/
theorem Shows.wake (h : Shows s b) (hs : b.Sorted) (hq : b.queue .sleep = n :: U) :
    Woken s b [n] U
      ((((s.removeNode .sleep n).1.setState (s.nodes.data n) .ready).setSleepTime
        (s.nodes.data n) 0).insertBackNode (.ready (b.priority n)) n)
      (b.move n .sleep (.ready (b.priority n)) .ready) := by
  have hn : n ∈ b.queue .sleep := by
    rw [hq]
    exact List.mem_cons_self
  have hne : ListRef.sleep ≠ .ready (b.priority n) := by simp
  have hfit : Fits .ready (b.priority n) (.ready (b.priority n)) := ⟨Or.inl rfl, rfl⟩
  have hdata := (h.relocate hs hne hn).2.2
  constructor
  · exact (h.move hs hne hn).setSleepTime (s.nodes.data n) 0
  · exact hs.move hne hn hfit
  · intro hok
    apply hok.move hne hn _ (by simp) hfit
    -- the running thread does not sleep
    intro heq
    have hstate : b.state n = .sleep := hs.fits hn
    rw [heq, hok.running] at hstate
    cases hstate
  · exact fun a => Board.on_move hs hne hn
  · rw [Board.move_queue_from hne, hq, List.erase_cons_head]
  · intro i
    by_cases hi : b.priority n = i
    · rw [← hi, Board.move_queue_to]
      simp
    · rw [Board.move_queue_other (by simp) (by simpa using Ne.symm hi)]
      simp [hi]
  · intro r hr hr'
    exact Board.move_queue_other hr (hr' _)
  · rfl
  · exact hdata
  · intro a ha
    rw [List.mem_singleton.mp ha]
    show ((s.setState (s.nodes.data n) .ready).setSleepTime (s.nodes.data n) 0).tcbs
      (((s.removeNode .sleep n).1.insertBackNode (.ready (b.priority n)) n).nodes.data n) = _
    rw [hdata]
    exact wake_self s (s.nodes.data n)
  · intro t ht
    exact wake_other s (Ne.symm (ht n (List.mem_singleton.mpr rfl)))

/-- The ready queue of a thread that was just woken. -/
theorem Shows.readyQueue_woken (h : Shows s b) (hs : b.Sorted) {r : ListRef}
    (hn : n ∈ b.queue r) {s' : Scheduler} (htcbs : s'.tcbs = s.tcbs) :
    MeOS.readyQueue (((s'.setState (s.nodes.data n) .ready).setSleepTime (s.nodes.data n) 0).tcbs
      (s.nodes.data n)) = .ret (.ready (b.priority n)) := by
  apply readyQueue_eq _ (hs.prio hn)
  rw [wake_self, htcbs]
  exact h.priority hn

/-- One turn of the loop at a sleeper whose time is over. -/
theorem decrease_expired (hpos : n ≠ 0) (hexp : Expired s elapsed n) (fuel prev : Nat) :
    decreaseSleepTimeFrom elapsed (fuel + 1) n prev s = (do
      let (s₁, node) ←
        (if prev = 0 then s.removeFrontNode .sleep else .ret (s.removeNode .sleep prev))
      let s₂ := (s₁.setState (s.nodes.data n) .ready).setSleepTime (s.nodes.data n) 0
      let q ← readyQueue (s₂.tcbs (s.nodes.data n))
      decreaseSleepTimeFrom elapsed fuel (s.nodes.next n) prev (s₂.insertBackNode q node)) := by
  have hlt : elapsed > (s.tcbs (s.nodes.data n)).sleepTime := hexp
  rw [decreaseSleepTimeFrom, if_neg hpos]
  dsimp only
  rw [if_pos hlt]

/-- One turn of the loop at a sleeper that sleeps on. -/
theorem decrease_asleep (hpos : n ≠ 0) (hexp : ¬ Expired s elapsed n) (fuel prev : Nat) :
    decreaseSleepTimeFrom elapsed (fuel + 1) n prev s =
      decreaseSleepTimeFrom elapsed fuel (s.nodes.next n) n
        (s.setSleepTime (s.nodes.data n) ((s.tcbOf n).sleepTime - elapsed)) := by
  have hle : ¬ elapsed > (s.tcbs (s.nodes.data n)).sleepTime := hexp
  rw [decreaseSleepTimeFrom, if_neg hpos]
  dsimp only
  rw [if_neg hle]
  rfl

/-- The first sleeper is woken. -/
theorem Shows.wakeFront (h : Shows s b) (hs : b.Sorted) (hq : b.queue .sleep = n :: U)
    (hexp : Expired s elapsed n) (fuel : Nat) :
    ∃ s' b', decreaseSleepTimeFrom elapsed (fuel + 1) n 0 s =
        decreaseSleepTimeFrom elapsed fuel (U.headD 0) 0 s' ∧ Woken s b [n] U s' b' := by
  have hn : n ∈ b.queue .sleep := by
    rw [hq]
    exact List.mem_cons_self
  have hlist := h.lists .sleep
  rw [hq] at hlist
  have hpos : n ≠ 0 := Nat.pos_iff_ne_zero.mp (hlist.addr n List.mem_cons_self).1
  have hnext : s.nodes.next n = U.headD 0 := (chain_cons.mp hlist.chain).2.1
  have hhead : (b.queue .sleep).head? = some n := by
    rw [hq]
    rfl
  refine ⟨_, _, ?_, h.wake hs hq⟩
  have htcbs : (s.removeNode .sleep n).1.tcbs = s.tcbs := rfl
  rw [decrease_expired hpos hexp, if_pos rfl, h.removeFront hhead, Outcome.ret_bind, hnext]
  dsimp only
  rw [h.readyQueue_woken hs hn htcbs, Outcome.ret_bind, (h.removed hn).1]

/-- The loop wakes the sleepers at the front of the queue. -/
theorem Shows.wakeAll (h : Shows s b) (hs : b.Sorted) (hq : b.queue .sleep = E ++ U)
    (hexp : ∀ n ∈ E, Expired s elapsed n) (fuel : Nat) :
    ∃ s' b', decreaseSleepTimeFrom elapsed (E.length + fuel) ((E ++ U).headD 0) 0 s =
        decreaseSleepTimeFrom elapsed fuel (U.headD 0) 0 s' ∧ Woken s b E U s' b' := by
  induction E generalizing s b with
  | nil =>
    refine ⟨s, b, ?_, Woken.refl h hs hq⟩
    rw [List.length_nil, Nat.zero_add]
    rfl
  | cons n E ih =>
    have hq' : b.queue .sleep = [n] ++ (E ++ U) := hq
    rcases h.wakeFront hs hq (hexp n List.mem_cons_self) (E.length + fuel) with
      ⟨s₁, b₁, hturn, hw₁⟩
    have hdata : ∀ a ∈ E, s.nodes.data a ≠ s.nodes.data n := fun a ha =>
      (h.sleepers_apart hq' (List.mem_singleton_self n) (List.mem_append_left U ha)).symm
    have hexp₁ : ∀ a ∈ E, Expired s₁ elapsed a := by
      intro a ha
      unfold Expired
      rw [hw₁.tcbOf_behind h hq' (List.mem_append_left U ha)]
      exact hexp a (List.mem_cons_of_mem n ha)
    rcases ih hw₁.shows hw₁.sorted hw₁.sleep hexp₁ with ⟨s₂, b₂, hrest, hw₂⟩
    have hlen : (n :: E).length + fuel = E.length + fuel + 1 := by
      rw [List.length_cons]
      omega
    rw [hlen]
    exact ⟨s₂, b₂, hturn.trans hrest, hw₁.cons hw₂ hdata⟩

end Front

/-! ## Sleeping on -/

/-- `s'` is `s` with the times of the sleepers `V` lowered. -/
structure Slept (s : Scheduler) (b : Board) (elapsed : Nat) (V : List Nat) (s' : Scheduler) :
    Prop where
  shows : Shows s' b
  nodes : s'.nodes = s.nodes
  lowered : ∀ n ∈ V, s'.tcbOf n = { s.tcbOf n with sleepTime := (s.tcbOf n).sleepTime - elapsed }
  kept : ∀ t, (∀ n ∈ V, s.nodes.data n ≠ t) → s'.tcbs t = s.tcbs t

section Rest

variable {s s₁ s₂ : Scheduler} {b : Board} {n elapsed : Nat} {E U V W : List Nat}

theorem setSleepTime_self (s : Scheduler) (t k : Nat) :
    (s.setSleepTime t k).tcbs t = { s.tcbs t with sleepTime := k } := by
  simp [Scheduler.setSleepTime]

theorem setSleepTime_other (s : Scheduler) {t t' : Nat} (h : t' ≠ t) (k : Nat) :
    (s.setSleepTime t k).tcbs t' = s.tcbs t' := by
  simp [Scheduler.setSleepTime, h]

/-- The loop passes sleepers that sleep on; `prev` is the last of them then. -/
theorem Shows.passAll (h : Shows s b) {prev : Nat} (hsub : ∀ n ∈ V, n ∈ b.queue .sleep)
    (hchain : Chain s.nodes.next s.nodes.prev prev (V ++ W) 0) (hnodup : V.Nodup)
    (hexp : ∀ n ∈ V, ¬ Expired s elapsed n) (fuel p : Nat) :
    ∃ s', decreaseSleepTimeFrom elapsed (V.length + fuel) ((V ++ W).headD 0) p s =
        decreaseSleepTimeFrom elapsed fuel (W.headD 0) (V.getLastD p) s' ∧
      Slept s b elapsed V s' := by
  induction V generalizing s prev p with
  | nil =>
    refine ⟨s, ?_, h, rfl, fun _ hn => absurd hn List.not_mem_nil, fun _ _ => rfl⟩
    rw [List.length_nil, Nat.zero_add]
    rfl
  | cons n V ih =>
    rcases chain_cons.mp hchain with ⟨_, hnext, hrest⟩
    rcases List.nodup_cons.mp hnodup with ⟨hnV, hnodup'⟩
    have hn := hsub n List.mem_cons_self
    have hpos : n ≠ 0 := Nat.pos_iff_ne_zero.mp ((h.lists _).addr n hn).1
    have hdata : ∀ a ∈ V, s.nodes.data a ≠ s.nodes.data n := by
      intro a ha heq
      have hsame : a = n := h.threads (hsub a (List.mem_cons_of_mem n ha)) hn heq
      exact hnV (hsame ▸ ha)
    have hstep : ∀ a ∈ V, (s.setSleepTime (s.nodes.data n)
        ((s.tcbOf n).sleepTime - elapsed)).tcbOf a = s.tcbOf a := by
      intro a ha
      exact setSleepTime_other s (hdata a ha) _
    have hexp' : ∀ a ∈ V, ¬ Expired (s.setSleepTime (s.nodes.data n)
        ((s.tcbOf n).sleepTime - elapsed)) elapsed a := by
      intro a ha
      unfold Expired
      rw [hstep a ha]
      exact hexp a (List.mem_cons_of_mem n ha)
    rcases ih (h.setSleepTime _ _) (fun a ha => hsub a (List.mem_cons_of_mem n ha)) hrest hnodup'
      hexp' n with ⟨s₁, hloop, hs₁⟩
    refine ⟨s₁, ?_, hs₁.shows, hs₁.nodes, ?_, ?_⟩
    · have hlen : (n :: V).length + fuel = V.length + fuel + 1 := by
        rw [List.length_cons]
        omega
      have hlast : (n :: V).getLastD p = V.getLastD n := by rw [List.getLastD_cons]
      rw [hlen, hlast]
      show decreaseSleepTimeFrom elapsed (V.length + fuel + 1) n p s = _
      rw [decrease_asleep hpos (hexp n List.mem_cons_self), hnext]
      exact hloop
    · intro a ha
      rcases List.mem_cons.mp ha with rfl | ha
      · have hkept := hs₁.kept (s.nodes.data a) hdata
        unfold Scheduler.tcbOf
        rw [hs₁.nodes]
        exact hkept.trans (setSleepTime_self s _ _)
      · rw [hs₁.lowered a ha, hstep a ha]
    · intro t ht
      rw [hs₁.kept t fun a ha => ht a (List.mem_cons_of_mem n ha)]
      exact setSleepTime_other s (Ne.symm (ht n List.mem_cons_self)) _

end Rest

/-! ## A tick in order -/

section Order

variable {s s₁ s₂ : Scheduler} {b b₁ : Board} {elapsed : Nat} {E U : List Nat}

/-- Either the expired sleepers stand in front, or one of them stands right behind one that sleeps
on. -/
theorem expiredFirst_cases (s : Scheduler) (elapsed : Nat) :
    ∃ E V W, s.queued .sleep = E ++ (V ++ W) ∧ (∀ n ∈ E, Expired s elapsed n) ∧
      (∀ n ∈ V, ¬ Expired s elapsed n) ∧ (∀ n ∈ W.head?, Expired s elapsed n) ∧
      (W ≠ [] → V ≠ []) ∧ (ExpiredFirst s elapsed ↔ W = []) := by
  rcases MaximalRuns.exists_stretch (fun n => decide (Expired s elapsed n)) (s.queued .sleep) with
    ⟨E, X, hX, hE, hhead⟩
  rcases MaximalRuns.exists_stretch (fun n => decide (¬ Expired s elapsed n)) X with
    ⟨V, W, hW, hV, hlast⟩
  have hE' : ∀ n ∈ E, Expired s elapsed n := fun n hn => of_decide_eq_true (hE n hn)
  have hV' : ∀ n ∈ V, ¬ Expired s elapsed n := fun n hn => of_decide_eq_true (hV n hn)
  have hW' : ∀ n ∈ W.head?, Expired s elapsed n := by
    intro n hn
    simpa using hlast n hn
  have hne : W ≠ [] → V ≠ [] := by
    rintro hw rfl
    rcases List.exists_cons_of_ne_nil hw with ⟨w, W', rfl⟩
    rw [hW] at hhead
    have hnot := hhead w rfl
    rw [decide_eq_true (hW' w rfl)] at hnot
    cases hnot
  refine ⟨E, V, W, hX.trans (by rw [hW]), hE', hV', hW', hne, ?_⟩
  unfold ExpiredFirst
  rw [hX, hW]
  constructor
  · intro hpair
    by_contra hw
    rcases List.exists_cons_of_ne_nil (hne hw) with ⟨v, V', rfl⟩
    rcases List.exists_cons_of_ne_nil hw with ⟨w, W', rfl⟩
    have hrest := (List.pairwise_append.mp hpair).2.1
    have hvw := (List.pairwise_append.mp hrest).2.2 v List.mem_cons_self w List.mem_cons_self
    exact hV' v List.mem_cons_self (hvw (hW' w rfl))
  · rintro rfl
    rw [List.append_nil, List.pairwise_append]
    refine ⟨?_, ?_, fun n hn _ _ _ => hE' n hn⟩
    · exact List.Pairwise.imp_of_mem (fun hn _ _ _ => hE' _ hn) (List.pairwise_of_forall fun _ _ =>
        trivial)
    · exact List.Pairwise.imp_of_mem (fun _ hn _ hexp => absurd hexp (hV' _ hn))
        (List.pairwise_of_forall fun _ _ => trivial)

/-- With the front woken and the rest lowered the tick is done. -/
theorem Woken.tickWakes (h : Shows s b) (hq : b.queue .sleep = E ++ U)
    (hE : ∀ n ∈ E, Expired s elapsed n) (hU : ∀ n ∈ U, ¬ Expired s elapsed n)
    (hw : Woken s b E U s₁ b₁) (hs : Slept s₁ b₁ elapsed U s₂) :
    TickWakes s s₂ elapsed := by
  have hin : ∀ n ∈ E ++ U, n ∈ b.queue .sleep := fun n hn => hq ▸ hn
  have hexpired : (E ++ U).filter (fun n => decide (Expired s elapsed n)) = E := by
    rw [List.filter_append, List.filter_eq_self.mpr (by simpa using hE),
      List.filter_eq_nil_iff.mpr (by simpa using hU), List.append_nil]
  have hkeptE : ∀ n ∈ E, s₂.tcbOf n = s₁.tcbOf n := by
    intro n hn
    unfold Scheduler.tcbOf
    rw [hs.nodes]
    apply hs.kept
    intro a ha
    rw [hw.data]
    exact (h.sleepers_apart hq hn ha).symm
  constructor
  · intro r
    rw [hs.shows.queued]
    exact hs.shows.lists r
  · rw [hs.shows.queued, h.queued, hw.sleep, hq, List.filter_append,
      List.filter_eq_nil_iff.mpr (by simpa using hE), List.filter_eq_self.mpr (by simpa using hU)]
    rfl
  · intro i
    rw [hs.shows.queued, h.queued, h.queued, hw.ready, hq]
    congr 1
    rw [← hexpired, List.filter_filter, hexpired]
    apply List.filter_congr
    intro n hn
    have hprio : threadGetPriority (s.tcbOf n) = b.priority n := h.priority (hin n hn)
    rw [hprio]
    by_cases hi : b.priority n = i
    · simp [hi]
    · simp [hi]
  · intro r hr hr'
    rw [hs.shows.queued, h.queued]
    exact hw.other r hr hr'
  · intro n hn hexp
    have hmem : n ∈ E := by
      rw [h.queued, hq] at hn
      exact (List.mem_append.mp hn).resolve_right fun hu => hU n hu hexp
    rw [hkeptE n hmem, hw.woken n hmem]
  · intro n hn hexp
    have hmem : n ∈ U := by
      rw [h.queued, hq] at hn
      exact (List.mem_append.mp hn).resolve_left fun he => hexp (hE n he)
    have heq : s₂.tcbOf n = { s.tcbOf n with sleepTime := (s.tcbOf n).sleepTime - elapsed } := by
      rw [hs.lowered n hmem, hw.tcbOf_behind h hq hmem]
    refine ⟨?_, heq⟩
    have hstate := hs.shows.state (r := .sleep) (n := n) (by rw [hw.sleep]; exact hmem)
    exact hstate.trans (hw.sorted.fits (r := .sleep) (by rw [hw.sleep]; exact hmem))

/-- A tick with the expired sleepers in front keeps the board in order. -/
theorem Shows.tick (h : Shows s b) (hs : b.Sorted) (hfirst : ExpiredFirst s elapsed) :
    ∃ s' b', decreaseSleepTimeFrom elapsed ((s.lists .sleep).count + 1) (s.lists .sleep).head 0 s =
        .ret s' ∧ TickWakes s s' elapsed ∧ Shows s' b' ∧ (b.Ok → b'.Ok) ∧
      ∀ n, b'.On n ↔ b.On n := by
  rcases expiredFirst_cases s elapsed with ⟨E, U, W, hsplit, hE, hU, _, _, hiff⟩
  obtain rfl : W = [] := hiff.mp hfirst
  rw [List.append_nil] at hsplit
  have hq : b.queue .sleep = E ++ U := (h.queued .sleep).symm.trans hsplit
  have hlist := h.lists .sleep
  rw [hq] at hlist
  rcases h.wakeAll hs hq hE (U.length + 1) with ⟨s₁, b₁, hfront, hw⟩
  have hrest := hw.shows.lists .sleep
  rw [hw.sleep] at hrest
  have hU₁ : ∀ n ∈ U, ¬ Expired s₁ elapsed n := by
    intro n hn
    unfold Expired
    rw [hw.tcbOf_behind h hq hn]
    exact hU n hn
  have hchain : Chain s₁.nodes.next s₁.nodes.prev 0 (U ++ []) 0 := by
    rw [List.append_nil]
    exact hrest.chain
  rcases hw.shows.passAll (fun n hn => by rw [hw.sleep]; exact hn) hchain hrest.nodup hU₁ 1 0 with
    ⟨s₂, hback, hslept⟩
  rw [List.append_nil] at hback
  refine ⟨s₂, b₁, ?_, hw.tickWakes h hq hE hU hslept, hslept.shows, hw.ok, hw.on⟩
  have hlen : (s.lists .sleep).count + 1 = E.length + (U.length + 1) := by
    rw [hlist.count, List.length_append, Nat.add_assoc]
  rw [hlen, hlist.head, hfront, hback]
  rfl

end Order

/-! ## Critical sections

The loop does not look at `in_critical_section`. -/

/-- The scheduler as it is when no thread is in a critical section. -/
def Scheduler.outside (s : Scheduler) : Scheduler := { s with inCriticalSection := 0 }

section Critical

variable {s s' : Scheduler} {b : Board} {elapsed : Nat}

theorem Shows.outside (h : Shows s b) : Shows s.outside b :=
  { h with critical := rfl }

theorem removeFrontNode_outside (s : Scheduler) (r : ListRef) :
    s.outside.removeFrontNode r =
      s.removeFrontNode r >>= fun p => Outcome.ret (p.1.outside, p.2) := by
  show (dlListRemoveFrontNode s.nodes (s.lists r) >>= fun p => _) =
    (dlListRemoveFrontNode s.nodes (s.lists r) >>= fun p => _) >>= _
  cases dlListRemoveFrontNode s.nodes (s.lists r) with
  | ret p => rfl
  | panic => rfl
  | undefined => rfl
  | running => rfl

theorem decrease_outside (elapsed fuel ptr prev : Nat) (s : Scheduler) :
    decreaseSleepTimeFrom elapsed fuel ptr prev s.outside =
      decreaseSleepTimeFrom elapsed fuel ptr prev s >>= fun s' => Outcome.ret s'.outside := by
  induction fuel generalizing ptr prev s with
  | zero => rfl
  | succ fuel ih =>
    by_cases hpos : ptr = 0
    · rw [decreaseSleepTimeFrom, decreaseSleepTimeFrom, if_pos hpos, if_pos hpos]
      rfl
    by_cases hexp : Expired s elapsed ptr
    · have hexp' : Expired s.outside elapsed ptr := hexp
      rw [decrease_expired hpos hexp, decrease_expired hpos hexp']
      have htake : (if prev = 0 then s.outside.removeFrontNode .sleep
            else .ret (s.outside.removeNode .sleep prev)) =
          (if prev = 0 then s.removeFrontNode .sleep else .ret (s.removeNode .sleep prev)) >>=
            fun p => Outcome.ret (p.1.outside, p.2) := by
        by_cases hprev : prev = 0
        · rw [if_pos hprev, if_pos hprev]
          exact removeFrontNode_outside s .sleep
        · rw [if_neg hprev, if_neg hprev]
          rfl
      rw [htake]
      cases (if prev = 0 then s.removeFrontNode .sleep else .ret (s.removeNode .sleep prev)) with
      | panic => rfl
      | undefined => rfl
      | running => rfl
      | ret p =>
        simp only [Outcome.ret_bind]
        show (readyQueue (((p.1.setState (s.nodes.data ptr) .ready).setSleepTime
          (s.nodes.data ptr) 0).tcbs (s.nodes.data ptr)) >>= fun q => _) = _
        cases readyQueue (((p.1.setState (s.nodes.data ptr) .ready).setSleepTime
          (s.nodes.data ptr) 0).tcbs (s.nodes.data ptr)) with
        | ret q =>
          simp only [Outcome.ret_bind]
          exact ih (s.nodes.next ptr) prev
            (((p.1.setState (s.nodes.data ptr) .ready).setSleepTime (s.nodes.data ptr)
              0).insertBackNode q p.2)
        | panic => rfl
        | undefined => rfl
        | running => rfl
    · have hexp' : ¬ Expired s.outside elapsed ptr := hexp
      rw [decrease_asleep hpos hexp, decrease_asleep hpos hexp']
      exact ih (s.nodes.next ptr) ptr
        (s.setSleepTime (s.nodes.data ptr) ((s.tcbOf ptr).sleepTime - elapsed))

theorem tickWakes_outside : TickWakes s.outside s'.outside elapsed ↔ TickWakes s s' elapsed := by
  constructor
  · intro h
    exact ⟨h.lists, h.sleepers, h.ready, h.other, h.woken, h.asleep⟩
  · intro h
    exact ⟨h.lists, h.sleepers, h.ready, h.other, h.woken, h.asleep⟩

end Critical

end MeOS
