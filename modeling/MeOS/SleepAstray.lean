import MeOS.SleepTick

/-! # A tick with an expired sleeper behind one that sleeps on

The loop takes off the node of `prev` instead of its own, and that node is never `prev`
for the right reason again: the expired sleeper stays where it was, and from there on no
pointer the loop writes leads to it from a ready queue. `Astray` says so of the pointers;
every later turn of the loop keeps it.
-/

namespace MeOS

open Links Runs

/-! ## Pointers that miss a node -/

/-- The loop stands before `rest` with the trailing pointer `p`. Of the nodes `on` the lists only
`y` points to `e`, and the loop writes to no node of `rest`. -/
structure Stray (on : Nat → Prop) (y e p : Nat) (rest : List Nat) (m : DlNodes Nat) : Prop where
  ahead : Seg m.next (rest.headD 0) rest 0
  closed : ∀ a, on a → m.next a = 0 ∨ on (m.next a)
  missed : ∀ a, on a → a ≠ y → m.next a ≠ e
  prevs : rest.Pairwise fun a c => m.prev a ≠ c
  behind : m.prev p ∉ rest

/-- The nodes that are told apart. -/
structure Bystanders (on : Nat → Prop) (y e p : Nat) (rest : List Nat) : Prop where
  trailing : on p ∧ p ∉ rest ∧ p ≠ y ∧ p ≠ e ∧ p ≠ 0
  sub : ∀ a ∈ rest, on a
  nodup : rest.Nodup
  zero : 0 ∉ rest
  before : y ∉ rest
  lost : e ∉ rest ∧ e ≠ 0

section Pointers

variable {on : Nat → Prop} {y e p a c : Nat} {rest : List Nat} {m : DlNodes Nat} {l : DlList}

theorem Stray.setNext (h : Stray on y e p rest m) (ha : a ∉ rest) (hc : c = 0 ∨ on c)
    (hce : c ≠ e) : Stray on y e p rest (m.setNext a c) where
  ahead := h.ahead.update ha
  closed := by
    intro x hx
    show Function.update m.next a c x = 0 ∨ on (Function.update m.next a c x)
    by_cases hxa : x = a
    · rw [hxa, Function.update_self]
      exact hc
    · rw [Function.update_of_ne hxa]
      exact h.closed x hx
  missed := by
    intro x hx hxy
    show Function.update m.next a c x ≠ e
    by_cases hxa : x = a
    · rw [hxa, Function.update_self]
      exact hce
    · rw [Function.update_of_ne hxa]
      exact h.missed x hx hxy
  prevs := h.prevs
  behind := h.behind

theorem Stray.setPrev (h : Stray on y e p rest m) (hc : c ∉ rest) :
    Stray on y e p rest (m.setPrev a c) where
  ahead := h.ahead
  closed := h.closed
  missed := h.missed
  prevs := by
    apply h.prevs.imp_of_mem
    intro x z _ hz hxz
    show Function.update m.prev a c x ≠ z
    by_cases hxa : x = a
    · rw [hxa, Function.update_self]
      exact fun heq => hc (heq ▸ hz)
    · rw [Function.update_of_ne hxa]
      exact hxz
  behind := by
    show Function.update m.prev a c p ∉ rest
    by_cases hpa : p = a
    · rw [← hpa, Function.update_self]
      exact hc
    · rw [Function.update_of_ne hpa]
      exact h.behind

theorem Stray.clear (h : Stray on y e p rest m) (hb : Bystanders on y e p rest) :
    Stray on y e p rest (m.clear p) :=
  (h.setPrev hb.zero).setNext hb.trailing.2.1 (Or.inl rfl) (Ne.symm hb.lost.2)

/-- `dl_list_remove_node` of the trailing pointer, whatever the list is. -/
theorem Stray.removeNode (h : Stray on y e p rest m) (hb : Bystanders on y e p rest) :
    Stray on y e p rest (dlListRemoveNode m l p).1 ∧
      ((dlListRemoveNode m l p).2.2 = p ∨ (dlListRemoveNode m l p).2.2 = 0) := by
  rcases hb.trailing with ⟨hon, _, hpy, _, _⟩
  have hnext := h.closed p hon
  have hmiss := h.missed p hon hpy
  have hbehind := h.behind
  unfold dlListRemoveNode
  split_ifs
  · exact ⟨h, Or.inr rfl⟩
  · exact ⟨h.clear hb, Or.inl rfl⟩
  · exact ⟨(h.setPrev hb.zero).clear hb, Or.inl rfl⟩
  · exact ⟨(h.setNext hbehind (Or.inl rfl) (Ne.symm hb.lost.2)).clear hb, Or.inl rfl⟩
  · exact ⟨((h.setNext hbehind hnext hmiss).setPrev hbehind).clear hb, Or.inl rfl⟩

/-- `dl_list_insert_back_node` of the trailing pointer or of a null pointer. -/
theorem Stray.insertBackNode (h : Stray on y e p rest m) (hb : Bystanders on y e p rest)
    (ha : a = p ∨ a = 0) (htail : l.tail ∉ rest) :
    Stray on y e p rest (dlListInsertBackNode m l a).1 ∧
      ((dlListInsertBackNode m l a).2.head = a ∨
        (dlListInsertBackNode m l a).2.head = l.head) ∧
      (dlListInsertBackNode m l a).2.tail = a := by
  rcases hb.trailing with ⟨hon, hpr, _, hpe, _⟩
  have hout : a ∉ rest := by
    rcases ha with rfl | rfl
    · exact hpr
    · exact hb.zero
  have hzero : a = 0 ∨ on a := by
    rcases ha with rfl | rfl
    · exact Or.inr hon
    · exact Or.inl rfl
  have hne : a ≠ e := by
    rcases ha with rfl | rfl
    · exact hpe
    · exact Ne.symm hb.lost.2
  have hnull := h.setNext hout (Or.inl rfl) (Ne.symm hb.lost.2)
  unfold dlListInsertBackNode
  dsimp only
  split_ifs
  · exact ⟨hnull.setPrev hb.zero, Or.inl rfl, rfl⟩
  · exact ⟨(hnull.setNext htail hzero hne).setPrev htail, Or.inr rfl, rfl⟩

/-- Nobody who follows `next` from elsewhere, past every node but `y`, comes to `e`. -/
theorem Stray.walk_misses (h : Stray on y e p rest m) {k : Nat} (hon : a = 0 ∨ on a) (hae : a ≠ e)
    (hzero : 0 ∉ walk m.next k a) (hy : y ∉ walk m.next k a) : e ∉ walk m.next k a := by
  induction k generalizing a with
  | zero => exact List.not_mem_nil
  | succ k ih =>
    change 0 ∉ a :: walk m.next k (m.next a) at hzero
    change y ∉ a :: walk m.next k (m.next a) at hy
    rw [List.mem_cons, not_or] at hzero hy
    have hona : on a := hon.resolve_left (Ne.symm hzero.1)
    show e ∉ a :: walk m.next k (m.next a)
    rw [List.mem_cons, not_or]
    refine ⟨Ne.symm hae, ?_⟩
    exact ih (h.closed a hona) (h.missed a hona (Ne.symm hy.1)) hzero.2 hy.2

end Pointers

/-! ## The turns of the loop -/

/-- No ready queue leads to `e`, whatever else has become of the lists. -/
structure Astray (on : Nat → Prop) (y e p : Nat) (rest : List Nat) (s : Scheduler) : Prop where
  stray : Stray on y e p rest s.nodes
  head : ∀ i, (s.lists (.ready i)).head ≠ e ∧
    ((s.lists (.ready i)).head = 0 ∨ on (s.lists (.ready i)).head)
  tail : ∀ i, (s.lists (.ready i)).tail ∉ rest

section Turns

variable {on : Nat → Prop} {y e p w elapsed : Nat} {rest : List Nat} {s s' : Scheduler}

/-- The trailing pointer moves on. -/
theorem Astray.advance (h : Astray on y e p (w :: rest) s) (hb : Bystanders on y e p (w :: rest)) :
    Astray on y e w rest s ∧ Bystanders on y e w rest := by
  have hw : w ∈ w :: rest := List.mem_cons_self
  have hlater : ∀ {a}, a ∈ rest → a ∈ w :: rest := fun ha => List.mem_cons_of_mem w ha
  rcases List.pairwise_cons.mp h.stray.prevs with ⟨hprev, hprevs⟩
  rcases List.nodup_cons.mp hb.nodup with ⟨hout, hnodup⟩
  constructor
  · refine ⟨⟨?_, h.stray.closed, h.stray.missed, hprevs, ?_⟩, h.head, ?_⟩
    · have hseg := h.stray.ahead.2
      rw [← hseg.head]
      exact hseg
    · exact fun hmem => hprev _ hmem rfl
    · exact fun i hmem => h.tail i (hlater hmem)
  · refine ⟨⟨hb.sub w hw, hout, ?_, ?_, ?_⟩, fun a ha => hb.sub a (hlater ha), hnodup,
      fun hmem => hb.zero (hlater hmem), fun hmem => hb.before (hlater hmem),
      fun hmem => hb.lost.1 (hlater hmem), hb.lost.2⟩
    · exact fun heq => hb.before (heq ▸ hw)
    · exact fun heq => hb.lost.1 (heq ▸ hw)
    · exact fun heq => hb.zero (heq ▸ hw)

/-- The trailing pointer stays. -/
theorem Astray.skip (h : Astray on y e p (w :: rest) s) (hb : Bystanders on y e p (w :: rest)) :
    Astray on y e p rest s ∧ Bystanders on y e p rest := by
  have hlater : ∀ {a}, a ∈ rest → a ∈ w :: rest := fun ha => List.mem_cons_of_mem w ha
  rcases hb.trailing with ⟨hon, hout, hpy, hpe, hp⟩
  constructor
  · refine ⟨⟨?_, h.stray.closed, h.stray.missed, h.stray.prevs.tail, ?_⟩, h.head, ?_⟩
    · have hseg := h.stray.ahead.2
      rw [← hseg.head]
      exact hseg
    · exact fun hmem => h.stray.behind (hlater hmem)
    · exact fun i hmem => h.tail i (hlater hmem)
  · exact ⟨⟨hon, fun hmem => hout (hlater hmem), hpy, hpe, hp⟩, fun a ha => hb.sub a (hlater ha),
      hb.nodup.tail, fun hmem => hb.zero (hlater hmem), fun hmem => hb.before (hlater hmem),
      fun hmem => hb.lost.1 (hlater hmem), hb.lost.2⟩

/-- The trailing pointer is taken off the sleep queue. -/
theorem Astray.removeNode (h : Astray on y e p rest s) (hb : Bystanders on y e p rest) :
    Astray on y e p rest (s.removeNode .sleep p).1 ∧
      ((s.removeNode .sleep p).2 = p ∨ (s.removeNode .sleep p).2 = 0) := by
  rcases h.stray.removeNode (l := s.lists .sleep) hb with ⟨hrem, hnode⟩
  have hlist : ∀ i, (s.removeNode .sleep p).1.lists (.ready i) = s.lists (.ready i) := by
    intro i
    have hne : ListRef.ready i ≠ .sleep := by simp
    exact Function.update_of_ne hne (dlListRemoveNode s.nodes (s.lists .sleep) p).2.1 s.lists
  refine ⟨⟨hrem, ?_, ?_⟩, hnode⟩
  · intro i
    rw [hlist]
    exact h.head i
  · intro i
    rw [hlist]
    exact h.tail i

/-- The trailing pointer, or a null pointer, is put into a ready queue. -/
theorem Astray.insertBackNode {a : Nat} (h : Astray on y e p rest s)
    (hb : Bystanders on y e p rest) (ha : a = p ∨ a = 0) (i : Nat) :
    Astray on y e p rest (s.insertBackNode (.ready i) a) := by
  rcases h.stray.insertBackNode hb ha (h.tail i) with ⟨hins, hhead, hlast⟩
  rcases hb.trailing with ⟨hon, hout, _, hpe, _⟩
  have hnew : a ≠ e ∧ (a = 0 ∨ on a) ∧ a ∉ rest := by
    rcases ha with rfl | rfl
    · exact ⟨hpe, Or.inr hon, hout⟩
    · exact ⟨Ne.symm hb.lost.2, Or.inl rfl, hb.zero⟩
  have hself : (s.insertBackNode (.ready i) a).lists (.ready i) =
      (dlListInsertBackNode s.nodes (s.lists (.ready i)) a).2 := Function.update_self _ _ _
  have hother : ∀ j, j ≠ i →
      (s.insertBackNode (.ready i) a).lists (.ready j) = s.lists (.ready j) := by
    intro j hj
    have hne : ListRef.ready j ≠ .ready i := by simpa using hj
    exact Function.update_of_ne hne _ _
  refine ⟨hins, ?_, ?_⟩
  · intro j
    by_cases hj : j = i
    · rw [hj, hself]
      rcases hhead with heq | heq
      · rw [heq]
        exact ⟨hnew.1, hnew.2.1⟩
      · rw [heq]
        exact h.head i
    · rw [hother j hj]
      exact h.head j
  · intro j
    by_cases hj : j = i
    · rw [hj, hself, hlast]
      exact hnew.2.2
    · rw [hother j hj]
      exact h.tail j

/-- The rest of the loop does not bring `e` back. -/
theorem Astray.loop {fuel : Nat} (h : Astray on y e p rest s) (hb : Bystanders on y e p rest)
    (hret : decreaseSleepTimeFrom elapsed fuel (rest.headD 0) p s = .ret s') :
    ∃ p', Astray on y e p' [] s' := by
  induction fuel generalizing p rest s with
  | zero => cases hret
  | succ fuel ih =>
    cases rest with
    | nil =>
      obtain rfl : s = s' := by
        rw [decreaseSleepTimeFrom] at hret
        exact Outcome.ret.inj hret
      exact ⟨p, h⟩
    | cons w rest =>
      have hpos : w ≠ 0 := fun heq => hb.zero (heq ▸ List.mem_cons_self)
      have hnext : s.nodes.next w = rest.headD 0 := h.stray.ahead.2.head
      change decreaseSleepTimeFrom elapsed (fuel + 1) w p s = .ret s' at hret
      by_cases hexp : Expired s elapsed w
      · rw [decrease_expired hpos hexp, if_neg hb.trailing.2.2.2.2, Outcome.ret_bind] at hret
        rcases h.skip hb with ⟨h', hb'⟩
        rcases h'.removeNode hb' with ⟨hrem, hnode⟩
        generalize s.removeNode .sleep p = result at hret hrem hnode
        rcases Outcome.bind_eq_ret.mp hret with ⟨q, hq, hloop⟩
        obtain ⟨i, rfl⟩ : ∃ i, q = .ready i := by
          unfold readyQueue at hq
          split_ifs at hq
          exact ⟨_, (Outcome.ret.inj hq).symm⟩
        rw [hnext] at hloop
        have hmoved := hrem.insertBackNode hb' hnode i
        refine ih ?_ hb' hloop
        exact ⟨hmoved.stray, hmoved.head, hmoved.tail⟩
      · rw [decrease_asleep hpos hexp, hnext] at hret
        rcases h.advance hb with ⟨h', hb'⟩
        refine ih ?_ hb' hret
        exact ⟨h'.stray, h'.head, h'.tail⟩

end Turns

/-! ## The first wrong turn -/

section Wrong

variable {s s' : Scheduler} {b : Board} {elapsed : Nat} {F X : List Nat} {e p u : Nat}

/-- After the first wrong turn the lists are still lists, with the wrong node in a ready queue:
nothing of them leads to `e`. -/
theorem Lists.astray {q : Nat → List Nat} (hsleep : Lists s.nodes (s.lists .sleep) (F ++ e :: X))
    (hready : ∀ i, Lists s.nodes (s.lists (.ready i)) (q i))
    (hapart : ∀ i, ∀ a ∈ q i, a ∉ F ++ e :: X) (hu : u ∈ q p) :
    Astray (fun a => a ∈ F ++ e :: X ∨ ∃ i, a ∈ q i) (F.getLastD 0) e u X s ∧
      Bystanders (fun a => a ∈ F ++ e :: X ∨ ∃ i, a ∈ q i) (F.getLastD 0) e u X := by
  have hin : ∀ {a}, a ∈ X → a ∈ F ++ e :: X := by
    intro a ha
    exact List.mem_append_right F (List.mem_cons_of_mem e ha)
  have he : e ∈ F ++ e :: X := List.mem_append_right F List.mem_cons_self
  have hzero : ∀ {a}, a ∈ F ++ e :: X → a ≠ 0 := by
    intro a ha
    exact Nat.pos_iff_ne_zero.mp (hsleep.addr a ha).1
  rcases List.nodup_append.mp hsleep.nodup with ⟨_, heX, hFX⟩
  have hchain := (chain_cons.mp (chain_append.mp hsleep.chain).2).2
  have hlast : F.getLastD 0 = 0 ∨ F.getLastD 0 ∈ F := by
    cases F using List.reverseRecOn with
    | nil => exact Or.inl rfl
    | append_singleton F f _ => exact Or.inr (by simp)
  have hbefore : F.getLastD 0 ∉ X := by
    intro hmem
    rcases hlast with hz | hF
    · exact hzero (hin hmem) hz
    · exact hFX _ hF _ (List.mem_cons_of_mem e hmem) rfl
  constructor
  · refine ⟨⟨hchain.2.seg, ?_, ?_, ?_, ?_⟩, ?_, ?_⟩
    · rintro a (ha | ⟨i, ha⟩)
      · exact (hsleep.neighbours ha).2.imp id Or.inl
      · exact ((hready i).neighbours ha).2.imp id fun hmem => Or.inr ⟨i, hmem⟩
    · rintro a (ha | ⟨i, ha⟩) hay hnext
      · exact hay (hsleep.chain.eq_before ha hnext (hzero he))
      · rcases ((hready i).neighbours ha).2 with hz | hmem
        · exact hzero he (hnext.symm.trans hz)
        · exact hapart i _ hmem (hnext ▸ he)
    · exact hchain.2.pairwise_prev heX
    · intro hmem
      rcases ((hready p).neighbours hu).1 with hz | hq
      · exact hzero (hin hmem) hz
      · exact hapart p _ hq (hin hmem)
    · intro i
      have hhead := (hready i).head
      cases hqi : q i with
      | nil =>
        rw [hqi] at hhead
        exact ⟨fun heq => hzero he (heq.symm.trans hhead), Or.inl hhead⟩
      | cons c v =>
        rw [hqi] at hhead
        have hc : c ∈ q i := by
          rw [hqi]
          exact List.mem_cons_self
        have hhead' : (s.lists (.ready i)).head = c := hhead
        rw [hhead']
        exact ⟨fun heq => hapart i c hc (heq ▸ he), Or.inr (Or.inr ⟨i, hc⟩)⟩
    · intro i hmem
      rcases (hready i).tail_mem with hz | hq
      · exact hzero (hin hmem) hz
      · exact hapart i _ hq (hin hmem)
  · have huF := hapart p u hu
    refine ⟨⟨Or.inr ⟨p, hu⟩, fun hmem => huF (hin hmem), ?_, fun heq => huF (heq ▸ he), ?_⟩,
      fun a ha => Or.inl (hin ha), (List.nodup_cons.mp heX).2, ?_, hbefore,
      (List.nodup_cons.mp heX).1, hzero he⟩
    · intro heq
      have hpos := ((hready p).addr u hu).1
      rcases hlast with hz | hF
      · omega
      · exact huF (heq ▸ List.mem_append_left _ hF)
    · exact Nat.pos_iff_ne_zero.mp ((hready p).addr u hu).1
    · exact fun hmem => hzero (hin hmem) rfl

/-- The turn of the loop at an expired sleeper behind one that sleeps on, and all that follow:
no ready queue has the expired sleeper then. -/
theorem Shows.wrong_turn (h : Shows s b) (hs : b.Sorted)
    (hq : b.queue .sleep = F ++ u :: e :: X) (hexp : Expired s elapsed e) {fuel : Nat}
    (hret : decreaseSleepTimeFrom elapsed (fuel + 1) e u s = .ret s') (i : Nat)
    (hzero : 0 ∉ s'.queued (.ready i)) (hF : ∀ a ∈ F, a ∉ s'.queued (.ready i)) :
    e ∉ s'.queued (.ready i) := by
  have hu : u ∈ b.queue .sleep := by
    rw [hq]
    simp
  have he : e ∈ b.queue .sleep := by
    rw [hq]
    simp
  have hlist := h.lists .sleep
  rw [hq] at hlist
  have hupos : u ≠ 0 := Nat.pos_iff_ne_zero.mp (hlist.addr u (by simp)).1
  have hepos : e ≠ 0 := Nat.pos_iff_ne_zero.mp (hlist.addr e (by simp)).1
  have hnext : s.nodes.next e = X.headD 0 := by
    have hchain := (chain_append.mp hlist.chain).2
    exact (chain_cons.mp (chain_cons.mp hchain).2.2).2.1
  have hne : ListRef.sleep ≠ .ready (b.priority e) := by simp
  have hmoved := (h.relocate hs hne hu).1
  rw [decrease_expired hepos hexp, if_neg hupos, Outcome.ret_bind] at hret
  dsimp only at hret
  have htcbs : (s.removeNode .sleep u).1.tcbs = s.tcbs := rfl
  rw [h.readyQueue_woken hs he htcbs, Outcome.ret_bind, (h.removed hu).1, hnext] at hret
  -- what the turn makes of the queues
  have hsleep : (b.move u .sleep (.ready (b.priority e)) (b.state u)).queue .sleep =
      F ++ e :: X := by
    have huF : u ∉ F := by
      intro hmem
      exact List.disjoint_of_nodup_append hlist.nodup hmem List.mem_cons_self
    rw [Board.move_queue_from hne, hq, List.erase_append_right _ huF, List.erase_cons_head]
  have hL := hmoved.lists .sleep
  rw [hsleep] at hL
  have hready : u ∈ (b.move u .sleep (.ready (b.priority e)) (b.state u)).queue
      (.ready (b.priority e)) := by
    rw [Board.move_queue_to]
    simp
  have hapart : ∀ j, ∀ a ∈ (b.move u .sleep (.ready (b.priority e)) (b.state u)).queue (.ready j),
      a ∉ F ++ e :: X := by
    intro j a ha hmem
    rw [← hsleep, Board.mem_move hne hs hu] at hmem
    rw [Board.mem_move hne hs hu] at ha
    by_cases hau : a = u
    · rw [if_pos hau] at hmem
      cases hmem
    · rw [if_neg hau] at ha hmem
      cases hs.apart ha hmem
  rcases Lists.astray hL (fun j => hmoved.lists (.ready j)) hapart hready with ⟨hastray, hby⟩
  have hstart : Astray _ (F.getLastD 0) e u X ((((s.removeNode .sleep u).1.setState
      (s.nodes.data e) .ready).setSleepTime (s.nodes.data e) 0).insertBackNode
        (.ready (b.priority e)) u) := ⟨hastray.stray, hastray.head, hastray.tail⟩
  rcases hstart.loop hby hret with ⟨p', hend⟩
  apply hend.stray.walk_misses (hend.head i).2 (hend.head i).1 hzero
  cases F using List.reverseRecOn with
  | nil => exact hzero
  | append_singleton F f _ =>
    rw [List.getLastD_concat]
    exact hF f (by simp)

/-- The loop has come to the expired sleeper `e`; before it stand `F` and `u`, who sleep on. -/
structure AtWrongTurn (s : Scheduler) (b : Board) (elapsed : Nat) (F : List Nat) (u e : Nat)
    (s' : Scheduler) (b' : Board) : Prop where
  shows : Shows s' b'
  sorted : b'.Sorted
  queue : ∃ X, b'.queue .sleep = F ++ u :: e :: X
  expired : Expired s' elapsed e
  sleeper : e ∈ b.queue .sleep ∧ Expired s elapsed e
  before : ∀ a ∈ F, a ∈ b.queue .sleep ∧ ¬ Expired s elapsed a

/-- Unless the expired sleepers stand in front, the loop comes to such a turn. -/
theorem Shows.at_wrong_turn (h : Shows s b) (hs : b.Sorted) (hnot : ¬ ExpiredFirst s elapsed)
    (hret : decreaseSleepTimeFrom elapsed ((s.lists .sleep).count + 1) (s.lists .sleep).head 0 s =
      .ret s') : ∃ F u e t b' fuel, AtWrongTurn s b elapsed F u e t b' ∧
        decreaseSleepTimeFrom elapsed (fuel + 1) e u t = .ret s' := by
  rcases expiredFirst_cases s elapsed with ⟨E, V, W, hsplit, hE, hV, hW, hne, hiff⟩
  have hWne : W ≠ [] := fun hw => hnot (hiff.mpr hw)
  rcases List.exists_cons_of_ne_nil hWne with ⟨e, X, rfl⟩
  rcases List.eq_nil_or_concat V with rfl | ⟨F, u, rfl⟩
  · exact absurd rfl (hne hWne)
  rw [List.concat_eq_append] at hsplit hV
  have hexp : Expired s elapsed e := hW e rfl
  have hq : b.queue .sleep = E ++ ((F ++ [u]) ++ e :: X) := (h.queued .sleep).symm.trans hsplit
  have hin : ∀ a ∈ (F ++ [u]) ++ e :: X, a ∈ b.queue .sleep := by
    intro a ha
    rw [hq]
    exact List.mem_append_right E ha
  have he : e ∈ (F ++ [u]) ++ e :: X := List.mem_append_right _ List.mem_cons_self
  have hlist := h.lists .sleep
  rw [hq] at hlist
  -- the sleepers in front are woken, and those up to `u` sleep on
  rcases h.wakeAll hs hq hE ((F ++ [u]).length + (X.length + 1 + 1)) with ⟨s₁, b₁, hfront, hw⟩
  have hrest := hw.shows.lists .sleep
  rw [hw.sleep] at hrest
  have hV₁ : ∀ n ∈ F ++ [u], ¬ Expired s₁ elapsed n := by
    intro n hn
    unfold Expired
    rw [hw.tcbOf_behind h hq (List.mem_append_left _ hn)]
    exact hV n hn
  have hsub : ∀ n ∈ F ++ [u], n ∈ b₁.queue .sleep := by
    intro n hn
    rw [hw.sleep]
    exact List.mem_append_left _ hn
  rcases hw.shows.passAll hsub hrest.chain (List.nodup_append.mp hrest.nodup).1 hV₁
    (X.length + 1 + 1) 0 with ⟨s₂, hpass, hslept⟩
  have hexp₂ : Expired s₂ elapsed e := by
    have hsame : s₂.tcbOf e = s₁.tcbOf e := by
      unfold Scheduler.tcbOf
      rw [hslept.nodes]
      exact hslept.kept _ fun n hn => hw.shows.sleepers_apart hw.sleep hn List.mem_cons_self
    unfold Expired
    rw [hsame, hw.tcbOf_behind h hq he]
    exact hexp
  have hlen : (s.lists .sleep).count + 1 =
      E.length + ((F ++ [u]).length + (X.length + 1 + 1)) := by
    rw [hlist.count]
    simp only [List.length_append, List.length_cons]
    omega
  rw [hlen, hlist.head, hfront, hpass, List.getLastD_concat] at hret
  refine ⟨F, u, e, s₂, b₁, _, ⟨hslept.shows, hw.sorted, ⟨X, ?_⟩, hexp₂, ⟨hin e he, hexp⟩, ?_⟩, hret⟩
  · rw [hw.sleep]
    simp
  · intro a ha
    have hmem : a ∈ F ++ [u] := List.mem_append_left _ ha
    exact ⟨hin a (List.mem_append_left _ hmem), hV a hmem⟩

/-- With an expired sleeper behind one that sleeps on the tick does not do what it is for. -/
theorem Shows.tick_wrong (h : Shows s b) (hs : b.Sorted) (hnot : ¬ ExpiredFirst s elapsed)
    (hret : decreaseSleepTimeFrom elapsed ((s.lists .sleep).count + 1) (s.lists .sleep).head 0 s =
      .ret s') : ¬ TickWakes s s' elapsed := by
  intro hwakes
  rcases h.at_wrong_turn hs hnot hret with ⟨F, u, e, t, b', fuel, hat, hloop⟩
  obtain ⟨X, hq⟩ := hat.queue
  obtain ⟨he, hexp⟩ := hat.sleeper
  -- what the tick is for puts `e` into its ready queue, with none of `F`
  have hqueue := hwakes.ready (b.priority e)
  have hprio : threadGetPriority (s.tcbOf e) = b.priority e := h.priority he
  have hmem : e ∈ s'.queued (.ready (b.priority e)) := by
    rw [hqueue, List.mem_append, List.mem_filter, h.queued .sleep]
    exact Or.inr ⟨he, by simpa using ⟨hexp, hprio⟩⟩
  have hcase : ∀ {a}, a ∈ s'.queued (.ready (b.priority e)) →
      a ∈ b.queue (.ready (b.priority e)) ∨ a ∈ b.queue .sleep ∧ Expired s elapsed a := by
    intro a ha
    rw [hqueue, List.mem_append, List.mem_filter, h.queued, h.queued] at ha
    rcases ha with ha | ⟨ha, hp⟩
    · exact Or.inl ha
    · exact Or.inr ⟨ha, (of_decide_eq_true hp).1⟩
  refine hat.shows.wrong_turn hat.sorted hq hat.expired hloop (b.priority e) ?_ ?_ hmem
  · intro hz
    rcases hcase hz with hz | ⟨hz, _⟩
    · exact (h.lists _).zero_notMem hz
    · exact (h.lists _).zero_notMem hz
  · intro a ha hbad
    obtain ⟨hsleep, hon⟩ := hat.before a ha
    rcases hcase hbad with hr | ⟨_, hx⟩
    · cases hs.apart hr hsleep
    · exact hon hx

/-- A tick wakes the expired sleepers, and only them, exactly when they stand in front of the
others. -/
theorem decreaseSleepTime_iff {frequency : Nat} (h : Shows s.outside b) (hs : b.Sorted)
    (hfrequency : 0 < frequency) :
    (∃ s', schedulerDecreaseSleepTime s frequency = .ret s' ∧
        TickWakes s s' (1000 / frequency)) ↔ ExpiredFirst s (1000 / frequency) := by
  have houtside := decrease_outside (1000 / frequency) ((s.lists .sleep).count + 1)
    (s.lists .sleep).head 0 s
  unfold schedulerDecreaseSleepTime
  rw [if_neg (by omega)]
  constructor
  · rintro ⟨s', hret, hwakes⟩
    by_contra hnot
    dsimp only at hret
    rw [hret, Outcome.ret_bind] at houtside
    exact h.tick_wrong hs hnot houtside (tickWakes_outside.mpr hwakes)
  · intro hfirst
    rcases h.tick hs hfirst with ⟨s', _, hret, hwakes, _⟩
    have hret' := houtside.symm.trans hret
    rcases Outcome.bind_eq_ret.mp hret' with ⟨s'', hloop, hsame⟩
    obtain rfl := Outcome.ret.inj hsame
    exact ⟨s'', hloop, tickWakes_outside.mp hwakes⟩

end Wrong

/-! ## Two sleepers -/

/-- Three threads of one priority; the first sleeps and the second runs. -/
def sleepingOne (ms : Nat) : Outcome Scheduler := do
  let s ← threadInsert emptyScheduler 16 1
  let s ← threadInsert s 32 2
  let s ← threadInsert s 48 3
  let s ← schedulerStart s
  threadSleep s 16 ms

/-- The second sleeps, too, and the third runs. -/
def sleepingPair (ms₁ ms₂ : Nat) : Outcome Scheduler := do
  let s ← sleepingOne ms₁
  threadSleep s 32 ms₂

/-- That is a run. -/
theorem sleepingPair_reachable {ms₁ ms₂ : Nat} {s : Scheduler}
    (hcurrent : ∀ s, sleepingOne ms₁ = .ret s → s.nodes.data 32 = s.currentThread)
    (h : sleepingPair ms₁ ms₂ = .ret s) : schedSystem.Reachable ⟨s, [48, 32, 16]⟩ := by
  rcases Outcome.bind_eq_ret.mp h with ⟨s₅, hone, h₆⟩
  have hrun := hcurrent s₅ hone
  rcases Outcome.bind_eq_ret.mp hone with ⟨s₁, h₁, h⟩
  rcases Outcome.bind_eq_ret.mp h with ⟨s₂, h₂, h⟩
  rcases Outcome.bind_eq_ret.mp h with ⟨s₃, h₃, h⟩
  rcases Outcome.bind_eq_ret.mp h with ⟨s₄, h₄, h₅⟩
  have hboot₁ : Booted s₁ [16] := by
    apply (Booted.init _ _ _).insert _ h₁
    exact ⟨⟨by simp, by simp, by simp⟩, by simp, by decide, by decide⟩
  have hboot₂ : Booted s₂ [32, 16] := by
    apply hboot₁.insert _ h₂
    cases h₁
    exact ⟨⟨by simp, by simp, by simp⟩, by decide, by decide, by decide⟩
  have hboot₃ : Booted s₃ [48, 32, 16] := by
    apply hboot₂.insert _ h₃
    cases h₁
    cases h₂
    exact ⟨⟨by simp, by simp, by simp⟩, by decide, by decide, by decide⟩
  have hstart : schedSystem.Reachable ⟨s₄, [48, 32, 16]⟩ := System.Reachable.init ⟨s₃, hboot₃, h₄⟩
  have hfirst : schedSystem.Reachable ⟨s₅, [48, 32, 16]⟩ := by
    refine hstart.next ⟨.threadSleep 16 ms₁, ⟨by simp, Or.inr ?_⟩, h₅, rfl⟩
    cases h₁
    cases h₂
    cases h₃
    cases h₄
    rfl
  exact hfirst.next ⟨.threadSleep 32 ms₂, ⟨by simp, Or.inr hrun⟩, h₆, rfl⟩

/-- The sleeper of 5 ms went to sleep first; a tick of 10 ms wakes it and nobody else. -/
theorem decreaseSleepTime_iff_first : ∃ s, sleepingPair 5 100 = .ret s ∧
    ∃ s', schedulerDecreaseSleepTime s 100 = .ret s' ∧ TickWakes s s' 10 := by
  obtain ⟨s, hs, hfirst⟩ := Outcome.exists_of_test (x := sleepingPair 5 100)
    (p := fun s => decide (ExpiredFirst s 10)) (by decide +kernel)
  have hcurrent : ∀ s, sleepingOne 5 = .ret s → s.nodes.data 32 = s.currentThread := by
    intro s hs
    cases hs
    rfl
  rcases schedSystem_kept.holds (sleepingPair_reachable hcurrent hs) with ⟨b, hshows, hok, _⟩
  exact ⟨s, hs, (decreaseSleepTime_iff hshows.outside hok.toSorted (by decide)).mpr
    (of_decide_eq_true hfirst)⟩

/-- The sleeper of 5 ms went to sleep second: the tick wakes the other one instead. -/
theorem decreaseSleepTime_wakes_other : ∃ s s', sleepingPair 100 5 = .ret s ∧
    (∃ b, Shows s b ∧ b.Sorted) ∧ schedulerDecreaseSleepTime s 100 = .ret s' ∧
    s'.queued .sleep = [32] ∧ (s'.tcbOf 32).state = .ready ∧
    s'.queued (.ready 3) = [48, 16] ∧ (s'.tcbOf 16).state = .sleep ∧
    ¬ ∀ (s : Scheduler) (b : Board), Shows s.outside b → b.Sorted → ∀ frequency, 1 ≤ frequency →
      frequency ≤ 1000 → ∃ s', schedulerDecreaseSleepTime s frequency = .ret s' ∧
        TickWakes s s' (1000 / frequency) := by
  obtain ⟨s, hs, htest⟩ := Outcome.exists_of_test (x := sleepingPair 100 5)
    (p := fun s => decide ((s.queued .sleep).filter (fun n => ¬ Expired s 10 n) = [16]) &&
      (schedulerDecreaseSleepTime s 100).test fun s' =>
        decide (s'.queued .sleep = [32] ∧ (s'.tcbOf 32).state = .ready ∧
          s'.queued (.ready 3) = [48, 16] ∧ (s'.tcbOf 16).state = .sleep)) (by decide +kernel)
  rw [Bool.and_eq_true, decide_eq_true_eq] at htest
  obtain ⟨s', hs', hqueues⟩ := Outcome.exists_of_test htest.2
  obtain ⟨hsleep, hstate, hready, hstate'⟩ := of_decide_eq_true hqueues
  have hcurrent : ∀ s, sleepingOne 100 = .ret s → s.nodes.data 32 = s.currentThread := by
    intro s hs
    cases hs
    rfl
  rcases schedSystem_kept.holds (sleepingPair_reachable hcurrent hs) with ⟨b, hshows, hok, _⟩
  refine ⟨s, s', hs, ⟨b, hshows, hok.toSorted⟩, hs', hsleep, hstate, hready, hstate', ?_⟩
  intro hall
  rcases hall s b hshows.outside hok.toSorted 100 (by decide) (by decide) with ⟨s'', hret, hwakes⟩
  obtain rfl : s' = s'' := Outcome.ret.inj (hs'.symm.trans hret)
  have hbad := hwakes.sleepers
  rw [hsleep, show 1000 / 100 = 10 from rfl, htest.1] at hbad
  cases hbad

end MeOS
