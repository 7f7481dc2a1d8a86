import MeOS.SchedRuns

/-! # `thread_notify` and the two ways to block

A thread is blocked by `thread_block`, in the block queue, or by
`semaphore_wait`, in the queue of the semaphore; its state is `THREAD_BLOCK`
either way. `thread_notify` takes any such thread for a node of the block queue.
For a thread that waits for a semaphore the removal works on the wrong list:
with threads in the block queue it drops the last of them, and with none it
gives a null node, which is put into a ready queue.
-/

namespace MeOS

open Links Runs

/-- After `thread_notify` of `n` all lists are consistent, every other thread is
where it was, and `n` is on one list, which matches its state. -/
structure NotifyKeeps (s : Scheduler) (threads : List Nat) (n : Nat) (s' : Scheduler) : Prop where
  consistent : ∀ r, ∃ xs, Lists s'.nodes (s'.lists r) xs
  others : ∀ a ∈ threads, a ≠ n → ∀ r, a ∈ s'.queued r ↔ a ∈ s.queued r
  place : ∃! r, n ∈ s'.queued r
  inPlace : ∀ r, n ∈ s'.queued r → InPlace (s'.tcbOf n) r

/-! ## Lists next to the one that changes -/

section Lists

variable {s : Scheduler} {r q : ListRef} {n t : Nat} {st : ThreadState}

theorem insertBackNode_lists_self :
    (s.insertBackNode r n).lists r = (dlListInsertBackNode s.nodes (s.lists r) n).2 :=
  Function.update_self r _ _

theorem insertBackNode_lists_other (hq : q ≠ r) : (s.insertBackNode r n).lists q = s.lists q :=
  Function.update_of_ne hq _ _

theorem removeNode_lists_self :
    (s.removeNode r n).1.lists r = (dlListRemoveNode s.nodes (s.lists r) n).2.1 :=
  Function.update_self r _ _

theorem removeNode_lists_other (hq : q ≠ r) : (s.removeNode r n).1.lists q = s.lists q :=
  Function.update_of_ne hq _ _

/-- Moving a node writes the node, its neighbours and the tail of the queue it goes
to, whatever list it is taken from. -/
theorem relocate_kept (hq : q ≠ r) :
    NodesKept s.nodes (((s.removeNode r n).1.setState t st).insertBackNode q n).nodes
      ([n, s.nodes.prev n, s.nodes.next n] ++ [n, (s.lists q).tail]) := by
  have hinsert := insertBackNode_kept (dlListRemoveNode s.nodes (s.lists r) n).1
    ((s.removeNode r n).1.lists q) n
  have hboth := (removeNode_kept s.nodes (s.lists r) n).trans hinsert
  rw [removeNode_lists_other hq] at hboth
  show NodesKept s.nodes (dlListInsertBackNode (dlListRemoveNode s.nodes (s.lists r) n).1
    ((s.removeNode r n).1.lists q) n).1 _
  rw [removeNode_lists_other hq]
  exact hboth

end Lists

/-! ## Notifying a blocked thread -/

section Notify

variable {s s' : Scheduler} {b : Board} {threads : List Nat} {n k : Nat}

/-- What `thread_notify` does to a blocked thread, wherever it stands. -/
theorem Shows.threadNotify_eq (h : Shows s b) (hok : b.Ok) {r : ListRef} (hn : n ∈ b.queue r)
    (hblock : b.state n = .block) :
    MeOS.threadNotify s n =
      .ret (((s.removeNode .block n).1.setState (s.nodes.data n) .ready).insertBackNode
        (.ready (b.priority n)) (s.removeNode .block n).2) := by
  have hq : MeOS.readyQueue (((s.removeNode .block n).1.setState (s.nodes.data n) .ready).tcbs
      (s.nodes.data n)) = .ret (.ready (b.priority n)) := h.readyQueue hok.toSorted hn
  unfold MeOS.threadNotify
  dsimp only
  rw [if_neg (by rw [h.state hn, hblock]; simp), hq]
  rfl

/-- A thread in the block queue is notified properly. -/
theorem Shows.notify_blocked (h : Shows s b) (hok : b.Ok) (hth : ∀ a, a ∈ threads ↔ b.On a)
    (hn : n ∈ b.queue .block) :
    ∃ s', MeOS.threadNotify s n = .ret s' ∧ NotifyKeeps s threads n s' := by
  have hblock : b.state n = .block := hok.fits hn
  rcases h.threadNotify hok hn (by simp) with ⟨s', hret, hshows⟩
  rw [if_pos hblock] at hshows
  have hok' := Board.comeBack_ok hok hn (by simp) hblock
  have hth' : ∀ a, a ∈ threads ↔ (b.comeBack n .block).On a := by
    intro a
    rw [hth a, Board.on_comeBack hok.toSorted (by simp) hn]
  have hinv : QueueInv s' threads := Kept.queueInv ⟨_, hshows, hok', hth'⟩
  refine ⟨s', hret, fun r => ⟨_, hshows.lists r⟩, ?_, ?_, fun r => hinv.inPlace r n⟩
  · intro a _ hne r
    rw [hshows.queued, h.queued]
    unfold Board.comeBack
    rw [Board.mem_move (by simp) hok.toSorted hn, if_neg hne]
  · exact hinv.place n ((hth n).mpr ⟨_, hn⟩)

/-- With nobody in the block queue, a null node goes into a ready queue. -/
theorem Shows.notify_null (h : Shows s b) (hok : b.Ok) (hn : n ∈ b.queue (.waiting k))
    (hempty : b.queue .block = []) (hret : MeOS.threadNotify s n = .ret s') :
    ¬ ∃ xs, Lists s'.nodes (s'.lists (.ready (b.priority n))) xs := by
  have hblock : b.state n = .block := hok.fits hn
  have hready := h.lists (.ready (b.priority n))
  rw [h.threadNotify_eq hok hn hblock] at hret
  cases hret
  have hremove : dlListRemoveNode s.nodes (s.lists .block) n = (s.nodes, s.lists .block, 0) :=
    if_pos ((h.lists .block).count_eq_zero.mpr hempty)
  rintro ⟨xs, hxs⟩
  -- the ready queue has room for one more node
  have hlt : (s.lists (.ready (b.priority n))).count + 1 < 4294967296 := by
    have hout : n ∉ b.queue (.ready (b.priority n)) := fun hmem => by
      cases hok.apart hmem hn
    have hlen := length_lt_of_addr (n := 4294967296) (by decide)
      (List.nodup_cons.mpr ⟨hout, hready.nodup⟩) (by
        intro a ha
        rcases List.mem_cons.mp ha with rfl | ha
        · exact (h.lists _).addr a hn
        · exact hready.addr a ha)
    rw [hready.count]
    exact hlen
  have hnodes : (s.removeNode .block n).1.nodes = s.nodes ∧ (s.removeNode .block n).2 = 0 := by
    unfold Scheduler.removeNode
    rw [hremove]
    exact ⟨rfl, rfl⟩
  rw [insertBackNode_lists_self, hnodes.2] at hxs
  have hlist : (((s.removeNode .block n).1.setState (s.nodes.data n) .ready).lists
      (.ready (b.priority n))) = s.lists (.ready (b.priority n)) := by
    show (s.removeNode .block n).1.lists (.ready (b.priority n)) = _
    exact removeNode_lists_other (by simp)
  rw [hlist] at hxs
  have htail (m : DlNodes Nat) :
      (dlListInsertBackNode m (s.lists (.ready (b.priority n))) 0).2.tail = 0 ∧
        (dlListInsertBackNode m (s.lists (.ready (b.priority n))) 0).2.count ≠ 0 := by
    have hcount : add32 (s.lists (.ready (b.priority n))).count 1 ≠ 0 := by
      rw [add32_eq hlt]
      omega
    unfold dlListInsertBackNode
    dsimp only
    split
    · exact ⟨rfl, hcount⟩
    · exact ⟨rfl, hcount⟩
  -- its tail is the null node
  have hne : xs ≠ [] := fun heq => (htail _).2 (hxs.count_eq_zero.mpr heq)
  have hlast := hxs.tail
  rw [(htail _).1] at hlast
  rcases List.eq_nil_or_concat' xs with heq | ⟨front, last, rfl⟩
  · exact hne heq
  · rw [List.getLastD_concat] at hlast
    exact hxs.zero_notMem (by simp [hlast])

/-- With threads in the block queue, the last of them is no longer in it. -/
theorem Shows.notify_drops (h : Shows s b) (hok : b.Ok) (hn : n ∈ b.queue (.waiting k))
    {front : List Nat} {last : Nat} (hqueue : b.queue .block = front ++ [last])
    (hret : MeOS.threadNotify s n = .ret s') : last ∉ s'.queued .block := by
  have hblock : b.state n = .block := hok.fits hn
  have hlists := h.lists .block
  rw [hqueue] at hlists
  have hnodup := hlists.nodup
  have hcount : (s.lists .block).count = front.length + 1 := by
    rw [hlists.count]
    simp
  rw [h.threadNotify_eq hok hn hblock] at hret
  cases hret
  have hlist : (((s.removeNode .block n).1.setState (s.nodes.data n) .ready).insertBackNode
      (.ready (b.priority n)) (s.removeNode .block n).2).lists .block =
        (dlListRemoveNode s.nodes (s.lists .block) n).2.1 := by
    have hne : ListRef.block ≠ .ready (b.priority n) := by simp
    rw [insertBackNode_lists_other hne]
    show (s.removeNode .block n).1.lists .block = _
    exact removeNode_lists_self
  unfold Scheduler.queued
  rw [hlist]
  cases front with
  | nil =>
    -- the shortcut for a single node empties the list
    have hone : (dlListRemoveNode s.nodes (s.lists .block) n).2.1 = dlListInit := by
      unfold dlListRemoveNode
      rw [if_neg (by omega), if_pos (by simpa using hcount)]
    rw [hone]
    exact List.not_mem_nil
  | cons a front =>
    have hout : ∀ c ∈ b.queue .block, c ∉ b.queue (.waiting k) := by
      intro c hc hw
      cases hok.apart hc hw
    have hnb : n ∉ a :: front ++ [last] := by
      rw [← hqueue]
      exact fun hmem => hout n hmem hn
    rcases removeNode_foreign hlists hnb with ⟨m', hrest⟩
    have hnode : (s.removeNode .block n).2 = n := by
      unfold Scheduler.removeNode
      rw [hrest]
    rw [hnode, hrest]
    -- the nodes that are written are not in the block queue
    have hafter : Lists (((s.removeNode .block n).1.setState (s.nodes.data n) .ready).insertBackNode
        (.ready (b.priority n)) n).nodes (s.lists .block) (a :: front ++ [last]) := by
      apply (relocate_kept (by simp)).lists hlists
      intro c hc hw
      rw [← hqueue] at hc
      have hpos := ((h.lists .block).addr c hc).1
      have hcn : c ≠ n := fun heq => hout c hc (heq ▸ hn)
      rcases (h.lists (.waiting k)).neighbours hn with ⟨hprev, hnext⟩
      simp only [List.mem_append, List.mem_cons, List.not_mem_nil, or_false] at hw
      rcases hw with (heq | heq | heq) | heq | heq
      · exact hcn heq
      · rcases hprev with hzero | hmem
        · omega
        · exact hout c hc (heq ▸ hmem)
      · rcases hnext with hzero | hmem
        · omega
        · exact hout c hc (heq ▸ hmem)
      · exact hcn heq
      · rcases (h.lists (.ready (b.priority n))).tail_mem with hzero | hmem
        · omega
        · cases hok.apart hc (heq ▸ hmem)
    have hpred : sub32 (s.lists .block).count 1 = (a :: front).length :=
      hlists.pred_count (by simp)
    rw [dlListNodes_mk, hpred, hafter.walk_front]
    intro hmem
    exact List.disjoint_of_nodup_append hnodup hmem List.mem_cons_self

/-- A thread that waits for a semaphore is not notified properly. -/
theorem Shows.notify_waiting (h : Shows s b) (hok : b.Ok) (hth : ∀ a, a ∈ threads ↔ b.On a)
    (hn : n ∈ b.queue (.waiting k)) (hret : MeOS.threadNotify s n = .ret s') :
    ¬ NotifyKeeps s threads n s' := by
  intro hkeeps
  rcases List.eq_nil_or_concat' (b.queue .block) with hempty | ⟨front, last, hqueue⟩
  · exact h.notify_null hok hn hempty hret (hkeeps.consistent _)
  · have hlast : last ∈ b.queue .block := by
      rw [hqueue]
      simp
    have hne : last ≠ n := by
      rintro rfl
      cases hok.apart hlast hn
    apply h.notify_drops hok hn hqueue hret
    rw [hkeeps.others last ((hth last).mpr ⟨_, hlast⟩) hne, h.queued]
    exact hlast

/-- In every reachable state `thread_notify` of a blocked thread keeps the queues
exactly when the thread is in the block queue, where `thread_block` puts it. -/
theorem notify_keeps_iff {c : SchedRun} (h : schedSystem.Reachable c) (hn : n ∈ c.threads)
    (hblock : (c.sched.tcbOf n).state = .block) :
    (∃ s', MeOS.threadNotify c.sched n = .ret s' ∧ NotifyKeeps c.sched c.threads n s') ↔
      n ∈ c.sched.queued .block := by
  rcases schedSystem_kept.holds h with ⟨b, hshows, hok, hth⟩
  rcases (hth n).mp hn with ⟨r, hr⟩
  have hstate : b.state n = .block := (hshows.state hr).symm.trans hblock
  rw [hshows.queued]
  constructor
  · rintro ⟨s', hret, hkeeps⟩
    apply hok.block_mem hr _ hstate
    rintro k rfl
    exact hshows.notify_waiting hok hth hr hret hkeeps
  · intro hmem
    exact hshows.notify_blocked hok hth hmem

end Notify

/-! ## Two threads -/

/-- The second thread of the pair is blocked by the first. -/
def blockedPair : Outcome Scheduler := do
  let s ← startedPair
  threadBlock s 32

/-- The first thread of the pair waits for semaphore 5. -/
def waitingPair : Outcome Scheduler := do
  let s ← startedPair
  semaphoreWait s 5

theorem blockedPair_reachable {s : Scheduler} (h : blockedPair = .ret s) :
    schedSystem.Reachable ⟨s, [32, 16]⟩ := by
  rcases Outcome.bind_eq_ret.mp h with ⟨s₁, h₁, h₂⟩
  have hready : (s₁.tcbOf 32).state = .ready := by
    cases h₁
    rfl
  exact .next (startedPair_reachable h₁) ⟨.threadBlock 32, ⟨by simp, Or.inl hready⟩, h₂, rfl⟩

theorem waitingPair_reachable {s : Scheduler} (h : waitingPair = .ret s) :
    schedSystem.Reachable ⟨s, [32, 16]⟩ := by
  rcases Outcome.bind_eq_ret.mp h with ⟨s₁, h₁, h₂⟩
  exact .next (startedPair_reachable h₁) ⟨.semaphoreWait 5, trivial, h₂, rfl⟩

/-- The thread in the block queue may be notified. -/
theorem notify_keeps_pair : ∃ s, blockedPair = .ret s ∧
    ∃ s', MeOS.threadNotify s 32 = .ret s' ∧ NotifyKeeps s [32, 16] 32 s' := by
  obtain ⟨s, hs⟩ : ∃ s, blockedPair = .ret s := ⟨_, rfl⟩
  have hblock : (s.tcbOf 32).state = .block := by
    cases hs
    rfl
  have hmem : 32 ∈ s.queued .block := by
    cases hs
    decide
  exact ⟨s, hs, (notify_keeps_iff (blockedPair_reachable hs) (by simp) hblock).mpr hmem⟩

/-- The thread that waits for the semaphore is notified with nobody in the block
queue: the null node becomes the tail of a ready queue. -/
theorem notify_breaks : ∃ s, schedSystem.Reachable ⟨s, [32, 16]⟩ ∧
    (s.tcbOf 16).state = .block ∧
    ¬ ∃ s', MeOS.threadNotify s 16 = .ret s' ∧ NotifyKeeps s [32, 16] 16 s' := by
  obtain ⟨s, hs⟩ : ∃ s, waitingPair = .ret s := ⟨_, rfl⟩
  have hblock : (s.tcbOf 16).state = .block := by
    cases hs
    rfl
  have hwait : 16 ∈ s.queued (.waiting 5) := by
    cases hs
    decide
  refine ⟨s, waitingPair_reachable hs, hblock, ?_⟩
  rintro ⟨s', hret, hkeeps⟩
  rcases schedSystem_kept.holds (waitingPair_reachable hs) with ⟨b, hshows, hok, hth⟩
  rw [hshows.queued] at hwait
  exact hshows.notify_waiting hok hth hwait hret hkeeps

end MeOS
