import MeOS.FatData
import MeOS.FatDelete

/-! # Loading a layout

`fat_fs_load_file_layout` appends what `fat_fs_find_next_cluster` answers until the answer
is an end mark. An answer for a call that failed is 0 or 1, which is no end mark, so the
loader appends it and goes on. A layout is loaded right exactly when every call goes
through and every link is read where it is (`loadLayout_chain_iff`).
-/

namespace MeOS

open Bytes EndMarked

/-! ## Calls that fail -/

/-- `fat_fs_find_next_cluster` fails: there is no buffer, or the block is not read. -/
def FindFails (s : FatState) : Prop := s.reserveAnonymous.2 = 0 ∨ s.device 0 = false

/-- One of the calls that follow the links from cluster `c` on fails. -/
inductive SomeFindFails (mp : MountPoint) : FatState → Nat → Prop where
  | here {s c} (h : FindFails s) : SomeFindFails mp s c
  | later {s c} (hgo : (fatFsFindNextCluster s mp c).2 < fatEof)
    (h : SomeFindFails mp (fatFsFindNextCluster s mp c).1 (fatFsFindNextCluster s mp c).2) :
    SomeFindFails mp s c

/-- The loader returns; on success the layout is the chain, and when a call fails there is
no success. -/
def LoadLaw (s : FatState) (mp : MountPoint) (node : FatNode) (chain : List Nat) : Prop :=
  ∃ s' node' res, Settles (fun fuel => fatFsLoadFileLayout fuel s mp node) (s', node', res) ∧
    (res = .ok → node'.data.layout = chain) ∧
    ∀ c, node.data.layout.getLast? = some c → SomeFindFails mp s c → res ≠ .ok

/-- For every cluster of the chain there is a buffer, the read goes through, and what is
read is the link. -/
structure LinksRead (s : FatState) (mp : MountPoint) (chain : List Nat) : Prop where
  cells : freeCells s.files ≠ []
  calls : ∀ k < chain.length, s.files.frames k ≠ none ∧ s.device k = true
  links : ∃ e, fatEof ≤ e ∧ chain.map (misread s mp) = chain.tail ++ [e]

section Loop

variable {s t : FatState} {mp : MountPoint} {n c c' v fuel : Nat}
  {rest front layout layout' : List Nat}

theorem findFails_iff (hinv : CacheInv s.files) : ¬ FindFails s ↔
    freeCells s.files ≠ [] ∧ s.files.frames 0 ≠ none ∧ s.device 0 = true := by
  unfold FindFails
  rw [not_or, ← ne_eq, reserve_ne_zero_iff hinv, Bool.not_eq_false]
  exact and_assoc

theorem not_findFails (hgo : ¬ FindFails s) : s.reserveAnonymous.2 ≠ 0 ∧ s.device 0 = true := by
  unfold FindFails at hgo
  rw [not_or, Bool.not_eq_false] at hgo
  exact hgo

/-- A call that goes through answers with what is read in place of the link. -/
theorem findNext_goes (hinv : CacheInv s.files) (hmp : Mounted mp) (hn : FatSize mp n)
    (hc : c < n) (hgo : ¬ FindFails s) :
    ∃ t, fatFsFindNextCluster s mp c = (t, misread s mp c) ∧ Scratch s t := by
  have hfew := hn.few
  have hok := not_findFails hgo
  rcases findNextCluster_done hinv hmp (c := c) (by omega) hok.1 hok.2 with
    ⟨t, hrun, hscratch, -⟩
  rw [readLink_eq hn hc] at hrun
  exact ⟨t, hrun, hscratch⟩

/-- The first call goes through when the links are read. -/
theorem LinksRead.first (hinv : CacheInv s.files) (h : LinksRead s mp (c :: rest)) :
    ¬ FindFails s := by
  have hcall := h.calls 0 (Nat.succ_pos _)
  exact (findFails_iff hinv).mpr ⟨h.cells, hcall.1, hcall.2⟩

theorem linksRead_single (hinv : CacheInv s.files) (hgo : ¬ FindFails s) :
    LinksRead s mp [c] ↔ fatEof ≤ misread s mp c := by
  constructor
  · intro h
    rcases h.links with ⟨e, he, heq⟩
    have hval : misread s mp c = e := by simpa using heq
    omega
  · intro hend
    rcases (findFails_iff hinv).mp hgo with ⟨hcells, hframe, hdev⟩
    refine ⟨hcells, fun k hk => ?_, _, hend, rfl⟩
    obtain rfl : k = 0 := by
      rw [List.length_singleton] at hk
      omega
    exact ⟨hframe, hdev⟩

/-- After a call that went through, the other links are read as before. -/
theorem linksRead_cons (hinv : CacheInv s.files) (hmp : Mounted mp) (hn : FatSize mp n)
    (hc : c < n) (hrest : ∀ x ∈ c' :: rest, x < n) (hgo : ¬ FindFails s) :
    LinksRead s mp (c :: c' :: rest) ↔
      misread s mp c = c' ∧ LinksRead (fatFsFindNextCluster s mp c).1 mp (c' :: rest) := by
  have hfew := hn.few
  have hok := not_findFails hgo
  rcases findNextCluster_done hinv hmp (c := c) (by omega) hok.1 hok.2 with
    ⟨t, hrun, hscratch, ⟨hdisk, -⟩, hcalls, hmem⟩
  rw [hrun]
  have hcells : freeCells t.files = freeCells s.files := hscratch.freeCells
  -- once the next call has a buffer, every value is the same
  have hsame : t.reserveAnonymous.2 ≠ 0 → ∀ x ∈ c' :: rest, misread t mp x = misread s mp x := by
    intro hbuffer x hx
    have hlt := hrest x hx
    unfold misread
    rw [hdisk]
    split
    · rfl
    · exact behindBuffer_same hinv hok.1 hbuffer hscratch hmem (by omega) (by omega)
  -- the first call has used up the first answer of the frames and of the device
  rcases (findFails_iff hinv).mp hgo with ⟨hsome, hframe, hdev⟩
  have hshift : (∀ k < (c :: c' :: rest).length, s.files.frames k ≠ none ∧ s.device k = true) ↔
      ∀ k < (c' :: rest).length, t.files.frames k ≠ none ∧ t.device k = true := by
    constructor
    · intro h k hk
      rw [(hcalls k).1, (hcalls k).2]
      exact h (k + 1) (by rw [List.length_cons]; omega)
    · intro h k hk
      rcases k with _ | k
      · exact ⟨hframe, hdev⟩
      · rw [List.length_cons] at hk
        have hcall := h k (by omega)
        rw [(hcalls k).1, (hcalls k).2] at hcall
        exact hcall
  have hbuffer : (∀ k < (c' :: rest).length, t.files.frames k ≠ none ∧ t.device k = true) →
      t.reserveAnonymous.2 ≠ 0 := by
    intro h
    refine (reserve_ne_zero_iff (hscratch.cacheInv hinv)).mpr ⟨?_, (h 0 (Nat.succ_pos _)).1⟩
    rw [hcells]
    exact hsome
  constructor
  · rintro ⟨-, hcalls', e, he, heq⟩
    have hthere := hshift.mp hcalls'
    rw [List.map_cons, List.tail_cons, List.cons_append, List.cons.injEq] at heq
    refine ⟨heq.1, by rw [hcells]; exact hsome, hthere, e, he, ?_⟩
    rw [List.map_congr_left (hsame (hbuffer hthere)), heq.2, List.tail_cons]
  · rintro ⟨hlink, -, hthere, e, he, heq⟩
    refine ⟨hsome, hshift.mpr hthere, e, he, ?_⟩
    rw [List.map_congr_left (hsame (hbuffer hthere)), List.tail_cons] at heq
    rw [List.map_cons, hlink, heq, List.tail_cons, List.cons_append]

/-- The loop is over at an end mark. -/
theorem loadLoop_end (hlast : layout.getLast? = some c)
    (hend : fatEof ≤ (fatFsFindNextCluster s mp c).2) :
    fatFsLoadLoop mp (fuel + 1) s layout = .ret ((fatFsFindNextCluster s mp c).1, layout) := by
  unfold fatFsLoadLoop
  rw [hlast]
  dsimp only
  rw [if_pos hend]

/-- The loop appends any other answer. -/
theorem loadLoop_turn (hlast : layout.getLast? = some c)
    (hlink : (fatFsFindNextCluster s mp c).2 < fatEof) :
    fatFsLoadLoop mp (fuel + 1) s layout =
      fatFsLoadLoop mp fuel (fatFsFindNextCluster s mp c).1
        (layout ++ [(fatFsFindNextCluster s mp c).2]) := by
  conv_lhs => unfold fatFsLoadLoop
  rw [hlast]
  dsimp only
  rw [if_neg (Nat.not_le_of_lt hlink)]

/-- What is loaded starts with what was there. -/
theorem loadLoop_front (hrun : fatFsLoadLoop mp fuel s layout = .ret (t, layout')) :
    layout <+: layout' := by
  induction fuel generalizing s layout with
  | zero => cases hrun
  | succ fuel ih =>
    cases hlast : layout.getLast? with
    | none =>
      unfold fatFsLoadLoop at hrun
      rw [hlast] at hrun
      cases hrun
    | some c =>
      by_cases hend : fatEof ≤ (fatFsFindNextCluster s mp c).2
      · rw [loadLoop_end hlast hend] at hrun
        injection hrun with hpair
        rw [(Prod.mk.inj hpair).2]
      · rw [loadLoop_turn hlast (by omega)] at hrun
        exact (List.prefix_append _ _).trans (ih hrun)

/-- The loop loads the chain from cluster `c` on, and no call fails. -/
def LoadsOn (s : FatState) (mp : MountPoint) (front : List Nat) (c : Nat) (rest : List Nat) :
    Prop :=
  (∃ t, Settles (fun fuel => fatFsLoadLoop mp fuel s (front ++ [c])) (t, front ++ c :: rest)) ∧
    ¬ SomeFindFails mp s c

theorem getLast_snoc (front : List Nat) (c : Nat) : (front ++ [c]).getLast? = some c :=
  List.getLast?_concat

/-- Before an end mark the loop returns what is loaded. -/
theorem loadLoop_ended (front : List Nat) (hend : fatEof ≤ (fatFsFindNextCluster s mp c).2) :
    Settles (fun fuel => fatFsLoadLoop mp fuel s (front ++ [c]))
      ((fatFsFindNextCluster s mp c).1, front ++ [c]) := by
  refine .succ ?_
  simp only [loadLoop_end (getLast_snoc front c) hend]
  exact .ret

/-- The last link. -/
theorem loadsOn_end (hgo : ¬ FindFails s) (hend : fatEof ≤ (fatFsFindNextCluster s mp c).2) :
    LoadsOn s mp front c rest ↔ rest = [] := by
  have hnone : ¬ SomeFindFails mp s c := by
    intro h
    cases h with
    | here h => exact hgo h
    | later hlt h => omega
  have hsettles := loadLoop_ended front hend
  constructor
  · rintro ⟨⟨t, ht⟩, -⟩
    have heq := (Prod.mk.inj (hsettles.unique ht)).2
    have hrest := List.append_cancel_left heq
    exact (List.cons.inj hrest).2.symm
  · rintro rfl
    exact ⟨⟨_, hsettles⟩, hnone⟩

/-- A link on the way. -/
theorem loadsOn_link (hgo : ¬ FindFails s) (hlink : (fatFsFindNextCluster s mp c).2 < fatEof) :
    LoadsOn s mp front c (c' :: rest) ↔ (fatFsFindNextCluster s mp c).2 = c' ∧
      LoadsOn (fatFsFindNextCluster s mp c).1 mp (front ++ [c]) c' rest := by
  have hturn : ∀ fuel, fatFsLoadLoop mp (fuel + 1) s (front ++ [c]) =
      fatFsLoadLoop mp fuel (fatFsFindNextCluster s mp c).1
        (front ++ [c] ++ [(fatFsFindNextCluster s mp c).2]) :=
    fun fuel => loadLoop_turn (getLast_snoc front c) hlink
  have hlist : front ++ c :: c' :: rest = front ++ [c] ++ c' :: rest := by simp
  unfold LoadsOn
  rw [hlist]
  constructor
  · rintro ⟨⟨t, hsettles⟩, hnone⟩
    have hnext := hsettles.shift
    simp only [hturn] at hnext
    -- the loop only appends, so what it appends first is the second cluster
    have hvalue : (fatFsFindNextCluster s mp c).2 = c' := by
      rcases hnext with ⟨bound, hbound⟩
      have hpre := loadLoop_front (hbound bound le_rfl)
      rw [List.prefix_append_right_inj] at hpre
      rcases hpre with ⟨tail, htail⟩
      exact (List.cons.inj htail).1
    refine ⟨hvalue, ⟨t, ?_⟩, ?_⟩
    · rw [hvalue] at hnext
      exact hnext
    · rw [← hvalue]
      exact fun hfail => hnone (.later hlink hfail)
  · rintro ⟨hvalue, ⟨t, hsettles⟩, hnone⟩
    refine ⟨⟨t, .succ ?_⟩, ?_⟩
    · simp only [hturn, hvalue]
      exact hsettles
    · intro h
      cases h with
      | here h => exact hgo h
      | later hlt h =>
        rw [hvalue] at h
        exact hnone h

/-- A loop that meets a link loads more than one cluster. -/
theorem not_loadsOn_nil (hlink : (fatFsFindNextCluster s mp c).2 < fatEof) :
    ¬ LoadsOn s mp front c [] := by
  rintro ⟨⟨t, hsettles⟩, -⟩
  rcases hsettles.shift with ⟨bound, hbound⟩
  have hrun := hbound bound le_rfl
  dsimp only at hrun
  rw [loadLoop_turn (getLast_snoc front c) hlink] at hrun
  have hlen := (loadLoop_front hrun).length_le
  simp at hlen

/-- By induction along the chain: the loop loads it without a failure exactly when every
link is read. -/
theorem loadsOn_iff (hinv : CacheInv s.files) (hmp : Mounted mp) (hn : FatSize mp n)
    (hlt : ∀ x ∈ c :: rest, x < n) (hrest : ∀ x ∈ rest, x < fatEof) :
    LoadsOn s mp front c rest ↔ LinksRead s mp (c :: rest) := by
  induction rest generalizing s front c with
  | nil =>
    have hc := hlt c List.mem_cons_self
    by_cases hgo : FindFails s
    · exact iff_of_false (fun h => h.2 (.here hgo)) fun h => h.first hinv hgo
    · rcases findNext_goes hinv hmp hn hc hgo with ⟨t, hrun, -⟩
      have hvalue : (fatFsFindNextCluster s mp c).2 = misread s mp c := by rw [hrun]
      rw [linksRead_single hinv hgo, ← hvalue]
      by_cases hend : fatEof ≤ (fatFsFindNextCluster s mp c).2
      · exact iff_of_true ((loadsOn_end hgo hend).mpr rfl) hend
      · exact iff_of_false (not_loadsOn_nil (by omega)) hend
  | cons c' rest ih =>
    have hc := hlt c List.mem_cons_self
    have htail : ∀ x ∈ c' :: rest, x < n := fun x hx => hlt x (List.mem_cons_of_mem c hx)
    by_cases hgo : FindFails s
    · exact iff_of_false (fun h => h.2 (.here hgo)) fun h => h.first hinv hgo
    · rcases findNext_goes hinv hmp hn hc hgo with ⟨t, hrun, hscratch⟩
      have hvalue : (fatFsFindNextCluster s mp c).2 = misread s mp c := by rw [hrun]
      have hstate : (fatFsFindNextCluster s mp c).1 = t := by rw [hrun]
      rw [linksRead_cons hinv hmp hn hc htail hgo, ← hvalue, hstate]
      by_cases hend : fatEof ≤ (fatFsFindNextCluster s mp c).2
      · -- an end mark is no link of the chain
        have hnext := hrest c' List.mem_cons_self
        refine iff_of_false (fun h => ?_) (fun h => by omega)
        exact List.cons_ne_nil _ _ ((loadsOn_end hgo hend).mp h)
      · rw [loadsOn_link hgo (by omega), hstate]
        refine and_congr_right fun _ => ?_
        exact ih (hscratch.cacheInv hinv) htail fun x hx => hrest x (List.mem_cons_of_mem c' hx)

end Loop

/-! ## The law -/

section Law

variable {s s' : FatState} {mp : MountPoint} {node node' : FatNode} {n f : Nat} {rest : List Nat}
  {res : ErrorT}

/-- The loader ends as its loop does, and never with a failure. -/
theorem loadLayout_settles :
    Settles (fun fuel => fatFsLoadFileLayout fuel s mp node) (s', node', res) ↔
      ∃ l, Settles (fun fuel => fatFsLoadLoop mp fuel s node.data.layout) (s', l) ∧
        node' = node.setLayout l ∧ res = .ok := by
  constructor
  · rintro ⟨bound, hbound⟩
    have hloop : ∀ fuel, bound ≤ fuel → ∃ l,
        fatFsLoadLoop mp fuel s node.data.layout = .ret (s', l) ∧ node' = node.setLayout l ∧
          res = .ok := by
      intro fuel hfuel
      rcases Outcome.bind_eq_ret.mp (hbound fuel hfuel) with ⟨⟨t, l⟩, hrun, hret⟩
      injection hret with hpair
      simp only [Prod.mk.injEq] at hpair
      rcases hpair with ⟨rfl, rfl, rfl⟩
      exact ⟨l, hrun, rfl, rfl⟩
    rcases hloop bound le_rfl with ⟨l, -, hnode, hres⟩
    refine ⟨l, ⟨bound, fun fuel hfuel => ?_⟩, hnode, hres⟩
    rcases hloop fuel hfuel with ⟨l', hrun, hnode', -⟩
    have hsame : l' = l := congrArg (·.data.layout) (hnode'.symm.trans hnode)
    rw [← hsame]
    exact hrun
  · rintro ⟨l, hsettles, rfl, rfl⟩
    exact hsettles.bind .ret

/-- A layout that holds the first cluster of a chain is loaded as the chain, and no failure
is passed over, exactly when every call has a buffer, every read goes through and every link
is read where it is. -/
theorem loadLayout_chain_iff (hinv : CacheInv s.files) (hmp : Mounted mp) (hn : FatSize mp n)
    (hlayout : node.data.layout = [f]) (hchain : Chain s.disk mp n (f :: rest)) :
    LoadLaw s mp node (f :: rest) ↔ LinksRead s mp (f :: rest) := by
  have hlt : ∀ x ∈ f :: rest, x < n := fun x hx => (hchain.used x hx).1.2
  have hloads : LoadsOn s mp [] f rest ↔ LinksRead s mp (f :: rest) :=
    loadsOn_iff hinv hmp hn hlt hchain.links_lt
  rw [← hloads]
  unfold LoadLaw LoadsOn
  rw [hlayout, List.nil_append, List.nil_append]
  constructor
  · rintro ⟨s', node', res, hsettles, hok, hfails⟩
    rcases loadLayout_settles.mp hsettles with ⟨l, hloop, rfl, rfl⟩
    rw [hlayout] at hloop
    have hl : l = f :: rest := hok rfl
    rw [hl] at hloop
    exact ⟨⟨s', hloop⟩, fun hfail => hfails f rfl hfail rfl⟩
  · rintro ⟨⟨t, hloop⟩, hnone⟩
    refine ⟨t, node.setLayout (f :: rest), .ok, ?_, fun _ => rfl, ?_⟩
    · refine loadLayout_settles.mpr ⟨_, ?_, rfl, rfl⟩
      rw [hlayout]
      exact hloop
    · intro c hc hfail
      obtain rfl : f = c := Option.some.inj hc
      exact absurd hfail hnone

end Law

/-- The file in cluster 2 of `zeroFile`. -/
def oneCluster : FatNode := ⟨[65], 25, 14, 0, ⟨[2], false, 3, 0⟩, []⟩

theorem zeroFile_chain : Chain zeroFile smallMount 1024 [2] := by
  have hend : fatEof ≤ fatEntry zeroFile smallMount 2 := by decide
  exact .last ⟨by decide, by decide⟩ hend

/-- Nothing fails. -/
theorem loadLayout_chain_iff_one : LoadLaw (freshState zeroFile) smallMount oneCluster [2] ↔
    LinksRead (freshState zeroFile) smallMount [2] :=
  loadLayout_chain_iff freshCache_inv smallMount_mounted smallMount_volume.fatSize rfl
    zeroFile_chain

/-- The first read fails: 0 is appended, and the chain ends behind it. -/
theorem loadLayout_appends_failure :
    Chain zeroFile smallMount 1024 [2] ∧
      ¬ LoadLaw { freshState zeroFile with device := fun k => k != 0 } smallMount oneCluster
        [2] := by
  refine ⟨zeroFile_chain, ?_⟩
  rintro ⟨s', node', res, ⟨bound, hbound⟩, hok, -⟩
  have hrun : ∃ t, fatFsLoadFileLayout (bound + 2)
      { freshState zeroFile with device := fun k => k != 0 } smallMount oneCluster =
        .ret (t, oneCluster.setLayout [2, 0], .ok) := ⟨_, rfl⟩
  rcases hrun with ⟨t, hrun⟩
  have hpair := (hbound (bound + 2) (by omega)).symm.trans hrun
  injection hpair with hpair
  simp only [Prod.mk.injEq] at hpair
  have hlayout := hok hpair.2.2
  rw [hpair.2.1] at hlayout
  exact absurd hlayout (by decide)

end MeOS
