import MeOS.FileTable
import MeOS.Lib.Runs
import Mathlib.Logic.Function.Basic

/-! # Runs of the file tables

The calls that open and close files on one local table and the global one, with
what the tables promise: which descriptors are live and for what, and how often
each global entry was opened and closed since it was made.
-/

namespace MeOS

open Runs

/-- The tables, the live descriptors and the opens and closes of the global entries. -/
structure TableRun where
  gft : Vector Gfe
  lft : Vector Lfe
  locals : Nat → Option Lfe
  globals : Nat → Option Nat
  opens : Nat → Nat
  closes : Nat → Nat

/-- The run after `gft_insert_s` gave `index` for `node`. -/
def TableRun.opened (t : TableRun) (gft : Vector Gfe) (index node : Nat) : TableRun :=
  if t.globals index = some node then
    { t with gft := gft, opens := Function.update t.opens index (t.opens index + 1) }
  else
    { t with
      gft := gft
      globals := Function.update t.globals index (some node)
      opens := Function.update t.opens index 1
      closes := Function.update t.closes index 0 }

/-- A call on the tables. An entry is closed at most as often as it was opened. -/
inductive TableStep : TableRun → TableRun → Prop where
  | lftInsert {t entry lft index} (hret : lftInsert t.gft t.lft entry = .ret (lft, index)) :
    TableStep t { t with
      lft := lft
      locals := if index = invalidFd then t.locals
        else Function.update t.locals index (some entry) }
  | lftRemove {t} (index : Nat) :
    TableStep t { t with
      lft := (lftRemove t.lft index).1, locals := Function.update t.locals index none }
  | gftInsertS {t node gft index} (hnode : node ≠ 0)
    (hret : gftInsertS t.gft (createGfe node) = .ret (gft, index)) :
    TableStep t (t.opened gft index node)
  | gfeIncrease {t gft} (index : Nat) (hret : gfeIncreaseOpenCount t.gft index = (gft, .ok)) :
    TableStep t { t with
      gft := gft, opens := Function.update t.opens index (t.opens index + 1) }
  | gfeDecrement {t gft} (index : Nat) (hopen : t.closes index < t.opens index)
    (hret : gfeDecrementOpenCount t.gft index = (gft, .ok)) :
    TableStep t { t with
      gft := gft, closes := Function.update t.closes index (t.closes index + 1) }
  | gftRemove {t} (index : Nat) :
    TableStep t { t with
      gft := (gftRemove t.gft index).1, globals := Function.update t.globals index none }

/-- The runs from empty tables of the given sizes. -/
def tableSystem (globalSize localSize : Nat) : System TableRun where
  Init t := t.gft = vectorInit globalSize ∧ t.lft = vectorInit localSize ∧
    (∀ i, t.locals i = none) ∧ ∀ i, t.globals i = none
  Next := TableStep

/-- The live descriptors are those of the tables, and no node has two of them. -/
structure TableInv (t : TableRun) : Prop where
  gft : t.gft.Fits ∧ 0 < t.gft.rSize
  lft : t.lft.Fits ∧ 0 < t.lft.rSize
  locals : ∀ i e, t.locals i = some e ↔ t.lft.data[i]? = some e ∧ e.gfd ≠ invalidFd
  globals : ∀ i n, t.globals i = some n ↔
    n ≠ 0 ∧ ∃ e, t.gft.data[i]? = some e ∧ e.fileNode = n
  unique : ∀ i j n, t.globals i = some n → t.globals j = some n → i = j
  counts : ∀ i n e, t.globals i = some n → t.gft.data[i]? = some e →
    t.closes i ≤ t.opens i ∧ e.openCount = (t.opens i - t.closes i) % 4294967296

section Table

variable {t t' : TableRun} {i j n index node : Nat} {e : Gfe} {v v' : Vector Gfe}
  {u u' : Vector Lfe}

/-! ## The functions on well-formed tables -/

/-- `gft_get_n` finds the first entry of a node. -/
theorem gftGetN_cases (node : Nat) (hv : v.Fits) :
    (gftGetN v node = invalidFd ∧ ∀ (i : Nat) (e : Gfe), v.data[i]? = some e → e.fileNode ≠ node) ∨
      ∃ e, v.data[gftGetN v node]? = some e ∧ e.fileNode = node ∧ gftGetN v node ≠ invalidFd := by
  unfold gftGetN
  cases hfind : v.data.findIdx? fun e => e.fileNode == node with
  | none =>
    left
    refine ⟨rfl, ?_⟩
    intro i e he
    have := findFirst_none hfind he
    simpa using this
  | some k =>
    right
    rcases findFirst_some hfind with ⟨e, he, hnode, hlt⟩
    refine ⟨e, he, by simpa using hnode, ?_⟩
    have hle := hv.le
    have hword := hv.word
    have hk : k ≠ 4294967295 := by omega
    exact hk

/-- Opening an entry once more. -/
theorem gftOpen_same (he : v.data[i]? = some e) :
    (gftOpen v i).data[i]? = some { e with openCount := add32 e.openCount 1 } :=
  modify_same he

theorem gftOpen_other (hij : i ≠ j) : (gftOpen v i).data[j]? = v.data[j]? := modify_other hij

/-- A change of one entry keeps the room. -/
theorem Vector.Fits.modify {α : Type} {v : Vector α} (h : v.Fits) (i : Nat) (f : α → α) :
    (v.modify i f).Fits := by
  refine ⟨?_, h.word⟩
  rw [modify_count]
  exact h.le

/-- `gft_insert_s` opens the entry of the node, or makes one in an unused place. -/
theorem gftInsertS_spec (hret : gftInsertS v (createGfe node) = .ret (v', index)) (hv : v.Fits)
    (hpos : 0 < v.rSize) :
    (v'.Fits ∧ 0 < v'.rSize) ∧ (∀ j, j ≠ index → v'.data[j]? = v.data[j]?) ∧
    ((∃ e, v.data[index]? = some e ∧ e.fileNode = node ∧
        v'.data[index]? = some { e with openCount := add32 e.openCount 1 }) ∨
      ((∀ (j : Nat) (e : Gfe), v.data[j]? = some e → e.fileNode ≠ node) ∧
        (v.data[index]? = none ∨ ∃ e, v.data[index]? = some e ∧ e.fileNode = 0) ∧
        v'.data[index]? = some { fileNode := node, openCount := 1, pages := [] })) := by
  unfold gftInsertS at hret
  rcases Outcome.bind_eq_ret.mp hret with ⟨⟨u, k⟩, hu, hrest⟩
  cases hrest
  rw [show (createGfe node).fileNode = node from rfl] at hu
  have hother : ∀ j, j ≠ index → (gftOpen u index).data[j]? = u.data[j]? := by
    intro j hj
    exact gftOpen_other (Ne.symm hj)
  rcases gftGetN_cases node hv with ⟨hnone, hall⟩ | ⟨e, he, hnode, hfound⟩
  · -- the node is not in the table
    rw [if_pos hnone] at hu
    have hins := tableInsert_spec hu hv
    refine ⟨⟨hins.fits.modify _ _, hins.rSize_pos⟩, ?_, Or.inr ⟨hall, ?_, gftOpen_same hins.same⟩⟩
    · intro j hj
      rw [hother j hj]
      exact hins.other j hj
    · rcases hins.fresh with hnew | ⟨e, he, hinv⟩
      · exact Or.inl hnew
      · exact Or.inr ⟨e, he, by simpa [gfeIsInvalid] using hinv⟩
  · rw [if_neg hfound] at hu
    cases hu
    exact ⟨⟨hv.modify _ _, hpos⟩, hother, Or.inl ⟨e, he, hnode, gftOpen_same he⟩⟩

/-- `gft_insert_s` returns while the array is not half of the address space. -/
theorem gftInsertS_returns (hv : v.Fits) (hpos : 0 < v.rSize) (hsmall : v.count < 2147483648) :
    ∃ v' i, gftInsertS v (createGfe node) = .ret (v', i) := by
  unfold gftInsertS
  dsimp only
  by_cases hnone : gftGetN v (createGfe node).fileNode = invalidFd
  · rcases tableInsert_returns (createGfe node) gfeIsInvalid hv hpos hsmall
      with ⟨u, k, hu⟩
    unfold gftInsert
    rw [if_pos hnone, hu, Outcome.ret_bind]
    exact ⟨_, _, rfl⟩
  · rw [if_neg hnone, Outcome.ret_bind]
    exact ⟨_, _, rfl⟩

/-- `lft_insert` refuses a bad global descriptor, or puts the entry in an unused place. -/
theorem lftInsert_spec {entry : Lfe} (hret : lftInsert v u entry = .ret (u', index))
    (hu : u.Fits) :
    (v.count ≤ entry.gfd ∧ index = invalidFd ∧ u' = u) ∨
      (entry.gfd < v.count ∧ Inserted u lfeIsInvalid entry u' index) := by
  unfold lftInsert at hret
  by_cases hbad : entry.gfd ≥ v.count
  · rw [if_pos hbad] at hret
    cases hret
    exact Or.inl ⟨hbad, rfl, rfl⟩
  · rw [if_neg hbad] at hret
    exact Or.inr ⟨by omega, tableInsert_spec hret hu⟩

/-! ## The invariant -/

/-- A live entry is the one of its node. -/
theorem TableInv.live (h : TableInv t) (hn : t.globals i = some n) :
    n ≠ 0 ∧ ∃ e, t.gft.data[i]? = some e ∧ e.fileNode = n := (h.globals i n).mp hn

theorem TableInv.not_live (h : TableInv t)
    (hi : t.gft.data[i]? = none ∨ ∃ e, t.gft.data[i]? = some e ∧ e.fileNode = 0) :
    t.globals i = none := by
  cases hn : t.globals i with
  | none => rfl
  | some n =>
    rcases h.live hn with ⟨hne, e, he, hnode⟩
    rcases hi with hnone | ⟨e', he', hzero⟩
    · rw [he] at hnone
      cases hnone
    · rw [he] at he'
      cases he'
      exact absurd (hnode.symm.trans hzero) hne

/-- `gft_get_n` finds exactly the live entry of a node. -/
theorem TableInv.getN (h : TableInv t) (hnode : node ≠ 0) :
    (∀ i, t.globals i = some node → gftGetN t.gft node = i) ∧
      ((∀ i, t.globals i ≠ some node) → gftGetN t.gft node = invalidFd) := by
  rcases gftGetN_cases node h.gft.1 with ⟨hnone, hall⟩ | ⟨e, he, heq, hfound⟩
  · constructor
    · intro i hi
      rcases h.live hi with ⟨_, e, he, heq⟩
      exact absurd heq (hall i e he)
    · intro _
      exact hnone
  · have hlive : t.globals (gftGetN t.gft node) = some node :=
      (h.globals _ _).mpr ⟨hnode, e, he, heq⟩
    constructor
    · intro i hi
      exact h.unique _ _ _ hlive hi
    · intro hall
      exact absurd hlive (hall _)

theorem vectorInit_fits {α : Type} {size : Nat} (h : size < 4294967296) :
    (vectorInit (α := α) size).Fits ∧ 0 < (vectorInit (α := α) size).rSize := by
  unfold vectorInit
  by_cases hzero : size = 0
  · rw [if_pos hzero]
    exact ⟨⟨Nat.zero_le _, by dsimp only; omega⟩, Nat.one_pos⟩
  · rw [if_neg hzero]
    exact ⟨⟨Nat.zero_le _, h⟩, Nat.pos_of_ne_zero hzero⟩

/-- The invariant holds for empty tables. -/
theorem TableInv.init {globalSize localSize : Nat} (hg : globalSize < 4294967296)
    (hl : localSize < 4294967296) (h : (tableSystem globalSize localSize).Init t) :
    TableInv t := by
  rcases h with ⟨hgft, hlft, hlocals, hglobals⟩
  constructor
  · rw [hgft]
    exact vectorInit_fits hg
  · rw [hlft]
    exact vectorInit_fits hl
  · intro i e
    rw [hlocals, hlft]
    constructor
    · intro h
      cases h
    · intro h
      cases h.1
  · intro i n
    rw [hglobals, hgft]
    constructor
    · intro h
      cases h
    · intro ⟨_, e, he, _⟩
      cases he
  · intro i j n hi
    rw [hglobals] at hi
    cases hi
  · intro i n e hi
    rw [hglobals] at hi
    cases hi

/-- Only the local table changes. -/
theorem TableInv.withLocals (h : TableInv t) {locals : Nat → Option Lfe}
    (hlft : u.Fits ∧ 0 < u.rSize)
    (hlocals : ∀ i e, locals i = some e ↔ u.data[i]? = some e ∧ e.gfd ≠ invalidFd) :
    TableInv { t with lft := u, locals := locals } :=
  ⟨h.gft, hlft, hlocals, h.globals, h.unique, h.counts⟩

theorem TableInv.lftInsert (h : TableInv t) {entry : Lfe}
    (hret : MeOS.lftInsert t.gft t.lft entry = .ret (u', index)) :
    TableInv { t with
      lft := u'
      locals := if index = invalidFd then t.locals
        else Function.update t.locals index (some entry) } := by
  rcases lftInsert_spec hret h.lft.1 with ⟨_, rfl, rfl⟩ | ⟨hgfd, hins⟩
  · rw [if_pos rfl]
    exact h
  · have hle := hins.fits.le
    have hword := hins.fits.word
    have hlt : index < u'.count := lt_count_iff.mpr ⟨entry, hins.same⟩
    have hindex : index ≠ invalidFd := by
      unfold invalidFd
      omega
    have hgle := h.gft.1.le
    have hgword := h.gft.1.word
    have hvalid : entry.gfd ≠ invalidFd := by
      unfold invalidFd
      omega
    refine h.withLocals ⟨hins.fits, hins.rSize_pos⟩ ?_
    intro j e
    rw [if_neg hindex]
    by_cases hj : j = index
    · subst hj
      rw [Function.update_self, hins.same]
      constructor
      · intro he
        refine ⟨he, ?_⟩
        cases he
        exact hvalid
      · intro he
        exact he.1
    · rw [Function.update_of_ne hj, hins.other j hj]
      exact h.locals j e

theorem TableInv.lftRemove (h : TableInv t) (index : Nat) :
    TableInv { t with
      lft := (MeOS.lftRemove t.lft index).1, locals := Function.update t.locals index none } := by
  unfold MeOS.lftRemove
  by_cases hout : index ≥ t.lft.count
  · rw [if_pos hout]
    refine h.withLocals h.lft ?_
    intro j e
    by_cases hj : j = index
    · subst hj
      have hnone : t.lft.data[j]? = none := List.getElem?_eq_none hout
      rw [Function.update_self, hnone]
      constructor
      · intro he
        cases he
      · intro he
        cases he.1
    · rw [Function.update_of_ne hj]
      exact h.locals j e
  · rw [if_neg hout]
    refine h.withLocals ⟨h.lft.1.modify _ _, h.lft.2⟩ ?_
    intro j e
    by_cases hj : j = index
    · subst hj
      rcases lt_count_iff.mp (Nat.lt_of_not_le hout) with ⟨e', he'⟩
      dsimp only
      rw [Function.update_self, modify_same he']
      constructor
      · intro he
        cases he
      · intro ⟨he, hgfd⟩
        cases he
        exact absurd rfl hgfd
    · dsimp only
      rw [Function.update_of_ne hj, modify_other (Ne.symm hj)]
      exact h.locals j e

/-- A live entry keeps its node and its counts are raised together with its open count. -/
theorem TableInv.recount (h : TableInv t) (hlive : t.globals index = some node)
    {f : Gfe → Gfe} {opens closes : Nat → Nat} (hf : ∀ e, (f e).fileNode = e.fileNode)
    (hsame : ∀ j, j ≠ index → opens j = t.opens j ∧ closes j = t.closes j)
    (hcount : ∀ e, t.gft.data[index]? = some e → closes index ≤ opens index ∧
      (f e).openCount = (opens index - closes index) % 4294967296) :
    TableInv { t with gft := t.gft.modify index f, opens := opens, closes := closes } := by
  refine ⟨⟨h.gft.1.modify _ _, h.gft.2⟩, h.lft, h.locals, ?_, h.unique, ?_⟩
  · intro j n
    dsimp only
    rw [h.globals j n]
    by_cases hj : j = index
    · subst hj
      rcases h.live hlive with ⟨_, e, he, _⟩
      rw [he, modify_same he]
      simp [hf]
    · rw [modify_other (Ne.symm hj)]
  · intro j n e hn he
    dsimp only at hn he ⊢
    by_cases hj : j = index
    · subst hj
      rcases h.live hlive with ⟨_, e', he', _⟩
      rw [modify_same he'] at he
      cases he
      exact hcount e' he'
    · rw [modify_other (Ne.symm hj)] at he
      rw [(hsame j hj).1, (hsame j hj).2]
      exact h.counts j n e hn he

/-- The open count after one more open. -/
theorem open_mod {a b c : Nat} (hle : b ≤ a) (hc : c = (a - b) % 4294967296) :
    add32 c 1 = (a + 1 - b) % 4294967296 := by
  unfold add32
  omega

/-- The open count after one more close. -/
theorem close_mod {a b c : Nat} (hlt : b < a) (hc : c = (a - b) % 4294967296) :
    sub32 c 1 = (a - (b + 1)) % 4294967296 := by
  unfold sub32
  omega

theorem TableInv.reopen (h : TableInv t) (hlive : t.globals index = some node) :
    TableInv { t with
      gft := gftOpen t.gft index
      opens := Function.update t.opens index (t.opens index + 1) } := by
  unfold gftOpen
  refine h.recount hlive (fun _ => rfl) ?_ ?_
  · intro j hj
    exact ⟨Function.update_of_ne hj _ _, rfl⟩
  · intro e he
    rcases h.counts index node e hlive he with ⟨hle, hc⟩
    rw [Function.update_self]
    exact ⟨by omega, open_mod hle hc⟩

theorem TableInv.gftInsertS (h : TableInv t) (hnode : node ≠ 0)
    (hret : MeOS.gftInsertS t.gft (createGfe node) = .ret (v', index)) :
    TableInv (t.opened v' index node) := by
  rcases gftInsertS_spec hret h.gft.1 h.gft.2 with
    ⟨hfits, hother, ⟨e, he, heq, hnew⟩ | ⟨hall, hfresh, hnew⟩⟩
  · -- the node is open: its entry is opened once more
    have hlive : t.globals index = some node := (h.globals _ _).mpr ⟨hnode, e, he, heq⟩
    unfold TableRun.opened
    rw [if_pos hlive]
    have hv' : v'.data = (gftOpen t.gft index).data := by
      apply List.ext_getElem?
      intro j
      by_cases hj : j = index
      · subst hj
        rw [hnew, gftOpen_same he]
      · rw [hother j hj, gftOpen_other (Ne.symm hj)]
    have hre := h.reopen hlive
    refine ⟨hfits, h.lft, h.locals, ?_, h.unique, ?_⟩
    · intro j n
      dsimp only
      rw [hv']
      exact hre.globals j n
    · intro j n e hn he
      dsimp only at hn he ⊢
      rw [hv'] at he
      exact hre.counts j n e hn he
  · have hdead : t.globals index = none := h.not_live hfresh
    unfold TableRun.opened
    rw [hdead, if_neg (by simp)]
    -- no other descriptor stands for the node
    have hothers : ∀ j, t.globals j ≠ some node := by
      intro j hj
      rcases h.live hj with ⟨_, e, he, heq⟩
      exact hall j e he heq
    refine ⟨hfits, h.lft, h.locals, ?_, ?_, ?_⟩
    · intro j n
      dsimp only
      by_cases hj : j = index
      · subst hj
        rw [Function.update_self, hnew]
        constructor
        · intro hn
          cases hn
          exact ⟨hnode, _, rfl, rfl⟩
        · intro ⟨_, e, he, hn⟩
          cases he
          rw [← hn]
      · rw [Function.update_of_ne hj, hother j hj]
        exact h.globals j n
    · intro j k n hj hk
      dsimp only at hj hk
      by_cases hji : j = index
      · subst hji
        rw [Function.update_self] at hj
        cases hj
        by_cases hkj : k = j
        · exact hkj.symm
        · rw [Function.update_of_ne hkj] at hk
          exact absurd hk (hothers k)
      · rw [Function.update_of_ne hji] at hj
        by_cases hki : k = index
        · subst hki
          rw [Function.update_self] at hk
          cases hk
          exact absurd hj (hothers j)
        · rw [Function.update_of_ne hki] at hk
          exact h.unique j k n hj hk
    · intro j n e hn he
      dsimp only at hn he ⊢
      by_cases hj : j = index
      · subst hj
        rw [hnew] at he
        cases he
        rw [Function.update_self, Function.update_self]
        exact ⟨Nat.zero_le _, rfl⟩
      · rw [Function.update_of_ne hj] at hn
        rw [hother j hj] at he
        rw [Function.update_of_ne hj, Function.update_of_ne hj]
        exact h.counts j n e hn he

/-- A function that changes the table by the index of a live entry: what it does, and that there
is one. -/
theorem TableInv.changed {gft : Vector Gfe} (h : TableInv t)
    (hret : (match gftAt t.gft index with
      | none => (t.gft, ErrorT.occur)
      | some entry => if gfeIsInvalid entry then (t.gft, .occur) else (gft, .ok)) = (v', .ok)) :
    v' = gft ∧ ∃ n, t.globals index = some n := by
  unfold gftAt at hret
  cases he : t.gft.data[index]? with
  | none =>
    rw [he] at hret
    cases hret
  | some e =>
    rw [he] at hret
    by_cases hinv : gfeIsInvalid e = true
    · simp only [if_pos hinv] at hret
      cases hret
    · simp only [if_neg hinv] at hret
      cases hret
      refine ⟨rfl, e.fileNode, (h.globals _ _).mpr ⟨?_, e, he, rfl⟩⟩
      simpa [gfeIsInvalid] using hinv

/-- An entry that is opened or closed by its index is a live one. -/
theorem TableInv.increase (h : TableInv t)
    (hret : gfeIncreaseOpenCount t.gft index = (v', .ok)) :
    v' = gftOpen t.gft index ∧ ∃ n, t.globals index = some n :=
  h.changed hret

theorem TableInv.decrement (h : TableInv t)
    (hret : gfeDecrementOpenCount t.gft index = (v', .ok)) :
    v' = t.gft.modify index (fun e => { e with openCount := sub32 e.openCount 1 }) ∧
      ∃ n, t.globals index = some n :=
  h.changed hret

theorem TableInv.gftRemove (h : TableInv t) (index : Nat) :
    TableInv { t with
      gft := (MeOS.gftRemove t.gft index).1
      globals := Function.update t.globals index none } := by
  -- the removed descriptor stands for no node
  have hsub : ∀ j n, Function.update t.globals index none j = some n → t.globals j = some n ∧
      j ≠ index := by
    intro j n hj
    by_cases hji : j = index
    · rw [hji, Function.update_self] at hj
      cases hj
    · rw [Function.update_of_ne hji] at hj
      exact ⟨hj, hji⟩
  have hunique : ∀ j k n, Function.update t.globals index none j = some n →
      Function.update t.globals index none k = some n → j = k := by
    intro j k n hj hk
    exact h.unique j k n (hsub j n hj).1 (hsub k n hk).1
  unfold MeOS.gftRemove
  by_cases hout : index ≥ t.gft.count
  · rw [if_pos hout]
    have hnone : t.gft.data[index]? = none := List.getElem?_eq_none hout
    have hdead := h.not_live (Or.inl hnone)
    have hsame : Function.update t.globals index none = t.globals := by
      rw [← hdead, Function.update_eq_self]
    rw [hsame]
    exact h
  · rw [if_neg hout]
    refine ⟨⟨h.gft.1.modify _ _, h.gft.2⟩, h.lft, h.locals, ?_, hunique, ?_⟩
    · intro j n
      dsimp only
      by_cases hj : j = index
      · subst hj
        rcases lt_count_iff.mp (Nat.lt_of_not_le hout) with ⟨e, he⟩
        rw [Function.update_self, modify_same he]
        constructor
        · intro hn
          cases hn
        · intro ⟨hn, e', he', heq⟩
          cases he'
          exact absurd heq.symm hn
      · rw [Function.update_of_ne hj, modify_other (Ne.symm hj)]
        exact h.globals j n
    · intro j n e hn he
      dsimp only at hn he ⊢
      rcases hsub j n hn with ⟨hlive, hj⟩
      rw [modify_other (Ne.symm hj)] at he
      exact h.counts j n e hlive he

/-- Every call keeps the invariant. -/
theorem TableInv.step (h : TableInv t) (hstep : TableStep t t') : TableInv t' := by
  cases hstep with
  | lftInsert hret => exact h.lftInsert hret
  | lftRemove index => exact h.lftRemove index
  | gftInsertS hnode hret => exact h.gftInsertS hnode hret
  | gfeIncrease index hret =>
    rcases h.increase hret with ⟨rfl, n, hlive⟩
    exact h.reopen hlive
  | gfeDecrement index hopen hret =>
    rcases h.decrement hret with ⟨rfl, n, hlive⟩
    refine h.recount hlive (fun _ => rfl) ?_ ?_
    · intro j hj
      exact ⟨rfl, Function.update_of_ne hj _ _⟩
    · intro e he
      rcases h.counts _ n e hlive he with ⟨_, hc⟩
      rw [Function.update_self]
      exact ⟨hopen, close_mod hopen hc⟩
  | gftRemove index => exact h.gftRemove index

/-- The invariant holds in every run. -/
theorem tableInv_reachable {globalSize localSize : Nat} (hg : globalSize < 4294967296)
    (hl : localSize < 4294967296) (h : (tableSystem globalSize localSize).Reachable t) :
    TableInv t := by
  induction h with
  | init hinit => exact TableInv.init hg hl hinit
  | next _ hstep ih => exact ih.step hstep

/-! ## Live descriptors are kept -/

/-- An insert takes a descriptor that is not live, or the one of its node; the others stay. -/
theorem descriptors_kept {globalSize localSize : Nat} (hg : globalSize < 4294967296)
    (hl : localSize < 4294967296) (h : (tableSystem globalSize localSize).Reachable t) :
    (∀ i e, t.locals i = some e ↔ t.lft.data[i]? = some e ∧ e.gfd ≠ invalidFd) ∧
    (∀ i n, t.globals i = some n ↔ n ≠ 0 ∧ ∃ e, t.gft.data[i]? = some e ∧ e.fileNode = n) ∧
    (∀ i j n, t.globals i = some n → t.globals j = some n → i = j) ∧
    (∀ n i, t.globals i = some n → gftGetN t.gft n = i) ∧
    (∀ i n e, t.globals i = some n → t.gft.data[i]? = some e →
      e.openCount = (t.opens i - t.closes i) % 4294967296) ∧
    (∀ entry lft i, lftInsert t.gft t.lft entry = .ret (lft, i) →
      (t.gft.count ≤ entry.gfd ∧ i = invalidFd ∧ lft = t.lft) ∨
        (t.locals i = none ∧ lft.data[i]? = some entry ∧
          ∀ j, j ≠ i → lft.data[j]? = t.lft.data[j]?)) ∧
    (∀ n gft i, n ≠ 0 → gftInsertS t.gft (createGfe n) = .ret (gft, i) →
      (t.globals i = some n ∨ (t.globals i = none ∧ ∀ j, t.globals j ≠ some n)) ∧
        (∃ e, gft.data[i]? = some e ∧ e.fileNode = n) ∧
          ∀ j, j ≠ i → gft.data[j]? = t.gft.data[j]?) ∧
    (t.lft.count < 2147483648 → ∀ entry, ∃ lft i, lftInsert t.gft t.lft entry = .ret (lft, i)) ∧
    (t.gft.count < 2147483648 → ∀ n, ∃ gft i, gftInsertS t.gft (createGfe n) = .ret (gft, i)) := by
  have hinv := tableInv_reachable hg hl h
  refine ⟨hinv.locals, hinv.globals, hinv.unique, ?_, ?_, ?_, ?_, ?_, ?_⟩
  · intro n i hi
    exact (hinv.getN (hinv.live hi).1).1 i hi
  · intro i n e hn he
    exact (hinv.counts i n e hn he).2
  · intro entry lft i hret
    rcases lftInsert_spec hret hinv.lft.1 with hbad | ⟨_, hins⟩
    · exact Or.inl hbad
    · refine Or.inr ⟨?_, hins.same, hins.other⟩
      -- the entry the insertion took was free, so it stood for no descriptor
      cases hlive : t.locals i with
      | none => rfl
      | some e =>
        rcases (hinv.locals i e).mp hlive with ⟨he, hvalid⟩
        rcases hins.fresh with hnone | ⟨e', he', hinvalid⟩
        · rw [he] at hnone
          cases hnone
        · rw [he] at he'
          cases he'
          exact absurd (by simpa [lfeIsInvalid] using hinvalid) hvalid
  · intro n gft i hn hret
    rcases gftInsertS_spec hret hinv.gft.1 hinv.gft.2 with
      ⟨_, hother, ⟨e, he, heq, hnew⟩ | ⟨hall, hfresh, hnew⟩⟩
    · exact ⟨Or.inl ((hinv.globals _ _).mpr ⟨hn, e, he, heq⟩), ⟨_, hnew, heq⟩, hother⟩
    · refine ⟨Or.inr ⟨hinv.not_live hfresh, ?_⟩, ⟨_, hnew, rfl⟩, hother⟩
      intro j hj
      rcases hinv.live hj with ⟨_, e, he, heq⟩
      exact hall j e he heq
  · intro hsmall entry
    unfold lftInsert
    by_cases hbad : entry.gfd ≥ t.gft.count
    · rw [if_pos hbad]
      exact ⟨_, _, rfl⟩
    · rw [if_neg hbad]
      exact tableInsert_returns _ _ hinv.lft.1 hinv.lft.2 hsmall
  · intro hsmall n
    exact gftInsertS_returns hinv.gft.1 hinv.gft.2 hsmall

/-- One node that was opened `k` times. -/
def openedTimes (k : Nat) : TableRun where
  gft := { data := [{ fileNode := 1, openCount := k % 4294967296, pages := [] }], rSize := 1 }
  lft := vectorInit 1
  locals := fun _ => none
  globals := Function.update (fun _ => none) 0 (some 1)
  opens := Function.update (fun _ => 0) 0 k
  closes := fun _ => 0

/-- Opening a node once more raises its count. -/
theorem gftInsertS_again (c : Nat) :
    gftInsertS { data := [{ fileNode := 1, openCount := c, pages := [] }], rSize := 1 }
      (createGfe 1) =
    .ret ({ data := [{ fileNode := 1, openCount := add32 c 1, pages := [] }], rSize := 1 }, 0) :=
  rfl

/-- A node can be opened any number of times. -/
theorem openedTimes_reachable (k : Nat) :
    (tableSystem 1 1).Reachable (openedTimes (k + 1)) := by
  induction k with
  | zero =>
    have hinit : (tableSystem 1 1).Reachable
        ⟨vectorInit 1, vectorInit 1, fun _ => none, fun _ => none, fun _ => 0, fun _ => 0⟩ :=
      .init ⟨rfl, rfl, fun _ => rfl, fun _ => rfl⟩
    have hstep : gftInsertS (vectorInit 1) (createGfe 1) = .ret ((openedTimes 1).gft, 0) := rfl
    have hnext := hinit.next (.gftInsertS (by decide) hstep)
    have hsame : TableRun.opened
        ⟨vectorInit 1, vectorInit 1, fun _ => none, fun _ => none, fun _ => 0, fun _ => 0⟩
          (openedTimes 1).gft 0 1 = openedTimes 1 := by
      unfold TableRun.opened openedTimes
      simp
    rw [hsame] at hnext
    exact hnext
  | succ k ih =>
    have hstep := gftInsertS_again ((k + 1) % 4294967296)
    have hnext := ih.next (.gftInsertS (by decide) hstep)
    have hcount : add32 ((k + 1) % 4294967296) 1 = (k + 1 + 1) % 4294967296 := by
      unfold add32
      omega
    have hsame : (openedTimes (k + 1)).opened
        { data := [{ fileNode := 1, openCount := add32 ((k + 1) % 4294967296) 1, pages := [] }]
          rSize := 1 } 0 1 = openedTimes (k + 1 + 1) := by
      rw [hcount]
      unfold TableRun.opened openedTimes
      simp
    rw [hsame] at hnext
    exact hnext

theorem openedTimes_live (k : Nat) : (openedTimes k).globals 0 = some 1 := by
  unfold openedTimes
  simp

theorem openedTimes_opens (k : Nat) :
    (openedTimes k).opens 0 = k ∧ (openedTimes k).closes 0 = 0 := by
  unfold openedTimes
  simp

/-- The open count is a word: after 2 ^ 32 opens and no close it is 0. -/
theorem openCount_wraps : ¬∀ t : TableRun, (tableSystem 1 1).Reachable t →
    ∀ (i n : Nat) (e : Gfe), t.globals i = some n → t.gft.data[i]? = some e →
      e.openCount = t.opens i - t.closes i := by
  intro hall
  have hcount : ∀ k, (k + 1) % 4294967296 = k + 1 := by
    intro k
    have h := hall _ (openedTimes_reachable k) 0 1 _ (openedTimes_live _) rfl
    rw [(openedTimes_opens _).1, (openedTimes_opens _).2] at h
    exact h
  have hlast := hcount 4294967295
  omega

theorem descriptors_kept_twice : ∃ t : TableRun, t.globals 0 = some 1 ∧ gftGetN t.gft 1 = 0 ∧
    ∀ gft i, gftInsertS t.gft (createGfe 1) = .ret (gft, i) →
      ∀ j, j ≠ i → gft.data[j]? = t.gft.data[j]? := by
  have h := descriptors_kept (show 1 < 4294967296 by decide) (show 1 < 4294967296 by decide)
    (openedTimes_reachable 1)
  have hlive := openedTimes_live (1 + 1)
  refine ⟨openedTimes (1 + 1), hlive, h.2.2.2.1 1 0 hlive, ?_⟩
  intro gft i hret
  exact (h.2.2.2.2.2.2.1 1 gft i (by decide) hret).2.2

end Table

end MeOS
