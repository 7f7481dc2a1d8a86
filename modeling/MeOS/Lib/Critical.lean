import MeOS.Lib.Runs
import Mathlib.Logic.Function.Basic

/-! # Critical sections on one processor

Threads share a processor, an object and a flag. An operation on the object sets the
flag, runs its body statement by statement and clears the flag; a tick gives the
processor to another thread unless the flag is set. Nothing tests the flag before it is
set. Whatever the schedule, the object goes through the states of the calls made one
after the other, in the order in which they cleared the flag.
-/

namespace Critical

open Runs

variable {σ ι π ρ α : Type*}

/-- An object: the body of an operation is a run of statements on the shared state. -/
structure Object (σ ι π ρ : Type*) where
  /-- The first statement of an operation. -/
  start : ι → π
  /-- One statement: the body goes on, or has its result. -/
  step : π → σ → σ × (π ⊕ ρ)

/-- Where a thread is. -/
inductive Pc (ι π ρ : Type*) where
  | outside
  /-- Before the flag is set. -/
  | call (op : ι)
  /-- Before a statement of the body. -/
  | inside (op : ι) (label : π)
  /-- Before the flag is cleared. -/
  | leave (op : ι) (result : ρ)

/-- The thread has not set the flag. -/
def Pc.Rests : Pc ι π ρ → Prop
  | outside | call _ => True
  | inside _ _ | leave _ _ => False

/-- The processor and its threads; `history` lists the calls with their threads and results as
they cleared the flag. -/
structure Machine (σ ι π ρ : Type*) where
  shared : σ
  flag : Bool
  current : Nat
  pc : Nat → Pc ι π ρ
  history : List (Nat × ι × ρ)

/-- What may happen next. -/
inductive Act (ι : Type*) where
  /-- The current thread calls an operation. -/
  | call (op : ι)
  /-- The current thread goes on in its call. -/
  | next
  /-- A tick that would run `thread`. -/
  | tick (thread : Nat)

namespace Machine

/-- The current thread goes on at `pc`. -/
def goto (m : Machine σ ι π ρ) (pc : Pc ι π ρ) : Machine σ ι π ρ :=
  { m with pc := Function.update m.pc m.current pc }

/-- One step. -/
def act (obj : Object σ ι π ρ) (m : Machine σ ι π ρ) : Act ι → Option (Machine σ ι π ρ)
  | .call op =>
    match m.pc m.current with
    | .outside => some (m.goto (.call op))
    | _ => none
  | .next =>
    match m.pc m.current with
    | .outside => none
    | .call op => some { m.goto (.inside op (obj.start op)) with flag := true }
    | .inside op label =>
      match obj.step label m.shared with
      | (s, .inl label') => some { m.goto (.inside op label') with shared := s }
      | (s, .inr r) => some { m.goto (.leave op r) with shared := s }
    | .leave op r =>
      some { m.goto .outside with
        flag := false
        history := m.history ++ [(m.current, op, r)] }
  | .tick thread => some (if m.flag then m else { m with current := thread })

/-- Steps one after the other; one that cannot happen is skipped. -/
def run (obj : Object σ ι π ρ) (m : Machine σ ι π ρ) (acts : List (Act ι)) : Machine σ ι π ρ :=
  acts.foldl (fun m a => (m.act obj a).getD m) m

end Machine

/-- All threads are outside, the flag is clear and the object is in the state `s₀`. -/
structure Machine.Fresh (s₀ : σ) (m : Machine σ ι π ρ) : Prop where
  shared : m.shared = s₀
  flag : m.flag = false
  pc : ∀ t, m.pc t = .outside
  history : m.history = []

/-- Any number of threads, any calls and any schedule. -/
def system (obj : Object σ ι π ρ) (s₀ : σ) : System (Machine σ ι π ρ) where
  Init := Machine.Fresh s₀
  Next m m' := ∃ a, m.act obj a = some m'

theorem reachable_run {obj : Object σ ι π ρ} {s₀ : σ} {m : Machine σ ι π ρ}
    (h : (system obj s₀).Reachable m) (acts : List (Act ι)) :
    (system obj s₀).Reachable (m.run obj acts) := by
  induction acts generalizing m with
  | nil => exact h
  | cons a acts ih =>
    refine ih (m := (m.act obj a).getD m) ?_
    cases hact : m.act obj a with
    | none => exact h
    | some m' => exact h.next ⟨a, hact⟩

/-! ## Calls one after the other -/

/-- The body runs from one statement in one state to another in another. -/
inductive Reaches (obj : Object σ ι π ρ) (p : π) (s : σ) : π → σ → Prop where
  | refl : Reaches obj p s p s
  | step {q q' : π} {t t' : σ} (h : Reaches obj p s q t) (hs : obj.step q t = (t', .inl q')) :
    Reaches obj p s q' t'

/-- From the statement `p` and the state `s` on, the body ends in `s'` with the result `r`. -/
def Returns (obj : Object σ ι π ρ) (p : π) (s s' : σ) (r : ρ) : Prop :=
  ∃ q t, Reaches obj p s q t ∧ obj.step q t = (s', .inr r)

/-- The call takes `s` to `s'` and has the result `r`. -/
def Calls (obj : Object σ ι π ρ) (op : ι) (s s' : σ) (r : ρ) : Prop :=
  Returns obj (obj.start op) s s' r

/-- The calls of the list, made one after the other, take `s₀` to `s`. -/
inductive Sequential (obj : Object σ ι π ρ) (s₀ : σ) : List (Nat × ι × ρ) → σ → Prop where
  | nil : Sequential obj s₀ [] s₀
  | snoc {l : List (Nat × ι × ρ)} {s s' : σ} {op : ι} {r : ρ} (t : Nat)
    (h : Sequential obj s₀ l s) (hc : Calls obj op s s' r) :
    Sequential obj s₀ (l ++ [(t, op, r)]) s'

/-- What the current thread has done to the object since the last call of the history. -/
def Progress (obj : Object σ ι π ρ) (s₀ : σ) (history : List (Nat × ι × ρ)) (s : σ) :
    Pc ι π ρ → Prop
  | .outside | .call _ => Sequential obj s₀ history s
  | .inside op p => ∃ s₁, Sequential obj s₀ history s₁ ∧ Reaches obj (obj.start op) s₁ p s
  | .leave op r => ∃ s₁, Sequential obj s₀ history s₁ ∧ Calls obj op s₁ s r

/-- One thread at a time has set the flag, and it is the current one. -/
structure Inv (obj : Object σ ι π ρ) (s₀ : σ) (m : Machine σ ι π ρ) : Prop where
  others : ∀ t, t ≠ m.current → (m.pc t).Rests
  flag : m.flag = false ↔ (m.pc m.current).Rests
  progress : Progress obj s₀ m.history m.shared (m.pc m.current)

section Returns

variable {obj : Object σ ι π ρ} {p q : π} {s t u : σ} {r v : ρ}

/-- A run of the body stops where it starts, or begins with the first statement. -/
theorem Reaches.first (h : Reaches obj p s q u) :
    (q = p ∧ u = s) ∨ ∃ p' t, obj.step p s = (t, .inl p') ∧ Reaches obj p' t q u := by
  induction h with
  | refl => exact Or.inl ⟨rfl, rfl⟩
  | step h hs ih =>
    rcases ih with ⟨rfl, rfl⟩ | ⟨p', t, hfirst, hreach⟩
    · exact Or.inr ⟨_, _, hs, .refl⟩
    · exact Or.inr ⟨p', t, hfirst, hreach.step hs⟩

/-- The body goes on behind its first statement. -/
theorem Returns.next (h : Returns obj p s u r) (hs : obj.step p s = (t, .inl q)) :
    Returns obj q t u r := by
  obtain ⟨p', s', hreach, hlast⟩ := h
  rcases hreach.first with ⟨rfl, rfl⟩ | ⟨p₁, s₁, hfirst, hrest⟩
  · rw [hs] at hlast
    cases hlast
  · rw [hs] at hfirst
    cases hfirst
    exact ⟨p', s', hrest, hlast⟩

/-- The body ends with its first statement. -/
theorem Returns.last (h : Returns obj p s u r) (hs : obj.step p s = (t, .inr v)) :
    u = t ∧ r = v := by
  obtain ⟨p', s', hreach, hlast⟩ := h
  rcases hreach.first with ⟨rfl, rfl⟩ | ⟨p₁, s₁, hfirst, _⟩
  · rw [hs] at hlast
    cases hlast
    exact ⟨rfl, rfl⟩
  · rw [hs] at hfirst
    cases hfirst

end Returns

section Steps

variable {obj : Object σ ι π ρ} {s₀ : σ} {m m' : Machine σ ι π ρ}

@[simp] theorem goto_pc (pc : Pc ι π ρ) : (m.goto pc).pc m.current = pc :=
  Function.update_self _ _ _

theorem goto_other {t : Nat} (pc : Pc ι π ρ) (h : t ≠ m.current) : (m.goto pc).pc t = m.pc t :=
  Function.update_of_ne h _ _

/-- The invariant after a step of the current thread to `pc`. -/
theorem Inv.moved {pc : Pc ι π ρ} (h : Inv obj s₀ m) (hcurrent : m'.current = m.current)
    (hpc : m'.pc = (m.goto pc).pc) (hflag : m'.flag = false ↔ pc.Rests)
    (hprogress : Progress obj s₀ m'.history m'.shared pc) : Inv obj s₀ m' := by
  have hself : m'.pc m'.current = pc := by
    rw [hpc, hcurrent]
    exact goto_pc pc
  refine ⟨?_, ?_, ?_⟩
  · intro t ht
    rw [hcurrent] at ht
    rw [hpc, goto_other pc ht]
    exact h.others t ht
  · rw [hself]
    exact hflag
  · rw [hself]
    exact hprogress

/-- With the flag clear the processor can be given to any thread. -/
theorem Inv.switched (h : Inv obj s₀ m) (hflag : m.flag = false) (t : Nat) :
    Inv obj s₀ { m with current := t } := by
  have hall : ∀ u, (m.pc u).Rests := by
    intro u
    by_cases hu : u = m.current
    · rw [hu]
      exact h.flag.mp hflag
    · exact h.others u hu
  have hseq : Sequential obj s₀ m.history m.shared := by
    have hprogress := h.progress
    have hrests := hall m.current
    cases hpc : m.pc m.current with
    | outside => rwa [hpc] at hprogress
    | call op => rwa [hpc] at hprogress
    | inside op p => rw [hpc] at hrests; exact hrests.elim
    | leave op r => rw [hpc] at hrests; exact hrests.elim
  refine ⟨fun u _ => hall u, ⟨fun _ => hall t, fun _ => hflag⟩, ?_⟩
  show Progress obj s₀ m.history m.shared (m.pc t)
  have hrests := hall t
  cases hpc : m.pc t with
  | outside => exact hseq
  | call op => exact hseq
  | inside op p => rw [hpc] at hrests; exact hrests.elim
  | leave op r => rw [hpc] at hrests; exact hrests.elim

/-- A step of the current thread in its call keeps the invariant. -/
theorem Inv.next (h : Inv obj s₀ m) (hact : m.act obj .next = some m') : Inv obj s₀ m' := by
  have hflag := h.flag
  have hprogress := h.progress
  unfold Machine.act at hact
  cases hpc : m.pc m.current with
  | outside => rw [hpc] at hact; cases hact
  | call op =>
    rw [hpc] at hact hprogress
    cases hact
    exact h.moved rfl rfl ⟨nofun, False.elim⟩ ⟨m.shared, hprogress, .refl⟩
  | inside op p =>
    rw [hpc] at hact hprogress hflag
    obtain ⟨s₁, hseq, hreach⟩ := hprogress
    obtain ⟨⟨s, next⟩, hstep⟩ : ∃ x, obj.step p m.shared = x := ⟨_, rfl⟩
    simp only [hstep] at hact
    cases next with
    | inl p' =>
      cases hact
      exact h.moved rfl rfl hflag ⟨s₁, hseq, hreach.step hstep⟩
    | inr r =>
      cases hact
      exact h.moved rfl rfl hflag ⟨s₁, hseq, p, m.shared, hreach, hstep⟩
  | leave op r =>
    rw [hpc] at hact hprogress
    cases hact
    obtain ⟨s₁, hseq, hcall⟩ := hprogress
    exact h.moved rfl rfl ⟨fun _ => trivial, fun _ => rfl⟩ (hseq.snoc m.current hcall)

/-- Every step keeps the invariant. -/
theorem Inv.act {a : Act ι} (h : Inv obj s₀ m) (hact : m.act obj a = some m') :
    Inv obj s₀ m' := by
  cases a with
  | call op =>
    have hflag := h.flag
    have hprogress := h.progress
    unfold Machine.act at hact
    cases hpc : m.pc m.current with
    | outside =>
      rw [hpc] at hact hflag hprogress
      cases hact
      exact h.moved rfl rfl hflag hprogress
    | call op => rw [hpc] at hact; cases hact
    | inside op p => rw [hpc] at hact; cases hact
    | leave op r => rw [hpc] at hact; cases hact
  | next => exact h.next hact
  | tick t =>
    simp only [Machine.act, Option.some.injEq] at hact
    by_cases hflag : m.flag = true
    · rw [if_pos hflag] at hact
      exact hact ▸ h
    · rw [if_neg hflag] at hact
      exact hact ▸ h.switched (Bool.not_eq_true _ ▸ hflag) t

/-- In every reachable state one thread at most is in a body, and the object is where the calls
of the history, made one after the other, and the statements of that body have taken it. -/
theorem atomic (h : (system obj s₀).Reachable m) : Inv obj s₀ m := by
  refine System.Inductive.holds (S := system obj s₀) ⟨?_, ?_⟩ h
  · intro m hm
    refine ⟨?_, ?_, ?_⟩
    · intro t _
      rw [hm.pc t]
      trivial
    · rw [hm.pc]
      exact ⟨fun _ => trivial, fun _ => hm.flag⟩
    · rw [hm.pc, hm.history, hm.shared]
      exact .nil
  · rintro m m' hinv ⟨a, hact⟩
    exact hinv.act hact

end Steps

/-! ## Objects that implement a specification -/

/-- The results are those that `spec` gives, from the abstract state `a` on, and it ends in `b`. -/
def Legal (spec : ι → α → α × ρ) : α → List (Nat × ι × ρ) → α → Prop
  | a, [], b => a = b
  | a, (_, op, r) :: l, b => (spec op a).2 = r ∧ Legal spec (spec op a).1 l b

/-- Every call of the object does what `spec` says, between states that `Rep` relates. -/
structure Implements (obj : Object σ ι π ρ) (spec : ι → α → α × ρ) (Rep : α → σ → Prop) :
    Prop where
  call : ∀ op a s s' r, Rep a s → Calls obj op s s' r →
    (spec op a).2 = r ∧ Rep (spec op a).1 s'

section Specs

variable {obj : Object σ ι π ρ} {spec : ι → α → α × ρ} {Rep : α → σ → Prop} {s₀ s : σ}
  {a b c : α} {l l' : List (Nat × ι × ρ)} {m : Machine σ ι π ρ}

theorem Legal.append (h : Legal spec a l b) (h' : Legal spec b l' c) :
    Legal spec a (l ++ l') c := by
  induction l generalizing a with
  | nil =>
    cases h
    exact h'
  | cons x l ih => exact ⟨h.1, ih h.2⟩

theorem Legal.snoc {op : ι} {r : ρ} (t : Nat) (h : Legal spec a l b) (hr : (spec op b).2 = r) :
    Legal spec a (l ++ [(t, op, r)]) (spec op b).1 :=
  h.append ⟨hr, rfl⟩

/-- Calls made one after the other refine the specification. -/
theorem Implements.sequential (himp : Implements obj spec Rep) (hrep : Rep a s₀)
    (h : Sequential obj s₀ l s) : ∃ b, Legal spec a l b ∧ Rep b s := by
  induction h with
  | nil => exact ⟨a, rfl, hrep⟩
  | snoc t _ hcall ih =>
    obtain ⟨b, hlegal, hb⟩ := ih
    obtain ⟨hresult, hnext⟩ := himp.call _ _ _ _ _ hb hcall
    exact ⟨_, hlegal.snoc t hresult, hnext⟩

/-- So do calls from any number of threads under any schedule. -/
theorem Implements.linear (himp : Implements obj spec Rep) (hrep : Rep a s₀)
    (h : (system obj s₀).Reachable m) :
    ∃ b s₁, Legal spec a m.history b ∧ Rep b s₁ ∧ ((∀ t, (m.pc t).Rests) → m.shared = s₁) := by
  have hprogress := (atomic h).progress
  cases hpc : m.pc m.current with
  | outside | call op =>
    rw [hpc] at hprogress
    obtain ⟨b, hlegal, hb⟩ := himp.sequential hrep hprogress
    exact ⟨b, m.shared, hlegal, hb, fun _ => rfl⟩
  | inside op p | leave op r =>
    rw [hpc] at hprogress
    obtain ⟨s₁, hseq, _⟩ := hprogress
    obtain ⟨b, hlegal, hb⟩ := himp.sequential hrep hseq
    refine ⟨b, s₁, hlegal, hb, fun hall => ?_⟩
    have hrests := hall m.current
    rw [hpc] at hrests
    exact hrests.elim

end Specs

end Critical
