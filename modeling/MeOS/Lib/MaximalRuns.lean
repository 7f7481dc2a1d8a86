import Mathlib.Tactic
import Mathlib.Data.List.TakeWhile

/-! # Maximal runs of a list

A maximal run is a non-empty stretch of neighbouring items that satisfy `p`,
with no further such item at either end. A scan from the left meets the runs
one after another: an item outside `p` starts no run, and a stretch of `p`
items in front of an item outside `p` is the first run.
-/

namespace MaximalRuns

variable {α : Type*} (p : α → Bool)

/-- `run` is a maximal run of `l`, with `pre` before it and `post` behind it. -/
structure MaximalRun (l pre run post : List α) : Prop where
  split : l = pre ++ run ++ post
  ne : run ≠ []
  holds : ∀ x ∈ run, p x = true
  before : ∀ x ∈ pre.getLast?, p x = false
  after : ∀ x ∈ post.head?, p x = false

instance [DecidableEq α] (l pre run post : List α) : Decidable (MaximalRun p l pre run post) :=
  decidable_of_iff (l = pre ++ run ++ post ∧ run ≠ [] ∧ (∀ x ∈ run, p x = true) ∧
      (∀ x ∈ pre.getLast?, p x = false) ∧ ∀ x ∈ post.head?, p x = false)
    ⟨fun ⟨h₁, h₂, h₃, h₄, h₅⟩ => ⟨h₁, h₂, h₃, h₄, h₅⟩,
      fun h => ⟨h.split, h.ne, h.holds, h.before, h.after⟩⟩

variable {p} {l pre run post cs rest : List α} {x : α}

/-- Every list is a stretch of `p` items and a rest that starts with none. -/
theorem exists_stretch (p : α → Bool) (l : List α) :
    ∃ cs rest, l = cs ++ rest ∧ (∀ x ∈ cs, p x = true) ∧ ∀ x ∈ rest.head?, p x = false := by
  refine ⟨l.takeWhile p, l.dropWhile p, List.takeWhile_append_dropWhile.symm, ?_, ?_⟩
  · intro x hx
    exact List.mem_takeWhile_imp hx
  · intro x hx
    have hhead := List.head?_dropWhile_not p l
    rw [Option.mem_def.mp hx] at hhead
    simpa using hhead

/-- A stretch that is followed by an item outside `p` is determined. -/
theorem stretch_unique {cs' rest' : List α} (h : cs ++ rest = cs' ++ rest')
    (hcs : ∀ x ∈ cs, p x = true) (hrest : ∀ x ∈ rest.head?, p x = false)
    (hcs' : ∀ x ∈ cs', p x = true) (hrest' : ∀ x ∈ rest'.head?, p x = false) :
    cs = cs' ∧ rest = rest' := by
  have htake : ∀ {as bs : List α}, (∀ x ∈ as, p x = true) → (∀ x ∈ bs.head?, p x = false) →
      (as ++ bs).takeWhile p = as := by
    intro as bs has hbs
    rw [List.takeWhile_append_of_pos has]
    cases bs with
    | nil => simp
    | cons b bs => simp [hbs b (by simp)]
  have hcc : cs = cs' := by
    rw [← htake hcs hrest, h, htake hcs' hrest']
  subst hcc
  exact ⟨rfl, List.append_cancel_left h⟩

/-- No run starts at an item outside `p`. -/
theorem maximalRun_cons (hx : p x = false) :
    MaximalRun p (x :: l) pre run post ↔
      ∃ pre', pre = x :: pre' ∧ MaximalRun p l pre' run post := by
  constructor
  · intro h
    cases pre with
    | nil =>
      obtain ⟨y, ys, rfl⟩ := List.exists_cons_of_ne_nil h.ne
      have hsplit := h.split
      simp only [List.nil_append, List.cons_append, List.cons.injEq] at hsplit
      have hy := h.holds y (by simp)
      rw [← hsplit.1, hx] at hy
      cases hy
    | cons y ys =>
      have hsplit := h.split
      simp only [List.cons_append, List.cons.injEq] at hsplit
      obtain ⟨rfl, hl⟩ := hsplit
      refine ⟨ys, rfl, hl, h.ne, h.holds, ?_, h.after⟩
      intro z hz
      exact h.before z (by rw [List.getLast?_cons, Option.mem_def.mp hz]; rfl)
  · rintro ⟨pre', rfl, h⟩
    refine ⟨by simp [h.split], h.ne, h.holds, ?_, h.after⟩
    intro z hz
    rw [List.getLast?_cons] at hz
    cases hlast : pre'.getLast? with
    | none =>
      have hzx : x = z := by simpa [hlast] using hz
      rw [← hzx, hx]
    | some y =>
      have hzy : y = z := by simpa [hlast] using hz
      exact h.before z (by rw [hlast, hzy]; rfl)

/-- A stretch of `p` items is the first run, the others are those of the rest. -/
theorem maximalRun_append (hcs : ∀ x ∈ cs, p x = true) (hne : cs ≠ [])
    (hrest : ∀ x ∈ rest.head?, p x = false) :
    MaximalRun p (cs ++ rest) pre run post ↔
      (pre = [] ∧ run = cs ∧ post = rest) ∨
        ∃ pre', pre = cs ++ pre' ∧ MaximalRun p rest pre' run post := by
  constructor
  · intro h
    rcases List.eq_nil_or_concat' pre with rfl | ⟨front, z, rfl⟩
    · have hsplit : run ++ post = cs ++ rest := by simpa using h.split.symm
      obtain ⟨hrun, hpost⟩ := stretch_unique hsplit h.holds h.after hcs hrest
      exact Or.inl ⟨rfl, hrun, hpost⟩
    · have hz : p z = false := h.before z (by simp)
      have hsplit : cs ++ rest = (front ++ [z]) ++ (run ++ post) := by simpa using h.split
      rcases List.append_eq_append_iff.mp hsplit with ⟨as, has, hr⟩ | ⟨as, has, _⟩
      · -- the stretch ends inside `pre`
        refine Or.inr ⟨as, has, by rw [hr, List.append_assoc], h.ne, h.holds, ?_, h.after⟩
        intro x hx
        refine h.before x ?_
        rw [has, List.getLast?_append, Option.mem_def.mp hx]
        rfl
      · -- `z` would be in the stretch
        have hmem : z ∈ cs := by simp [has]
        rw [hcs z hmem] at hz
        cases hz
  · rintro (⟨rfl, rfl, rfl⟩ | ⟨pre', rfl, h⟩)
    · exact ⟨by simp, hne, hcs, by simp, hrest⟩
    · refine ⟨by rw [h.split]; simp, h.ne, h.holds, ?_, h.after⟩
      intro x hx
      rcases List.eq_nil_or_concat' pre' with rfl | ⟨front, z, rfl⟩
      · -- the rest would start with a run at its head
        obtain ⟨y, ys, rfl⟩ := List.exists_cons_of_ne_nil h.ne
        have hy := hrest y (by rw [h.split]; simp)
        rw [h.holds y (by simp)] at hy
        cases hy
      · have hxz : x = z := by simpa using hx.symm
        exact h.before x (by rw [hxz]; simp)

/-- The empty list has no run. -/
theorem MaximalRun.nil_false (h : MaximalRun p [] pre run post) : False := by
  have hsplit := h.split
  simp only [List.nil_eq, List.append_eq_nil_iff] at hsplit
  exact h.ne hsplit.1.2

/-- `run` is the first of the maximal runs that satisfy `q`. -/
structure FirstRun (p : α → Bool) (q : List α → Prop) (l pre run post : List α) : Prop where
  maximal : MaximalRun p l pre run post
  fits : q run
  first : ∀ pre' run' post', MaximalRun p l pre' run' post' → q run' → pre.length ≤ pre'.length

variable {q : List α → Prop}

/-- The first run of a list is not changed by an item outside `p` in front. -/
theorem FirstRun.cons (hx : p x = false) (h : FirstRun p q l pre run post) :
    FirstRun p q (x :: l) (x :: pre) run post where
  maximal := (maximalRun_cons hx).mpr ⟨pre, rfl, h.maximal⟩
  fits := h.fits
  first := by
    intro pre' run' post' hmax hq
    obtain ⟨pre'', rfl, htail⟩ := (maximalRun_cons hx).mp hmax
    have hle := h.first _ _ _ htail hq
    simp only [List.length_cons]
    omega

/-- A first stretch that does not satisfy `q` is passed. -/
theorem FirstRun.append (hcs : ∀ x ∈ cs, p x = true) (hne : cs ≠ [])
    (hrest : ∀ x ∈ rest.head?, p x = false) (hq : ¬ q cs) (h : FirstRun p q rest pre run post) :
    FirstRun p q (cs ++ rest) (cs ++ pre) run post where
  maximal := (maximalRun_append hcs hne hrest).mpr (Or.inr ⟨pre, rfl, h.maximal⟩)
  fits := h.fits
  first := by
    intro pre' run' post' hmax hq'
    rcases (maximalRun_append hcs hne hrest).mp hmax with ⟨_, rfl, _⟩ | ⟨pre'', rfl, htail⟩
    · exact absurd hq' hq
    · have hle := h.first _ _ _ htail hq'
      simp only [List.length_append]
      omega

/-- A first stretch that satisfies `q` is the first run. -/
theorem FirstRun.head (hcs : ∀ x ∈ cs, p x = true) (hne : cs ≠ [])
    (hrest : ∀ x ∈ rest.head?, p x = false) (hq : q cs) : FirstRun p q (cs ++ rest) [] cs rest where
  maximal := (maximalRun_append hcs hne hrest).mpr (Or.inl ⟨rfl, rfl, rfl⟩)
  fits := hq
  first := by
    intro pre' _ _ _ _
    exact Nat.zero_le _

end MaximalRuns
