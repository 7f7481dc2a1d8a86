import Mathlib.Logic.Basic

/-! # Resources with one owner each

`R p f` says that the owner `p` holds the resource `f`; an allocator knows which
resources are in use. No resource has two owners, and what is owned is in use.
-/

namespace Ownership

variable {P F : Type*}

/-- No resource is shared, and none that is owned counts as free. -/
structure Owned (R : P → F → Prop) (used : F → Prop) : Prop where
  unshared : ∀ p q f, R p f → R q f → p = q
  used : ∀ p f, R p f → used f

variable {R R' : P → F → Prop} {used used' : F → Prop} {p : P} {f : F}

/-- An owner gets a resource that was free. -/
theorem Owned.grant (h : Owned R used) (hfresh : ¬ used f)
    (hR : ∀ q g, R' q g → (q = p ∧ g = f) ∨ R q g) (hf : used' f) (hkeep : ∀ g, used g → used' g) :
    Owned R' used' where
  unshared := by
    intro q r g hq hr
    rcases hR q g hq with ⟨rfl, rfl⟩ | hq'
    · rcases hR r g hr with ⟨rfl, _⟩ | hr'
      · rfl
      · exact absurd (h.used r g hr') hfresh
    · rcases hR r g hr with ⟨_, rfl⟩ | hr'
      · exact absurd (h.used q g hq') hfresh
      · exact h.unshared q r g hq' hr'
  used := by
    intro q g hq
    rcases hR q g hq with ⟨_, rfl⟩ | hq'
    · exact hf
    · exact hkeep g (h.used q g hq')

/-- Nothing changes for the owners. -/
theorem Owned.mono (h : Owned R used) (hR : ∀ q g, R' q g → R q g)
    (hkeep : ∀ q g, R q g → used' g) : Owned R' used' where
  unshared := fun q r g hq hr => h.unshared q r g (hR q g hq) (hR r g hr)
  used := fun q g hq => hkeep q g (hR q g hq)

/-- What is still owned was owned, and is in use. -/
theorem Owned.restrict (h : Owned R used) (hR : ∀ q g, R' q g → R q g ∧ used' g) :
    Owned R' used' where
  unshared := fun q r g hq hr => h.unshared q r g (hR q g hq).1 (hR r g hr).1
  used := fun q g hq => (hR q g hq).2

end Ownership
