import Mathlib.Order.RelClasses
import Mathlib.Data.List.Basic
import Mathlib.Tactic

/-! # Lists in a strict weak order

Elements that are neither below nor above each other count as the same. A list in ascending order
splits at any element, which can be put between the two parts.
-/

namespace SortedLists

variable {α : Type} [LT α] {l pre post : List α} {a b c x : α}

/-- No element is above a later one. -/
def Ascending (l : List α) : Prop := l.Pairwise fun a b => ¬ b < a

instance [DecidableLT α] (l : List α) : Decidable (Ascending l) :=
  inferInstanceAs (Decidable (l.Pairwise fun a b => ¬ b < a))

/-- The list is `pre` and `post`; `x` belongs between them, behind its equals. -/
structure SplitsAt (l : List α) (x : α) (pre post : List α) : Prop where
  eq : l = pre ++ post
  front : ∀ y ∈ pre, ¬ x < y
  back : ∀ y ∈ post, x < y

/-- A linear order is a strict weak one. -/
instance strictWeak_of_linear {β : Type} [LinearOrder β] : IsStrictWeakOrder β (· < ·) :=
  isStrictWeakOrder_of_isOrderConnected

section

variable [IsStrictWeakOrder α (· < ·)]

theorem neg_trans (h : ¬ a < b) (h' : ¬ b < c) : ¬ a < c := by
  intro hac
  have hba : ¬ b < a := fun hba => h' (IsTrans.trans _ _ _ hba hac)
  have hcb : ¬ c < b := fun hcb => h (IsTrans.trans _ _ _ hac hcb)
  exact (IsStrictWeakOrder.incomp_trans a b c ⟨h, hba⟩ ⟨h', hcb⟩).1 hac

theorem lt_of_lt_of_not_lt (h : a < b) (h' : ¬ c < b) : a < c := by
  by_contra hac
  exact neg_trans hac h' h

/-- A list in ascending order splits at any element. -/
theorem Ascending.split (h : Ascending l) (x : α) : ∃ pre post, SplitsAt l x pre post := by
  induction l with
  | nil => exact ⟨[], [], rfl, nofun, nofun⟩
  | cons a l ih =>
    obtain ⟨hfirst, hrest⟩ := List.pairwise_cons.mp h
    by_cases hxa : x < a
    · refine ⟨[], a :: l, rfl, nofun, fun y hy => ?_⟩
      rcases List.mem_cons.mp hy with rfl | hy
      · exact hxa
      · exact lt_of_lt_of_not_lt hxa (hfirst y hy)
    · obtain ⟨pre, post, heq, hpre, hpost⟩ := ih hrest
      refine ⟨a :: pre, post, by rw [heq, List.cons_append], fun y hy => ?_, hpost⟩
      rcases List.mem_cons.mp hy with rfl | hy
      · exact hxa
      · exact hpre y hy

/-- With the element in its place the order is kept. -/
theorem Ascending.insert (h : Ascending l) (hsplit : SplitsAt l x pre post) :
    Ascending (pre ++ x :: post) := by
  obtain ⟨rfl, hpre, hpost⟩ := hsplit
  obtain ⟨hfront, hback, hbetween⟩ := List.pairwise_append.mp h
  refine List.pairwise_append.mpr ⟨hfront, List.pairwise_cons.mpr ⟨fun y hy => ?_, hback⟩, ?_⟩
  · exact asymm (hpost y hy)
  · intro a ha b hb
    rcases List.mem_cons.mp hb with rfl | hb
    · exact hpre a ha
    · exact hbetween a ha b hb

/-- A strictly ascending list is ascending. -/
theorem ascending_of_lt (h : l.Pairwise (· < ·)) : Ascending l := h.imp asymm

theorem nodup_of_lt (h : l.Pairwise (· < ·)) : l.Nodup := by
  refine List.Pairwise.imp ?_ h
  rintro a b hlt rfl
  exact irrefl a hlt

/-- In a strictly ascending list one element at most is neither below nor above `x`: the last one of
the front part. -/
theorem front_cases (h : l.Pairwise (· < ·)) (hsplit : SplitsAt l x pre post) :
    (∀ y ∈ pre, y < x) ∨
      ∃ front y, pre = front ++ [y] ∧ (∀ z ∈ front, z < x) ∧ ¬ x < y ∧ ¬ y < x := by
  obtain ⟨rfl, hpre, _⟩ := hsplit
  cases pre using List.reverseRecOn with
  | nil => exact .inl nofun
  | append_singleton front y _ =>
    have hbefore : ∀ z ∈ front, z < y := fun z hz =>
      (List.pairwise_append.mp (List.pairwise_append.mp h).1).2.2 z hz y List.mem_cons_self
    have hxy : ¬ x < y := hpre y (by simp)
    by_cases hyx : y < x
    · refine .inl fun z hz => ?_
      rcases List.mem_append.mp hz with hz | hz
      · exact IsTrans.trans _ _ _ (hbefore z hz) hyx
      · rw [List.mem_singleton.mp hz]
        exact hyx
    · exact .inr ⟨front, y, rfl, fun z hz => lt_of_lt_of_not_lt (hbefore z hz) hxy, hxy, hyx⟩

end

/-- The element in its place is one element more. -/
theorem SplitsAt.perm (h : SplitsAt l x pre post) : (pre ++ x :: post).Perm (x :: l) := by
  rw [h.eq]
  exact List.perm_middle

end SortedLists
