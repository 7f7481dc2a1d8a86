import Mathlib.Tactic
import Mathlib.Data.List.Pairwise

/-! # Half-open extents over a linear order

`lo x` and `hi x` are the inclusive lower and the exclusive upper bound of an
item. Two shapes of a list of items occur in allocators and address spaces:

* `Ordered`: the items are apart and listed from low to high;
* `Tiles a z`: the items follow one another without gap or overlap and cover
  exactly `[a, z)`.
-/

namespace Extents

variable {α β : Type*} [LinearOrder β] (lo hi : α → β)

/-- `x` ends before `y` starts. -/
def Before (x y : α) : Prop := hi x ≤ lo y

/-- Two items share no point. -/
def Apart (x y : α) : Prop := hi x ≤ lo y ∨ hi y ≤ lo x

/-- The items are apart and listed in increasing order. -/
def Ordered (l : List α) : Prop := l.Pairwise (Before lo hi)

/-- The items of `l` cover `[a, z)` one after another. -/
def Tiles : β → List α → β → Prop
  | a, [], z => a = z
  | a, x :: xs, z => lo x = a ∧ a ≤ hi x ∧ Tiles (hi x) xs z

instance Tiles.decide :
    (a : β) → (l : List α) → (z : β) → Decidable (Tiles lo hi a l z)
  | a, [], z => inferInstanceAs (Decidable (a = z))
  | a, x :: xs, z =>
    have : Decidable (Tiles lo hi (hi x) xs z) := Tiles.decide (hi x) xs z
    inferInstanceAs (Decidable (lo x = a ∧ a ≤ hi x ∧ Tiles lo hi (hi x) xs z))

variable {lo hi}

/-! ## Tilings -/

theorem Tiles.le {a z : β} {l : List α} (h : Tiles lo hi a l z) : a ≤ z := by
  induction l generalizing a with
  | nil => exact le_of_eq h
  | cons x xs ih => exact h.2.1.trans (ih h.2.2)

/-- A list tiles one range from a given start. -/
theorem Tiles.end_eq {a y z : β} {l : List α} (hy : Tiles lo hi a l y)
    (hz : Tiles lo hi a l z) : y = z := by
  induction l generalizing a with
  | nil => exact hy.symm.trans hz
  | cons x xs ih => exact ih hy.2.2 hz.2.2

/-- A tiling of a concatenation is a tiling of both parts that meet. -/
theorem tiles_append {a z : β} {xs ys : List α} :
    Tiles lo hi a (xs ++ ys) z ↔ ∃ m, Tiles lo hi a xs m ∧ Tiles lo hi m ys z := by
  induction xs generalizing a with
  | nil =>
    constructor
    · intro h
      exact ⟨a, rfl, h⟩
    · rintro ⟨m, rfl, h⟩
      exact h
  | cons x xs ih =>
    simp only [List.cons_append, Tiles, ih]
    constructor
    · rintro ⟨hlo, hle, m, h₁, h₂⟩
      exact ⟨m, ⟨hlo, hle, h₁⟩, h₂⟩
    · rintro ⟨m, ⟨hlo, hle, h₁⟩, h₂⟩
      exact ⟨hlo, hle, m, h₁, h₂⟩

/-- Every tile lies inside the tiled range. -/
theorem Tiles.mem_bounds {a z : β} {l : List α} (h : Tiles lo hi a l z) {x : α} (hx : x ∈ l) :
    a ≤ lo x ∧ lo x ≤ hi x ∧ hi x ≤ z := by
  induction l generalizing a with
  | nil => cases hx
  | cons y ys ih =>
    obtain ⟨hlo, hle, htail⟩ := h
    rcases List.mem_cons.mp hx with rfl | hy
    · exact ⟨hlo.ge, hlo.trans_le hle, htail.le⟩
    · obtain ⟨h₁, h₂, h₃⟩ := ih htail hy
      exact ⟨hle.trans h₁, h₂, h₃⟩

/-- Every point of the tiled range is in a tile. -/
theorem Tiles.cover {a z : β} {l : List α} (h : Tiles lo hi a l z) {x : β} (ha : a ≤ x)
    (hz : x < z) : ∃ y ∈ l, lo y ≤ x ∧ x < hi y := by
  induction l generalizing a with
  | nil =>
    have haz : a = z := h
    exact absurd (haz ▸ ha) (not_le.mpr hz)
  | cons y ys ih =>
    obtain ⟨hlo, _, htail⟩ := h
    by_cases hx : x < hi y
    · exact ⟨y, by simp, hlo.trans_le ha, hx⟩
    · obtain ⟨w, hw, hin⟩ := ih htail (not_lt.mp hx)
      exact ⟨w, by simp [hw], hin⟩

/-- A tiling is ordered. -/
theorem Tiles.ordered {a z : β} {l : List α} (h : Tiles lo hi a l z) : Ordered lo hi l := by
  induction l generalizing a with
  | nil => exact List.Pairwise.nil
  | cons x xs ih =>
    refine List.Pairwise.cons (fun y hy => ?_) (ih h.2.2)
    exact (h.2.2.mem_bounds hy).1

/-! ## Ordered lists -/

/-- Distinct members of an ordered list are apart. -/
theorem Ordered.apart {l : List α} (h : Ordered lo hi l) {x y : α} (hx : x ∈ l) (hy : y ∈ l)
    (hne : x ≠ y) : Apart lo hi x y := by
  induction l with
  | nil => cases hx
  | cons z zs ih =>
    obtain ⟨hhead, htail⟩ := List.pairwise_cons.mp h
    rcases List.mem_cons.mp hx with rfl | hx'
    · rcases List.mem_cons.mp hy with rfl | hy'
      · exact absurd rfl hne
      · exact Or.inl (hhead y hy')
    · rcases List.mem_cons.mp hy with rfl | hy'
      · exact Or.inr (hhead x hx')
      · exact ih htail hx' hy'

/-- Items of an ordered list that are not empty start at increasing points. -/
theorem Ordered.increasing {l : List α} (h : Ordered lo hi l) (hne : ∀ x ∈ l, lo x < hi x) :
    l.Pairwise fun x y => lo x < lo y :=
  h.imp_of_mem fun hx _ hxy => (hne _ hx).trans_le hxy

/-- A list of increasing starts falls into the items that start before a point
and the others. -/
theorem exists_split {l : List α} (h : l.Pairwise fun x y => lo x < lo y) (t : β) :
    ∃ xs ys, l = xs ++ ys ∧ (∀ x ∈ xs, lo x < t) ∧ ∀ y ∈ ys, t ≤ lo y := by
  induction l with
  | nil => exact ⟨[], [], rfl, by simp, by simp⟩
  | cons a l ih =>
    obtain ⟨hhead, htail⟩ := List.pairwise_cons.mp h
    by_cases ha : lo a < t
    · obtain ⟨xs, ys, rfl, hxs, hys⟩ := ih htail
      refine ⟨a :: xs, ys, rfl, ?_, hys⟩
      intro x hx
      rcases List.mem_cons.mp hx with rfl | hx
      · exact ha
      · exact hxs x hx
    · refine ⟨[], a :: l, rfl, by simp, ?_⟩
      intro y hy
      rcases List.mem_cons.mp hy with rfl | hy
      · exact not_lt.mp ha
      · exact (not_lt.mp ha).trans (hhead y hy).le

/-- What comes after the last item comes after all of them. -/
theorem Ordered.before_of_getLast {l : List α} (h : Ordered lo hi l)
    (hne : ∀ y ∈ l, lo y ≤ hi y) {x : α} (hlast : ∀ p ∈ l.getLast?, Before lo hi p x) :
    ∀ p ∈ l, Before lo hi p x := by
  rcases List.eq_nil_or_concat' l with rfl | ⟨front, z, rfl⟩
  · simp
  have hz : Before lo hi z x := hlast z (by simp)
  intro p hp
  rcases List.mem_append.mp hp with hp | hp
  · have hpz : hi p ≤ lo z := (List.pairwise_append.mp h).2.2 p hp z (by simp)
    exact (hpz.trans (hne z (by simp))).trans hz
  · obtain rfl := List.mem_singleton.mp hp
    exact hz

/-- What comes before the first item comes before all of them. -/
theorem Ordered.before_of_head {l : List α} (h : Ordered lo hi l)
    (hne : ∀ y ∈ l, lo y ≤ hi y) {x : α} (hhead : ∀ q ∈ l.head?, Before lo hi x q) :
    ∀ q ∈ l, Before lo hi x q := by
  cases l with
  | nil => simp
  | cons z rest =>
    have hz : hi x ≤ lo z := hhead z (by simp)
    intro q hq
    rcases List.mem_cons.mp hq with rfl | hq
    · exact hz
    · have hzq : hi z ≤ lo q := (List.pairwise_cons.mp h).1 q hq
      exact (hz.trans (hne z (by simp))).trans hzq

/-- An item put between its neighbours keeps the order. -/
theorem Ordered.insert {xs ys : List α} {x : α} (h : Ordered lo hi (xs ++ ys))
    (hxs : ∀ p ∈ xs, Before lo hi p x) (hys : ∀ q ∈ ys, Before lo hi x q) :
    Ordered lo hi (xs ++ x :: ys) := by
  obtain ⟨h₁, h₂, h₃⟩ := List.pairwise_append.mp h
  refine List.pairwise_append.mpr ⟨h₁, List.pairwise_cons.mpr ⟨hys, h₂⟩, ?_⟩
  intro p hp q hq
  rcases List.mem_cons.mp hq with rfl | hq
  · exact hxs p hp
  · exact h₃ p hp q hq

/-- Ordered items of at least `w` points each need that much room. -/
theorem Ordered.length_mul_le {lo hi : α → Nat} {l : List α} {a z w : Nat}
    (h : Ordered lo hi l) (ha : a ≤ z) (hlo : ∀ x ∈ l, a ≤ lo x)
    (hw : ∀ x ∈ l, lo x + w ≤ hi x) (hhi : ∀ x ∈ l, hi x ≤ z) : a + w * l.length ≤ z := by
  induction l generalizing a with
  | nil => simpa using ha
  | cons x xs ih =>
    obtain ⟨hhead, htail⟩ := List.pairwise_cons.mp h
    have hx := hlo x (by simp)
    have hwx := hw x (by simp)
    have hrest := ih (a := hi x) htail (hhi x (by simp)) (fun y hy => hhead y hy)
      (fun y hy => hw y (by simp [hy])) (fun y hy => hhi y (by simp [hy]))
    rw [List.length_cons, Nat.mul_succ]
    omega

/-- A point lies in one item of an ordered list at most. -/
theorem Ordered.index_unique {l : List α} (h : Ordered lo hi l) {i j : Nat} {x y : α} {t : β}
    (hi' : l[i]? = some x) (hj : l[j]? = some y) (hx : lo x ≤ t ∧ t < hi x)
    (hy : lo y ≤ t ∧ t < hi y) : i = j := by
  obtain ⟨hil, rfl⟩ := List.getElem?_eq_some_iff.mp hi'
  obtain ⟨hjl, rfl⟩ := List.getElem?_eq_some_iff.mp hj
  have hpair := List.pairwise_iff_getElem.mp h
  rcases Nat.lt_trichotomy i j with hlt | heq | hgt
  · exact absurd ((hpair i j hil hjl hlt).trans hy.1) (not_le.mpr hx.2)
  · exact heq
  · exact absurd ((hpair j i hjl hil hgt).trans hx.1) (not_le.mpr hy.2)

/-! ## Gaps -/

section Gaps

variable {lo hi : α → Nat} {w a : Nat} {l : List α}

/-- The start of the first gap of at least `w` points between two neighbours. -/
def firstGap (lo hi : α → Nat) (w : Nat) : List α → Option Nat
  | p :: q :: rest => if hi p + w ≤ lo q then some (hi p) else firstGap lo hi w (q :: rest)
  | _ => none

/-- The gap starts where an item ends. -/
theorem firstGap_mem (ha : firstGap lo hi w l = some a) : ∃ x ∈ l, hi x = a := by
  induction l with
  | nil => cases ha
  | cons p rest ih =>
    cases rest with
    | nil => cases ha
    | cons q rest =>
      rw [firstGap] at ha
      by_cases hgap : hi p + w ≤ lo q
      · rw [if_pos hgap] at ha
        exact ⟨p, by simp, Option.some.inj ha⟩
      · rw [if_neg hgap] at ha
        obtain ⟨x, hx, hxa⟩ := ih ha
        exact ⟨x, List.mem_cons_of_mem p hx, hxa⟩

/-- What `firstGap` finds is a gap between the first and the last item. -/
theorem Ordered.firstGap_clear (h : Ordered lo hi l) (hne : ∀ x ∈ l, lo x ≤ hi x)
    (ha : firstGap lo hi w l = some a) :
    (∀ x ∈ l, hi x ≤ a ∨ a + w ≤ lo x) ∧ (∀ f ∈ l.head?, hi f ≤ a) ∧
      ∀ z ∈ l.getLast?, a + w ≤ lo z := by
  induction l with
  | nil => cases ha
  | cons p rest ih =>
    cases rest with
    | nil => cases ha
    | cons q rest =>
      obtain ⟨hp, htail⟩ := List.pairwise_cons.mp h
      have hpq : hi p ≤ lo q := hp q (by simp)
      have hqq := hne q (by simp)
      rw [firstGap] at ha
      by_cases hgap : hi p + w ≤ lo q
      · obtain rfl : hi p = a := by simpa [hgap] using ha
        have hall : ∀ x ∈ q :: rest, hi p + w ≤ lo x := by
          intro x hx
          rcases List.mem_cons.mp hx with rfl | hx
          · exact hgap
          · have hqx : hi q ≤ lo x := (List.pairwise_cons.mp htail).1 x hx
            omega
        refine ⟨?_, by simp, ?_⟩
        · intro x hx
          rcases List.mem_cons.mp hx with rfl | hx
          · exact Or.inl (le_refl _)
          · exact Or.inr (hall x hx)
        · intro z hz
          rw [List.getLast?_cons_cons] at hz
          exact hall z (List.mem_of_getLast? hz)
      · rw [if_neg hgap] at ha
        obtain ⟨hall, hhead, hlast⟩ := ih htail (fun x hx => hne x (List.mem_cons_of_mem p hx)) ha
        have hqa : hi q ≤ a := hhead q (by simp)
        refine ⟨?_, ?_, ?_⟩
        · intro x hx
          rcases List.mem_cons.mp hx with rfl | hx
          · exact Or.inl (by omega)
          · exact hall x hx
        · intro f hf
          obtain rfl : p = f := by simpa using hf
          omega
        · intro z hz
          rw [List.getLast?_cons_cons] at hz
          exact hlast z hz

/-- No gap between the first and the last item starts before the one that
`firstGap` finds, and it finds one if there is one. -/
theorem Ordered.firstGap_least (h : Ordered lo hi l) (hne : ∀ x ∈ l, lo x ≤ hi x) (hw : 0 < w)
    {b : Nat} (hclear : ∀ x ∈ l, hi x ≤ b ∨ b + w ≤ lo x) (hfirst : ∃ f ∈ l.head?, hi f ≤ b)
    (hlast : ∀ z ∈ l.getLast?, b + w ≤ lo z) : ∃ a, firstGap lo hi w l = some a ∧ a ≤ b := by
  induction l with
  | nil =>
    obtain ⟨f, hf, _⟩ := hfirst
    cases hf
  | cons p rest ih =>
    have hpb : hi p ≤ b := by
      obtain ⟨f, hf, hfb⟩ := hfirst
      obtain rfl : p = f := by simpa using hf
      exact hfb
    cases rest with
    | nil =>
      -- one item cannot be on both sides of the gap
      have hp := hlast p (by simp)
      have hpp := hne p (by simp)
      omega
    | cons q rest =>
      obtain ⟨_, htail⟩ := List.pairwise_cons.mp h
      by_cases hgap : hi p + w ≤ lo q
      · exact ⟨hi p, by simp [firstGap, hgap], hpb⟩
      · have hqb : hi q ≤ b := (hclear q (by simp)).resolve_right (by omega)
        have hres := ih htail (fun x hx => hne x (List.mem_cons_of_mem p hx))
          (fun x hx => hclear x (List.mem_cons_of_mem p hx)) ⟨q, by simp, hqb⟩
          (fun z hz => hlast z (by rwa [List.getLast?_cons_cons]))
        rw [firstGap, if_neg hgap]
        exact hres

end Gaps

end Extents
