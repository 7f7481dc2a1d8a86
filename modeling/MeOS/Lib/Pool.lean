import Mathlib.Data.Finset.Card
import Mathlib.Data.Finset.Insert
import MeOS.Lib.Runs

/-! # Pools

A pool hands out elements of a finite set and takes them back. Which of the
free ones it hands out is left open. In every run each element of the set is
either free or held by one holder.
-/

namespace Pools

open Runs

variable {α : Type*}

/-- What is free, and what was handed out and has not come back. -/
structure Pool (α : Type*) where
  free : Finset α
  held : List α

/-- A request is met or refused, and what was handed out comes back. -/
inductive Step [DecidableEq α] (p : Pool α) : Pool α → Prop where
  | take {b : α} (h : b ∈ p.free) : Step p ⟨p.free.erase b, b :: p.held⟩
  | give {b : α} (h : b ∈ p.held) : Step p ⟨insert b p.free, p.held.erase b⟩
  | refuse : Step p p

/-- The pools that start with the elements of `U`. -/
def poolSystem [DecidableEq α] (U : Finset α) : System (Pool α) where
  Init p := p = ⟨U, []⟩
  Next := Step

/-- Every element of `U` is free or held, and held once. -/
structure Divides (U : Finset α) (p : Pool α) : Prop where
  nodup : p.held.Nodup
  covers : ∀ b, b ∈ p.free ∨ b ∈ p.held ↔ b ∈ U
  apart : ∀ b ∈ p.held, b ∉ p.free

section Rules

variable {U : Finset α} {p p' : Pool α}

theorem Divides.init (U : Finset α) : Divides U ⟨U, []⟩ where
  nodup := List.nodup_nil
  covers b := by simp
  apart b hb := by cases hb

variable [DecidableEq α]

theorem Step.divides (h : Divides U p) (hs : Step p p') : Divides U p' := by
  cases hs with
  | @take b hb =>
    have hout : b ∉ p.held := fun hheld => h.apart b hheld hb
    refine ⟨List.nodup_cons.mpr ⟨hout, h.nodup⟩, fun c => ?_, fun c hc => ?_⟩
    · rw [← h.covers c, Finset.mem_erase, List.mem_cons]
      by_cases hcb : c = b
      · simp [hcb, hb]
      · simp [hcb]
    · rw [Finset.mem_erase]
      rcases List.mem_cons.mp hc with rfl | hold
      · exact fun hboth => hboth.1 rfl
      · exact fun hboth => h.apart c hold hboth.2
  | @give b hb =>
    refine ⟨h.nodup.erase b, fun c => ?_, fun c hc => ?_⟩
    · rw [← h.covers c, Finset.mem_insert, h.nodup.mem_erase_iff]
      by_cases hcb : c = b
      · simp [hcb, hb]
      · simp [hcb]
    · rw [h.nodup.mem_erase_iff] at hc
      rw [Finset.mem_insert]
      rintro (hcb | hfree)
      · exact hc.1 hcb
      · exact h.apart c hc.2 hfree
  | refuse => exact h

theorem divides_of_reachable (h : (poolSystem U).Reachable p) : Divides U p := by
  have hinv : (poolSystem U).Inductive (Divides U) := by
    constructor
    · rintro p rfl
      exact .init U
    · intro p p' hp hs
      exact Step.divides hp hs
  exact hinv.holds h

/-- Nothing is lost. -/
theorem Divides.card (h : Divides U p) : p.free.card + p.held.length = U.card := by
  have hheld : p.held.toFinset.card = p.held.length := List.toFinset_card_of_nodup h.nodup
  have hdisj : Disjoint p.free p.held.toFinset := by
    rw [Finset.disjoint_right]
    intro b hb
    exact h.apart b (List.mem_toFinset.mp hb)
  rw [← hheld, ← Finset.card_union_of_disjoint hdisj]
  congr 1
  ext b
  rw [Finset.mem_union, List.mem_toFinset, h.covers]

end Rules

end Pools
