import MeOS.VmContract
import Mathlib.Data.List.Perm.Subperm

/-! # The guard areas of a contract

The callers of `vm_contract.cpp` build the areas they pass as they like.
`vm_contract_remove_area` asks the caller's record whether it may be removed,
and then removes the stored area with the same start. A record with the start of
a guard and without `MMAP_NON_REMOVE` takes the guard out; no other call does.
-/

namespace MeOS

open Runs

/-- A call on a contract with an area built at will; a record that
`vm_contract_remove_area` is given meets `ok`. -/
inductive AreaCall (ok : VmArea → Prop) : VmContract → VmContract → Prop where
  | add {c c' : VmContract} {res : Except VmContractError Unit} (a : VmArea)
      (h : vmContractAddArea c a = .ret (c', res)) : AreaCall ok c c'
  | remove {c c' : VmContract} {res : Except VmContractError Unit} (a : VmArea) (ha : ok a)
      (h : vmContractRemoveArea c a = .ret (c', res)) : AreaCall ok c c'
  | expand {c c' : VmContract} {res : Except VmContractError Unit} (beyond : VmArea)
      (ref ref' : AreaRef) (length : Nat)
      (h : vmContractExpandArea beyond c ref length = .ret (c', ref', res)) : AreaCall ok c c'

/-- Runs of such calls from a successful `vm_contract_init(low, high)`. -/
def callSystem (low high : Nat) (ok : VmArea → Prop) : System VmContract where
  Init c := ∃ raw, vmContractInit raw low high = .ret (.ok c)
  Next := AreaCall ok

/-- Both guards are stored, with the bounds they were made with. -/
def GuardsKept (low high : Nat) (c : VmContract) : Prop :=
  ∃ f l, Guard f low (low + pageSize) ∧ Guard l (high - pageSize) high ∧ [f, l].Subperm c.areas

/-- A record that passes for removable has not the start of a guard. -/
def SparesGuards (low high : Nat) (a : VmArea) : Prop :=
  vmAreaIsRemovable a = true → a.startAddr ≠ low ∧ a.startAddr ≠ high - pageSize

/-! ## What the calls do to any contract -/

section Calls

variable {c c' : VmContract} {a : VmArea} {res : Except VmContractError Unit}

/-- `vm_contract_add_area` leaves the contract or inserts the area. -/
theorem vmContractAddArea_cases (h : vmContractAddArea c a = .ret (c', res)) :
    c' = c ∨ ∃ v, orderedVectorInsert c.contract a = .ret v ∧ c' = { c with contract := v } := by
  unfold vmContractAddArea at h
  split at h
  · cases h
    exact Or.inl rfl
  split at h
  · cases h
    exact Or.inl rfl
  split at h
  · cases h
  obtain ⟨stop, _, h⟩ := Outcome.bind_eq_ret.mp h
  cases stop with
  | found mid =>
    cases h
    exact Or.inl rfl
  | crossed first last =>
    dsimp only at h
    split at h
    · cases h
    split at h
    · split at h
      · obtain ⟨v, hv, h⟩ := Outcome.bind_eq_ret.mp h
        cases h
        exact Or.inr ⟨v, hv, rfl⟩
      · cases h
        exact Or.inl rfl
    · cases h

/-- `vm_contract_remove_area` leaves the contract, or takes out a stored area with
the start of a record that passes for removable. -/
theorem vmContractRemoveArea_cases (h : vmContractRemoveArea c a = .ret (c', res))
    (hcount : c.contract.count ≤ notFound) :
    c' = c ∨ vmAreaIsRemovable a = true ∧ ∃ i b, c.areas[i]? = some b ∧
      b.startAddr = a.startAddr ∧
      c' = { c with contract := { c.contract with data := c.areas.eraseIdx i } } := by
  unfold vmContractRemoveArea at h
  split at h
  · cases h
    exact Or.inl rfl
  next hrem =>
  obtain ⟨index, hindex, h⟩ := Outcome.bind_eq_ret.mp h
  by_cases hlt : index < c.contract.count
  · rw [orderedVectorRemove_eraseIdx hlt] at h
    cases h
    refine Or.inr ⟨by simpa using hrem, index, ?_⟩
    rcases orderedVectorFind_eq hindex with rfl | ⟨b, hb, hab, hba⟩
    · exact absurd hlt (Nat.not_lt.mpr hcount)
    · rw [VmArea.lt_def] at hab hba
      exact ⟨b, hb, by omega, rfl⟩
  · have hout : orderedVectorRemove c.contract index = (c.contract, false) := if_pos (by omega)
    rw [hout] at h
    cases h
    exact Or.inl rfl

/-- `vm_contract_expand_area` leaves the contract, or writes one removable stored
area. -/
theorem vmContractExpandArea_cases {beyond : VmArea} {ref ref' : AreaRef} {length : Nat}
    (h : vmContractExpandArea beyond c ref length = .ret (c', ref', res)) :
    c' = c ∨ ∃ i b temp, c.areas[i]? = some b ∧ vmAreaIsRemovable b = true ∧
      c' = { c with contract := { c.contract with data := c.areas.set i temp } } := by
  unfold vmContractExpandArea at h
  split at h
  · cases h
  next area harea =>
  split at h
  · cases h
    exact Or.inl rfl
  next hrem =>
  split at h
  · cases h
  obtain ⟨index, _, h⟩ := Outcome.bind_eq_ret.mp h
  split at h
  · cases h
    exact Or.inl rfl
  split at h
  · cases h
    exact Or.inl rfl
  cases ref with
  | caller area =>
    cases h
    exact Or.inl rfl
  | stored i =>
    cases h
    exact Or.inr ⟨i, area, _, harea, by simpa using hrem, rfl⟩

end Calls

/-! ## The guards stay -/

/-- The guards are stored, and the number of areas is a 32-bit one. -/
structure GuardInv (low high : Nat) (c : VmContract) : Prop where
  guards : GuardsKept low high c
  fits : c.contract.count ≤ c.contract.rSize
  word : c.contract.rSize < 4294967296

section Kept

variable {low high : Nat} {c c' : VmContract}

/-- Leaving out an area that is no guard keeps the guards. -/
theorem GuardsKept.eraseIdx {i : Nat} {b : VmArea} {areas : List VmArea}
    (hkept : GuardsKept low high c) (hb : c.areas[i]? = some b)
    (hnot : ∀ g, Guard g low (low + pageSize) ∨ Guard g (high - pageSize) high → b ≠ g)
    (hareas : (c.areas.eraseIdx i).Subperm areas) :
    ∃ f l, Guard f low (low + pageSize) ∧ Guard l (high - pageSize) high ∧
      [f, l].Subperm areas := by
  obtain ⟨f, l, hf, hl, hsub⟩ := hkept
  refine ⟨f, l, hf, hl, List.Subperm.trans ?_ hareas⟩
  obtain ⟨hi, rfl⟩ := List.getElem?_eq_some_iff.mp hb
  have hperm : c.areas.Perm (c.areas[i] :: c.areas.eraseIdx i) :=
    (List.getElem_cons_eraseIdx_perm hi).symm
  have herase := ((hperm.subperm_left).mp hsub).erase c.areas[i]
  have hother : c.areas[i] ∉ [f, l] := by
    simp only [List.mem_cons, List.not_mem_nil, or_false, not_or]
    exact ⟨hnot f (Or.inl hf), hnot l (Or.inr hl)⟩
  rwa [List.erase_of_not_mem hother, List.erase_cons_head] at herase

/-- A removable area is no guard. -/
theorem Guard.ne_of_removable {g b : VmArea} {start stop : Nat} (hg : Guard g start stop)
    (hb : vmAreaIsRemovable b = true) : b ≠ g := by
  rintro rfl
  rw [hg.nonRemovable] at hb
  cases hb

/-- One call keeps the guards, if it names none of them for removal. -/
theorem GuardInv.call (hi : GuardInv low high c) (h : AreaCall (SparesGuards low high) c c') :
    GuardInv low high c' := by
  cases h with
  | add a h =>
    rcases vmContractAddArea_cases h with rfl | ⟨v, hv, rfl⟩
    · exact hi
    · obtain ⟨hperm, hfits, hword⟩ := orderedVectorInsert_perm hv
      -- an area added leaves the two guards among the areas
      obtain ⟨f, l, hf, hl, hsub⟩ := hi.guards
      refine ⟨⟨f, l, hf, hl, ?_⟩, hfits, hword hi.word⟩
      refine (hperm.symm.subperm_left).mp (hsub.trans ?_)
      exact (List.sublist_cons_self a c.areas).subperm
  | remove a ha h =>
    have hfits := hi.fits
    have hword := hi.word
    rcases vmContractRemoveArea_cases h (by unfold notFound; omega) with
      rfl | ⟨hrem, i, b, hb, hstart, rfl⟩
    · exact hi
    · obtain ⟨hlow, hhigh⟩ := ha hrem
      refine ⟨hi.guards.eraseIdx hb ?_ (List.Subperm.refl _), ?_, hword⟩
      · rintro g (hg | hg) rfl
        · exact hlow (hstart.symm.trans hg.startEq)
        · exact hhigh (hstart.symm.trans hg.startEq)
      · exact Nat.le_trans (List.length_eraseIdx_le c.areas i) hfits
  | expand beyond ref ref' length h =>
    rcases vmContractExpandArea_cases h with rfl | ⟨i, b, temp, hb, hrem, rfl⟩
    · exact hi
    · have hlt : i < c.areas.length := (List.getElem?_eq_some_iff.mp hb).1
      have hset : (c.areas.set i temp).Perm (temp :: c.areas.eraseIdx i) :=
        List.set_perm_cons_eraseIdx hlt temp
      refine ⟨hi.guards.eraseIdx hb ?_ ?_, ?_, hi.word⟩
      · rintro g (hg | hg)
        · exact hg.ne_of_removable hrem
        · exact hg.ne_of_removable hrem
      · refine (hset.symm.subperm_left).mp ?_
        exact (List.sublist_cons_self temp (c.areas.eraseIdx i)).subperm
      · show (c.areas.set i temp).length ≤ c.contract.rSize
        rw [List.length_set]
        exact hi.fits

/-- `vm_contract_init` stores both guards, also when they are the same page. -/
theorem GuardInv.init {raw : VmArea} (hhigh : high < 4294967296)
    (h : vmContractInit raw low high = .ret (.ok c)) : GuardInv low high c := by
  obtain ⟨_, _, hroom, rSize, hsize, hword, rfl⟩ := vmContractInit_eq hhigh h
  have hlast := guardArea_guard raw (high - pageSize)
  rw [Nat.sub_add_cancel (by omega)] at hlast
  exact ⟨⟨_, _, guardArea_guard raw low, hlast, List.Subperm.refl _⟩, hsize, hword⟩

/-- In a run where no record given to `vm_contract_remove_area` passes for
removable and has the start of a guard, both guards stay with their bounds. -/
theorem guards_permanent (hhigh : high < 4294967296)
    (h : (callSystem low high (SparesGuards low high)).Reachable c) : GuardsKept low high c := by
  have hinv : (callSystem low high (SparesGuards low high)).Inductive (GuardInv low high) := by
    constructor
    · rintro c ⟨raw, h⟩
      exact GuardInv.init hhigh h
    · intro c c' hi h
      exact hi.call h
  exact (hinv.holds h).guards

/-- Adding a page leaves the guards of sixteen pages in place. -/
theorem guards_permanent_onePage : GuardsKept 0 65536 onePageContract :=
  guards_permanent (by decide)
    (.next (.init ⟨_, sixteenPages_init⟩) (.add _ onePageContract_add))

end Kept

/-! ## Where a guard is lost -/

section Lost

variable {low high : Nat} {c : VmContract} {a : VmArea}

/-- On a sound contract the condition is exact: a record it excludes takes the
guard out. -/
theorem vmContractRemoveArea_guard (hs : Space low high) (hi : ContractInv low high c)
    (h : ¬ SparesGuards low high a) :
    ∃ pre g post, c.areas = pre ++ g :: post ∧
      (Guard g low (low + pageSize) ∨ Guard g (high - pageSize) high) ∧
      vmContractRemoveArea c a =
        .ret ({ c with contract := ⟨pre ++ post, c.contract.rSize⟩ }, .ok ()) := by
  unfold SparesGuards at h
  rw [Classical.not_imp] at h
  obtain ⟨hrem, hnot⟩ := h
  obtain ⟨f, mid, l, hareas, hf, hl⟩ := hi.guards
  by_cases hlow : a.startAddr = low
  · exact ⟨[], f, mid ++ [l], hareas, Or.inl hf,
      vmContractRemoveArea_start hs hi hareas (hf.startEq.trans hlow.symm) hrem⟩
  · have hhigh : a.startAddr = high - pageSize := by
      by_contra hne
      exact hnot ⟨hlow, hne⟩
    refine ⟨f :: mid, l, [], hareas, Or.inr hl, ?_⟩
    exact vmContractRemoveArea_start hs hi hareas (hl.startEq.trans hhigh.symm) hrem

/-- A record for the first page, without flags, takes out the guard there. -/
theorem guards_removed :
    ∃ c, (callSystem 0 65536 fun _ => True).Reachable c ∧ ¬ GuardsKept 0 65536 c := by
  have hremove : vmContractRemoveArea sixteenPages ⟨0, 4096, 0, 0, 0⟩ =
      .ret (⟨⟨[⟨61440, 65536, mmapNonRemove, invalidFd, 0⟩], 2⟩, 0, 65536⟩, .ok ()) := by
    decide +kernel
  refine ⟨_, .next (.init ⟨_, sixteenPages_init⟩) (.remove _ trivial hremove), ?_⟩
  rintro ⟨f, l, _, _, hsub⟩
  have hlen : 2 ≤ 1 := hsub.length_le
  omega

end Lost

end MeOS
