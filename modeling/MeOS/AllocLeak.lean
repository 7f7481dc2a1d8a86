import MeOS.PageMapping

/-! # Failed page allocations

`vmmngr_alloc_page_f` takes a block for the page, and `vmmngr_map_page` may need
another one for the table. When only the first can be had, the error is returned
and the block stays taken; nothing else is left behind.
-/

namespace MeOS

/-- There is a table for the page, or a block for one. -/
def TableComes (s : VmState) (v : BitVec 32) : Prop :=
  if pdEntryIsPresent (dirEntry s s.currentDirectory v) then
    pdEntryGetFrame (dirEntry s s.currentDirectory v) ≠ 0#32
  else ¬ NoBlock s.phys

/-- Once its block is taken, the page can be entered: there is a table, or a block for one. -/
def TableFollows (s : VmState) (base : BitVec 32) : Prop :=
  if pdEntryIsPresent (dirEntry s s.currentDirectory base) then
    pdEntryGetFrame (dirEntry s s.currentDirectory base) ≠ 0#32
  else ¬ NoBlock (s.phys.take (mmapFirstFree s.phys))

/-- A failure of the allocation comes before a block is taken, or does not come at all. -/
def FailsEarly (s : VmState) (base : BitVec 32) : Prop :=
  vmmngrIsPagePresent s base = true ∨ ¬ base < 0xF0000000#32 ∨ NoBlock s.phys ∨ TableFollows s base

/-- Bitmap, counter, directory and tables are what they were. -/
structure Unchanged (s s' : VmState) : Prop where
  bitmap : s'.phys.mmngrBitmap = s.phys.mmngrBitmap
  used : s'.phys.mmngrUsedBlocks = s.phys.mmngrUsedBlocks
  memory : s'.memory = s.memory

section Alloc

variable {s : VmState} {base flags : BitVec 32}

theorem Unchanged.refl (s : VmState) : Unchanged s s := ⟨rfl, rfl, rfl⟩

/-- Taking a free block is a change. -/
theorem not_unchanged_take (hfree : mmapTest s.phys (mmapFirstFree s.phys) = false) :
    ¬ Unchanged s { s with phys := s.phys.take (mmapFirstFree s.phys) } := by
  intro h
  have hset : mmapTest (s.phys.take (mmapFirstFree s.phys)) (mmapFirstFree s.phys) = true := by
    rw [mmapTest_take, decide_eq_true rfl, Bool.true_or]
  rw [mmapTest_eq, h.bitmap, ← mmapTest_eq, hfree] at hset
  cases hset

/-- A mapping that fails has changed nothing, and fails for want of a table. -/
theorem MapResult.occur {dir phys virt : BitVec 32} {r : VmState × ErrorT}
    (hsmall : s.phys.mmngrMaxBlocks ≤ 1048576) (hr : MapResult s dir phys virt flags r) :
    (r.2 = .occur ↔ if pdEntryIsPresent (dirEntry s dir virt) then
        pdEntryGetFrame (dirEntry s dir virt) = 0#32 else NoBlock s.phys) ∧
      (r.2 = .occur → r.1 = s) := by
  cases hr with
  | noTable hp hnull =>
    rw [if_pos hp]
    exact ⟨iff_of_true rfl hnull, fun _ => rfl⟩
  | noBlock habsent halloc =>
    rw [if_neg (by rw [habsent]; decide)]
    exact ⟨iff_of_true rfl ((allocBlock_zero_iff hsmall).mp halloc), fun _ => rfl⟩
  | mapped hp hframe =>
    rw [if_pos hp]
    exact ⟨iff_of_false ErrorT.noConfusion hframe, fun hno => ErrorT.noConfusion hno⟩
  | made habsent hpos hb hfree halloc =>
    rw [if_neg (by rw [habsent]; decide)]
    refine ⟨iff_of_false ErrorT.noConfusion ?_, fun hno => ErrorT.noConfusion hno⟩
    rwa [← allocBlock_zero_iff hsmall]

theorem MapResult.occur_iff {phys virt : BitVec 32} {r : VmState × ErrorT}
    (hsmall : s.phys.mmngrMaxBlocks ≤ 1048576)
    (hr : MapResult s s.currentDirectory phys virt flags r) :
    r.2 = .occur ↔ ¬ TableComes s virt := by
  rw [(hr.occur hsmall).1]
  unfold TableComes
  by_cases hp : pdEntryIsPresent (dirEntry s s.currentDirectory virt) = true
  · rw [if_pos hp, if_pos hp, not_not]
  · rw [if_neg hp, if_neg hp, not_not]

/-- A mapping that fails leaves nothing behind. -/
theorem MapResult.unchanged {phys : BitVec 32} {r : VmState × ErrorT}
    (hsmall : s.phys.mmngrMaxBlocks ≤ 1048576)
    (hr : MapResult s s.currentDirectory phys base flags r) (hfail : r.2 = .occur) :
    Unchanged s r.1 := by
  rw [(hr.occur hsmall).2 hfail]
  exact .refl s

/-- With the block of the page taken, a failure leaves that block behind; it comes if there is no
table and no other block for one. -/
theorem MapResult.taken_iff {phys : BitVec 32} {r : VmState × ErrorT}
    (hsmall : s.phys.mmngrMaxBlocks ≤ 1048576) (hblock : ¬ NoBlock s.phys)
    (hr : MapResult { s with phys := s.phys.take (mmapFirstFree s.phys) } s.currentDirectory phys
      base flags r) : (r.2 = .occur → Unchanged s r.1) ↔ TableFollows s base := by
  have hframe : mmapFirstFree s.phys ≠ 0 := fun hzero => hblock (Or.inr hzero)
  have hleak := not_unchanged_take (mmapFirstFree_spec hframe).2
  have hfollows : r.2 = .occur ↔ ¬ TableFollows s base :=
    hr.occur_iff (s := { s with phys := s.phys.take (mmapFirstFree s.phys) }) hsmall
  constructor
  · intro h
    by_contra hno
    have hfail := hfollows.mpr hno
    have hun := h hfail
    rw [(hr.occur (by exact hsmall)).2 hfail] at hun
    exact hleak hun
  · intro htable hfail
    exact absurd htable (hfollows.mp hfail)

/-- A failed allocation leaves everything as it was exactly when it fails before its block is
taken, or does not fail. -/
theorem allocPageF_unchanged_iff (hdir : s.currentDirectory ≠ 0#32)
    (hsmall : s.phys.mmngrMaxBlocks ≤ 1048576) :
    (∀ s', vmmngrAllocPageF s base flags = .ret (s', .occur) → Unchanged s s') ↔
      FailsEarly s base := by
  obtain ⟨r, heq, hr⟩ := allocPageF_result base flags hdir hsmall
  have hret : (∀ s', vmmngrAllocPageF s base flags = .ret (s', .occur) → Unchanged s s') ↔
      (r.2 = .occur → Unchanged s r.1) := by
    rw [heq]
    constructor
    · intro h hfail
      exact h r.1 (by rw [← hfail])
    · intro h s' hs'
      cases hs'
      exact h rfl
  rw [hret]
  unfold FailsEarly
  cases hr with
  | present hp hr =>
    exact iff_of_true (fun hfail => hr.unchanged hsmall hfail) (Or.inl hp)
  | noBlock hp hbase hnone =>
    exact iff_of_true (fun _ => .refl s) (Or.inr (Or.inr (Or.inl hnone)))
  | taken hp hbase hblock hr =>
    -- the block is taken; from here on a failure leaves it behind
    rw [hr.taken_iff hsmall hblock]
    constructor
    · intro htable
      exact Or.inr (Or.inr (Or.inr htable))
    · rintro (hpres | hdev | hnone | htable)
      · rw [hp] at hpres
        cases hpres
      · exact absurd hbase hdev
      · exact absurd hnone hblock
      · exact htable
  | device hp hbase hr =>
    exact iff_of_true (fun hfail => hr.unchanged hsmall hfail) (Or.inr (Or.inl hbase))

/-- In an empty space with many blocks nothing is left behind. -/
theorem allocPageF_unchanged_iff_empty :
    (∀ s', vmmngrAllocPageF emptySpace 0#32 3#32 = .ret (s', .occur) → Unchanged emptySpace s') ↔
      FailsEarly emptySpace 0#32 :=
  allocPageF_unchanged_iff (by decide) (by decide)

/-- An empty directory at 0x1000; of 64 blocks only block 5 is free. -/
def lastBlockSpace : VmState where
  phys := ⟨256, 63, 64, fun i => if i = 0 then 0xFFFFFFDF#32 else 0xFFFFFFFF#32⟩
  memory _ := 0#32
  currentDirectory := 0x1000#32

/-- The last block is taken for the page, there is none for its table, and it stays taken. -/
theorem allocPageF_leaks : Counted lastBlockSpace.phys ∧ DirOk lastBlockSpace 0x1000#32 ∧
    ∃ s', vmmngrAllocPageF lastBlockSpace 0#32 3#32 = .ret (s', .occur) ∧
      mmapTest lastBlockSpace.phys 5 = false ∧ mmapTest s'.phys 5 = true ∧
      ¬ Unchanged lastBlockSpace s' := by
  have habsent : ∀ v, pdEntryIsPresent (dirEntry lastBlockSpace 0x1000#32 v) = false := by
    intro v
    unfold dirEntry lastBlockSpace
    dsimp only
    decide
  have hfree : mmapTest lastBlockSpace.phys 5 = false := by decide +kernel
  obtain ⟨⟨s', r⟩, hret, htest⟩ := Outcome.exists_of_test
    (x := vmmngrAllocPageF lastBlockSpace 0#32 3#32)
    (p := fun r => decide (r.2 = .occur) && mmapTest r.1.phys 5) (by decide +kernel)
  simp only [Bool.and_eq_true, decide_eq_true_eq] at htest
  obtain ⟨rfl, hset⟩ := htest
  refine ⟨⟨by decide +kernel, by decide⟩, ⟨by decide, by decide, by decide, by decide +kernel,
    fun v hp => ?_⟩, s', hret, hfree, hset, fun h => ?_⟩
  · rw [habsent] at hp
    cases hp
  · rw [mmapTest_eq, h.bitmap, ← mmapTest_eq, hfree] at hset
    cases hset

end Alloc

end MeOS
