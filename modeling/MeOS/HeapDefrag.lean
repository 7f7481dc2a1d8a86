import MeOS.HeapRun

/-! # Defragmentation

`heap_defrag` computes `defragged`, the chain in which every run of adjacent
unused blocks is one block: `heapDefragLoop_defragged`. That it is complete is
then a fact about lists: no two unused blocks are left side by side, used
blocks are the same, and a chain without used blocks is one block.
-/

namespace MeOS.Heap

open Bytes Extents Runs

/-- The chain with every run of adjacent unused blocks merged into its first. -/
def defragged : List Blk → List Blk
  | [] => []
  | b :: rest =>
    match defragged rest with
    | [] => [b]
    | c :: cs => if b.used = false ∧ c.used = false then absorb b c :: cs else b :: c :: cs

/-- No two adjacent blocks are unused. -/
def Spaced (bs : List Blk) : Prop := bs.IsChain fun b c => b.used = true ∨ c.used = true

section Lists

variable {b c : Blk} {bs cs rest : List Blk}

theorem absorb_assoc (b c d : Blk) : absorb (absorb b c) d = absorb b (absorb c d) := by
  simp only [absorb, Blk.mk.injEq, and_true, true_and]
  omega

/-- A chain that is merged already stays as it is. -/
theorem defragged_eq_self (h : Spaced bs) : defragged bs = bs := by
  induction bs with
  | nil => rfl
  | cons b rest ih =>
    have hrest : defragged rest = rest := ih (List.IsChain.tail h)
    rw [defragged, hrest]
    cases rest with
    | nil => rfl
    | cons c cs =>
      have hbc : b.used = true ∨ c.used = true := (List.isChain_cons_cons.mp h).1
      have hne : ¬ (b.used = false ∧ c.used = false) := by
        rintro ⟨hb, hc⟩
        simp [hb, hc] at hbc
      exact if_neg hne

/-- The first block of the merged chain. -/
theorem defragged_cons (b : Blk) (rest : List Blk) :
    ∃ c cs, defragged (b :: rest) = c :: cs ∧ c.addr = b.addr ∧ c.used = b.used := by
  rw [defragged]
  split
  · exact ⟨b, [], rfl, rfl, rfl⟩
  · split
    · exact ⟨_, _, rfl, rfl, rfl⟩
    · exact ⟨_, _, rfl, rfl, rfl⟩

/-- Merging two unused neighbours first makes no difference. -/
theorem defragged_absorb (hb : b.used = false) (hc : c.used = false) :
    defragged (absorb b c :: rest) = defragged (b :: c :: rest) := by
  simp only [defragged]
  cases defragged rest with
  | nil => simp [hb, hc]
  | cons d ds =>
    by_cases hd : d.used = false
    · simp [hb, hc, hd, absorb_assoc]
    · simp [hb, hc, hd]

/-- Nothing is merged in front of a used block or behind one. -/
theorem defragged_used (h : b.used = true ∨ ∀ c ∈ rest.head?, c.used = true) :
    defragged (b :: rest) = b :: defragged rest := by
  cases rest with
  | nil => rfl
  | cons c cs =>
    obtain ⟨d, ds, hds, _, hd⟩ := defragged_cons c cs
    have hne : ¬ (b.used = false ∧ d.used = false) := by
      rintro ⟨hb, hdu⟩
      rcases h with hbu | hall
      · simp [hb] at hbu
      · have hcu := hall c (by simp)
        rw [← hd, hdu] at hcu
        cases hcu
    rw [defragged, hds]
    exact if_neg hne

theorem defragged_spaced (bs : List Blk) : Spaced (defragged bs) := by
  induction bs with
  | nil => exact List.IsChain.nil
  | cons b rest ih =>
    rw [defragged]
    cases hrest : defragged rest with
    | nil => exact List.IsChain.singleton b
    | cons c cs =>
      rw [hrest] at ih
      by_cases hbc : b.used = false ∧ c.used = false
      · -- the merged block is unused like `c`, so it fits in front of `cs` as `c` did
        simp only [if_pos hbc]
        cases cs with
        | nil => exact List.IsChain.singleton _
        | cons d ds =>
          obtain ⟨hcd, htail⟩ := List.isChain_cons_cons.mp ih
          have hd : d.used = true := hcd.resolve_left (by simp [hbc.2])
          exact List.isChain_cons_cons.mpr ⟨Or.inr hd, htail⟩
      · simp only [if_neg hbc]
        have hor : b.used = true ∨ c.used = true := by
          cases hb : b.used with
          | true => exact Or.inl rfl
          | false => exact Or.inr (by simpa [hb] using hbc)
        exact List.isChain_cons_cons.mpr ⟨hor, ih⟩

/-- A chain without used blocks is merged into one block. -/
theorem defragged_unused (h : ∀ c ∈ b :: rest, c.used = false) :
    ∃ c, defragged (b :: rest) = [c] ∧ c.used = false := by
  induction rest generalizing b with
  | nil => exact ⟨b, rfl, h b (by simp)⟩
  | cons d ds ih =>
    obtain ⟨c, hc, hu⟩ := ih fun e he => h e (List.mem_cons_of_mem b he)
    have hb := h b (by simp)
    refine ⟨absorb b c, ?_, by simpa using hb⟩
    rw [defragged, hc]
    simp [hb, hu]

end Lists

section Loop

variable {m : Mem} {base size : Nat} {bs pre post : List Blk} {b c : Blk}

/-- A merge of unused blocks writes no byte of a used one, header included. -/
theorem HeapInv.merge_used (hi : HeapInv m base size (pre ++ b :: c :: post))
    (hb : b.used = false) {d : Blk} (hd : d ∈ pre ++ b :: c :: post) (hu : d.used = true) {x : Nat}
    (h₁ : d.addr ≤ x) (h₂ : x < d.fin) : heapFrontMergeBlock m base b.addr x = m x := by
  have hdb : d ≠ b := by
    rintro rfl
    rw [hb] at hu
    cases hu
  have happ := hi.apart hd (c := b) (by simp) hdb
  have hbd := hi.bounds hd
  simp only [Blk.fin] at h₂
  exact heapFrontMergeBlock_frame (by omega) (by omega)

/-- The walk of `heap_defrag` turns the blocks still to visit into `defragged`
ones, and counts the blocks that are gone. -/
theorem heapDefragLoop_defragged {fuel : Nat} (count : Nat)
    (hi : HeapInv m base size (pre ++ post)) (hfuel : post.length < fuel)
    (hcount : count + post.length < 4294967296) :
    ∃ m', heapDefragLoop fuel m base (headAddr post) count =
        some (m', count + (post.length - (defragged post).length)) ∧
      (defragged post).length ≤ post.length ∧
      HeapInv m' base size (pre ++ defragged post) ∧
      SameUsed (pre ++ post) (pre ++ defragged post) ∧
      ∀ d ∈ pre ++ post, d.used = true → ∀ x, d.addr ≤ x → x < d.fin → m' x = m x := by
  induction fuel generalizing m pre post count with
  | zero => omega
  | succ k ih =>
    cases post with
    | nil =>
      refine ⟨m, ?_, le_refl _, hi, SameUsed.refl _, fun _ _ _ _ _ _ => rfl⟩
      simp [heapDefragLoop, headAddr, defragged]
    | cons b rest =>
      simp only [List.length_cons] at hfuel hcount
      rcases heapDefragLoop_turn hi k count with ⟨c, cs, rfl, hb, hc, hstep⟩ | ⟨hfirst, hstep⟩
      · -- two neighbouring unused blocks are merged, the walk stays
        have hone : add32 count 1 = count + 1 := add32_eq (by omega)
        rw [hone] at hstep
        obtain ⟨m', hrun, hlen, hinv, hsame, hkeep⟩ := ih (count + 1) hi.merge
          (by simp only [List.length_cons] at hfuel ⊢; omega)
          (by simp only [List.length_cons] at hcount ⊢; omega)
        have hs : SameUsed (pre ++ b :: c :: cs) (pre ++ absorb b c :: cs) :=
          sameUsed_merge hb hc
        rw [defragged_absorb hb hc] at hrun hlen hinv hsame
        refine ⟨m', ?_, ?_, hinv, hs.trans hsame, ?_⟩
        · rw [hstep, hrun]
          simp only [List.length_cons] at hlen ⊢
          congr 2
          omega
        · simp only [List.length_cons] at hlen ⊢
          omega
        · intro d hd hu x h₁ h₂
          rw [hkeep d ((hs d hu).mpr hd) hu x h₁ h₂, hi.merge_used hb hd hu h₁ h₂]
      · -- the walk goes on, the block is in the result as it is
        have hi' : HeapInv m base size (pre ++ [b] ++ rest) := by simpa using hi
        obtain ⟨m', hrun, hlen, hinv, hsame, hkeep⟩ := ih count hi' (by omega) (by omega)
        rw [defragged_used hfirst]
        refine ⟨m', ?_, ?_, by simpa using hinv, by simpa using hsame, by simpa using hkeep⟩
        · rw [hstep, hrun]
          simp only [List.length_cons]
          congr 2
          omega
        · simp only [List.length_cons]
          omega

/-- `heap_defrag` of a heap that is not at address 0. -/
theorem heapDefrag_defragged (hi : HeapInv m base size bs) (hbase : base ≠ 0) :
    ∃ fuel m', heapDefrag fuel m base =
        some (m', .ok (bs.length - (defragged bs).length)) ∧
      (defragged bs).length ≤ bs.length ∧ HeapInv m' base size (defragged bs) ∧
      SameUsed bs (defragged bs) ∧
      ∀ d ∈ bs, d.used = true → ∀ x, d.addr ≤ x → x < d.fin → m' x = m x := by
  have hlen := tiles_length hi.tiles
  have htop := hi.top
  obtain ⟨m', hrun, hrest⟩ := heapDefragLoop_defragged 0
    (show HeapInv m base size ([] ++ bs) from hi) (Nat.lt_succ_self bs.length) (by omega)
  refine ⟨bs.length + 1, m', ?_, hrest⟩
  rw [heapDefrag, if_neg hbase, hi.startAddress_eq, hrun]
  simp

end Loop

section Guarantees

variable {base size : Nat} {s : State}

/-- In every reachable heap `heap_defrag` returns by how many blocks the chain
has got shorter, keeps every used block with all its bytes, leaves no two
adjacent unused blocks, so that another one returns 0, and leaves one block
when nothing is live. -/
theorem heapDefrag_complete (hroom : 20 ≤ size) (htop : base + size ≤ 4294967296)
    (hbase : base ≠ 0) (h : (system base size).Reachable s) :
    ∃ bs bs' fuel m' n, HeapInv s.mem base size bs ∧ Tracks s.live bs ∧
      heapDefrag fuel s.mem base = some (m', .ok n) ∧ HeapInv m' base size bs' ∧
      currentBlocks s.mem base = currentBlocks m' base + n ∧
      (∀ d : Blk, d.used = true → (d ∈ bs' ↔ d ∈ bs)) ∧
      (∀ d ∈ bs, d.used = true → ∀ x, d.addr ≤ x → x < d.fin → m' x = s.mem x) ∧
      Spaced bs' ∧
      (∃ fuel' m'', heapDefrag fuel' m' base = some (m'', .ok 0)) ∧
      ((∀ a, s.live a = none) → bs' = [⟨base + 12, size - 20, false⟩]) := by
  obtain ⟨bs, hi, ht⟩ := (inv_inductive hroom htop).holds h
  obtain ⟨fuel, m', hrun, hle, hi', hsame, hkeep⟩ := heapDefrag_defragged hi hbase
  refine ⟨bs, defragged bs, fuel, m', _, hi, ht, hrun, hi', ?_, hsame, hkeep,
    defragged_spaced bs, ?_, fun hnone => ?_⟩
  · rw [hi.count, hi'.count]
    omega
  · obtain ⟨fuel', m'', hagain, _⟩ := heapDefrag_defragged hi' hbase
    rw [defragged_eq_self (defragged_spaced bs), Nat.sub_self] at hagain
    exact ⟨fuel', m'', hagain⟩
  · -- nothing is live, so no block is used
    cases bs with
    | nil =>
      have htiles : base + 12 = base + size := hi.tiles
      omega
    | cons b rest =>
      have hunused : ∀ c ∈ b :: rest, c.used = false := by
        intro c hc
        cases hu : c.used with
        | false => rfl
        | true => exact absurd (hnone c.payload) (ht.owned c hc hu)
      obtain ⟨c, hc, hu⟩ := defragged_unused hunused
      rw [hc] at hi' ⊢
      obtain ⟨haddr, _, hfin⟩ := hi'.tiles
      have hend : c.fin = base + size := hfin
      obtain ⟨a, n, u⟩ := c
      simp only [Blk.fin] at haddr hend hu
      subst haddr hu
      have hn : n = size - 20 := by omega
      rw [hn]

theorem heapDefrag_complete_oneAllocation :
    ∃ bs bs' fuel m' n, HeapInv oneAllocation.mem 4096 1000 bs ∧ Tracks oneAllocation.live bs ∧
      heapDefrag fuel oneAllocation.mem 4096 = some (m', .ok n) ∧ HeapInv m' 4096 1000 bs' ∧
      currentBlocks oneAllocation.mem 4096 = currentBlocks m' 4096 + n ∧
      (∀ d : Blk, d.used = true → (d ∈ bs' ↔ d ∈ bs)) ∧
      (∀ d ∈ bs, d.used = true → ∀ x, d.addr ≤ x → x < d.fin → m' x = oneAllocation.mem x) ∧
      Spaced bs' ∧
      (∃ fuel' m'', heapDefrag fuel' m' 4096 = some (m'', .ok 0)) ∧
      ((∀ a, oneAllocation.live a = none) → bs' = [⟨4096 + 12, 1000 - 20, false⟩]) :=
  heapDefrag_complete (by decide) (by decide) (by decide) oneAllocation_reachable

end Guarantees

end MeOS.Heap
