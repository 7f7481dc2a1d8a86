import MeOS.HeapRun

/-! # Reallocation

`heap_realloc` allocates before it frees, so for a moment both blocks are in
the chain and the copy goes from one to the other. Whatever the allocation
merged or split on the way, a caller sees one of two things: the content at
the returned address and the old block free, or a refusal that left the
content where it was.
-/

namespace MeOS.Heap

open Bytes Extents Runs

/-- The used block `d` is in the new chain, with the bytes it had. -/
def Intact (m m' : Mem) (bs' : List Blk) (d : Blk) : Prop :=
  d ∈ bs' ∧ ∀ x, d.payload ≤ x → x < d.fin → m' x = m x

/-- Every byte of `b` lies in an unused block of the chain. -/
def Released (bs' : List Blk) (b : Blk) : Prop :=
  ∀ x, b.addr ≤ x → x < b.fin → ∃ d ∈ bs', d.used = false ∧ d.addr ≤ x ∧ x < d.fin

/-- What the caller of `heap_realloc` finds for block `b` and `n` bytes. -/
inductive Resized (m m' : Mem) (bs bs' : List Blk) (b : Blk) (n : Nat) :
    Except HeapError Nat → Prop where
  | done {c : Blk} (hmem : c ∈ bs') (hused : c.used = true) (hfits : n ≤ c.size)
      (hcopied : ∀ i, i < min b.size n → m' (c.payload + i) = m (b.payload + i))
      (hold : c.payload = b.payload ∨ Released bs' b)
      (hothers : ∀ d ∈ bs, d.used = true → d ≠ b → Intact m m' bs' d) :
      Resized m m' bs bs' b n (.ok c.payload)
  | refused {e : HeapError} (hall : ∀ d ∈ bs, d.used = true → Intact m m' bs' d) :
      Resized m m' bs bs' b n (.error e)

section Moves

variable {m m' : Mem} {base size n : Nat} {bs bs' : List Blk} {b c : Blk}

theorem Reshaped.intact (h : Reshaped m m' base size bs bs') {d : Blk} (hd : d ∈ bs)
    (hu : d.used = true) : Intact m m' bs' d :=
  ⟨(h.same d hu).mpr hd, h.frame.payload d hd hu⟩

/-- The bytes of a block that has been taken back belong to unused blocks. -/
theorem Reallocated.released (h : Reallocated m m' base size n bs bs' b c)
    (hi : HeapInv m base size bs) (hb : b ∈ bs) : Released bs' b := by
  intro x h₁ h₂
  have hbd := hi.bounds hb
  simp only [Blk.fin] at h₂
  obtain ⟨d, hd, hlo, hhi⟩ := h.inv.tiles.cover (x := x) (by omega) (by omega)
  refine ⟨d, hd, ?_, hlo, hhi⟩
  by_contra hused
  have hu : d.used = true := by simpa using hused
  obtain ⟨hin | rfl, hne⟩ := (h.mem_iff d hu).mp hd
  · -- another used block of the old chain
    have happ := hi.apart hin hb hne
    simp only [Blk.fin] at hhi
    omega
  · have happ := h.apart
    simp only [Blk.fin] at hhi happ
    omega

/-- A block that moved is `Resized`. -/
theorem Reallocated.resized (h : Reallocated m m' base size n bs bs' b c)
    (hi : HeapInv m base size bs) (hb : b ∈ bs) (hu : b.used = true) :
    Resized m m' bs bs' b n (.ok c.payload) := by
  have hcb : c ≠ b := fun heq => h.fresh b hb hu (congrArg Blk.addr heq.symm)
  refine .done ((h.mem_iff c h.used).mpr ⟨Or.inr rfl, hcb⟩) h.used h.fits h.copied
    (Or.inr (h.released hi hb)) ?_
  intro d hd hdu hdb
  exact ⟨(h.mem_iff d hdu).mpr ⟨Or.inl hd, hdb⟩, h.frame.payload d hd hdu⟩

end Moves

section Guarantees

variable {base size : Nat} {s : State}

/-- In every reachable heap a reallocation of a live block returns, and either
has moved the common bytes into a live block that is large enough and freed
the old one, or has left every live block as it was. -/
theorem heapRealloc_preserves (hroom : 20 ≤ size) (htop : base + size ≤ 4294967296)
    (h : (system base size).Reachable s) :
    ∃ bs, HeapInv s.mem base size bs ∧ Tracks s.live bs ∧ ∀ b ∈ bs, b.used = true → ∀ n,
      ∃ fuel m' res bs', heapRealloc fuel s.mem base b.payload n = some (m', res) ∧
        HeapInv m' base size bs' ∧
        Tracks ((Call.realloc b.payload n).track s.live res) bs' ∧
        Resized s.mem m' bs bs' b n res := by
  obtain ⟨bs, hi, ht⟩ := (inv_inductive hroom htop).holds h
  refine ⟨bs, hi, ht, fun b hb hu n => ?_⟩
  have hkeep : ∀ d ∈ bs, d.used = true → Intact s.mem s.mem bs d := fun d hd _ =>
    ⟨hd, fun _ _ _ => rfl⟩
  by_cases hbase : base = 0
  · -- a null heap pointer is refused
    subst hbase
    exact ⟨1, s.mem, .error .badArgument, bs, by simp [heapRealloc], hi, ht, .refused hkeep⟩
  have hsize := ht.size_pos hi hb hu
  rcases heapRealloc_spec (r := n) hi hb hu hsize hbase (Nat.lt_succ_self bs.length) with
    ⟨hrun, rfl⟩ | ⟨m', bs', e, hrun, hshape⟩ | ⟨m', bs', c, hrun, hmoved⟩
  · refine ⟨_, s.mem, _, bs, hrun, hi, ht.resize hi hb hu, ?_⟩
    exact .done hb hu (le_refl _) (fun _ _ => rfl) (Or.inl rfl) fun d hd hdu _ => hkeep d hd hdu
  · exact ⟨_, m', _, bs', hrun, hshape.inv, ht.of_same hshape.same,
      .refused fun d hd hdu => hshape.intact hd hdu⟩
  · exact ⟨_, m', _, bs', hrun, hmoved.inv, ht.realloc hi hb hu hmoved, hmoved.resized hi hb hu⟩

theorem heapRealloc_preserves_oneAllocation :
    ∃ bs, HeapInv oneAllocation.mem 4096 1000 bs ∧ Tracks oneAllocation.live bs ∧
      ∀ b ∈ bs, b.used = true → ∀ n,
        ∃ fuel m' res bs', heapRealloc fuel oneAllocation.mem 4096 b.payload n = some (m', res) ∧
          HeapInv m' 4096 1000 bs' ∧
          Tracks ((Call.realloc b.payload n).track oneAllocation.live res) bs' ∧
          Resized oneAllocation.mem m' bs bs' b n res :=
  heapRealloc_preserves (by decide) (by decide) oneAllocation_reachable

end Guarantees

end MeOS.Heap
