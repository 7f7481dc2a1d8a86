import MeOS.PeImports

/-! # `pe_get_export_function_addr`: the tables it reads

An export directory has three tables: names and ordinals, one entry for each name, and addresses,
one for each function. The search goes over the names and counts functions: a library may have
more of these, so the search may leave the first two tables, or fewer, so it may stop too early.
-/

namespace MeOS.PeExports

open Bytes

/-! ## The search with its reads -/

/-- An entry of one of the tables that is read. -/
inductive TableRead where
  | name (i : Nat)
  | ordinal (i : Nat)
  | address (i : Nat)
deriving Repr, DecidableEq

/-- The loop of `pe_get_export_function_addr` from export `i` on, with `n` left, and the entries
that are read. -/
def exportLoop (m : Mem) (exportDirectory imageBase functionName fuel : Nat) :
    Nat → Nat → Outcome (Nat × List TableRead)
  | 0, _ => .ret (0, [])
  | n + 1, i => do
    let names := add32 (load32 m (exportDirectory + 32)) imageBase
    let ordinals := add32 (load32 m (exportDirectory + 36)) imageBase
    let addrs := add32 (load32 m (exportDirectory + 28)) imageBase
    let funcName := add32 (load32 m (names + 4 * i)) imageBase
    let res ← strcmp m funcName functionName fuel
    if res = 0 then
      let ordinal := load16 m (ordinals + 2 * i)
      .ret (add32 (load32 m (addrs + 4 * ordinal)) imageBase,
        [.name i, .ordinal i, .address ordinal])
    else do
      let r ← exportLoop m exportDirectory imageBase functionName fuel n (i + 1)
      .ret (r.1, .name i :: r.2)

/-- `pe_get_export_function_addr`, with the entries that are read. -/
def getExportFunctionAddr (m : Mem) (exportDirectory imageBase functionName fuel : Nat) :
    Outcome (Nat × List TableRead) :=
  exportLoop m exportDirectory imageBase functionName fuel (load32 m (exportDirectory + 20)) 0

/-- Without the entries it is the search of the imports. -/
theorem exportLoop_value (m : Mem) (dir base fn fuel n i : Nat) :
    (exportLoop m dir base fn fuel n i >>= fun r => .ret r.1) =
      peExportLoop m dir base fn fuel n i := by
  induction n generalizing i with
  | zero => rfl
  | succ n ih =>
    simp only [exportLoop, peExportLoop]
    cases strcmp m (add32 (load32 m (add32 (load32 m (dir + 32)) base + 4 * i)) base) fn fuel with
    | ret res =>
      simp only [Outcome.ret_bind]
      by_cases hres : res = 0
      · rw [if_pos hres, if_pos hres]
        rfl
      · rw [if_neg hres, if_neg hres, ← ih (i + 1)]
        cases exportLoop m dir base fn fuel n (i + 1) <;> rfl
    | panic => rfl
    | undefined => rfl
    | running => rfl

/-! ## The tables -/

section

variable {m : Mem} {dir base fn i j n : Nat} {s : List UInt8}

/-- `NumberOfFunctions`. -/
def functions (m : Mem) (dir : Nat) : Nat := load32 m (dir + 20)

/-- `NumberOfNames`. -/
def names (m : Mem) (dir : Nat) : Nat := load32 m (dir + 24)

/-- Where name `i` is. -/
def tableName (m : Mem) (dir base i : Nat) : Nat :=
  add32 (load32 m (add32 (load32 m (dir + 32)) base + 4 * i)) base

/-- The ordinal of name `i`. -/
def tableOrdinal (m : Mem) (dir base i : Nat) : Nat :=
  load16 m (add32 (load32 m (dir + 36)) base + 2 * i)

/-- The address of the function with ordinal `i`. -/
def tableAddress (m : Mem) (dir base i : Nat) : Nat :=
  add32 (load32 m (add32 (load32 m (dir + 28)) base + 4 * i)) base

/-- The entry is one of the table. -/
def TableRead.InTable (m : Mem) (dir : Nat) : TableRead → Prop
  | name i => i < names m dir
  | ordinal i => i < names m dir
  | address i => i < functions m dir

/-- Name `i` is `s`. -/
def Named (m : Mem) (dir base : Nat) (s : List UInt8) (i : Nat) : Prop :=
  StrAt m (tableName m dir base i) s

instance (m : Mem) (dir base : Nat) (s : List UInt8) : DecidablePred (Named m dir base s) :=
  fun i => inferInstanceAs (Decidable (StrAt m (tableName m dir base i) s))

/-- The address of the function whose name, the first of the names that is `s`, or 0. -/
def exportedAddress (m : Mem) (dir base : Nat) (s : List UInt8) : Nat :=
  match (List.range (names m dir)).find? fun i => Named m dir base s i with
  | some i => tableAddress m dir base (tableOrdinal m dir base i)
  | none => 0

/-- The search reads entries of the tables only, and its answer is right. -/
def LooksUp (m : Mem) (dir base fn : Nat) (s : List UInt8) : Prop :=
  ∃ r, Settles (getExportFunctionAddr m dir base fn) r ∧ (∀ x ∈ r.2, x.InTable m dir) ∧
    r.1 = exportedAddress m dir base s

/-- A name that is there for both counts is `s`; or there are no more functions than names and the
names give no address for `s`. -/
def CountsSuffice (m : Mem) (dir base : Nat) (s : List UInt8) : Prop :=
  (∃ i < functions m dir, i < names m dir ∧ Named m dir base s i) ∨
    (functions m dir ≤ names m dir ∧ exportedAddress m dir base s = 0)

instance (m : Mem) (dir base : Nat) (s : List UInt8) : Decidable (CountsSuffice m dir base s) :=
  inferInstanceAs (Decidable ((∃ i < functions m dir, _) ∨ _))

/-! ## The search -/

/-- A search that finds name `j` first. -/
theorem exportLoop_found (hs : StrAt m fn s) (hij : i ≤ j) (hj : j < i + n)
    (hname : Named m dir base s j) (hfirst : ∀ k, i ≤ k → k < j → ¬ Named m dir base s k) :
    Settles (fun fuel => exportLoop m dir base fn fuel n i)
      (tableAddress m dir base (tableOrdinal m dir base j),
        (List.range' i (j - i)).map .name ++
          [.name j, .ordinal j, .address (tableOrdinal m dir base j)]) := by
  induction n generalizing i with
  | zero => omega
  | succ n ih =>
    obtain ⟨res, hres, hzero⟩ := strcmp_settles (a := tableName m dir base i) hs
    simp only [exportLoop]
    by_cases heq : i = j
    · subst heq
      rw [Nat.sub_self]
      exact hres.bind (.pos (hzero.mpr hname) .ret)
    · have hnot : ¬ Named m dir base s i := hfirst i (Nat.le_refl i) (by omega)
      have hrest := ih (i := i + 1) (by omega) (by omega) fun k hk hkj => hfirst k (by omega) hkj
      rw [show j - i = j - (i + 1) + 1 by omega, List.range'_succ, List.map_cons, List.cons_append]
      exact hres.bind (.neg (fun h => hnot (hzero.mp h))
        (hrest.bind (g := fun r _ => .ret (r.1, .name i :: r.2)) .ret))

/-- A search that finds nothing. -/
theorem exportLoop_none (dir base n i : Nat) (hs : StrAt m fn s)
    (hnone : ∀ k, i ≤ k → k < i + n → ¬ Named m dir base s k) :
    Settles (fun fuel => exportLoop m dir base fn fuel n i)
      (0, (List.range' i n).map .name) := by
  induction n generalizing i with
  | zero => exact Settles.ret
  | succ n ih =>
    obtain ⟨res, hres, hzero⟩ := strcmp_settles (a := tableName m dir base i) hs
    have hnot := hnone i (Nat.le_refl i) (by omega)
    have hrest := ih (i + 1) fun k hk hkn => hnone k (by omega) (by omega)
    simp only [exportLoop]
    rw [List.range'_succ, List.map_cons]
    exact hres.bind (.neg (fun h => hnot (hzero.mp h))
      (hrest.bind (g := fun r _ => .ret (r.1, .name i :: r.2)) .ret))

/-- The address of the first name that is `s`. -/
theorem exportedAddress_of_first (hj : j < names m dir) (hname : Named m dir base s j)
    (hfirst : ∀ k < j, ¬ Named m dir base s k) :
    exportedAddress m dir base s = tableAddress m dir base (tableOrdinal m dir base j) := by
  have hfind : (List.range (names m dir)).find? (fun i => Named m dir base s i) = some j := by
    rw [List.find?_range_eq_some]
    refine ⟨by simpa using hname, List.mem_range.mpr hj, fun k hk => ?_⟩
    simpa using hfirst k hk
  unfold exportedAddress
  rw [hfind]

/-- A search that finds a name is right exactly when it is one of the names. -/
theorem looksUp_iff_of_first (hs : StrAt m fn s) (hj : j < functions m dir)
    (hname : Named m dir base s j) (hfirst : ∀ k < j, ¬ Named m dir base s k)
    (hordinals : ∀ i < names m dir, tableOrdinal m dir base i < functions m dir) :
    LooksUp m dir base fn s ↔ j < names m dir := by
  have hsearch := exportLoop_found (n := functions m dir) hs (Nat.zero_le j) (by omega) hname
    fun k _ hk => hfirst k hk
  constructor
  · rintro ⟨r, hr, hreads, _⟩
    refine hreads (.name j) ?_
    rw [hr.unique hsearch]
    exact List.mem_append_right _ List.mem_cons_self
  · intro hin
    refine ⟨_, hsearch, fun x hx => ?_, (exportedAddress_of_first hin hname hfirst).symm⟩
    rcases List.mem_append.mp hx with hx | hx
    · obtain ⟨k, hk, rfl⟩ := List.mem_map.mp hx
      have hkj := (List.mem_range'_1.mp hk).2
      exact show k < names m dir by omega
    · simp only [List.mem_cons, List.not_mem_nil, or_false] at hx
      rcases hx with rfl | rfl | rfl
      · exact hin
      · exact hin
      · exact hordinals j hin

/-- A search that finds nothing is right exactly when there are enough names, and these give no
address. -/
theorem looksUp_iff_of_none (hs : StrAt m fn s)
    (hnone : ∀ k < functions m dir, ¬ Named m dir base s k) :
    LooksUp m dir base fn s ↔
      functions m dir ≤ names m dir ∧ exportedAddress m dir base s = 0 := by
  have hsearch := exportLoop_none dir base (functions m dir) 0 hs fun k _ hk => hnone k (by omega)
  constructor
  · rintro ⟨r, hr, hreads, hvalue⟩
    rw [hr.unique hsearch] at hreads hvalue
    refine ⟨?_, hvalue.symm⟩
    by_contra hlt
    have hin := hreads (.name (names m dir)) (List.mem_map.mpr ⟨names m dir,
      List.mem_range'_1.mpr ⟨Nat.zero_le _, by omega⟩, rfl⟩)
    exact Nat.lt_irrefl _ hin
  · rintro ⟨hle, hzero⟩
    refine ⟨_, hsearch, fun x hx => ?_, hzero.symm⟩
    obtain ⟨k, hk, rfl⟩ := List.mem_map.mp hx
    have hkn := (List.mem_range'_1.mp hk).2
    exact show k < names m dir by omega

/-- The search is right exactly when the counts suffice for the name. -/
theorem looksUp_iff (m : Mem) (dir base fn : Nat) (s : List UInt8) (hs : StrAt m fn s)
    (hordinals : ∀ i < names m dir, tableOrdinal m dir base i < functions m dir) :
    LooksUp m dir base fn s ↔ CountsSuffice m dir base s := by
  by_cases hfound : ∃ j, j < functions m dir ∧ Named m dir base s j
  · -- the search ends at the first such name
    classical
    obtain ⟨hlt, hname⟩ := Nat.find_spec hfound
    have hfirst : ∀ k < Nat.find hfound, ¬ Named m dir base s k :=
      fun k hk hnamed => Nat.find_min hfound hk ⟨by omega, hnamed⟩
    rw [looksUp_iff_of_first hs hlt hname hfirst hordinals]
    constructor
    · intro hin
      exact .inl ⟨_, hlt, hin, hname⟩
    · rintro (⟨i, _, hi, hnamed⟩ | ⟨hle, _⟩)
      · by_contra hge
        exact hfirst i (by omega) hnamed
      · omega
  · have hnone : ∀ k < functions m dir, ¬ Named m dir base s k :=
      fun k hk hnamed => hfound ⟨k, hk, hnamed⟩
    rw [looksUp_iff_of_none hs hnone]
    constructor
    · exact .inr
    · rintro (⟨i, hi, _, hnamed⟩ | h)
      · exact absurd hnamed (hnone i hi)
      · exact h

/-- A library at 4194304 with two functions, of which only the first has a name, `a`; the string
`b` is at 4194804. -/
def unnamedExport : Mem :=
  let base := 4194304
  let m := store32 (store32 (fun _ => 0) (base + 220) 2) (base + 224) 1
  let m := store32 (store32 (store32 m (base + 228) 300) (base + 232) 320) (base + 236) 340
  let m := store32 (store32 (store32 m (base + 300) 1000) (base + 304) 1100) (base + 320) 400
  store8 (store8 m (base + 400) 97) (base + 500) 98

theorem looksUp_iff_unnamed :
    LooksUp unnamedExport 4194504 4194304 4194804 [98] ↔
      CountsSuffice unnamedExport 4194504 4194304 [98] :=
  looksUp_iff unnamedExport 4194504 4194304 4194804 [98] (by decide +kernel) (by decide +kernel)

/-- A search for a name that is not there goes on to the second name, of one. -/
theorem looksUp_fails : ¬ LooksUp unnamedExport 4194504 4194304 4194804 [98] := by
  rintro ⟨r, hr, hreads, _⟩
  have hfn : StrAt unnamedExport 4194804 [98] := by decide +kernel
  have hnames : ∀ k < 2, ¬ Named unnamedExport 4194504 4194304 [98] k := by decide +kernel
  have hcount : functions unnamedExport 4194504 = 2 := by decide +kernel
  have hsearch := exportLoop_none 4194504 4194304 (functions unnamedExport 4194504) 0 hfn
    fun k _ hk => hnames k (by omega)
  rw [hr.unique hsearch, hcount] at hreads
  have hin : 1 < names unnamedExport 4194504 := hreads (.name 1) (by decide)
  revert hin
  decide +kernel

end

end MeOS.PeExports
