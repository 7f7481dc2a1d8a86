import MeOS.PeLoader

/-! # `kernel_setup_process`: the imports of an image

The boot process is set up by a walk over the import descriptors of its image: for
each the library is looked up by name among the open files, `pe_load_image` maps it,
and `pe_parse_import_functions` writes the addresses of its functions. The last is
told the library, but not the descriptor: it takes the first one of the image.

The memory is addressed as the process sees it, with what it has mapped. Sums of an
image base and an offset of the file wrap, an index into an array does not.
-/

namespace MeOS

open Bytes Traced

/-! ## Strings -/

/-- `tolower`. -/
def toLower (c : UInt8) : UInt8 := if 65 ≤ c ∧ c ≤ 90 then c + 32 else c

/-- The loop of `strcmp` and `strcmp_insensitive`; `f` is what is compared of a character. -/
def compareChars (f : UInt8 → UInt8) (m : Mem) : Nat → Nat → Nat → Outcome Int8
  | 0, _, _ => .running
  | fuel + 1, s1, s2 =>
    let res := (f (m s1) - f (m s2)).toInt8
    if res = 0 ∧ m s2 ≠ 0 then compareChars f m fuel (s1 + 1) (s2 + 1) else .ret res

/-- The sign that `strcmp` makes of a difference. -/
def signOf (res : Int8) : Int8 := if res < 0 then -1 else if res > 0 then 1 else res

/-- `strcmp`. -/
def strcmp (m : Mem) (s1 s2 fuel : Nat) : Outcome Int8 :=
  compareChars id m fuel s1 s2 >>= fun res => .ret (signOf res)

/-- `strcmp_insensitive`. -/
def strcmpInsensitive (m : Mem) (s1 s2 fuel : Nat) : Outcome Int8 :=
  compareChars toLower m fuel s1 s2 >>= fun res => .ret (signOf res)

/-- The string `s` is at `a`, and ends there with a zero. -/
def StrAt (m : Mem) (a : Nat) : List UInt8 → Prop
  | [] => m a = 0
  | c :: s => m a = c ∧ c ≠ 0 ∧ StrAt m (a + 1) s

instance decidableStrAt (m : Mem) (a : Nat) (s : List UInt8) : Decidable (StrAt m a s) :=
  match s with
  | [] => inferInstanceAs (Decidable (m a = 0))
  | c :: s =>
    have := decidableStrAt m (a + 1) s
    inferInstanceAs (Decidable (m a = c ∧ c ≠ 0 ∧ StrAt m (a + 1) s))

section Strings

variable {f : UInt8 → UInt8} {m : Mem} {s t : List UInt8} {a b : Nat}

theorem toLower_eq_zero {c : UInt8} (h : toLower c = toLower 0) : c = 0 := by
  unfold toLower at h
  by_cases hupper : 65 ≤ c ∧ c ≤ 90
  · rw [if_pos hupper, if_neg (by decide)] at h
    rcases hupper with ⟨hlow, hhigh⟩
    rw [UInt8.le_iff_toNat_le] at hlow hhigh
    have hsum := congrArg UInt8.toNat h
    rw [UInt8.toNat_add] at hsum
    simp only [UInt8.reduceToNat] at hlow hhigh hsum
    omega
  · rwa [if_neg hupper, if_neg (by decide)] at h

theorem signOf_eq_zero {res : Int8} : signOf res = 0 ↔ res = 0 := by
  unfold signOf
  by_cases hneg : res < 0
  · rw [if_pos hneg]
    constructor
    · intro h
      exact absurd h (by decide)
    · rintro rfl
      exact absurd hneg (by decide)
  · rw [if_neg hneg]
    by_cases hpos : res > 0
    · rw [if_pos hpos]
      constructor
      · intro h
        exact absurd h (by decide)
      · rintro rfl
        exact absurd hpos (by decide)
    · rw [if_neg hpos]

/-- The difference of two characters. -/
theorem toInt8_sub_eq_zero {x y : UInt8} : (x - y).toInt8 = 0 ↔ x = y := by
  constructor
  · intro h
    have hback : (x - y).toInt8.toUInt8 = Int8.toUInt8 0 := congrArg Int8.toUInt8 h
    rw [UInt8.toUInt8_toInt8] at hback
    rw [show Int8.toUInt8 0 = 0 from rfl, UInt8.sub_eq_iff_eq_add, UInt8.zero_add] at hback
    exact hback
  · rintro rfl
    rw [UInt8.sub_self]
    rfl

/-- A comparison with a string ends, with zero exactly for the strings that look the same. -/
theorem compareChars_settles (hf : ∀ c, f c = f 0 → c = 0) (hs : StrAt m b s) :
    ∃ res, Settles (fun fuel => compareChars f m fuel a b) res ∧
      (res = 0 ↔ ∃ t, StrAt m a t ∧ t.map f = s.map f) := by
  -- along the string at `b`; the other one may go on, or end before
  induction s generalizing a b with
  | nil =>
    have hb : m b = 0 := hs
    refine ⟨(f (m a) - f (m b)).toInt8, .succ ?_, ?_⟩
    · simp only [compareChars, hb, ne_eq, not_true_eq_false, and_false, if_false]
      exact Settles.ret
    · rw [toInt8_sub_eq_zero, hb]
      constructor
      · intro h
        exact ⟨[], hf _ h, rfl⟩
      · rintro ⟨t, ht, hmap⟩
        rw [List.map_nil, List.map_eq_nil_iff] at hmap
        rw [hmap] at ht
        have ha : m a = 0 := ht
        rw [ha]
  | cons c s ih =>
    rcases hs with ⟨hb, hc, hrest⟩
    by_cases hsame : f (m a) = f c
    · obtain ⟨res, hres, hiff⟩ := ih (a := a + 1) hrest
      refine ⟨res, .succ ?_, hiff.trans ?_⟩
      · have hzero : (f (m a) - f (m b)).toInt8 = 0 := toInt8_sub_eq_zero.mpr (by rw [hb, hsame])
        have hgo : (f (m a) - f (m b)).toInt8 = 0 ∧ m b ≠ 0 := ⟨hzero, by rwa [hb]⟩
        simp only [compareChars, if_pos hgo]
        exact hres
      · constructor
        · rintro ⟨t, ht, hmap⟩
          have ha : m a ≠ 0 := by
            intro ha
            rw [ha] at hsame
            exact hc (hf c hsame.symm)
          exact ⟨m a :: t, ⟨rfl, ha, ht⟩, by rw [List.map_cons, List.map_cons, hsame, hmap]⟩
        · rintro ⟨t, ht, hmap⟩
          cases t with
          | nil => cases hmap
          | cons d t =>
            rw [List.map_cons, List.map_cons] at hmap
            injection hmap with _ hmap
            exact ⟨t, ht.2.2, hmap⟩
    · have hne : ¬ (f (m a) - f (m b)).toInt8 = 0 := by
        rw [toInt8_sub_eq_zero, hb]
        exact hsame
      refine ⟨(f (m a) - f (m b)).toInt8, .succ ?_, ?_⟩
      · simp only [compareChars, hne, false_and, if_false]
        exact Settles.ret
      · refine ⟨fun h => absurd h hne, ?_⟩
        rintro ⟨t, ht, hmap⟩
        exfalso
        cases t with
        | nil => cases hmap
        | cons d t =>
          rw [List.map_cons, List.map_cons] at hmap
          injection hmap with hmap
          rw [ht.1] at hsame
          exact hsame hmap

/-- `strcmp` with a string is zero exactly when the same string is at the other address. -/
theorem strcmp_settles (hs : StrAt m b s) :
    ∃ res, Settles (strcmp m a b) res ∧ (res = 0 ↔ StrAt m a s) := by
  obtain ⟨res, hres, hiff⟩ := compareChars_settles (f := id) (a := a) (fun c h => h) hs
  refine ⟨signOf res, hres.bind (g := fun r _ => .ret (signOf r)) Settles.ret, ?_⟩
  rw [signOf_eq_zero, hiff]
  simp

/-- A string is where its bytes are, with the zero behind them. -/
theorem StrAt.move {m' : Mem} (hs : StrAt m a s)
    (h : ∀ i ≤ s.length, m' (b + i) = m (a + i)) : StrAt m' b s := by
  induction s generalizing a b with
  | nil => exact (h 0 (Nat.le_refl 0)).trans hs
  | cons c s ih =>
    rcases hs with ⟨hc, hne, hrest⟩
    refine ⟨(h 0 (Nat.zero_le _)).trans hc, hne, ih hrest fun i hi => ?_⟩
    rw [Nat.add_assoc, Nat.add_assoc, Nat.add_comm 1]
    exact h (i + 1) (by rw [List.length_cons]; omega)

/-- The comparison of a string ends, too, whatever is at the other address. -/
theorem compareChars_settles_left (hs : StrAt m a s) :
    ∃ res, Settles (fun fuel => compareChars id m fuel a b) res ∧ (res = 0 ↔ StrAt m b s) := by
  induction s generalizing a b with
  | nil =>
    have ha : m a = 0 := hs
    refine ⟨(id (m a) - id (m b)).toInt8, .succ ?_, toInt8_sub_eq_zero.trans ?_⟩
    · -- with a zero at `a` the loop goes no further
      have hend : ¬ ((id (m a) - id (m b)).toInt8 = 0 ∧ m b ≠ 0) := by
        rintro ⟨hsame, hb⟩
        exact hb ((toInt8_sub_eq_zero.mp hsame).symm.trans ha)
      simp only [compareChars, if_neg hend]
      exact Settles.ret
    · rw [ha]
      exact eq_comm
  | cons c s ih =>
    rcases hs with ⟨ha, hc, hrest⟩
    by_cases hsame : m b = c
    · obtain ⟨res, hres, hiff⟩ := ih (b := b + 1) hrest
      refine ⟨res, .succ ?_, hiff.trans ⟨fun h => ⟨hsame, hc, h⟩, fun h => h.2.2⟩⟩
      have hgo : (id (m a) - id (m b)).toInt8 = 0 ∧ m b ≠ 0 :=
        ⟨toInt8_sub_eq_zero.mpr (ha.trans hsame.symm), by rwa [hsame]⟩
      simp only [compareChars, if_pos hgo]
      exact hres
    · have hne : ¬ (id (m a) - id (m b)).toInt8 = 0 := fun h =>
        hsame ((toInt8_sub_eq_zero.mp h).symm.trans ha)
      refine ⟨(id (m a) - id (m b)).toInt8, .succ ?_, fun h => absurd h hne,
        fun h => absurd h.1 hsame⟩
      simp only [compareChars, hne, false_and, if_false]
      exact Settles.ret

/-- `strcmp` of a string is zero exactly when the same string is at the other address. -/
theorem strcmp_settles_left (hs : StrAt m a s) :
    ∃ res, Settles (strcmp m a b) res ∧ (res = 0 ↔ StrAt m b s) := by
  obtain ⟨res, hres, hiff⟩ := compareChars_settles_left (b := b) hs
  exact ⟨signOf res, hres.bind (g := fun r _ => .ret (signOf r)) Settles.ret,
    signOf_eq_zero.trans hiff⟩

/-- `strcmp_insensitive` with a string is zero exactly for the same string, up to case. -/
theorem strcmpInsensitive_settles (hs : StrAt m b s) :
    ∃ res, Settles (strcmpInsensitive m a b) res ∧
      (res = 0 ↔ ∃ t, StrAt m a t ∧ t.map toLower = s.map toLower) := by
  obtain ⟨res, hres, hiff⟩ :=
    compareChars_settles (f := toLower) (a := a) (fun c => toLower_eq_zero) hs
  exact ⟨signOf res, hres.bind (g := fun r _ => .ret (signOf r)) Settles.ret,
    signOf_eq_zero.trans hiff⟩

end Strings

/-! ## The functions -/

/-- The value of `pe_get_nt_headers`. -/
def ntHeaders (m : Mem) (header : Nat) : Nat := ((peGetNtHeaders header).run m).value

/-- `pe_get_image_base`. -/
def peGetImageBase (m : Mem) (header : Nat) : Nat := load32 m (add32 (ntHeaders m header) 52)

/-- The `VirtualAddress` of an entry of `pe_get_data_directory`. -/
def peDirectory (m : Mem) (header index : Nat) : Nat :=
  load32 m (add32 (ntHeaders m header) (120 + 8 * index))

/-- `PE_EXPORT_DIRECTORY`. -/
abbrev peExportDirectory : Nat := 0

/-- `PE_IMPORT_DIRECTORY`. -/
abbrev peImportDirectory : Nat := 1

/-- The loop of `pe_get_export_function_addr` from export `i` on, with `n` left. -/
def peExportLoop (m : Mem) (exportDirectory imageBase functionName fuel : Nat) :
    Nat → Nat → Outcome Nat
  | 0, _ => .ret 0
  | n + 1, i => do
    let names := add32 (load32 m (exportDirectory + 32)) imageBase
    let ordinals := add32 (load32 m (exportDirectory + 36)) imageBase
    let addrs := add32 (load32 m (exportDirectory + 28)) imageBase
    let funcName := add32 (load32 m (names + 4 * i)) imageBase
    let res ← strcmp m funcName functionName fuel
    if res = 0 then
      let ordinal := load16 m (ordinals + 2 * i)
      .ret (add32 (load32 m (addrs + 4 * ordinal)) imageBase)
    else peExportLoop m exportDirectory imageBase functionName fuel n (i + 1)

/-- `pe_get_export_function_addr`; the bound is `NumberOfFunctions`. -/
def peGetExportFunctionAddr (m : Mem) (exportDirectory imageBase functionName fuel : Nat) :
    Outcome Nat :=
  peExportLoop m exportDirectory imageBase functionName fuel (load32 m (exportDirectory + 20)) 0

/-- The loop of `pe_parse_import_functions` from thunk `index` on. -/
def peBindThunks (imageBase importDescriptor depImageBase depExportDir : Nat) :
    Nat → Mem → Nat → Outcome Mem
  | _, _, 0 => .running
  | index, m, fuel + 1 => do
    let thunk := add32 imageBase (load32 m importDescriptor) + 4 * index
    if load32 m thunk ≠ 0 then do
      let funcName := add32 imageBase (load32 m thunk + 2)
      let addr := add32 imageBase (load32 m (importDescriptor + 16)) + 4 * index
      let address ← peGetExportFunctionAddr m depExportDir depImageBase funcName fuel
      peBindThunks imageBase importDescriptor depImageBase depExportDir (index + 1)
        (store32 m addr address) fuel
    else .ret m

/-- `pe_parse_import_functions`: the descriptor is the first one of the image. -/
def peParseImportFunctions (m : Mem) (image dependencyImage fuel : Nat) : Outcome Mem :=
  let imageBase := peGetImageBase m image
  let importDescriptor := add32 (peDirectory m image peImportDirectory) imageBase
  let depImageBase := peGetImageBase m dependencyImage
  let depExportDir := add32 (peDirectory m dependencyImage peExportDirectory) depImageBase
  peBindThunks imageBase importDescriptor depImageBase depExportDir 0 m fuel

/-- The open files: the names of their nodes in the order of the `gft`, and what
`pe_load_image` is answered about each. -/
structure OpenFiles where
  names : List Nat
  bytesRead : Nat → Nat
  buffer : Nat → Nat
  mapped : Nat → Nat → Bool

/-- The loop of `gft_get_by_name` from entry `i` on. -/
def gftSearchName (m : Mem) (name fuel : Nat) : List Nat → Nat → Outcome Nat
  | [], _ => .ret invalidFd
  | nodeName :: names, i => do
    let res ← strcmpInsensitive m name nodeName fuel
    if res = 0 then .ret i else gftSearchName m name fuel names (i + 1)

/-- `gft_get_by_name`. -/
def gftGetByName (files : OpenFiles) (m : Mem) (name fuel : Nat) : Outcome Nat :=
  gftSearchName m name fuel files.names 0

/-- The header that `pe_load_image` returns for the file `gfd`. -/
def loadLibrary (files : OpenFiles) (m : Mem) (gfd : Nat) : Outcome Nat :=
  ((peLoadImage (files.mapped gfd) (files.bytesRead gfd) (files.buffer gfd)).run m).value >>=
    fun loaded => .ret loaded.1

/-- The loop of `kernel_setup_process`; a descriptor has 20 bytes. -/
def setupImports (files : OpenFiles) (dosHeader imageBase : Nat) :
    Nat → Mem → Nat → Outcome Mem
  | _, _, 0 => .running
  | importDescriptor, m, fuel + 1 => do
    if load32 m (importDescriptor + 16) ≠ 0 then do
      let moduleName := add32 (load32 m (importDescriptor + 12)) imageBase
      let depGfd ← gftGetByName files m moduleName fuel
      if depGfd = invalidFd then .panic
      else do
        let depDosHeader ← loadLibrary files m depGfd
        let m' ← peParseImportFunctions m dosHeader depDosHeader fuel
        setupImports files dosHeader imageBase (importDescriptor + 20) m' fuel
    else .ret m

/-- `kernel_setup_process` up to the jump to the entry point; `stackMapped` tells whether the stack
could be mapped. -/
def kernelSetupProcess (files : OpenFiles) (stackMapped : Bool) (m : Mem) (dosHeader fuel : Nat) :
    Outcome Mem :=
  if stackMapped = false then .panic
  else
    let imageBase := peGetImageBase m dosHeader
    setupImports files dosHeader imageBase
      (add32 (peDirectory m dosHeader peImportDirectory) imageBase) m fuel

/-! ## What a library exports -/

section Exports

variable {m : Mem} {header i n : Nat} {s : List UInt8} {a : Nat}

/-- The export directory of a library. -/
def exportDirectory (m : Mem) (header : Nat) : Nat :=
  add32 (peDirectory m header peExportDirectory) (peGetImageBase m header)

/-- `NumberOfFunctions`. -/
def numberOfFunctions (m : Mem) (header : Nat) : Nat := load32 m (exportDirectory m header + 20)

/-- `NumberOfNames`. -/
def numberOfNames (m : Mem) (header : Nat) : Nat := load32 m (exportDirectory m header + 24)

/-- Where the name of export `i` is. -/
def exportName (m : Mem) (header i : Nat) : Nat :=
  let base := peGetImageBase m header
  add32 (load32 m (add32 (load32 m (exportDirectory m header + 32)) base + 4 * i)) base

/-- The address of the function that export `i` names. -/
def exportAddress (m : Mem) (header i : Nat) : Nat :=
  let base := peGetImageBase m header
  let ordinal := load16 m (add32 (load32 m (exportDirectory m header + 36)) base + 2 * i)
  add32 (load32 m (add32 (load32 m (exportDirectory m header + 28)) base + 4 * ordinal)) base

/-- The export table of the library gives the address `a` for the name `s`. -/
def Exports (m : Mem) (header : Nat) (s : List UInt8) (a : Nat) : Prop :=
  ∃ i < numberOfNames m header, StrAt m (exportName m header i) s ∧ a = exportAddress m header i

/-- The address of the first of `n` exports from `i` on that has the name, or 0. -/
def firstExport (m : Mem) (header : Nat) (s : List UInt8) : Nat → Nat → Nat
  | 0, _ => 0
  | n + 1, i =>
    if StrAt m (exportName m header i) s then exportAddress m header i
    else firstExport m header s n (i + 1)

/-- The address of the first of `NumberOfFunctions` names that is `s`, or 0. -/
def lookedUp (m : Mem) (header : Nat) (s : List UInt8) : Nat :=
  firstExport m header s (numberOfFunctions m header) 0

theorem firstExport_lt : firstExport m header s n i < 4294967296 := by
  induction n generalizing i with
  | zero => exact Nat.zero_lt_succ _
  | succ n ih =>
    unfold firstExport
    by_cases hname : StrAt m (exportName m header i) s
    · rw [if_pos hname]
      exact add32_lt _ _
    · rw [if_neg hname]
      exact ih

variable (header) in
/-- `pe_get_export_function_addr` ends for every string. -/
theorem peGetExportFunctionAddr_settles (hs : StrAt m a s) :
    Settles (peGetExportFunctionAddr m (exportDirectory m header) (peGetImageBase m header) a)
      (lookedUp m header s) := by
  have hloop : ∀ n i, Settles (fun fuel => peExportLoop m (exportDirectory m header)
      (peGetImageBase m header) a fuel n i) (firstExport m header s n i) := by
    intro n
    induction n with
    | zero => exact fun _ => Settles.ret
    | succ n ih =>
      intro i
      obtain ⟨res, hres, hiff⟩ := strcmp_settles (a := exportName m header i) hs
      simp only [peExportLoop, firstExport]
      by_cases hname : StrAt m (exportName m header i) s
      · rw [if_pos hname]
        exact hres.bind (.pos (hiff.mpr hname) .ret)
      · rw [if_neg hname]
        exact hres.bind (.neg (fun h => hname (hiff.mp h)) (ih (i + 1)))
  exact hloop _ _

end Exports

/-! ## What an image imports -/

/-- One descriptor: the `FirstThunk`, the names, and the header of the library. -/
structure Import where
  firstThunk : Nat
  names : List (List UInt8)
  library : Nat

/-- The imports of an image that is mapped at `base`, with the first descriptor at `descriptors`. -/
structure Image where
  base : Nat
  descriptors : Nat
  imports : List Import

/-- Slot `i` of the import address table of a descriptor. -/
def Image.slot (img : Image) (d : Import) (i : Nat) : Nat := add32 img.base d.firstThunk + 4 * i

/-- The byte at `x` belongs to a slot. -/
def Image.InSlots (img : Image) (x : Nat) : Prop :=
  ∃ d ∈ img.imports, img.slot d 0 ≤ x ∧ x < img.slot d d.names.length

/-- The memories differ in the slots only. -/
def Image.Near (img : Image) (m m' : Mem) : Prop := ∀ x, ¬ img.InSlots x → m' x = m x

/-- Two strings that are the same up to case. -/
def SameName (m : Mem) (a b : Nat) : Prop :=
  ∃ s t, StrAt m a s ∧ StrAt m b t ∧ s.map toLower = t.map toLower

/-- The library that is called `name`: the first open file of that name, with the header that
loading it gives. -/
def IsLibrary (files : OpenFiles) (m : Mem) (name header : Nat) : Prop :=
  ∃ gfd nodeName, gfd < invalidFd ∧ files.names[gfd]? = some nodeName ∧
    SameName m name nodeName ∧
    (∀ j < gfd, ∀ other, files.names[j]? = some other → ¬ SameName m name other) ∧
    loadLibrary files m gfd = .ret header ∧ header ≠ 0

/-- The descriptor at `a` and its tables read as `d`. -/
structure ShowsImport (files : OpenFiles) (m : Mem) (base a : Nat) (d : Import) : Prop where
  firstThunk : load32 m (a + 16) = d.firstThunk
  live : d.firstThunk ≠ 0
  library : IsLibrary files m (add32 (load32 m (a + 12)) base) d.library
  thunk : ∀ i s, d.names[i]? = some s → load32 m (add32 base (load32 m a) + 4 * i) ≠ 0 ∧
    StrAt m (add32 base (load32 m (add32 base (load32 m a) + 4 * i) + 2)) s
  ended : load32 m (add32 base (load32 m a) + 4 * d.names.length) = 0

/-- The import directory of the image with the header at `dosHeader` reads as `img`. -/
structure ShowsImports (files : OpenFiles) (m : Mem) (dosHeader : Nat) (img : Image) : Prop where
  base : peGetImageBase m dosHeader = img.base
  descriptors : add32 (peDirectory m dosHeader peImportDirectory) img.base = img.descriptors
  imports : ∀ k d, img.imports[k]? = some d →
    ShowsImport files m img.base (img.descriptors + 20 * k) d
  ended : load32 m (img.descriptors + 20 * img.imports.length + 16) = 0
  names : ∀ a ∈ files.names, ∃ s, StrAt m a s

/-- The image reads as `img` whatever the slots hold, and so do the exports of the libraries; the
address tables of different descriptors do not overlap. -/
structure WellFormed (files : OpenFiles) (m : Mem) (dosHeader : Nat) (img : Image) : Prop where
  image : ∀ m', img.Near m m' → ShowsImports files m' dosHeader img
  base : ∀ m', img.Near m m' → ∀ d ∈ img.imports,
    peGetImageBase m' d.library = peGetImageBase m d.library
  directory : ∀ m', img.Near m m' → ∀ d ∈ img.imports,
    exportDirectory m' d.library = exportDirectory m d.library
  exported : ∀ m', img.Near m m' → ∀ d ∈ img.imports, ∀ d' ∈ img.imports, ∀ s ∈ d'.names,
    lookedUp m' d.library s = lookedUp m d.library s
  apart : img.imports.Pairwise fun d d' =>
    img.slot d d.names.length ≤ img.slot d' 0 ∨ img.slot d' d'.names.length ≤ img.slot d 0

/-! ## One descriptor -/

/-- Write words one after the other. -/
def storeWords (m : Mem) (a : Nat) : List Nat → Mem
  | [] => m
  | v :: vs => storeWords (store32 m a v) (a + 4) vs

section Words

variable {m m' : Mem} {a x i v : Nat} {vs : List Nat}

theorem storeWords_frame (h : x < a ∨ a + 4 * vs.length ≤ x) : storeWords m a vs x = m x := by
  induction vs generalizing m a with
  | nil => rfl
  | cons v vs ih =>
    rw [List.length_cons] at h
    rw [storeWords, ih (by omega), store32_frame m v (by omega)]

/-- What is written does not depend on what was there. -/
theorem storeWords_congr (h : ∀ x, x < a ∨ a + 4 * vs.length ≤ x → m' x = m x) :
    storeWords m' a vs = storeWords m a vs := by
  induction vs generalizing m m' a with
  | nil =>
    funext x
    refine h x ?_
    rw [List.length_nil]
    omega
  | cons v vs ih =>
    refine ih fun x hx => ?_
    unfold store32
    by_cases hcell : a ≤ x ∧ x < a + 4
    · rw [if_pos hcell, if_pos hcell]
    · rw [if_neg hcell, if_neg hcell]
      refine h x ?_
      rw [List.length_cons]
      omega

theorem load32_storeWords (h : vs[i]? = some v) (hv : v < 4294967296) :
    load32 (storeWords m a vs) (a + 4 * i) = v := by
  induction vs generalizing m a i with
  | nil => cases h
  | cons w vs ih =>
    cases i with
    | zero =>
      obtain rfl : w = v := by simpa using h
      rw [storeWords, load32_congr fun x _ hx => storeWords_frame (Or.inl (by omega)), Nat.mul_zero,
        Nat.add_zero, load32_store32, Nat.mod_eq_of_lt hv]
    | succ i =>
      have hnext := ih (m := store32 m a w) (a := a + 4) (i := i) (by simpa using h)
      rw [storeWords, ← hnext]
      congr 1
      omega

end Words

section Setup

variable {files : OpenFiles} {m m₁ m₂ : Mem} {dosHeader name header i : Nat} {img : Image}
  {first d : Import}

/-- The search of the `gft` ends at the library that is called `name`. -/
theorem gftGetByName_settles (hnames : ∀ a ∈ files.names, ∃ s, StrAt m a s)
    (h : IsLibrary files m name header) :
    ∃ gfd, Settles (gftGetByName files m name) gfd ∧ gfd < invalidFd ∧
      loadLibrary files m gfd = .ret header := by
  rcases h with ⟨gfd, nodeName, hgfd, hnode, hsame, hbefore, hload, _⟩
  refine ⟨gfd, ?_, hgfd, hload⟩
  -- the table is searched from its front; no name before the library's is the same
  have hsearch : ∀ names i k, names[k]? = some nodeName →
      (∀ j < k, ∀ other, names[j]? = some other → ¬ SameName m name other) →
      (∀ a ∈ names, ∃ s, StrAt m a s) →
      Settles (fun fuel => gftSearchName m name fuel names i) (i + k) := by
    intro names
    induction names with
    | nil =>
      intro i k hk
      cases hk
    | cons other names ih =>
      intro i k hk hno hstr
      simp only [gftSearchName]
      cases k with
      | zero =>
        obtain rfl : other = nodeName := by simpa using hk
        rcases hsame with ⟨s, t, hs, ht, hmap⟩
        obtain ⟨res, hres, hiff⟩ := strcmpInsensitive_settles (a := name) ht
        exact hres.bind (.pos (hiff.mpr ⟨s, hs, hmap⟩) .ret)
      | succ k =>
        obtain ⟨t, ht⟩ := hstr other List.mem_cons_self
        obtain ⟨res, hres, hiff⟩ := strcmpInsensitive_settles (a := name) ht
        have hne : ¬ res = 0 := by
          intro hzero
          obtain ⟨s, hs, hmap⟩ := hiff.mp hzero
          exact hno 0 (by omega) other rfl ⟨s, t, hs, ht, hmap⟩
        have hrest := ih (i + 1) k (by simpa using hk)
          (fun j hj other' hother => hno (j + 1) (by omega) other' (by simpa using hother))
          (fun a ha => hstr a (List.mem_cons_of_mem _ ha))
        rw [show i + 1 + k = i + (k + 1) by omega] at hrest
        exact hres.bind (.neg hne hrest)
  have hfound := hsearch files.names 0 gfd hnode hbefore hnames
  rw [Nat.zero_add] at hfound
  exact hfound

/-- The slots of a descriptor are slots. -/
theorem near_of_slots (hd : d ∈ img.imports)
    (h : ∀ x, x < img.slot d 0 ∨ img.slot d d.names.length ≤ x → m₁ x = m x) : img.Near m m₁ := by
  intro x hx
  refine h x ?_
  by_contra hin
  exact hx ⟨d, hd, by omega, by omega⟩

/-- The addresses that are written for the names of `d` when they are looked up in a library. -/
def boundTo (m : Mem) (d : Import) (library : Nat) : List Nat := d.names.map (lookedUp m library)

theorem boundTo_length {library : Nat} : (boundTo m d library).length = d.names.length :=
  List.length_map _

/-- Binding against a library fills the slots of the first descriptor, whichever descriptor the
library is for. -/
theorem peParseImportFunctions_settles (h : WellFormed files m dosHeader img)
    (hfirst : img.imports[0]? = some first) (hd : d ∈ img.imports)
    (hm : ∀ x, x < img.slot first 0 ∨ img.slot first first.names.length ≤ x → m₁ x = m x) :
    Settles (peParseImportFunctions m₁ dosHeader d.library)
      (storeWords m (img.slot first 0) (boundTo m first d.library)) := by
  have hmem : first ∈ img.imports := List.mem_of_getElem? hfirst
  -- the loop from thunk `i` on, on a memory that differs in the slots
  have hloop : ∀ n i m₂, i + n = first.names.length →
      (∀ x, x < img.slot first 0 ∨ img.slot first first.names.length ≤ x → m₂ x = m x) →
      Settles (peBindThunks img.base img.descriptors (peGetImageBase m d.library)
          (exportDirectory m d.library) i m₂)
        (storeWords m₂ (img.slot first i)
          ((first.names.drop i).map (lookedUp m d.library))) := by
    intro n
    induction n with
    | zero =>
      intro i m₂ hi hm₂
      have hshow := (h.image m₂ (near_of_slots hmem hm₂)).imports 0 first hfirst
      have hend := hshow.ended
      rw [← hi, Nat.add_zero] at hend
      rw [List.drop_eq_nil_of_le (by omega)]
      refine .succ ?_
      simp only [peBindThunks]
      exact .neg (not_not.mpr hend) .ret
    | succ n ih =>
      intro i m₂ hi hm₂
      have hlt : i < first.names.length := by omega
      have hnear := near_of_slots hmem hm₂
      have hshow := (h.image m₂ hnear).imports 0 first hfirst
      rw [Nat.mul_zero, Nat.add_zero] at hshow
      obtain ⟨hthunk, hname⟩ := hshow.thunk i _ (List.getElem?_eq_getElem hlt)
      have hlook := peGetExportFunctionAddr_settles d.library hname
      rw [h.base m₂ hnear d hd, h.directory m₂ hnear d hd,
        h.exported m₂ hnear d hd first hmem _ (List.getElem_mem hlt)] at hlook
      rw [List.drop_eq_getElem_cons hlt, List.map_cons, storeWords]
      refine .succ ?_
      simp only [peBindThunks, hshow.firstThunk]
      refine .pos hthunk (hlook.bind ?_)
      refine ih (i + 1) _ (by omega) fun x hx => ?_
      rw [store32_frame, hm₂ x hx]
      unfold Image.slot at hx
      omega
  have hshow := h.image m₁ (near_of_slots hmem hm)
  have hrun := hloop first.names.length 0 m₁ (Nat.zero_add _) hm
  rw [List.drop_zero] at hrun
  have hbase := h.base m₁ (near_of_slots hmem hm) d hd
  have hdir := h.directory m₁ (near_of_slots hmem hm) d hd
  have hcall : peParseImportFunctions m₁ dosHeader d.library =
      peBindThunks img.base img.descriptors (peGetImageBase m d.library)
        (exportDirectory m d.library) 0 m₁ := by
    rw [← hbase, ← hdir, ← hshow.descriptors, ← hshow.base]
    rfl
  have hwords : storeWords m₁ (img.slot first 0) (boundTo m first d.library) =
      storeWords m (img.slot first 0) (boundTo m first d.library) := by
    refine storeWords_congr fun x hx => hm x ?_
    rw [boundTo_length] at hx
    unfold Image.slot at *
    omega
  rw [hcall, ← hwords]
  exact hrun

/-! ## The walk over the descriptors -/

/-- What is left when the descriptors that are left have been walked: the library of the last one
decides. -/
def afterWalk (m m₁ : Mem) (img : Image) (first : Import) (rest : List Import) : Mem :=
  match rest.getLast? with
  | none => m₁
  | some last => storeWords m (img.slot first 0) (boundTo m first last.library)

/-- The walk from a descriptor on. -/
theorem setupImports_settles (h : WellFormed files m dosHeader img)
    (hfirst : img.imports[0]? = some first) (rest : List Import) :
    ∀ before m₁, img.imports = before ++ rest →
      (∀ x, x < img.slot first 0 ∨ img.slot first first.names.length ≤ x → m₁ x = m x) →
      Settles (setupImports files dosHeader img.base (img.descriptors + 20 * before.length) m₁)
        (afterWalk m m₁ img first rest) := by
  have hmem : first ∈ img.imports := List.mem_of_getElem? hfirst
  induction rest with
  | nil =>
    intro before m₁ hsplit hm
    have hend := (h.image m₁ (near_of_slots hmem hm)).ended
    rw [hsplit, List.append_nil] at hend
    refine .succ ?_
    simp only [setupImports]
    exact .neg (not_not.mpr hend) .ret
  | cons d rest ih =>
    intro before m₁ hsplit hm
    have hd : d ∈ img.imports := by
      rw [hsplit]
      exact List.mem_append_right _ List.mem_cons_self
    have hindex : img.imports[before.length]? = some d := by
      rw [hsplit, List.getElem?_append_right (Nat.le_refl _), Nat.sub_self]
      rfl
    have hshows := h.image m₁ (near_of_slots hmem hm)
    have hshow := hshows.imports before.length d hindex
    obtain ⟨gfd, hget, hgfd, hload⟩ := gftGetByName_settles hshows.names hshow.library
    have hlive : load32 m₁ (img.descriptors + 20 * before.length + 16) ≠ 0 := by
      rw [hshow.firstThunk]
      exact hshow.live
    have hvalid : ¬ gfd = invalidFd := Nat.ne_of_lt hgfd
    -- the library of this descriptor is bound to the first one
    have hbind := peParseImportFunctions_settles h hfirst hd hm
    have hnext := ih (before ++ [d])
      (storeWords m (img.slot first 0) (boundTo m first d.library))
      (by rw [hsplit, List.append_assoc]; rfl)
      (fun x hx => storeWords_frame (by
        rw [boundTo_length]
        unfold Image.slot at *
        omega))
    have hlast : afterWalk m (storeWords m (img.slot first 0) (boundTo m first d.library)) img first
        rest = afterWalk m m₁ img first (d :: rest) := by
      unfold afterWalk
      cases rest with
      | nil => rfl
      | cons d' rest => rw [List.getLast?_cons_cons]; rfl
    rw [hlast, List.length_append, List.length_singleton, Nat.mul_add, ← Nat.add_assoc] at hnext
    refine .succ ?_
    simp only [setupImports]
    refine .pos hlive (hget.bind (.neg hvalid ?_))
    simp only [hload, Outcome.ret_bind]
    exact hbind.bind hnext

/-- The memory that the boot process is set up with. -/
def afterSetup (m : Mem) (img : Image) : Mem :=
  match img.imports with
  | [] => m
  | first :: rest => afterWalk m m img first (first :: rest)

theorem kernelSetupProcess_settles (h : WellFormed files m dosHeader img) :
    Settles (kernelSetupProcess files true m dosHeader) (afterSetup m img) := by
  have hshows := h.image m fun x _ => rfl
  unfold kernelSetupProcess afterSetup
  simp only [Bool.true_eq_false, if_false, hshows.base, hshows.descriptors]
  cases himports : img.imports with
  | nil =>
    have hend := hshows.ended
    rw [himports, List.length_nil, Nat.mul_zero, Nat.add_zero] at hend
    refine .succ ?_
    simp only [setupImports]
    exact .neg (not_not.mpr hend) .ret
  | cons first rest =>
    have hfirst : img.imports[0]? = some first := by rw [himports]; rfl
    exact setupImports_settles h hfirst (first :: rest) [] m himports fun x _ => rfl

/-! ## Each import from its own library -/

/-- Every slot holds what the library of its descriptor exports for the name of the same index,
and no other byte has changed. -/
structure ImportsBound (m m' : Mem) (img : Image) : Prop where
  bound : ∀ d ∈ img.imports, ∀ i s, d.names[i]? = some s →
    Exports m d.library s (load32 m' (img.slot d i))
  frame : img.Near m m'

/-- The last library serves the first descriptor as its own would, and the slots of the other
descriptors are filled beforehand. -/
def BoundBeforehand (m : Mem) (img : Image) : Prop :=
  ∀ first rest last, img.imports = first :: rest → img.imports.getLast? = some last →
    (∀ s ∈ first.names, Exports m first.library s (lookedUp m last.library s)) ∧
      ∀ d ∈ rest, ∀ i s, d.names[i]? = some s → Exports m d.library s (load32 m (img.slot d i))

/-- A library that names all its functions is searched to the end of its names. -/
theorem lookedUp_exported {s : List UInt8} {a : Nat} (hall : numberOfFunctions m header =
    numberOfNames m header) (h : Exports m header s a) :
    Exports m header s (lookedUp m header s) := by
  rcases h with ⟨j, hj, hname, _⟩
  have hfirst : ∀ n i, i ≤ j → j < i + n →
      ∃ k < i + n, StrAt m (exportName m header k) s ∧
        firstExport m header s n i = exportAddress m header k := by
    intro n
    induction n with
    | zero =>
      intro i hi hn
      omega
    | succ n ih =>
      intro i hi hn
      rw [firstExport]
      by_cases hhere : StrAt m (exportName m header i) s
      · rw [if_pos hhere]
        exact ⟨i, by omega, hhere, rfl⟩
      · rw [if_neg hhere]
        have hne : i ≠ j := by
          rintro rfl
          exact hhere hname
        obtain ⟨k, hk, hfound⟩ := ih (i + 1) (by omega) (by omega)
        exact ⟨k, by omega, hfound⟩
  obtain ⟨k, hk, hfound, heq⟩ := hfirst (numberOfFunctions m header) 0 (Nat.zero_le _) (by omega)
  exact ⟨k, by omega, hfound, heq⟩

/-- The imports are bound exactly when the first descriptor is served by the last library, and the
others need nothing. -/
theorem importsBound_iff (h : WellFormed files m dosHeader img) :
    ImportsBound m (afterSetup m img) img ↔ BoundBeforehand m img := by
  cases himports : img.imports with
  | nil =>
    have hnone : ImportsBound m (afterSetup m img) img := by
      constructor
      · intro d hd
        rw [himports] at hd
        cases hd
      · intro x _
        unfold afterSetup
        rw [himports]
    refine ⟨fun _ first rest last hcons => ?_, fun _ => hnone⟩
    rw [himports] at hcons
    cases hcons
  | cons first rest =>
    obtain ⟨last, hlast⟩ : ∃ last, (first :: rest).getLast? = some last :=
      ⟨_, List.getLast?_eq_some_getLast (List.cons_ne_nil _ _)⟩
    have hafter : afterSetup m img =
        storeWords m (img.slot first 0) (boundTo m first last.library) := by
      simp only [afterSetup, himports, afterWalk, hlast]
    -- the slots of the first descriptor, and those of the others
    have hfirst : ∀ i s, first.names[i]? = some s →
        load32 (afterSetup m img) (img.slot first i) = lookedUp m last.library s := by
      intro i s hs
      have hslot : img.slot first i = img.slot first 0 + 4 * i := by
        unfold Image.slot
        omega
      have hword : (boundTo m first last.library)[i]? = some (lookedUp m last.library s) := by
        unfold boundTo
        rw [List.getElem?_map, hs]
        rfl
      rw [hafter, hslot]
      exact load32_storeWords hword firstExport_lt
    have hrest : ∀ d ∈ rest, ∀ i s, d.names[i]? = some s →
        load32 (afterSetup m img) (img.slot d i) = load32 m (img.slot d i) := by
      intro d hd i s hs
      have hapart := h.apart
      rw [himports] at hapart
      have hd' := (List.pairwise_cons.mp hapart).1 d hd
      have hi : i < d.names.length := (List.getElem?_eq_some_iff.mp hs).1
      rw [hafter]
      refine load32_congr fun x hlo hhi => storeWords_frame ?_
      rw [boundTo_length]
      unfold Image.slot at *
      omega
    have hnear : img.Near m (afterSetup m img) := by
      have hmem : first ∈ img.imports := by
        rw [himports]
        exact List.mem_cons_self
      refine near_of_slots hmem fun x hx => ?_
      rw [hafter]
      refine storeWords_frame ?_
      rw [boundTo_length]
      unfold Image.slot at *
      omega
    constructor
    · rintro ⟨hbound, _⟩ first' rest' last' hcons hlast'
      rw [himports] at hcons hlast' hbound
      injection hcons with hhead htail
      subst hhead htail
      obtain rfl : last = last' := Option.some.inj (hlast.symm.trans hlast')
      constructor
      · intro s hs
        obtain ⟨i, hi⟩ := List.getElem?_of_mem hs
        rw [← hfirst i s hi]
        exact hbound first List.mem_cons_self i s hi
      · intro d hd i s hs
        rw [← hrest d hd i s hs]
        exact hbound d (List.mem_cons_of_mem _ hd) i s hs
    · intro hserved
      obtain ⟨hhead, htail⟩ := hserved first rest last himports (by rw [himports, hlast])
      refine ⟨fun d hd i s hs => ?_, hnear⟩
      rw [himports] at hd
      rcases List.mem_cons.mp hd with rfl | hd
      · rw [hfirst i s hs]
        exact hhead s (List.mem_of_getElem? hs)
      · rw [hrest d hd i s hs]
        exact htail d hd i s hs

/-- The imports of an image with one descriptor are bound, when its library names all its
functions. -/
theorem importsBound_of_single (h : WellFormed files m dosHeader img) (hone : img.imports = [d])
    (hall : numberOfFunctions m d.library = numberOfNames m d.library)
    (hexports : ∀ s ∈ d.names, ∃ a, Exports m d.library s a) :
    ImportsBound m (afterSetup m img) img := by
  refine (importsBound_iff h).mpr fun first rest last hcons hlast => ?_
  rw [hone] at hcons hlast
  injection hcons with hhead htail
  subst hhead htail
  obtain rfl : d = last := Option.some.inj hlast
  refine ⟨fun s hs => ?_, fun _ hd => absurd hd List.not_mem_nil⟩
  obtain ⟨a, ha⟩ := hexports s hs
  exact lookedUp_exported hall ha

end Setup

/-! ## Two libraries -/

/-- The words of a library with its header at `header` and mapped at `base`, that exports one
function under a name of one character. -/
def libraryWords (header base name : Nat) : List (Nat × Nat) :=
  [(header, 0x5A4D), (header + 60, 64), (header + 64, 0x4550), (header + 68, 0x14c),
    (header + 84, 196608), (header + 116, base), (header + 184, 0), (base + 20, 1), (base + 24, 1),
    (base + 28, 64), (base + 32, 72), (base + 36, 80), (base + 64, 4096), (base + 72, 96),
    (base + 80, 0), (base + 96, name)]

/-- The words of an image with its header at 4096, that imports `a` from `x` and `b` from `y`, and
the names of two open files `x` and `y`. -/
def mainWords : List (Nat × Nat) :=
  [(4156, 64), (4212, 4194304), (4288, 0), (4194304, 100), (4194316, 120), (4194320, 200),
    (4194324, 108), (4194336, 128), (4194340, 208), (4194360, 0), (4194404, 140), (4194408, 0),
    (4194412, 148), (4194416, 0), (4194424, 120), (4194432, 121), (4194446, 97), (4194454, 98),
    (12288, 120), (12292, 121)]

/-- All words of the image and of its two libraries. -/
def twoLibrariesWords : List (Nat × Nat) :=
  mainWords ++ (libraryWords 16384 5242880 97 ++ libraryWords 24576 6291456 98)

/-- The image and its libraries; the slots are zero. -/
def twoLibraries : Mem :=
  twoLibrariesWords.foldl (fun m p => store32 m p.1 p.2) fun _ => 0

/-- The open files `x` and `y`. -/
def twoFiles : OpenFiles where
  names := [12288, 12292]
  bytesRead := fun _ => 4096
  buffer := fun gfd => if gfd = 0 then 16384 else 24576
  mapped := fun _ _ => true

/-- The imports of the image. -/
def twoImports : Image where
  base := 4194304
  descriptors := 4194304
  imports := [⟨200, [[97]], 16384⟩, ⟨208, [[98]], 24576⟩]

section Two

variable {m m' : Mem} {a header base gfd : Nat} {c : UInt8} {s t : List UInt8} {files : OpenFiles}

theorem StrAt.unique (h : StrAt m a s) (h' : StrAt m a t) : s = t := by
  induction s generalizing a t with
  | nil =>
    cases t with
    | nil => rfl
    | cons d t => exact absurd (h'.1.symm.trans h) h'.2.1
  | cons d s ih =>
    cases t with
    | nil => exact absurd (h.1.symm.trans h') h.2.1
    | cons e t => rw [← h.1, ← h'.1, ih h.2.2 h'.2.2]

/-- A word that holds one character is a string. -/
theorem strAt_of_word (h : load32 m a = c.toNat) (hc : c ≠ 0) : StrAt m a [c] := by
  have hlt := c.toNat_lt
  have hlow : m a = c := by
    apply UInt8.toNat_inj.mp
    have hbyte := (m a).toNat_lt
    simp only [load32] at h
    omega
  have hend : m (a + 1) = 0 := by
    apply UInt8.toNat_inj.mp
    have hbyte := (m a).toNat_lt
    simp only [load32, UInt8.toNat_zero] at h ⊢
    omega
  exact ⟨hlow, hc, hend⟩

theorem load16_of_word (m : Mem) (a : Nat) : load16 m a = load32 m a % 65536 := by
  have hlow := (m a).toNat_lt
  have hhigh := (m (a + 1)).toNat_lt
  simp only [load16, load32]
  omega

theorem load16_of_word_high (m : Mem) (a : Nat) : load16 m (a + 2) = load32 m a / 65536 := by
  have h₀ := (m a).toNat_lt
  have h₁ := (m (a + 1)).toNat_lt
  have h₂ := (m (a + 2)).toNat_lt
  have h₃ := (m (a + 3)).toNat_lt
  rw [load16, show a + 2 + 1 = a + 3 from rfl, load32]
  omega

/-- No section is left. -/
theorem peMapSections_end {mapped : Nat → Bool} {ntHeader sections imageBase fuel i : Nat}
    {done : List SectionMapping} (h : ¬ i < load16 m (add32 ntHeader 6)) :
    ((peMapSections mapped ntHeader sections imageBase (fuel + 1) i done).run m).value =
      .ret done := by
  simp only [peMapSections, value_bind, run_read16, h, if_false, run_pure]

/-- A library with its header at `header` and mapped at `base`, which exports one function under
the name `c`. -/
structure OneExport (m : Mem) (header base : Nat) (c : UInt8) : Prop where
  char : c ≠ 0
  headerFits : 0 < header ∧ header + 4096 ≤ 4294967296
  baseFits : 4194304 ≤ base ∧ base < 2147483648
  word : ∀ p ∈ libraryWords header base c.toNat, load32 m p.1 = p.2

namespace OneExport

variable (h : OneExport m header base c)

include h

/-- A word of the library. -/
theorem load {v : Nat} (hp : (a, v) ∈ libraryWords header base c.toNat) : load32 m a = v :=
  h.word (a, v) hp

theorem headerField {k : Nat} (hk : k < 4096) : add32 header k = header + k := by
  have hfits := h.headerFits
  exact add32_eq (by omega)

theorem ntField {k : Nat} (hk : k < 4000) : add32 (header + 64) k = header + (64 + k) := by
  have hfits := h.headerFits
  rw [add32_eq (by omega), Nat.add_assoc]

/-- An offset of the file, in the mapped library. -/
theorem rva {k : Nat} (hk : k ≤ 4096) : add32 k base = base + k := by
  have hfits := h.baseFits
  rw [add32_eq (by omega), Nat.add_comm]

theorem lfanew : load32 m (add32 header 60) = 64 := by
  rw [h.headerField (by decide)]
  exact h.load (by simp [libraryWords])

theorem ntHeaders_eq : ntHeaders m header = header + 64 := by
  show add32 (load32 m (add32 header 60)) header = header + 64
  rw [h.lfanew, add32_comm, h.headerField (by decide)]

theorem imageBase : peGetImageBase m header = base := by
  rw [peGetImageBase, h.ntHeaders_eq, h.ntField (by decide)]
  exact h.load (by simp [libraryWords])

theorem directory : exportDirectory m header = base := by
  have hdir : peDirectory m header peExportDirectory = 0 := by
    rw [peDirectory, h.ntHeaders_eq, h.ntField (by decide)]
    exact h.load (by simp [libraryWords])
  rw [exportDirectory, hdir, h.imageBase, h.rva (Nat.zero_le _), Nat.add_zero]

theorem names : numberOfNames m header = 1 := by
  rw [numberOfNames, h.directory]
  exact h.load (by simp [libraryWords])

theorem functions : numberOfFunctions m header = 1 := by
  rw [numberOfFunctions, h.directory]
  exact h.load (by simp [libraryWords])

/-- The name of the only export. -/
theorem name_iff : StrAt m (exportName m header 0) s ↔ s = [c] := by
  have hnames : load32 m (base + 32) = 72 := h.load (by simp [libraryWords])
  have hrva : load32 m (base + 72 + 4 * 0) = 96 := h.load (by simp [libraryWords])
  have hchar : load32 m (base + 96) = c.toNat := h.load (by simp [libraryWords])
  have hstr := strAt_of_word hchar h.char
  rw [exportName, h.directory, h.imageBase, hnames, h.rva (k := 72) (by decide), hrva,
    h.rva (by decide)]
  constructor
  · intro hs
    exact hs.unique hstr
  · rintro rfl
    exact hstr

theorem address : exportAddress m header 0 = base + 4096 := by
  have hordinals : load32 m (base + 36) = 80 := h.load (by simp [libraryWords])
  have hordinal : load32 m (base + 80 + 2 * 0) = 0 := h.load (by simp [libraryWords])
  have haddrs : load32 m (base + 28) = 64 := h.load (by simp [libraryWords])
  have haddr : load32 m (base + 64 + 4 * 0) = 4096 := h.load (by simp [libraryWords])
  rw [exportAddress, h.directory, h.imageBase, hordinals, haddrs, h.rva (k := 80) (by decide),
    h.rva (k := 64) (by decide), load16_of_word, hordinal, Nat.zero_mod, haddr,
    h.rva (Nat.le_refl _)]

/-- Only the one name is found. -/
theorem lookedUp_eq : lookedUp m header s = if s = [c] then base + 4096 else 0 := by
  rw [lookedUp, h.functions]
  simp only [firstExport, h.name_iff, h.address]

theorem exports_iff : Exports m header s a ↔ s = [c] ∧ a = base + 4096 := by
  constructor
  · rintro ⟨i, hi, hname, haddr⟩
    rw [h.names] at hi
    obtain rfl : i = 0 := by omega
    exact ⟨h.name_iff.mp hname, haddr.trans h.address⟩
  · rintro ⟨rfl, rfl⟩
    exact ⟨0, by rw [h.names]; exact Nat.zero_lt_one, h.name_iff.mpr rfl, h.address.symm⟩

/-- The library is loaded, without a section. -/
theorem loaded (hbytes : files.bytesRead gfd = 4096) (hbuffer : files.buffer gfd = header) :
    loadLibrary files m gfd = .ret header := by
  have hmagic : load32 m header = 0x5A4D := h.load (by simp [libraryWords])
  have hsignature : load32 m (header + 64) = 0x4550 := h.load (by simp [libraryWords])
  have hmachine : load32 m (header + (64 + 4)) = 0x14c := h.load (by simp [libraryWords])
  have hcharacteristics : load32 m (header + (64 + 20)) = 196608 := h.load (by simp [libraryWords])
  have hbase : load32 m (header + (64 + 52)) = base := h.load (by simp [libraryWords])
  have hnot : ¬ base < 4194304 := by have hfits := h.baseFits; omega
  have hnot' : ¬ base ≥ 2147483648 := by have hfits := h.baseFits; omega
  have hzero : ¬ header = 0 := by have hfits := h.headerFits; omega
  have hnt : add32 64 header = header + 64 := by rw [add32_comm, h.headerField (by decide)]
  have hhalf : load16 m (header + (64 + 22)) = 3 := by
    rw [show header + (64 + 22) = header + (64 + 20) + 2 from rfl, load16_of_word_high,
      hcharacteristics]
  have hsections : load16 m (header + (64 + 6)) = 0 := by
    rw [show header + (64 + 6) = header + (64 + 4) + 2 from rfl, load16_of_word_high, hmachine]
  have hvalid : ((validatePEImage header).run m).value = true := by
    simp only [validatePEImage, value_bind, value_guard]
    simp only [peGetNtHeaders, value_bind, mem_bind, run_read32, run_read16, run_pure, h.lfanew,
      hnt, h.ntField (show 4 < 4000 by decide), h.ntField (show 22 < 4000 by decide),
      h.ntField (show 52 < 4000 by decide), load16_of_word m header, hmagic, hsignature,
      load16_of_word m (header + (64 + 4)), hmachine, hhalf, hbase, hnot, hnot']
    decide
  have hnone : ¬ 0 < load16 m (add32 (header + 64) 6) := by
    rw [h.ntField (by decide), hsections]
    exact Nat.lt_irrefl 0
  have hlong : ¬ 4096 < 512 := by decide
  unfold loadLibrary peLoadImage
  rw [hbytes, hbuffer, if_neg hlong, if_neg hzero]
  simp only [value_bind, mem_bind, validatePEImage_readOnly header m, hvalid, Bool.true_eq_false,
    if_false, peGetNtHeaders, run_read32, run_pure, h.lfanew, hnt,
    h.ntField (show 52 < 4000 by decide), hbase]
  have hmem : ((peGetSectionHeader header).run m).mem = m := rfl
  rw [hmem, peMapSections_end hnone]
  rfl

end OneExport

/-- A descriptor with one name. -/
theorem showsImport_of_words {oft rva ft v : Nat} (hoft : load32 m a = oft)
    (hrva : load32 m (a + 12) = rva) (hft : load32 m (a + 16) = ft) (hlive : ft ≠ 0)
    (hlibrary : IsLibrary files m (add32 rva base) header)
    (hthunk : load32 m (add32 base oft) = v) (hv : v ≠ 0)
    (hname : StrAt m (add32 base (v + 2)) s) (hend : load32 m (add32 base oft + 4) = 0) :
    ShowsImport files m base a ⟨ft, [s], header⟩ where
  firstThunk := hft
  live := hlive
  library := by
    rw [hrva]
    exact hlibrary
  thunk := by
    intro i s' hs'
    cases i with
    | zero =>
      obtain rfl : s = s' := Option.some.inj hs'
      rw [hoft, Nat.mul_zero, Nat.add_zero, hthunk]
      exact ⟨hv, hname⟩
    | succ i => cases hs'
  ended := by
    rw [hoft]
    exact hend

theorem twoLibraries_words : ∀ p ∈ twoLibrariesWords, load32 twoLibraries p.1 = p.2 := by
  decide +kernel

theorem twoImports_slots {x : Nat} (hx : twoImports.InSlots x) : 4194504 ≤ x ∧ x < 4194516 := by
  rcases hx with ⟨d, hd, hlo, hhi⟩
  have hbounds : ∀ d ∈ twoImports.imports, 4194504 ≤ twoImports.slot d 0 ∧
      twoImports.slot d d.names.length ≤ 4194516 := by decide
  have hd' := hbounds d hd
  omega

/-- No word of the image and its libraries is in a slot. -/
theorem twoLibraries_near (hn : twoImports.Near twoLibraries m) :
    ∀ p ∈ twoLibrariesWords, load32 m p.1 = p.2 := by
  intro p hp
  have hfar : ∀ p ∈ twoLibrariesWords, p.1 + 4 ≤ 4194504 ∨ 4194516 ≤ p.1 := by decide
  rw [← twoLibraries_words p hp]
  refine load32_congr fun x hlo hhi => hn x fun hx => ?_
  have hfar' := hfar p hp
  have hslot := twoImports_slots hx
  omega

theorem twoLibraries_first (hn : twoImports.Near twoLibraries m) :
    OneExport m 16384 5242880 97 where
  char := by decide
  headerFits := by decide
  baseFits := by decide
  word := fun p hp => twoLibraries_near hn p
    (List.mem_append_right _ (List.mem_append_left _ hp))

theorem twoLibraries_second (hn : twoImports.Near twoLibraries m) :
    OneExport m 24576 6291456 98 where
  char := by decide
  headerFits := by decide
  baseFits := by decide
  word := fun p hp => twoLibraries_near hn p
    (List.mem_append_right _ (List.mem_append_right _ hp))

theorem twoLibraries_shows (hn : twoImports.Near twoLibraries m) :
    ShowsImports twoFiles m 4096 twoImports := by
  have hword : ∀ a v, (a, v) ∈ twoLibrariesWords → load32 m a = v :=
    fun a v hp => twoLibraries_near hn (a, v) hp
  have hstr : ∀ (a : Nat) (c : UInt8), (a, c.toNat) ∈ twoLibrariesWords → c ≠ 0 → StrAt m a [c] :=
    fun a c hp hc => strAt_of_word (hword a c.toNat hp) hc
  have hx := hstr 4194424 120 (by decide) (by decide)
  have hy := hstr 4194432 121 (by decide) (by decide)
  have hfileX := hstr 12288 120 (by decide) (by decide)
  have hfileY := hstr 12292 121 (by decide) (by decide)
  have hnt : ntHeaders m 4096 = 4160 := by
    show add32 (load32 m (add32 4096 60)) 4096 = 4160
    rw [show add32 4096 60 = 4156 from rfl, hword 4156 64 (by decide)]
    rfl
  have hlibraryX : IsLibrary twoFiles m (add32 120 4194304) 16384 :=
    ⟨0, 12288, by decide, rfl, ⟨_, _, hx, hfileX, rfl⟩, fun j hj => absurd hj (Nat.not_lt_zero j),
      (twoLibraries_first hn).loaded rfl rfl, by decide⟩
  have hother : ¬ SameName m 4194432 12288 := by
    rintro ⟨s, t, hs, ht, hmap⟩
    rw [hs.unique hy, ht.unique hfileX] at hmap
    revert hmap
    decide
  have hlibraryY : IsLibrary twoFiles m (add32 128 4194304) 24576 := by
    refine ⟨1, 12292, by decide, rfl, ⟨_, _, hy, hfileY, rfl⟩, ?_,
      (twoLibraries_second hn).loaded rfl rfl, by decide⟩
    intro j hj other hj'
    obtain rfl : j = 0 := by omega
    obtain rfl : 12288 = other := Option.some.inj hj'
    exact hother
  constructor
  · rw [peGetImageBase, hnt]
    exact hword 4212 4194304 (by decide)
  · rw [peDirectory, hnt, show add32 4160 (120 + 8 * peImportDirectory) = 4288 from rfl,
      hword 4288 0 (by decide)]
    rfl
  · intro k d hd
    match k with
    | 0 =>
      obtain rfl : (⟨200, [[97]], 16384⟩ : Import) = d := Option.some.inj hd
      exact showsImport_of_words (hword 4194304 100 (by decide)) (hword 4194316 120 (by decide))
        (hword 4194320 200 (by decide)) (by decide) hlibraryX (hword 4194404 140 (by decide))
        (by decide) (hstr 4194446 97 (by decide) (by decide)) (hword 4194408 0 (by decide))
    | 1 =>
      obtain rfl : (⟨208, [[98]], 24576⟩ : Import) = d := Option.some.inj hd
      exact showsImport_of_words (hword 4194324 108 (by decide)) (hword 4194336 128 (by decide))
        (hword 4194340 208 (by decide)) (by decide) hlibraryY (hword 4194412 148 (by decide))
        (by decide) (hstr 4194454 98 (by decide) (by decide)) (hword 4194416 0 (by decide))
    | k + 2 => cases hd
  · exact hword 4194360 0 (by decide)
  · intro a ha
    rcases List.mem_cons.mp ha with rfl | ha
    · exact ⟨_, hfileX⟩
    · obtain rfl := List.mem_singleton.mp ha
      exact ⟨_, hfileY⟩

theorem twoLibraries_wellFormed : WellFormed twoFiles twoLibraries 4096 twoImports := by
  have hself : twoImports.Near twoLibraries twoLibraries := fun x _ => rfl
  have hmem : ∀ d ∈ twoImports.imports, d.library = 16384 ∨ d.library = 24576 := by decide
  constructor
  · exact fun m hn => twoLibraries_shows hn
  · intro m hn d hd
    rcases hmem d hd with hlib | hlib
    · rw [hlib, (twoLibraries_first hn).imageBase, (twoLibraries_first hself).imageBase]
    · rw [hlib, (twoLibraries_second hn).imageBase, (twoLibraries_second hself).imageBase]
  · intro m hn d hd
    rcases hmem d hd with hlib | hlib
    · rw [hlib, (twoLibraries_first hn).directory, (twoLibraries_first hself).directory]
    · rw [hlib, (twoLibraries_second hn).directory, (twoLibraries_second hself).directory]
  · intro m hn d hd _ _ s _
    rcases hmem d hd with hlib | hlib
    · rw [hlib, (twoLibraries_first hn).lookedUp_eq, (twoLibraries_first hself).lookedUp_eq]
    · rw [hlib, (twoLibraries_second hn).lookedUp_eq, (twoLibraries_second hself).lookedUp_eq]
  · decide

end Two

/-- The boot process is set up, and its imports are bound to their own libraries exactly when
`pe_parse_import_functions` has the right library at the end, and nothing else to do. -/
theorem setup_binds_own_iff (files : OpenFiles) (m : Mem) (dosHeader : Nat) (img : Image)
    (h : WellFormed files m dosHeader img) :
    ∃ m', Settles (kernelSetupProcess files true m dosHeader) m' ∧
      (ImportsBound m m' img ↔ BoundBeforehand m img) :=
  ⟨afterSetup m img, kernelSetupProcess_settles h, importsBound_iff h⟩

theorem setup_binds_own_iff_two :
    ∃ m', Settles (kernelSetupProcess twoFiles true twoLibraries 4096) m' ∧
      (ImportsBound twoLibraries m' twoImports ↔ BoundBeforehand twoLibraries twoImports) :=
  setup_binds_own_iff twoFiles twoLibraries 4096 twoImports twoLibraries_wellFormed

/-- `a` is looked up in `y`, and `b` is never looked up. -/
theorem setup_binds_first_only :
    ¬ ∀ files m dosHeader img, WellFormed files m dosHeader img →
      (∀ d ∈ img.imports, ∀ s ∈ d.names, ∃ a, Exports m d.library s a) →
        ∃ m', Settles (kernelSetupProcess files true m dosHeader) m' ∧ ImportsBound m m' img := by
  intro hclaim
  have hself : twoImports.Near twoLibraries twoLibraries := fun x _ => rfl
  have hexports : ∀ d ∈ twoImports.imports, ∀ s ∈ d.names,
      ∃ a, Exports twoLibraries d.library s a := by
    intro d hd s hs
    rcases List.mem_cons.mp hd with rfl | hd
    · exact ⟨_, (twoLibraries_first hself).exports_iff.mpr ⟨List.mem_singleton.mp hs, rfl⟩⟩
    · obtain rfl := List.mem_singleton.mp hd
      exact ⟨_, (twoLibraries_second hself).exports_iff.mpr ⟨List.mem_singleton.mp hs, rfl⟩⟩
  obtain ⟨m', hrun, hbound⟩ :=
    hclaim twoFiles twoLibraries 4096 twoImports twoLibraries_wellFormed hexports
  obtain rfl := hrun.unique (kernelSetupProcess_settles twoLibraries_wellFormed)
  have hserved := (importsBound_iff twoLibraries_wellFormed).mp hbound _ _ _ rfl rfl
  -- the first name has to be found in the second library
  have hfound : Exports twoLibraries 16384 [97] (lookedUp twoLibraries 24576 [97]) :=
    hserved.1 [97] List.mem_cons_self
  have haddr := ((twoLibraries_first hself).exports_iff.mp hfound).2
  rw [(twoLibraries_second hself).lookedUp_eq] at haddr
  revert haddr
  decide

end MeOS
