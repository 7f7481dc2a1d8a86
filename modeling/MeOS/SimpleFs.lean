import MeOS.PeImports

/-! # `Simple_fs.c`: the loader's search for a file

The header of the boot volume tells where its index sectors are. The loop over them counts the
sectors, but reads the first one each time.

The string comparison of the loader is that of the kernel, and `ahci_read` is a parameter. A name
that fills its field runs on into what is behind it.
-/

namespace MeOS.SimpleFs

open Bytes

/-! ## The functions -/

/-- The answer when nothing is found. -/
abbrev notFound : Nat × Nat := (4294967295, 0)

/-- The inner loop of `fsysSimpleFind` over the entries below `n`, from the last one. -/
def searchEntries (m : Mem) (dirName buf fuel : Nat) : Nat → Outcome (Option (Nat × Nat))
  | 0 => .ret none
  | n + 1 => do
    let entry := buf + 64 * n
    let res ← strcmp m dirName (entry + 20) fuel
    if res = 0 then .ret (some (load16 m (entry + 4) * 512, load32 m entry))
    else searchEntries m dirName buf fuel n

/-- The outer loop, with `n` sectors left. -/
def searchSectors (ahciRead : Nat → Nat → Option Mem)
    (port firstIndexSector dirName buf fuel : Nat) : Nat → Mem → Outcome (Option (Nat × Nat))
  | 0, _ => .ret none
  | n + 1, m =>
    match ahciRead port firstIndexSector with
    | none => .panic
    | some sector => do
      let m := blit m buf sector 0 512
      let found ← searchEntries m dirName buf fuel 8
      match found with
      | some entry => .ret (some entry)
      | none => searchSectors ahciRead port firstIndexSector dirName buf fuel n m

/-- `fsysSimpleFind`: the length and the start that it leaves. `buf` is where its buffer is. -/
def fsysSimpleFind (ahciRead : Nat → Nat → Option Mem) (m : Mem) (dirName port buf fuel : Nat) :
    Outcome (Nat × Nat) :=
  match ahciRead 1 0 with
  | none => .panic
  | some sector => do
    let m := blit m buf sector 0 512
    let volSize := load32 m (buf + 2)
    let firstIndexSector := load32 m (buf + 6)
    let sectorsToRead := sub32 volSize firstIndexSector
    let found ← searchSectors ahciRead port firstIndexSector dirName buf fuel sectorsToRead m
    .ret (found.getD notFound)

/-! ## The index -/

section

variable {ahciRead : Nat → Nat → Option Mem} {m header sector : Mem} {s : List UInt8}
variable {dirName port buf n slot : Nat}

/-- The volume size of a header. -/
def headerVolSize (header : Mem) : Nat := load32 header 2

/-- The first index sector of a header. -/
def headerFirstIndex (header : Mem) : Nat := load32 header 6

/-- The name of an entry, with its zero, is in its field. -/
def HasName (sector : Mem) (s : List UInt8) (slot : Nat) : Prop :=
  s.length < 44 ∧ StrAt sector (64 * slot + 20) s

instance (sector : Mem) (s : List UInt8) (slot : Nat) : Decidable (HasName sector s slot) :=
  inferInstanceAs (Decidable (s.length < 44 ∧ _))

/-- The length in bytes and the first sector of an entry. -/
def entryValue (sector : Mem) (slot : Nat) : Nat × Nat :=
  (load16 sector (64 * slot + 4) * 512, load32 sector (64 * slot))

/-- One of the index sectors has the entry in one of its slots. -/
def IsEntry (ahciRead : Nat → Nat → Option Mem) (port : Nat) (header : Mem) (s : List UInt8)
    (value : Nat × Nat) : Prop :=
  ∃ k, headerFirstIndex header ≤ k ∧ k < headerVolSize header ∧
    ∃ sector, ahciRead port k = some sector ∧
      ∃ slot < 8, HasName sector s slot ∧ value = entryValue sector slot

/-- The search leaves the values of an entry with the name, or those for not found where there is
none. -/
def FindsEntry (ahciRead : Nat → Nat → Option Mem) (m : Mem) (dirName port buf : Nat)
    (header : Mem) (s : List UInt8) : Prop :=
  ∃ value, Settles (fsysSimpleFind ahciRead m dirName port buf) value ∧
    ((∃ entry, IsEntry ahciRead port header s entry) → IsEntry ahciRead port header s value) ∧
    ((¬ ∃ entry, IsEntry ahciRead port header s entry) → value = notFound)

/-- A name too long for its field is spelled by a name field and what is behind it in the
memory. -/
def RunsOn (m : Mem) (buf : Nat) (sector : Mem) (s : List UInt8) : Prop :=
  44 ≤ s.length ∧ ∃ slot < 8, StrAt (blit m buf sector 0 512) (buf + 64 * slot + 20) s

/-- There are no index sectors; or the first one can be read, and has an entry with the name, or
neither it nor another one has, and none of its entries runs on to spell the name. -/
def FirstDecides (ahciRead : Nat → Nat → Option Mem) (m : Mem) (port buf : Nat) (header : Mem)
    (s : List UInt8) : Prop :=
  headerVolSize header = headerFirstIndex header ∨
    ∃ sector, ahciRead port (headerFirstIndex header) = some sector ∧
      ((∃ slot < 8, HasName sector s slot) ∨
        (¬ ∃ entry, IsEntry ahciRead port header s entry) ∧ ¬ RunsOn m buf sector s)

/-! ## The search -/

/-- A byte of a sector in the buffer. -/
theorem buffer_byte {i : Nat} (hi : i < 512) :
    blit m buf sector 0 512 (buf + i) = sector i := by
  rw [blit_at _ _ _ _ hi, Nat.zero_add]

/-- A word of a sector in the buffer. -/
theorem buffer_word {i : Nat} (hi : i + 4 ≤ 512) :
    load32 (blit m buf sector 0 512) (buf + i) = load32 sector i := by
  rw [load32_blit_at hi, Nat.zero_add]

/-- An entry of a sector in the buffer. -/
theorem buffer_entry (hslot : slot < 8) :
    (load16 (blit m buf sector 0 512) (buf + 64 * slot + 4) * 512,
      load32 (blit m buf sector 0 512) (buf + 64 * slot)) = entryValue sector slot := by
  have hsize : load16 (blit m buf sector 0 512) (buf + 64 * slot + 4) =
      load16 sector (64 * slot + 4) := by
    rw [Nat.add_assoc, load16_blit_at (by omega), Nat.zero_add]
  rw [hsize, buffer_word (by omega)]
  rfl

/-- A name that fits its field is that of the entry in the buffer. -/
theorem buffer_name (hslot : slot < 8) (hlen : s.length < 44) :
    StrAt (blit m buf sector 0 512) (buf + 64 * slot + 20) s ↔
      StrAt sector (64 * slot + 20) s := by
  have hsame : ∀ i ≤ s.length,
      blit m buf sector 0 512 (buf + 64 * slot + 20 + i) = sector (64 * slot + 20 + i) := by
    intro i hi
    rw [Nat.add_assoc buf, Nat.add_assoc buf]
    exact buffer_byte (by omega)
  exact ⟨fun h => h.move fun i hi => (hsame i hi).symm, fun h => h.move hsame⟩

/-- The next sector takes the place of the one before. -/
theorem blit_blit {sector' : Mem} :
    blit (blit m buf sector' 0 512) buf sector 0 512 = blit m buf sector 0 512 := by
  funext x
  by_cases hx : x < buf ∨ buf + 512 ≤ x
  · rw [blit_frame _ _ _ hx, blit_frame _ _ _ hx, blit_frame _ _ _ hx]
  · rw [blit_inside _ _ _ (by omega) (by omega), blit_inside _ _ _ (by omega) (by omega)]

/-- The search of a sector in the buffer: the last slot with the name decides. -/
theorem searchEntries_settles (buf n : Nat) (hs : StrAt m dirName s) :
    ∃ found, Settles (fun fuel => searchEntries m dirName buf fuel n) found ∧
      (found = none → ∀ slot < n, ¬ StrAt m (buf + 64 * slot + 20) s) ∧
      ∀ value, found = some value → ∃ slot < n, StrAt m (buf + 64 * slot + 20) s ∧
        (∀ other < n, slot < other → ¬ StrAt m (buf + 64 * other + 20) s) ∧
        value = (load16 m (buf + 64 * slot + 4) * 512, load32 m (buf + 64 * slot)) := by
  induction n with
  | zero => exact ⟨none, Settles.ret, fun _ slot h => absurd h (Nat.not_lt_zero _), nofun⟩
  | succ n ih =>
    obtain ⟨res, hres, hzero⟩ := strcmp_settles_left (b := buf + 64 * n + 20) hs
    simp only [searchEntries]
    by_cases hname : StrAt m (buf + 64 * n + 20) s
    · refine ⟨_, hres.bind (.pos (hzero.mpr hname) .ret), nofun, fun value hvalue => ?_⟩
      exact ⟨n, Nat.lt_succ_self n, hname, fun other hother hlast => absurd hother (by omega),
        (Option.some.inj hvalue).symm⟩
    · obtain ⟨found, hfound, hnone, hsome⟩ := ih
      have hslots : ∀ slot, slot < n + 1 → ¬ slot < n →
          ¬ StrAt m (buf + 64 * slot + 20) s := by
        intro slot hslot hlast
        obtain rfl : slot = n := by omega
        exact hname
      refine ⟨found, hres.bind (.neg (fun h => hname (hzero.mp h)) hfound), ?_, ?_⟩
      · intro hempty slot hslot
        by_cases hlt : slot < n
        · exact hnone hempty slot hlt
        · exact hslots slot hslot hlt
      · intro value hvalue
        obtain ⟨slot, hslot, h, hlater, heq⟩ := hsome value hvalue
        refine ⟨slot, Nat.lt_succ_of_lt hslot, h, fun other hother hlast => ?_, heq⟩
        by_cases hlt : other < n
        · exact hlater other hlt hlast
        · exact hslots other hother hlt

/-- The loop over the sectors comes to the end of the search of the first one, however often. -/
theorem searchSectors_settles (before : Mem) (n : Nat) {found : Option (Nat × Nat)}
    {port first : Nat}
    (hread : ahciRead port first = some sector)
    (hfound : Settles (fun fuel => searchEntries (blit m buf sector 0 512) dirName buf fuel 8)
      found) :
    Settles (fun fuel => searchSectors ahciRead port first dirName buf fuel n
      (blit m buf before 0 512)) (if n = 0 then none else found) := by
  induction n generalizing before with
  | zero => exact Settles.ret
  | succ n ih =>
    simp only [searchSectors, hread, blit_blit]
    rw [if_neg (Nat.succ_ne_zero n)]
    refine hfound.bind (g := fun found fuel => match found with
      | some entry => .ret (some entry)
      | none => searchSectors ahciRead port first dirName buf fuel n (blit m buf sector 0 512)) ?_
    cases found with
    | some entry => exact Settles.ret
    | none =>
      have hrest := ih sector
      rwa [ite_self] at hrest

/-- An unreadable sector stops the loader. -/
theorem searchSectors_panic {port first fuel : Nat} (hread : ahciRead port first = none)
    (hn : 0 < n) : searchSectors ahciRead port first dirName buf fuel n m = .panic := by
  obtain ⟨n, rfl⟩ : ∃ k, n = k + 1 := ⟨n - 1, by omega⟩
  simp only [searchSectors, hread]

/-- The search in terms of the header. -/
theorem fsysSimpleFind_eq {fuel : Nat} (hheader : ahciRead 1 0 = some header) :
    fsysSimpleFind ahciRead m dirName port buf fuel =
      (searchSectors ahciRead port (headerFirstIndex header) dirName buf fuel
        (sub32 (headerVolSize header) (headerFirstIndex header)) (blit m buf header 0 512) >>=
          fun found => .ret (found.getD notFound)) := by
  simp only [fsysSimpleFind, hheader]
  rw [buffer_word (by decide), buffer_word (by decide)]
  rfl

/-- The loop has no turns only if the two words of the header are the same. -/
theorem sectorsToRead_pos (h : headerVolSize header ≠ headerFirstIndex header) :
    sub32 (headerVolSize header) (headerFirstIndex header) ≠ 0 := by
  have hvol : headerVolSize header < 4294967296 := load32_lt _ _
  have hfirst : headerFirstIndex header < 4294967296 := load32_lt _ _
  simp only [sub32]
  omega

/-- What the search of a sector in the buffer comes to. -/
structure FoundIn (m : Mem) (buf : Nat) (sector : Mem) (s : List UInt8)
    (found : Option (Nat × Nat)) : Prop where
  none : found = none →
    ∀ slot < 8, ¬ StrAt (blit m buf sector 0 512) (buf + 64 * slot + 20) s
  some : ∀ value, found = some value →
    ∃ slot < 8, StrAt (blit m buf sector 0 512) (buf + 64 * slot + 20) s ∧
      value = entryValue sector slot

/-- What the search of the first index sector comes to is the answer. -/
theorem fsysSimpleFind_of_entries (hheader : ahciRead 1 0 = some header)
    (hvolume : headerVolSize header ≠ headerFirstIndex header)
    (hread : ahciRead port (headerFirstIndex header) = some sector)
    {found : Option (Nat × Nat)}
    (hfound : Settles (fun fuel => searchEntries (blit m buf sector 0 512) dirName buf fuel 8)
      found) :
    Settles (fsysSimpleFind ahciRead m dirName port buf) (found.getD notFound) := by
  have hsectors := searchSectors_settles header
    (sub32 (headerVolSize header) (headerFirstIndex header)) hread hfound
  rw [if_neg (sectorsToRead_pos hvolume)] at hsectors
  have hrun : fsysSimpleFind ahciRead m dirName port buf = fun fuel =>
      searchSectors ahciRead port (headerFirstIndex header) dirName buf fuel
        (sub32 (headerVolSize header) (headerFirstIndex header)) (blit m buf header 0 512) >>=
          fun found => .ret (found.getD notFound) :=
    funext fun fuel => fsysSimpleFind_eq hheader
  rw [hrun]
  exact hsectors.bind (g := fun found _ => .ret (found.getD notFound)) Settles.ret

/-- The name searched for is not in the local buffer. -/
theorem name_kept (sector : Mem) (hs : StrAt m dirName s)
    (hlocal : dirName + s.length < buf ∨ buf + 512 ≤ dirName) :
    StrAt (blit m buf sector 0 512) dirName s :=
  hs.move fun i hi => blit_frame m sector 0 (by omega)

/-- With a first index sector that can be read, its entries give the answer. -/
theorem fsysSimpleFind_settles (hheader : ahciRead 1 0 = some header)
    (hvolume : headerVolSize header ≠ headerFirstIndex header)
    (hread : ahciRead port (headerFirstIndex header) = some sector) (hs : StrAt m dirName s)
    (hlocal : dirName + s.length < buf ∨ buf + 512 ≤ dirName) :
    ∃ found, Settles (fsysSimpleFind ahciRead m dirName port buf) (found.getD notFound) ∧
      FoundIn m buf sector s found := by
  obtain ⟨found, hfound, hnone, hsome⟩ := searchEntries_settles buf 8 (name_kept sector hs hlocal)
  refine ⟨found, fsysSimpleFind_of_entries hheader hvolume hread hfound, hnone,
    fun value hvalue => ?_⟩
  obtain ⟨slot, hslot, hstr, -, rfl⟩ := hsome value hvalue
  exact ⟨slot, hslot, hstr, buffer_entry hslot⟩

/-- With one that cannot be read the loader stops. -/
theorem fsysSimpleFind_panic {fuel : Nat} (hheader : ahciRead 1 0 = some header)
    (hvolume : headerVolSize header ≠ headerFirstIndex header)
    (hread : ahciRead port (headerFirstIndex header) = none) :
    fsysSimpleFind ahciRead m dirName port buf fuel = .panic := by
  rw [fsysSimpleFind_eq hheader,
    searchSectors_panic hread (Nat.pos_of_ne_zero (sectorsToRead_pos hvolume))]
  rfl

/-- Without index sectors nothing is read. -/
theorem fsysSimpleFind_empty {fuel : Nat} (hheader : ahciRead 1 0 = some header)
    (hvolume : headerVolSize header = headerFirstIndex header) :
    fsysSimpleFind ahciRead m dirName port buf fuel = .ret notFound := by
  have hnone : sub32 (headerVolSize header) (headerFirstIndex header) = 0 := by
    have hfirst : headerFirstIndex header < 4294967296 := load32_lt _ _
    rw [hvolume, sub32_eq hfirst (Nat.le_refl _), Nat.sub_self]
  rw [fsysSimpleFind_eq hheader, hnone]
  rfl

/-- No entry has the values for not found: its length is a number of sectors. -/
theorem entryValue_ne_notFound : entryValue sector slot ≠ notFound := by
  intro h
  have hlength : load16 sector (64 * slot + 4) * 512 = 4294967295 := congrArg Prod.fst h
  omega

/-- A name in the buffer is that of an entry, or runs on. -/
theorem hasName_or_runsOn (hslot : slot < 8)
    (h : StrAt (blit m buf sector 0 512) (buf + 64 * slot + 20) s) :
    HasName sector s slot ∨ RunsOn m buf sector s := by
  by_cases hlen : s.length < 44
  · exact .inl ⟨hlen, (buffer_name hslot hlen).mp h⟩
  · exact .inr ⟨Nat.le_of_not_lt hlen, slot, hslot, h⟩

/-- A name that runs on is no entry's. -/
theorem not_runsOn_of_isEntry {entry : Nat × Nat} (h : IsEntry ahciRead port header s entry) :
    ¬ RunsOn m buf sector s := by
  obtain ⟨k, _, _, sector', _, slot, _, hname, _⟩ := h
  intro hruns
  exact Nat.not_lt_of_le hruns.1 hname.1

/-- What is found in the first sector is right only if that decides the search. -/
theorem firstDecides_of_found {found : Option (Nat × Nat)}
    (hread : ahciRead port (headerFirstIndex header) = some sector)
    (hfound : FoundIn m buf sector s found)
    (hfinds : (∃ entry, IsEntry ahciRead port header s entry) →
      IsEntry ahciRead port header s (found.getD notFound))
    (hmisses : (¬ ∃ entry, IsEntry ahciRead port header s entry) → found.getD notFound = notFound) :
    FirstDecides ahciRead m port buf header s := by
  refine .inr ⟨sector, hread, ?_⟩
  cases found with
  | none =>
    refine .inr ⟨fun hany => ?_, fun hruns => ?_⟩
    · obtain ⟨k, _, _, sector', _, slot, _, _, heq⟩ := hfinds hany
      exact entryValue_ne_notFound heq.symm
    · obtain ⟨_, slot, hslot, hstr⟩ := hruns
      exact hfound.none rfl slot hslot hstr
  | some value =>
    obtain ⟨slot, hslot, hstr, rfl⟩ := hfound.some value rfl
    rcases hasName_or_runsOn hslot hstr with hname | hruns
    · exact .inl ⟨slot, hslot, hname⟩
    · exact absurd (hmisses fun ⟨entry, hentry⟩ => not_runsOn_of_isEntry hentry hruns)
        entryValue_ne_notFound

/-- What is found in the first sector is right if that decides the search. -/
theorem found_of_first {found : Option (Nat × Nat)}
    (hvolume : headerFirstIndex header < headerVolSize header)
    (hread : ahciRead port (headerFirstIndex header) = some sector)
    (hfound : FoundIn m buf sector s found)
    (h : (∃ slot < 8, HasName sector s slot) ∨
      (¬ ∃ entry, IsEntry ahciRead port header s entry) ∧ ¬ RunsOn m buf sector s) :
    ((∃ entry, IsEntry ahciRead port header s entry) →
      IsEntry ahciRead port header s (found.getD notFound)) ∧
      ((¬ ∃ entry, IsEntry ahciRead port header s entry) → found.getD notFound = notFound) := by
  have hentry : ∀ slot < 8, HasName sector s slot →
      IsEntry ahciRead port header s (entryValue sector slot) :=
    fun slot hslot hname =>
      ⟨_, Nat.le_refl _, hvolume, sector, hread, slot, hslot, hname, rfl⟩
  cases found with
  | none =>
    refine ⟨fun hany => ?_, fun _ => rfl⟩
    rcases h with ⟨slot, hslot, hname⟩ | ⟨hmissing, _⟩
    · exact absurd ((buffer_name hslot hname.1).mpr hname.2) (hfound.none rfl slot hslot)
    · exact absurd hany hmissing
  | some value =>
    obtain ⟨slot, hslot, hstr, rfl⟩ := hfound.some value rfl
    rcases hasName_or_runsOn hslot hstr with hname | hruns
    · have hthis := hentry slot hslot hname
      exact ⟨fun _ => hthis, fun hmissing => absurd ⟨_, hthis⟩ hmissing⟩
    · rcases h with ⟨slot', hslot', hname⟩ | ⟨_, hnot⟩
      · exact absurd hruns (not_runsOn_of_isEntry (hentry slot' hslot' hname))
      · exact absurd hruns hnot

/-- Without index sectors the search is right. -/
theorem findsEntry_of_empty (hheader : ahciRead 1 0 = some header)
    (hvolume : headerVolSize header = headerFirstIndex header) :
    FindsEntry ahciRead m dirName port buf header s := by
  refine ⟨notFound, ⟨0, fun _ _ => fsysSimpleFind_empty hheader hvolume⟩, ?_, fun _ => rfl⟩
  rintro ⟨entry, k, hk, hk', _⟩
  omega

/-- With a first index sector that cannot be read it has no result. -/
theorem not_findsEntry_of_unreadable (hheader : ahciRead 1 0 = some header)
    (hvolume : headerFirstIndex header < headerVolSize header)
    (hread : ahciRead port (headerFirstIndex header) = none) :
    ¬ FindsEntry ahciRead m dirName port buf header s := by
  rintro ⟨value, ⟨bound, hbound⟩, _⟩
  have hret := hbound bound (Nat.le_refl bound)
  rw [fsysSimpleFind_panic hheader (Nat.ne_of_gt hvolume) hread] at hret
  cases hret

/-- The search is right exactly when the first index sector decides it. -/
theorem findsEntry_iff (ahciRead : Nat → Nat → Option Mem) (m : Mem) (dirName port buf : Nat)
    (header : Mem) (s : List UInt8) (hheader : ahciRead 1 0 = some header)
    (hvolume : headerFirstIndex header ≤ headerVolSize header) (hs : StrAt m dirName s)
    (hlocal : dirName + s.length < buf ∨ buf + 512 ≤ dirName) :
    FindsEntry ahciRead m dirName port buf header s ↔
      FirstDecides ahciRead m port buf header s := by
  rcases Nat.eq_or_lt_of_le hvolume with hempty | hindex
  · exact iff_of_true (findsEntry_of_empty hheader hempty.symm) (.inl hempty.symm)
  · have hsectors : ¬ headerVolSize header = headerFirstIndex header := Nat.ne_of_gt hindex
    cases hread : ahciRead port (headerFirstIndex header) with
    | none =>
      refine iff_of_false (not_findsEntry_of_unreadable hheader hindex hread) ?_
      rintro (h | ⟨sector, h, _⟩)
      · exact hsectors h
      · rw [hread] at h
        cases h
    | some sector =>
      obtain ⟨found, hsettles, hfound⟩ :=
        fsysSimpleFind_settles hheader hsectors hread hs hlocal
      constructor
      · rintro ⟨value, hvalue, hfinds, hmisses⟩
        obtain rfl := hvalue.unique hsettles
        exact firstDecides_of_found hread hfound hfinds hmisses
      · rintro (h | ⟨sector', hread', h⟩)
        · exact absurd h hsectors
        · rw [hread] at hread'
          obtain rfl := Option.some.inj hread'
          exact ⟨_, hsettles, found_of_first hindex hread hfound h⟩

/-- A volume with two index sectors, 1 and 2. The only entry, `a`, is in the second one. -/
def twoIndexSectors (_port k : Nat) : Option Mem :=
  if k = 0 then some (store32 (store32 (fun _ => 0) 2 3) 6 1)
  else if k = 2 then some (store8 (store16 (store32 (fun _ => 0) 0 9) 4 5) 20 97)
  else some fun _ => 0

/-- Its header. -/
def twoIndexHeader : Mem := store32 (store32 (fun _ => 0) 2 3) 6 1

/-- A memory with the name `a` at 0. -/
def nameMemory : Mem := store8 (fun _ => 0) 0 97

theorem findsEntry_iff_two :
    FindsEntry twoIndexSectors nameMemory 0 1 4096 twoIndexHeader [97] ↔
      FirstDecides twoIndexSectors nameMemory 1 4096 twoIndexHeader [97] :=
  findsEntry_iff twoIndexSectors nameMemory 0 1 4096 twoIndexHeader [97] rfl (by decide)
    (by decide) (by decide)

/-- The entry in the second index sector is not found. -/
theorem findsEntry_fails :
    ¬ FindsEntry twoIndexSectors nameMemory 0 1 4096 twoIndexHeader [97] := by
  rintro ⟨value, hvalue, hfinds, _⟩
  have hentry : IsEntry twoIndexSectors 1 twoIndexHeader [97] (2560, 9) :=
    ⟨2, by decide, by decide, _, rfl, 0, by decide, by decide, by decide⟩
  have hheader : twoIndexSectors 1 0 = some twoIndexHeader := rfl
  have hread : twoIndexSectors 1 (headerFirstIndex twoIndexHeader) = some fun _ => 0 := rfl
  have hname : StrAt nameMemory 0 [97] := by decide
  have hlocal : 0 + ([97] : List UInt8).length < 4096 ∨ 4096 + 512 ≤ 0 := by decide
  obtain ⟨found, hsettles, hfound⟩ :=
    fsysSimpleFind_settles hheader (by decide) hread hname hlocal
  obtain rfl := hvalue.unique hsettles
  cases found with
  | none =>
    obtain ⟨k, _, _, sector, _, slot, _, _, heq⟩ := hfinds ⟨_, hentry⟩
    exact entryValue_ne_notFound heq.symm
  | some value =>
    -- the first index sector is empty
    have hempty : ∀ slot < 8, ¬ HasName (fun _ => 0) [97] slot := by decide
    obtain ⟨slot, hslot, hstr, _⟩ := hfound.some value rfl
    rcases hasName_or_runsOn hslot hstr with hname | hruns
    · exact hempty slot hslot hname
    · exact absurd hruns.1 (by decide)

end

end MeOS.SimpleFs
