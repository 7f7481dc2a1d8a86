import MeOS.FileTableRuns
import MeOS.PeImports

/-! # `open_file_table.cpp`: open files by name

`gft_remove` leaves an entry in its place with a null node. `gft_get_by_name` compares the name of
every entry up to the first one that matches, and looks for it in the node of a removed entry
too.
-/

namespace MeOS.GftNames

open Bytes Runs

/-! ## The search -/

/-- The loop of `gft_get_by_name` from index `i` on; `nodeName` is the `name` field of a node. The
node of a removed entry is null. -/
def searchLoop (m : Mem) (nodeName : Nat → Nat) (name fuel : Nat) : List Gfe → Nat → Outcome Nat
  | [], _ => .ret invalidFd
  | e :: es, i =>
    if gfeIsInvalid e then
      .undefined
    else do
      let res ← strcmpInsensitive m name (nodeName e.fileNode) fuel
      if res = 0 then .ret i else searchLoop m nodeName name fuel es (i + 1)

/-- `gft_get_by_name`. -/
def gftGetByName (gft : Vector Gfe) (m : Mem) (nodeName : Nat → Nat) (name fuel : Nat) :
    Outcome Nat :=
  searchLoop m nodeName name fuel gft.data 0

/-! ## The tables -/

/-- An open of a node, or the removal of an entry. -/
inductive GftStep : Vector Gfe → Vector Gfe → Prop where
  | insert {v v' : Vector Gfe} {index : Nat} (node : Nat) (hnode : node ≠ 0)
      (hret : gftInsertS v (createGfe node) = .ret (v', index)) : GftStep v v'
  | remove {v : Vector Gfe} (index : Nat) : GftStep v (gftRemove v index).1

/-- The runs from `init_global_file_table(size)`. -/
def gftSystem (size : Nat) : System (Vector Gfe) where
  Init v := v = vectorInit size
  Next := GftStep

theorem gftSystem_fits {size : Nat} (hsize : size < 4294967296) :
    (gftSystem size).Inductive fun v => v.Fits ∧ 0 < v.rSize where
  init v hv := by
    rw [show v = vectorInit size from hv]
    exact vectorInit_fits hsize
  next v v' hv hstep := by
    cases hstep with
    | insert node _ hret => exact (gftInsertS_spec hret hv.1 hv.2).1
    | remove index =>
      unfold gftRemove
      by_cases hrange : index ≥ v.count
      · rwa [if_pos hrange]
      · rw [if_neg hrange]
        exact ⟨hv.1.modify _ _, hv.2⟩

/-! ## What the search finds -/

/-- The entry is in use, and its node is called `s` up to case. -/
def IsNamed (m : Mem) (nodeName : Nat → Nat) (s : List UInt8) (e : Gfe) : Prop :=
  gfeIsInvalid e = false ∧ ∃ t, StrAt m (nodeName e.fileNode) t ∧ t.map toLower = s.map toLower

/-- The index of an entry with the name, or `INVALID_FD` when there is none. -/
def RightAnswer (m : Mem) (nodeName : Nat → Nat) (s : List UInt8) (gft : Vector Gfe) (gfd : Nat) :
    Prop :=
  (gfd ≠ invalidFd ∧ ∃ e, gft.data[gfd]? = some e ∧ IsNamed m nodeName s e) ∨
    (gfd = invalidFd ∧ ∀ e ∈ gft.data, ¬ IsNamed m nodeName s e)

/-- The search ends with the right answer, without a look into the node of a removed entry. -/
def FindsByName (m : Mem) (nodeName : Nat → Nat) (name : Nat) (s : List UInt8)
    (gft : Vector Gfe) : Prop :=
  ∃ gfd, Settles (gftGetByName gft m nodeName name) gfd ∧ RightAnswer m nodeName s gft gfd

/-- Every removed entry stands behind one with the name. -/
def RemovedBehind (m : Mem) (nodeName : Nat → Nat) (s : List UInt8) (es : List Gfe) : Prop :=
  ∀ (i : Nat) (e : Gfe), es[i]? = some e → gfeIsInvalid e = true →
    ∃ j < i, ∃ e', es[j]? = some e' ∧ IsNamed m nodeName s e'

section Search

variable {m : Mem} {nodeName : Nat → Nat} {name : Nat} {s : List UInt8} {e : Gfe} {es : List Gfe}

/-- A removed entry in front is not behind anything. -/
theorem not_removedBehind_cons (h : gfeIsInvalid e = true) :
    ¬ RemovedBehind m nodeName s (e :: es) := by
  intro hall
  obtain ⟨j, hj, _⟩ := hall 0 e rfl h
  omega

theorem removedBehind_of_named (h : IsNamed m nodeName s e) :
    RemovedBehind m nodeName s (e :: es) := by
  intro i e' he' hremoved
  cases i with
  | zero =>
    obtain rfl : e = e' := by simpa using he'
    rw [h.1] at hremoved
    cases hremoved
  | succ i => exact ⟨0, Nat.succ_pos i, e, rfl, h⟩

/-- Behind an entry with another name the question is the same. -/
theorem removedBehind_cons (hvalid : gfeIsInvalid e = false) (h : ¬ IsNamed m nodeName s e) :
    RemovedBehind m nodeName s (e :: es) ↔ RemovedBehind m nodeName s es := by
  constructor
  · intro hall i e' he' hremoved
    obtain ⟨j, hj, e'', he'', hnamed⟩ := hall (i + 1) e' (by simpa using he') hremoved
    cases j with
    | zero =>
      obtain rfl : e = e'' := by simpa using he''
      exact absurd hnamed h
    | succ j => exact ⟨j, by omega, e'', by simpa using he'', hnamed⟩
  · intro hall i e' he' hremoved
    cases i with
    | zero =>
      obtain rfl : e = e' := by simpa using he'
      rw [hvalid] at hremoved
      cases hremoved
    | succ i =>
      obtain ⟨j, hj, e'', he'', hnamed⟩ := hall i e' (by simpa using he') hremoved
      exact ⟨j + 1, by omega, e'', by simpa using he'', hnamed⟩

/-- The comparison with the name of an entry. -/
theorem compare_settles (hs : StrAt m name s) (hvalid : gfeIsInvalid e = false)
    (hstr : ∃ t, StrAt m (nodeName e.fileNode) t) :
    ∃ res, Settles (strcmpInsensitive m name (nodeName e.fileNode)) res ∧
      (res = 0 ↔ IsNamed m nodeName s e) := by
  obtain ⟨t, ht⟩ := hstr
  obtain ⟨res, hres, hiff⟩ := strcmpInsensitive_settles (a := name) ht
  refine ⟨res, hres, hiff.trans ?_⟩
  constructor
  · rintro ⟨s', hs', hmap⟩
    rw [hs'.unique hs] at hmap
    exact ⟨hvalid, t, ht, hmap.symm⟩
  · rintro ⟨_, t', ht', hmap⟩
    rw [ht'.unique ht] at hmap
    exact ⟨s, hs, hmap.symm⟩

/-- With the removed entries behind, the search finds the first entry with the name. -/
theorem searchLoop_settles (hs : StrAt m name s)
    (hstr : ∀ e ∈ es, gfeIsInvalid e = false → ∃ t, StrAt m (nodeName e.fileNode) t)
    (h : RemovedBehind m nodeName s es) (i : Nat) :
    (∃ k e, es[k]? = some e ∧ IsNamed m nodeName s e ∧
      Settles (fun fuel => searchLoop m nodeName name fuel es i) (i + k)) ∨
    ((∀ e ∈ es, ¬ IsNamed m nodeName s e) ∧
      Settles (fun fuel => searchLoop m nodeName name fuel es i) invalidFd) := by
  induction es generalizing i with
  | nil => exact Or.inr ⟨nofun, Settles.ret⟩
  | cons e es ih =>
    cases hvalid : gfeIsInvalid e with
    | true => exact absurd h (not_removedBehind_cons hvalid)
    | false =>
      obtain ⟨res, hres, hiff⟩ := compare_settles hs hvalid (hstr e List.mem_cons_self hvalid)
      have hgo : ∀ fuel, searchLoop m nodeName name fuel (e :: es) i =
          (strcmpInsensitive m name (nodeName e.fileNode) fuel >>= fun res =>
            if res = 0 then .ret i else searchLoop m nodeName name fuel es (i + 1)) := by
        intro fuel
        rw [searchLoop, if_neg (by rw [hvalid]; decide)]
      simp only [hgo]
      by_cases hnamed : IsNamed m nodeName s e
      · exact Or.inl ⟨0, e, rfl, hnamed, hres.bind (.pos (hiff.mpr hnamed) .ret)⟩
      · have hne : ¬ res = 0 := fun hzero => hnamed (hiff.mp hzero)
        have hrest := (removedBehind_cons hvalid hnamed).mp h
        rcases ih (fun e he => hstr e (List.mem_cons_of_mem _ he)) hrest (i + 1) with
          ⟨k, e', he', hnamed', hk⟩ | ⟨hnone, hend⟩
        · rw [show i + 1 + k = i + (k + 1) by omega] at hk
          exact Or.inl ⟨k + 1, e', by simpa using he', hnamed', hres.bind (.neg hne hk)⟩
        · refine Or.inr ⟨?_, hres.bind (.neg hne hend)⟩
          intro e' he'
          rcases List.mem_cons.mp he' with rfl | he'
          · exact hnamed
          · exact hnone e' he'

/-- A removed entry that is not behind is looked into. -/
theorem searchLoop_undefined (hs : StrAt m name s)
    (hstr : ∀ e ∈ es, gfeIsInvalid e = false → ∃ t, StrAt m (nodeName e.fileNode) t)
    (h : ¬ RemovedBehind m nodeName s es) (i : Nat) :
    ∃ bound, ∀ fuel, bound ≤ fuel → searchLoop m nodeName name fuel es i = .undefined := by
  induction es generalizing i with
  | nil => exact absurd nofun h
  | cons e es ih =>
    cases hvalid : gfeIsInvalid e with
    | true => exact ⟨0, fun fuel _ => by rw [searchLoop, if_pos hvalid]⟩
    | false =>
      by_cases hnamed : IsNamed m nodeName s e
      · exact absurd (removedBehind_of_named hnamed) h
      · obtain ⟨res, ⟨b, hb⟩, hiff⟩ :=
          compare_settles hs hvalid (hstr e List.mem_cons_self hvalid)
        have hne : ¬ res = 0 := fun hzero => hnamed (hiff.mp hzero)
        obtain ⟨b', hb'⟩ := ih (fun e he => hstr e (List.mem_cons_of_mem _ he))
          (fun hrest => h ((removedBehind_cons hvalid hnamed).mpr hrest)) (i + 1)
        refine ⟨max b b', fun fuel hfuel => ?_⟩
        rw [searchLoop, if_neg (by rw [hvalid]; decide), hb fuel (by omega), Outcome.ret_bind,
          if_neg hne, hb' fuel (by omega)]

/-- A lookup in a table of a run is right if and only if every removed entry stands behind one
with the name. -/
theorem gftGetByName_iff {size : Nat} {gft : Vector Gfe} (hsize : size < 4294967296)
    (hreach : (gftSystem size).Reachable gft) (hs : StrAt m name s)
    (hstr : ∀ e ∈ gft.data, gfeIsInvalid e = false → ∃ t, StrAt m (nodeName e.fileNode) t) :
    FindsByName m nodeName name s gft ↔ RemovedBehind m nodeName s gft.data := by
  constructor
  · rintro ⟨gfd, ⟨b, hb⟩, _⟩
    by_contra h
    obtain ⟨b', hb'⟩ := searchLoop_undefined hs hstr h 0
    have hret := hb (max b b') (Nat.le_max_left b b')
    rw [gftGetByName, hb' (max b b') (Nat.le_max_right b b')] at hret
    cases hret
  · intro h
    obtain ⟨hfits, _⟩ := (gftSystem_fits hsize).holds hreach
    rcases searchLoop_settles hs hstr h 0 with ⟨k, e, he, hnamed, hk⟩ | ⟨hnone, hend⟩
    · rw [Nat.zero_add] at hk
      have hlt : k < gft.count := lt_count_iff.mpr ⟨e, he⟩
      have hle := hfits.le
      have hword := hfits.word
      have hindex : k ≠ invalidFd := by
        unfold invalidFd
        omega
      exact ⟨k, hk, Or.inl ⟨hindex, e, he, hnamed⟩⟩
    · exact ⟨invalidFd, hend, Or.inr ⟨rfl, hnone⟩⟩

end Search

/-- The nodes 1 and 2 have been opened. -/
def twoFiles : Vector Gfe := ⟨[⟨1, 1, []⟩, ⟨2, 1, []⟩], 2⟩

theorem twoFiles_reachable : (gftSystem 2).Reachable twoFiles := by
  have hfirst : gftInsertS (vectorInit 2) (createGfe 1) = .ret (⟨[⟨1, 1, []⟩], 2⟩, 0) := by decide
  have hsecond : gftInsertS ⟨[⟨1, 1, []⟩], 2⟩ (createGfe 2) = .ret (twoFiles, 1) := by decide
  exact .next (.next (.init rfl) (.insert 1 (by decide) hfirst)) (.insert 2 (by decide) hsecond)

/-- The nodes are called "a" and "b"; at 64 is the string "B". -/
def twoNames : Mem := fun x =>
  if x = 16 then 97 else if x = 32 then 98 else if x = 64 then 66 else 0

theorem twoNames_strings (e : Gfe) (he : e ∈ twoFiles.data) :
    ∃ t, StrAt twoNames (16 * e.fileNode) t := by
  rcases List.mem_cons.mp he with rfl | he
  · exact ⟨[97], by decide⟩
  · obtain rfl := List.mem_singleton.mp he
    exact ⟨[98], by decide⟩

theorem gftGetByName_iff_two :
    FindsByName twoNames (16 * ·) 64 [66] twoFiles ↔
      RemovedBehind twoNames (16 * ·) [66] twoFiles.data :=
  gftGetByName_iff (by decide) twoFiles_reachable (by decide)
    (fun e he _ => twoNames_strings e he)

/-- The first node has been closed: its entry is looked into before the second is found. -/
theorem gftGetByName_closed :
    (gftSystem 2).Reachable (gftRemove twoFiles 0).1 ∧
      (∃ e, (gftRemove twoFiles 0).1.data[1]? = some e ∧ IsNamed twoNames (16 * ·) [66] e) ∧
      (∀ fuel, gftGetByName (gftRemove twoFiles 0).1 twoNames (16 * ·) 64 fuel = .undefined) ∧
      ¬ FindsByName twoNames (16 * ·) 64 [66] (gftRemove twoFiles 0).1 := by
  have hundefined : ∀ fuel,
      gftGetByName (gftRemove twoFiles 0).1 twoNames (16 * ·) 64 fuel = .undefined :=
    fun fuel => rfl
  refine ⟨.next twoFiles_reachable (.remove 0), ⟨⟨2, 1, []⟩, rfl, rfl, [98], by decide, by decide⟩,
    hundefined, ?_⟩
  rintro ⟨gfd, ⟨b, hb⟩, _⟩
  have hret := hb b (Nat.le_refl b)
  rw [hundefined] at hret
  cases hret

end MeOS.GftNames
