import MeOS.FatCodec

/-! # Names that are accepted

`fat_fs_validate_83_name` decides on the name of a new node, the encoder writes it
into the entry, and the decoder reads it back. The validator knows 11 characters but
no dot, the encoder looks for the dot among the first eight, and the validator
compares with one value more than its table has. Each part of the law therefore has
a condition of its own (`acceptedNames_iff`).
-/

namespace MeOS

open Bytes

/-! ## What comes back -/

/-- The decoder kills the spaces of a field. -/
def killSpaces (field : List UInt8) : List UInt8 := field.filter (· ≠ space)

/-- A name that comes back: no spaces, and at most eight characters without a dot, or up to
seven, a dot and one to three. -/
def Storable (name : List UInt8) : Prop :=
  (∀ c ∈ name, c ≠ space ∧ c ≠ 0) ∧
    ((dot ∉ name ∧ name.length ≤ 8) ∨
      ∃ base extension, name = base ++ dot :: extension ∧ dot ∉ base ∧
        (1 ≤ base.length ∧ base.length ≤ 7) ∧ 1 ≤ extension.length ∧ extension.length ≤ 3)

section Stored

variable {name base extension bytes field : List UInt8}

theorem killSpaces_padded (n : Nat) : killSpaces (padded n field) = killSpaces field := by
  unfold killSpaces padded
  have hnone : (List.replicate (n - field.length) space).filter (· ≠ space) = [] := by
    rw [List.filter_eq_nil_iff]
    intro c hc
    rw [List.eq_of_mem_replicate hc]
    simp
  rw [List.filter_append, hnone, List.append_nil]

theorem killSpaces_length (l : List UInt8) : (killSpaces l).length ≤ l.length :=
  List.length_filter_le _ _

theorem killSpaces_self (h : ∀ c ∈ field, c ≠ space) : killSpaces field = field := by
  unfold killSpaces
  rw [List.filter_eq_self]
  intro c hc
  simpa using h c hc

/-- Decoding two padded fields. -/
theorem retrieveShortName_fields (hbase : base.length ≤ 8) (hextension : extension.length ≤ 3) :
    fatFsRetrieveShortName (padded 8 base ++ padded 3 extension) =
      (if killSpaces extension = [] then killSpaces base
        else killSpaces base ++ dot :: killSpaces extension).takeWhile (· ≠ 0) := by
  unfold fatFsRetrieveShortName
  rw [take_fields hbase, drop_fields hbase hextension]
  have hkill : ∀ l : List UInt8, l.filter (· ≠ space) = killSpaces l := fun _ => rfl
  simp only [hkill, killSpaces_padded]

/-- What is decoded is a shorter list, with neither spaces nor the end of a string. -/
theorem takeWhile_length (l : List UInt8) : (l.takeWhile (· ≠ 0)).length ≤ l.length :=
  (List.takeWhile_prefix _).length_le

/-- Nothing killed, nothing there to kill. -/
theorem eq_of_killSpaces_length (l : List UInt8) (h : l.length ≤ (killSpaces l).length) :
    killSpaces l = l := List.filter_sublist.eq_of_length_le h

/-- The dot is not among the first eight characters, or the first of them. -/
theorem encode_base (hlen : name.length ≤ 12)
    (hdot : (name.take 8).takeWhile (· ≠ dot) = name.take 8 ∨
      (name.take 8).takeWhile (· ≠ dot) = []) :
    fatFsGenerateShortName name = some (padded 11 ((name.take 8).takeWhile (· ≠ dot))) := by
  unfold fatFsGenerateShortName
  rw [if_neg (by omega)]
  dsimp only
  rw [if_pos hdot]

/-- Otherwise the name has two parts. -/
theorem encode_parts (hlen : name.length ≤ 12)
    (hdot : ¬ ((name.take 8).takeWhile (· ≠ dot) = name.take 8 ∨
      (name.take 8).takeWhile (· ≠ dot) = [])) :
    ∃ base extension, name = base ++ dot :: extension ∧ dot ∉ base ∧
      (1 ≤ base.length ∧ base.length ≤ 7) ∧
      fatFsGenerateShortName name = some (padded 8 base ++ padded 3 (extension.take 3)) := by
  generalize hb : (name.take 8).takeWhile (· ≠ dot) = base at hdot
  rw [not_or] at hdot
  have hsplit : base ++ (name.take 8).dropWhile (· ≠ dot) = name.take 8 := by
    rw [← hb]
    exact List.takeWhile_append_dropWhile
  cases hrest : (name.take 8).dropWhile (· ≠ dot) with
  | nil =>
    rw [hrest, List.append_nil] at hsplit
    exact absurd hsplit hdot.1
  | cons c rest =>
    -- the first eight characters stop at a dot
    have hc : c = dot := by
      have hhead := List.head?_dropWhile_not (fun c : UInt8 => decide (c ≠ dot)) (name.take 8)
      rw [hrest] at hhead
      simpa using hhead
    subst hc
    rw [hrest] at hsplit
    have hname : name = base ++ dot :: (rest ++ name.drop 8) := by
      conv_lhs => rw [← List.take_append_drop 8 name, ← hsplit]
      simp
    have hcount := congrArg List.length hsplit
    rw [List.length_append, List.length_cons, List.length_take] at hcount
    refine ⟨base, rest ++ name.drop 8, hname, ?_, ⟨?_, by omega⟩, ?_⟩
    · intro hmem
      rw [← hb] at hmem
      have hno := List.mem_takeWhile_imp hmem
      simp at hno
    · exact List.length_pos_of_ne_nil hdot.2
    · -- what the source takes as the extension starts behind that dot
      have hdrop : name.drop (base.length + 1) = rest ++ name.drop 8 := by
        conv_lhs => rw [hname]
        rw [← List.drop_drop, List.drop_left, List.drop_succ_cons, List.drop_zero]
      unfold fatFsGenerateShortName
      rw [if_neg (by omega)]
      dsimp only
      rw [hb, if_neg (not_or.mpr hdot), hdrop]

/-- A name ends at its first dot. -/
theorem takeWhile_dot (extension : List UInt8) (hno : dot ∉ base) :
    (base ++ dot :: extension).takeWhile (· ≠ dot) = base := by
  rw [List.takeWhile_append_of_pos]
  · simp
  · intro c hc
    have hne : c ≠ dot := fun heq => hno (heq ▸ hc)
    simpa using hne

/-- What is storable of a name with a dot. -/
theorem storable_parts_iff (hno : dot ∉ base) : Storable (base ++ dot :: extension) ↔
    (∀ c ∈ base ++ dot :: extension, c ≠ space ∧ c ≠ 0) ∧
      (1 ≤ base.length ∧ base.length ≤ 7) ∧ 1 ≤ extension.length ∧ extension.length ≤ 3 := by
  unfold Storable
  refine and_congr_right fun _ => ?_
  constructor
  · rintro (⟨hnone, -⟩ | ⟨b, e, heq, hnob, hb, he⟩)
    · exact absurd (List.mem_append_right _ List.mem_cons_self) hnone
    · -- both are split at the first dot
      have hbb : base = b := by
        have hleft := takeWhile_dot extension hno
        rw [heq, takeWhile_dot e hnob] at hleft
        exact hleft.symm
      subst hbb
      have hee := (List.cons.inj (List.append_cancel_left heq)).2
      rw [hee]
      exact ⟨hb, he⟩
  · rintro ⟨hb, he⟩
    exact Or.inr ⟨base, extension, rfl, hno, hb, he⟩

/-- A name whose first eight characters are all that is stored. -/
theorem decode_base_iff (hdot : (name.take 8).takeWhile (· ≠ dot) = name.take 8 ∨
      (name.take 8).takeWhile (· ≠ dot) = []) :
    fatFsRetrieveShortName (padded 11 ((name.take 8).takeWhile (· ≠ dot))) = name ↔
      Storable name := by
  generalize hb : (name.take 8).takeWhile (· ≠ dot) = base at hdot ⊢
  have hprefix : base <+: name := by
    rw [← hb]
    exact (List.takeWhile_prefix _).trans (List.take_prefix 8 name)
  have hshort : base.length ≤ 8 := by
    rw [← hb]
    refine (List.takeWhile_prefix _).length_le.trans ?_
    rw [List.length_take]
    omega
  have hnodot : dot ∉ base := by
    intro hmem
    rw [← hb] at hmem
    have hno := List.mem_takeWhile_imp hmem
    simp at hno
  have hempty : ([] : List UInt8).length ≤ 3 := Nat.zero_le 3
  have hnil : killSpaces [] = [] := rfl
  rw [padded_eleven hshort, retrieveShortName_fields hshort hempty, if_pos hnil]
  constructor
  · intro hback
    -- nothing was lost, so the base is the name
    have hcount := congrArg List.length hback
    have h₁ := takeWhile_length (killSpaces base)
    have h₂ := killSpaces_length base
    have h₃ := hprefix.length_le
    have hsame : base = name := hprefix.eq_of_length_le (by omega)
    have hkill := eq_of_killSpaces_length base (by omega)
    rw [hkill] at hback
    subst hsame
    refine ⟨fun c hc => ⟨?_, ?_⟩, Or.inl ⟨hnodot, hshort⟩⟩
    · rw [← hkill] at hc
      have hkept := (List.mem_filter.mp hc).2
      simpa using hkept
    · rw [← hback] at hc
      have hkept := List.mem_takeWhile_imp hc
      simpa using hkept
  · rintro ⟨hchars, hcases⟩
    have hsame : base = name := by
      rcases hcases with ⟨hno, hle⟩ | ⟨b, e, rfl, hno, ⟨hpos, hle⟩, -⟩
      · rw [← hb, List.take_of_length_le hle, List.takeWhile_eq_self_iff]
        intro c hc
        have hne : c ≠ dot := fun heq => hno (heq ▸ hc)
        simpa using hne
      · -- the dot would have been found
        exfalso
        have htake : (b ++ dot :: e).take 8 = b ++ dot :: e.take (7 - b.length) := by
          have hk : 8 - b.length = (7 - b.length) + 1 := by omega
          rw [List.take_append, List.take_of_length_le (by omega), hk, List.take_succ_cons]
        rw [htake, takeWhile_dot _ hno] at hb
        subst hb
        rcases hdot with hall | hnone
        · have hcount := congrArg List.length (hall.trans htake)
          simp at hcount
        · rw [hnone] at hpos
          exact absurd hpos (by decide)
    subst hsame
    rw [killSpaces_self fun c hc => (hchars c hc).1, List.takeWhile_eq_self_iff]
    intro c hc
    simpa using (hchars c hc).2

/-- A name that is stored in two fields. -/
theorem decode_parts_iff (hno : dot ∉ base) (hpos : 1 ≤ base.length) (hle : base.length ≤ 7) :
    fatFsRetrieveShortName (padded 8 base ++ padded 3 (extension.take 3)) =
      base ++ dot :: extension ↔ Storable (base ++ dot :: extension) := by
  have htake₃ : (extension.take 3).length ≤ 3 := by
    rw [List.length_take]
    omega
  rw [retrieveShortName_fields (by omega) htake₃, storable_parts_iff hno]
  constructor
  · intro hback
    have hcount := congrArg List.length hback
    rw [List.length_append, List.length_cons] at hcount
    have h₁ := killSpaces_length base
    have h₂ := killSpaces_length (extension.take 3)
    rw [List.length_take] at h₂
    split at hback
    · -- without the dot something is lost
      rename_i hempty
      rw [if_pos hempty] at hcount
      have h₃ := takeWhile_length (killSpaces base)
      omega
    · rename_i hfull
      rw [if_neg hfull] at hcount
      have h₃ := takeWhile_length (killSpaces base ++ dot :: killSpaces (extension.take 3))
      have hpos₂ := List.length_pos_of_ne_nil hfull
      rw [List.length_append, List.length_cons] at h₃
      have hext : extension.take 3 = extension := List.take_of_length_le (by omega)
      rw [hext] at hback hcount h₂ h₃ hpos₂
      have hk₁ := eq_of_killSpaces_length base (by omega)
      have hk₂ := eq_of_killSpaces_length extension (by omega)
      rw [hk₁, hk₂] at hback
      refine ⟨fun c hc => ⟨?_, ?_⟩, ⟨hpos, hle⟩, by omega, by omega⟩
      · rcases List.mem_append.mp hc with hc | hc
        · rw [← hk₁] at hc
          have hkept := (List.mem_filter.mp hc).2
          simpa using hkept
        · rcases List.mem_cons.mp hc with rfl | hc
          · decide
          · rw [← hk₂] at hc
            have hkept := (List.mem_filter.mp hc).2
            simpa using hkept
      · rw [← hback] at hc
        have hkept := List.mem_takeWhile_imp hc
        simpa using hkept
  · rintro ⟨hchars, -, hlo, hhi⟩
    have hbase : ∀ c ∈ base, c ≠ space := fun c hc => (hchars c (by simp [hc])).1
    have hextension : ∀ c ∈ extension, c ≠ space := fun c hc => (hchars c (by simp [hc])).1
    have hne : extension ≠ [] := List.ne_nil_of_length_pos hlo
    rw [List.take_of_length_le hhi, killSpaces_self hbase, killSpaces_self hextension,
      if_neg hne, List.takeWhile_eq_self_iff]
    intro c hc
    simpa using (hchars c hc).2

/-- A name that is encoded comes back exactly when it is storable. -/
theorem decode_encode_iff (hencode : fatFsGenerateShortName name = some bytes) :
    fatFsRetrieveShortName bytes = name ↔ Storable name := by
  have hlen : name.length ≤ 12 := by
    unfold fatFsGenerateShortName at hencode
    split at hencode
    · cases hencode
    · omega
  by_cases hdot : (name.take 8).takeWhile (· ≠ dot) = name.take 8 ∨
      (name.take 8).takeWhile (· ≠ dot) = []
  · have hone := encode_base hlen hdot
    rw [hencode] at hone
    rw [Option.some.inj hone]
    exact decode_base_iff hdot
  · rcases encode_parts hlen hdot with ⟨base, extension, rfl, hno, ⟨hpos, hle⟩, hparts⟩
    rw [hencode] at hparts
    rw [Option.some.inj hparts]
    exact decode_parts_iff hno hpos hle

end Stored

/-! ## What is accepted -/

/-- A character of a legal name. -/
def LegalNameChar (c : UInt8) : Prop :=
  belowSpace c = false ∧ c ∉ badValues ∧ c ≠ space ∧ c ≠ dot

/-- A legal 8.3 name: one to eight characters, alone or with a dot and up to three more. -/
def Legal83 (name : List UInt8) : Prop :=
  ∃ base extension, (name = base ++ dot :: extension ∨ (extension = [] ∧ name = base)) ∧
    (1 ≤ base.length ∧ base.length ≤ 8) ∧ extension.length ≤ 3 ∧
    ∀ c ∈ base ++ extension, LegalNameChar c

/-- A character the validator refuses without looking into its table. -/
def Refused (first : Bool) (c : UInt8) : Prop := belowSpace c = true ∧ ¬ (first = true ∧ c = 5)

instance (first : Bool) (c : UInt8) : Decidable (Refused first c) :=
  inferInstanceAs (Decidable (belowSpace c = true ∧ ¬ (first = true ∧ c = 5)))

/-- The loop of `fat_fs_validate_83_name`, with the elements of `bad_values` it reads; `first` is
for the first character, and `behind` what lies in place of a sixteenth element. -/
def validateLoop (behind : UInt8) : Bool → List UInt8 → Bool × List Nat
  | _, [] => (true, [])
  | first, c :: rest =>
    if Refused first c then (false, [])
    else
      match (badValues ++ [behind]).findIdx? (· == c) with
      | some j => (false, List.range (j + 1))
      | none =>
        let res := validateLoop behind false rest
        (res.1, List.range 16 ++ res.2)

/-- The elements of `bad_values` that `fat_fs_validate_83_name` reads. -/
def tableReads (behind : UInt8) (name : List UInt8) : List Nat :=
  if name.length > 11 then [] else (validateLoop behind true name).2

section Accepted

variable {name : List UInt8} {behind c : UInt8} {first : Bool}

/-- What the loop over the name asks of a character. -/
theorem charAccepted_iff (i : Nat) :
    (!(i != 0 && belowSpace c) && !(i == 0 && belowSpace c && c != 5) &&
      !(badValues ++ [behind]).contains c) = true ↔
    ¬ Refused (i == 0) c ∧ c ∉ badValues ∧ c ≠ behind := by
  unfold Refused
  by_cases hi : i = 0
  · subst hi
    by_cases hb : belowSpace c = true
    · by_cases h5 : c = 5
      · simp [h5]
      · simp [hb, h5]
    · simp [hb]
  · simp [hi]

/-- The loop comes to the verdict of `fat_fs_validate_83_name`. -/
theorem validateLoop_fst (h : name.length ≤ 11) :
    (validateLoop behind true name).1 = fatFsValidate83Name behind name := by
  have hloop : ∀ k, (validateLoop behind (k == 0) name).1 = (name.zipIdx k).all fun ci =>
      !(ci.2 != 0 && belowSpace ci.1) && !(ci.2 == 0 && belowSpace ci.1 && ci.1 != 5) &&
        !(badValues ++ [behind]).contains ci.1 := by
    clear h
    induction name with
    | nil => exact fun k => rfl
    | cons c rest ih =>
      intro k
      rw [List.zipIdx_cons, List.all_cons, ← ih (k + 1)]
      conv_lhs => unfold validateLoop
      by_cases hok : ¬ Refused (k == 0) c ∧ c ∉ badValues ∧ c ≠ behind
      · have hnone : (badValues ++ [behind]).findIdx? (· == c) = none := by
          rw [List.findIdx?_eq_none_iff]
          intro x hx
          have hne : x ≠ c := by
            rintro rfl
            rcases List.mem_append.mp hx with hx | hx
            · exact hok.2.1 hx
            · exact hok.2.2 (List.mem_singleton.mp hx)
          simpa using hne
        rw [(charAccepted_iff k).mpr hok, if_neg hok.1, hnone, Bool.true_and]
        rfl
      · have hno := Bool.eq_false_iff.mpr fun htrue => hok ((charAccepted_iff k).mp htrue)
        rw [hno, Bool.false_and]
        split
        · rfl
        · rename_i hrefused
          split
          · rfl
          · -- every element was compared
            rename_i hnone
            rw [List.findIdx?_eq_none_iff] at hnone
            refine absurd ⟨hrefused, fun hmem => ?_, fun heq => ?_⟩ hok
            · simpa using hnone c (List.mem_append_left _ hmem)
            · simpa [heq] using hnone behind (List.mem_append_right _ List.mem_cons_self)
  unfold fatFsValidate83Name
  rw [if_neg (by omega)]
  exact hloop 0

/-- The names that are accepted. -/
theorem validate_iff : fatFsValidate83Name behind name = true ↔
    name.length ≤ 11 ∧ ∀ ci ∈ name.zipIdx, ¬ Refused (ci.2 == 0) ci.1 ∧ ci.1 ∉ badValues ∧
      ci.1 ≠ behind := by
  unfold fatFsValidate83Name
  split
  · rename_i hlong
    refine iff_of_false Bool.false_ne_true ?_
    rintro ⟨hshort, -⟩
    omega
  · rename_i hshort
    rw [List.all_eq_true]
    simp only [charAccepted_iff]
    exact ⟨fun hall => ⟨by omega, hall⟩, fun hall => hall.2⟩

/-- The characters of a legal name. -/
theorem Legal83.chars (h : Legal83 name) : ∀ c ∈ name, belowSpace c = false ∧ c ∉ badValues := by
  rcases h with ⟨base, extension, hparts, -, -, hlegal⟩
  intro c hc
  rcases hparts with rfl | ⟨-, rfl⟩
  · rcases List.mem_append.mp hc with hc | hc
    · have hchar := hlegal c (List.mem_append_left _ hc)
      exact ⟨hchar.1, hchar.2.1⟩
    · rcases List.mem_cons.mp hc with rfl | hc
      · decide
      · have hchar := hlegal c (List.mem_append_right _ hc)
        exact ⟨hchar.1, hchar.2.1⟩
  · have hchar := hlegal c (List.mem_append_left _ hc)
    exact ⟨hchar.1, hchar.2.1⟩

/-- A legal name is accepted when it has up to eleven characters, and none of them happens to be
what lies behind the table. -/
theorem legal_accepted_iff (h : Legal83 name) : fatFsValidate83Name behind name = true ↔
    name.length ≤ 11 ∧ behind ∉ name := by
  rw [validate_iff]
  refine and_congr_right fun _ => ?_
  constructor
  · intro hall hmem
    rcases List.getElem_of_mem hmem with ⟨i, hi, heq⟩
    have hin : (behind, i) ∈ name.zipIdx := by
      rw [List.mem_zipIdx_iff_getElem?, List.getElem?_eq_getElem hi, heq]
    exact (hall _ hin).2.2 rfl
  · intro hno ci hci
    have hmem : ci.1 ∈ name := List.fst_mem_of_mem_zipIdx hci
    have hchar := h.chars ci.1 hmem
    refine ⟨fun hrefused => ?_, hchar.2, fun heq => hno (heq ▸ hmem)⟩
    have hbelow := hrefused.1
    rw [hchar.1] at hbelow
    exact Bool.false_ne_true hbelow

/-- The loop reads the table only as far as the first character is refused. -/
theorem tableReads_iff : (∀ j ∈ tableReads behind name, j < 15) ↔
    name.length > 11 ∨ ∀ c, name.head? = some c → Refused true c ∨ c ∈ badValues := by
  unfold tableReads
  split
  · rename_i hlong
    exact iff_of_true (fun j hj => absurd hj List.not_mem_nil) (Or.inl hlong)
  · rename_i hshort
    rw [or_iff_right hshort]
    cases name with
    | nil =>
      refine iff_of_true (fun j hj => absurd hj List.not_mem_nil) ?_
      intro c hc
      cases hc
    | cons c rest =>
      unfold validateLoop
      rw [List.head?_cons]
      by_cases hrefused : Refused true c
      · rw [if_pos hrefused]
        refine iff_of_true (fun j hj => absurd hj List.not_mem_nil) ?_
        intro c' hc'
        obtain rfl := Option.some.inj hc'
        exact Or.inl hrefused
      · rw [if_neg hrefused]
        have hcond : (∀ c', some c = some c' → Refused true c' ∨ c' ∈ badValues) ↔
            c ∈ badValues := by
          constructor
          · intro hall
            exact (hall c rfl).resolve_left hrefused
          · intro hmem c' hc'
            obtain rfl := Option.some.inj hc'
            exact Or.inr hmem
        rw [hcond]
        by_cases hmem : c ∈ badValues
        · -- the character is found among the fifteen
          refine iff_of_true ?_ hmem
          have hsome : (badValues.findIdx? (· == c)).isSome = true := by
            rw [List.findIdx?_isSome, List.any_eq_true]
            exact ⟨c, hmem, by simp⟩
          rcases Option.isSome_iff_exists.mp hsome with ⟨i, hi⟩
          have hlt : i < 15 := (List.findIdx?_eq_some_iff_findIdx_eq.mp hi).1
          rw [List.findIdx?_append, hi]
          intro j hj
          have hj' := List.mem_range.mp hj
          omega
        · -- all of them are compared, and one more
          refine iff_of_false (fun hall => ?_) hmem
          have hread : 15 ∈ (match (badValues ++ [behind]).findIdx? (· == c) with
              | some j => (false, List.range (j + 1))
              | none => ((validateLoop behind false rest).1,
                  List.range 16 ++ (validateLoop behind false rest).2)).2 := by
            have hnone : badValues.findIdx? (· == c) = none := by
              rw [List.findIdx?_eq_none_iff]
              intro x hx
              have hne : x ≠ c := fun heq => hmem (heq ▸ hx)
              simpa using hne
            rw [List.findIdx?_append, hnone]
            by_cases hb : behind = c
            · have hhere : [behind].findIdx? (· == c) = some 0 := by simp [hb]
              rw [hhere]
              exact List.mem_range.mpr (by decide)
            · have hhere : [behind].findIdx? (· == c) = none := by simp [hb]
              rw [hhere]
              exact List.mem_append_left _ (List.mem_range.mpr (by decide))
          exact absurd (hall 15 hread) (by decide)

/-! ## The law -/

/-- The entry of a new node with this name gives the name back. -/
def ComesBack (name : List UInt8) : Prop :=
  ∀ (s s' : FatState) (a : Nat) (node : FatNode), node.name = name →
    fatFsCreateShortEntryFromNode s a node = (s', .ok) →
    fatFsRetrieveShortName (entryName s'.mem a) = name

theorem comesBack_iff (h : fatFsValidate83Name behind name = true) :
    ComesBack name ↔ Storable name := by
  rcases generateShortName_accepted h with ⟨bytes, hbytes, hlen, -⟩
  rw [← decode_encode_iff hbytes]
  constructor
  · intro hall
    let node : FatNode := ⟨name, 0, 0, 0, ⟨[2], false, 0, 0⟩, []⟩
    rcases createShortEntry_ok (freshState fun _ => 0) 0
      (show node.data.layout.head? = some 2 from rfl) hbytes hlen with
      ⟨m, hrun, -, hname, -⟩
    have hback := hall _ _ 0 node rfl hrun
    rw [FatState.setMem_mem, hname] at hback
    exact hback
  · intro hback s s' a node hnode hrun
    subst hnode
    cases hhead : node.data.layout.head? with
    | none =>
      unfold fatFsCreateShortEntryFromNode at hrun
      rw [hhead] at hrun
      cases (Prod.mk.inj hrun).2
    | some r =>
      rcases createShortEntry_ok s a hhead hbytes hlen with ⟨m, hrun', -, hname, -⟩
      rw [hrun'] at hrun
      obtain rfl := (Prod.mk.inj hrun).1
      rw [FatState.setMem_mem, hname]
      exact hback

/-- `ABCDEFGH.TX` is accepted and comes back as `ABCDEFGH`; `ABCDEFGH.TXT` is legal and refused;
and for `A` the table is read behind its end. -/
theorem acceptedNames_fail :
    (fatFsValidate83Name 0 [65, 66, 67, 68, 69, 70, 71, 72, 46, 84, 88] = true ∧
      ¬ ComesBack [65, 66, 67, 68, 69, 70, 71, 72, 46, 84, 88]) ∧
    (Legal83 [65, 66, 67, 68, 69, 70, 71, 72, 46, 84, 88, 84] ∧ ∀ behind,
      fatFsValidate83Name behind [65, 66, 67, 68, 69, 70, 71, 72, 46, 84, 88, 84] = false) ∧
    15 ∈ tableReads 0 [65] := by
  refine ⟨⟨by decide, fun hback => ?_⟩, ⟨?_, fun _ => rfl⟩, by decide⟩
  · let node : FatNode :=
      ⟨[65, 66, 67, 68, 69, 70, 71, 72, 46, 84, 88], 0, 0, 0, ⟨[2], false, 0, 0⟩, []⟩
    have hbytes : fatFsGenerateShortName node.name =
        some [65, 66, 67, 68, 69, 70, 71, 72, 32, 32, 32] := by decide
    rcases createShortEntry_ok (freshState fun _ => 0) 0
      (show node.data.layout.head? = some 2 from rfl) hbytes rfl with
      ⟨m, hrun, -, hname, -⟩
    have hname' := hback _ _ 0 node rfl hrun
    rw [FatState.setMem_mem, hname] at hname'
    exact absurd hname' (by decide)
  · refine ⟨[65, 66, 67, 68, 69, 70, 71, 72], [84, 88, 84], Or.inl rfl, by decide, by decide, ?_⟩
    unfold LegalNameChar
    decide +kernel

/-- An accepted name comes back exactly when it is storable, a legal name is accepted exactly when
it has up to eleven characters without what lies behind the table, and that is read unless the
first character is refused before. -/
theorem acceptedNames_iff (behind : UInt8) (name : List UInt8) :
    (fatFsValidate83Name behind name = true → (ComesBack name ↔ Storable name)) ∧
    (Legal83 name → (fatFsValidate83Name behind name = true ↔
      name.length ≤ 11 ∧ behind ∉ name)) ∧
    ((∀ j ∈ tableReads behind name, j < 15) ↔
      name.length > 11 ∨ ∀ c, name.head? = some c → Refused true c ∨ c ∈ badValues) :=
  ⟨comesBack_iff, legal_accepted_iff, tableReads_iff⟩

end Accepted

end MeOS
