import MeOS.PeImports
import MeOS.Lib.FirstDifference

/-! # The order of strings

`strcmp` and `strcmp_insensitive` take the difference of two characters as a signed byte: a
character is before the 128 ones that come up from it, around the end of the bytes. Of characters
128 apart each is before the other, and three steps may lead around.
-/

namespace MeOS.StringOrder

open Bytes FirstDifference

/-! ## The functions -/

/-- The loop of `strcmp` and `strcmp_insensitive`, with the addresses it reads. -/
def compareReads (f : UInt8 → UInt8) (m : Mem) :
    Nat → Nat → Nat → List Nat → Outcome (Int8 × List Nat)
  | 0, _, _, _ => .running
  | fuel + 1, s1, s2, reads =>
    let reads := reads ++ [s1, s2]
    let res := (f (m s1) - f (m s2)).toInt8
    if res ≠ 0 then .ret (res, reads)
    -- the second character is read again
    else if m s2 ≠ 0 then compareReads f m fuel (s1 + 1) (s2 + 1) (reads ++ [s2])
    else .ret (res, reads ++ [s2])

/-- Either function; `f` is what is compared of a character. -/
def compareStrings (f : UInt8 → UInt8) (m : Mem) (s1 s2 fuel : Nat) : Outcome (Int8 × List Nat) :=
  compareReads f m fuel s1 s2 [] >>= fun r => .ret (signOf r.1, r.2)

/-- `strcmp`. -/
def strcmpReads (m : Mem) : Nat → Nat → Nat → Outcome (Int8 × List Nat) := compareStrings id m

/-- `strcmp_insensitive`. -/
def strcmpInsensitiveReads (m : Mem) : Nat → Nat → Nat → Outcome (Int8 × List Nat) :=
  compareStrings toLower m

/-! ## What is compared -/

/-- The characters of a string, with zeros behind them. -/
def chars (f : UInt8 → UInt8) (s : List UInt8) (k : Nat) : UInt8 := f (s[k]?.getD 0)

/-- How far `y` is above `x`, up around the end of the bytes. -/
def rise (x y : UInt8) : Nat := (y - x).toNat

/-- The difference of the characters is negative. -/
def Before (x y : UInt8) : Prop := (x - y).toInt8 < 0

/-- The first characters in which `a` and `b` differ are not 128 apart; where `b` and `c` differ
first at the same place, the way up from the one of `a` to that of `b`, and on to that of `c`, is
not longer than 128 if neither part is. -/
def KeepsOrder (f : UInt8 → UInt8) (a b c : List UInt8) : Prop :=
  ∀ k, DifferAt (chars f a) (chars f b) k →
    rise (chars f a k) (chars f b k) ≠ 128 ∧
    (DifferAt (chars f b) (chars f c) k →
      rise (chars f a k) (chars f b k) ≤ 128 → rise (chars f b k) (chars f c k) ≤ 128 →
      rise (chars f a k) (chars f b k) + rise (chars f b k) (chars f c k) ≤ 128)

/-- Every address is in the first `n` characters of one of the strings, or of the one behind
them. -/
def ReadsWithin (pa pb n : Nat) (reads : List Nat) : Prop :=
  ∀ x ∈ reads, (pa ≤ x ∧ x ≤ pa + n) ∨ (pb ≤ x ∧ x ≤ pb + n)

/-- The comparisons of the strings `a` and `b`, and of another one, are those of an order: zero for
strings that are the same, the other way round the opposite, and two steps up are a step up. -/
def Orders (compare : Nat → Nat → Nat → Outcome (Int8 × List Nat))
    (same : List UInt8 → List UInt8 → Prop) (pa pb pc : Nat) (a b : List UInt8) : Prop :=
  ∃ ab ba bc ac, Settles (compare pa pb) ab ∧ Settles (compare pb pa) ba ∧
    Settles (compare pb pc) bc ∧ Settles (compare pa pc) ac ∧
    (ab.1 = 0 ↔ same a b) ∧ ab.1 = -ba.1 ∧ (ab.1 < 0 → bc.1 < 0 → ac.1 < 0) ∧
    ReadsWithin pa pb (min a.length b.length) ab.2

/-- The same letters, upper or lower case. -/
def SameLetters (a b : List UInt8) : Prop := a.map toLower = b.map toLower

/-! ## Characters -/

section

variable {x y z : UInt8}

/-- What holds of 256 bytes holds of all. -/
theorem byte_cases {p : UInt8 → Prop} (h : ∀ n : Fin 256, p (UInt8.ofNat n.val)) (d : UInt8) :
    p d := by
  have hd := h ⟨d.toNat, d.toNat_lt⟩
  rwa [UInt8.ofNat_toNat] at hd

theorem before_iff : Before x y ↔ x ≠ y ∧ rise x y ≤ 128 := by
  have hbyte : ∀ d : UInt8, d.toInt8 < 0 ↔ d ≠ 0 ∧ (-d).toNat ≤ 128 :=
    byte_cases (by decide +kernel)
  have hzero : x - y = 0 ↔ x = y := by rw [UInt8.sub_eq_iff_eq_add, UInt8.zero_add]
  rw [Before, hbyte, ne_eq, hzero, UInt8.neg_sub, rise]

theorem before_irrefl (x : UInt8) : ¬ Before x x := fun h => (before_iff.mp h).1 rfl

theorem rise_eq (x y : UInt8) : rise x y = (256 - x.toNat + y.toNat) % 256 := UInt8.toNat_sub y x

theorem rise_self (x : UInt8) : rise x x = 0 := by
  rw [rise, UInt8.sub_self]
  rfl

/-- Two ways up are one, if they are not too long. -/
theorem rise_add (h : rise x y + rise y z < 256) : rise x z = rise x y + rise y z := by
  rw [rise_eq, rise_eq] at h
  have := y.toNat_lt
  rw [rise_eq, rise_eq, rise_eq]
  omega

theorem rise_pos (h : x ≠ y) : 0 < rise x y := by
  have hne : x.toNat ≠ y.toNat := fun heq => h (UInt8.toNat_inj.mp heq)
  have := x.toNat_lt
  have := y.toNat_lt
  rw [rise_eq]
  omega

/-- The sign of a difference is lost only between characters 128 apart. -/
theorem signOf_opposite :
    signOf (x - y).toInt8 = -signOf (y - x).toInt8 ↔ rise x y ≠ 128 := by
  have hbyte : ∀ d : UInt8, signOf (-d).toInt8 = -signOf d.toInt8 ↔ d.toNat ≠ 128 :=
    byte_cases (by decide +kernel)
  have h := hbyte (y - x)
  rwa [UInt8.neg_sub] at h

theorem signOf_neg_iff {res : Int8} : signOf res < 0 ↔ res < 0 := by
  unfold signOf
  by_cases hneg : res < 0
  · rw [if_pos hneg]
    exact iff_of_true (by decide) hneg
  · rw [if_neg hneg]
    by_cases hpos : res > 0
    · rw [if_pos hpos]
      exact iff_of_false (by decide) hneg
    · rw [if_neg hpos]

end

/-! ## A comparison -/

section

variable {f : UInt8 → UInt8} {m : Mem} {pa pb : Nat} {a b : List UInt8} {reads : List Nat}

theorem chars_zero (h : StrAt m pa a) : chars f a 0 = f (m pa) := by
  cases a with
  | nil =>
    have hend : m pa = 0 := h
    rw [hend]
    rfl
  | cons x a =>
    rw [h.1]
    rfl

/-- Where no character looks like the zero, the ends are seen. -/
theorem chars_eq_iff (hf : ∀ c, f c = f 0 → c = 0) (ha : StrAt m pa a) (hb : StrAt m pb b) :
    chars f a = chars f b ↔ a.map f = b.map f := by
  refine ⟨fun h => ?_, fun h => ?_⟩
  · induction a generalizing pa pb b with
    | nil =>
      cases b with
      | nil => rfl
      | cons y b => exact absurd (hf y (congrFun h 0).symm) hb.2.1
    | cons x a ih =>
      cases b with
      | nil => exact absurd (hf x (congrFun h 0)) ha.2.1
      | cons y b =>
        have hrest : a.map f = b.map f := ih ha.2.2 hb.2.2 (funext fun k => congrFun h (k + 1))
        have hfirst : f x = f y := congrFun h 0
        rw [List.map_cons, List.map_cons, hfirst, hrest]
  · funext k
    have hk : (a.map f)[k]? = (b.map f)[k]? := by rw [h]
    rw [List.getElem?_map, List.getElem?_map] at hk
    have hget : ∀ o : Option UInt8, f (o.getD 0) = (o.map f).getD (f 0) := by rintro (_ | _) <;> rfl
    rw [chars, chars, hget, hget, hk]

/-! The three ends of a turn. -/

theorem compareReads_differ {fuel s1 s2 : Nat} (h : f (m s1) ≠ f (m s2)) :
    compareReads f m (fuel + 1) s1 s2 reads =
      .ret ((f (m s1) - f (m s2)).toInt8, reads ++ [s1, s2]) := by
  have hres : (f (m s1) - f (m s2)).toInt8 ≠ 0 := fun hzero => h (toInt8_sub_eq_zero.mp hzero)
  simp only [compareReads, if_pos hres]

theorem compareReads_end {fuel s1 s2 : Nat} (h : f (m s1) = f (m s2)) (hend : m s2 = 0) :
    compareReads f m (fuel + 1) s1 s2 reads = .ret (0, reads ++ [s1, s2, s2]) := by
  have hres : (f (m s1) - f (m s2)).toInt8 = 0 := toInt8_sub_eq_zero.mpr h
  simp only [compareReads, hres, ne_eq, not_true_eq_false, if_false]
  rw [if_neg (not_not.mpr hend), List.append_assoc]
  rfl

theorem compareReads_same {fuel s1 s2 : Nat} (h : f (m s1) = f (m s2)) (hgo : m s2 ≠ 0) :
    compareReads f m (fuel + 1) s1 s2 reads =
      compareReads f m fuel (s1 + 1) (s2 + 1) (reads ++ [s1, s2, s2]) := by
  have hres : (f (m s1) - f (m s2)).toInt8 = 0 := toInt8_sub_eq_zero.mpr h
  simp only [compareReads, hres, ne_eq, not_true_eq_false, if_false, if_pos hgo,
    List.append_assoc]
  rfl

/-- The result of the loop is that of the loop that records nothing. -/
theorem compareReads_fst (fuel : Nat) (s1 s2 : Nat) (reads : List Nat) :
    (compareReads f m fuel s1 s2 reads >>= fun r => .ret r.1) = compareChars f m fuel s1 s2 := by
  induction fuel generalizing s1 s2 reads with
  | zero => rfl
  | succ fuel ih =>
    unfold compareChars
    by_cases h : f (m s1) = f (m s2)
    · have hres : (f (m s1) - f (m s2)).toInt8 = 0 := toInt8_sub_eq_zero.mpr h
      by_cases hend : m s2 = 0
      · rw [compareReads_end h hend, hres]
        exact (if_neg fun hgo => hgo.2 hend).symm
      · rw [compareReads_same h hend, ih]
        exact (if_pos ⟨hres, hend⟩).symm
    · rw [compareReads_differ h]
      exact (if_neg fun hgo => h (toInt8_sub_eq_zero.mp hgo.1)).symm

/-- What a comparison comes to: zero, or the difference of the first characters that differ. -/
def ComesTo (f : UInt8 → UInt8) (a b : List UInt8) (res : Int8) : Prop :=
  chars f a = chars f b ∧ res = 0 ∨
    ∃ k, DifferAt (chars f a) (chars f b) k ∧ res = (chars f a k - chars f b k).toInt8

/-- A character more in front, the same in both. -/
theorem ComesTo.cons {x y : UInt8} {res : Int8} (h : ComesTo f a b res) (hxy : f x = f y) :
    ComesTo f (x :: a) (y :: b) res := by
  rcases h with ⟨heq, hres⟩ | ⟨k, hk, hres⟩
  · refine .inl ⟨funext fun n => ?_, hres⟩
    cases n with
    | zero => exact hxy
    | succ n => exact congrFun heq n
  · exact .inr ⟨k + 1, DifferAt.cons hk hxy, hres⟩

/-- The addresses of the first characters. -/
theorem readsWithin_first {n : Nat} (h : ∀ x ∈ reads, x = pa ∨ x = pb) :
    ReadsWithin pa pb n reads := by
  intro x hx
  rcases h x hx with rfl | rfl
  · exact .inl ⟨Nat.le_refl _, Nat.le_add_right _ _⟩
  · exact .inr ⟨Nat.le_refl _, Nat.le_add_right _ _⟩

/-- And those behind them. -/
theorem ReadsWithin.behind {n : Nat} (h : ReadsWithin (pa + 1) (pb + 1) n reads) :
    ReadsWithin pa pb (n + 1) ([pa, pb, pb] ++ reads) := by
  intro x hx
  rcases List.mem_append.mp hx with hx | hx
  · exact readsWithin_first (by simp) x hx
  · rcases h x hx with hx | hx
    · exact .inl (by omega)
    · exact .inr (by omega)

/-- What the loop does with two strings: it ends, and reads no farther than the shorter one. -/
def Compares (f : UInt8 → UInt8) (m : Mem) (pa pb : Nat) (reads : List Nat) (a b : List UInt8) :
    Prop :=
  ∃ res new, Settles (fun fuel => compareReads f m fuel pa pb reads) (res, reads ++ new) ∧
    ComesTo f a b res ∧ ReadsWithin pa pb (min a.length b.length) new

/-- Different characters end it. -/
theorem compares_differ (ha : StrAt m pa a) (hb : StrAt m pb b) (h : f (m pa) ≠ f (m pb)) :
    Compares f m pa pb reads a b := by
  refine ⟨(f (m pa) - f (m pb)).toInt8, [pa, pb], .succ ?_, .inr ⟨0, ?_, ?_⟩, ?_⟩
  · simp only [compareReads_differ h]
    exact Settles.ret
  · exact ⟨nofun, by rwa [chars_zero ha, chars_zero hb]⟩
  · rw [chars_zero ha, chars_zero hb]
  · exact readsWithin_first (by simp)

/-- Any two strings are compared. -/
theorem compares (reads : List Nat) (hf : ∀ c, f c = f 0 → c = 0) (ha : StrAt m pa a)
    (hb : StrAt m pb b) : Compares f m pa pb reads a b := by
  -- along both strings
  induction b generalizing a pa pb reads with
  | nil =>
    by_cases h : f (m pa) = f (m pb)
    · have hend : m pb = 0 := hb
      have hfirst : m pa = 0 := hf _ (h.trans (by rw [hend]))
      obtain rfl : a = [] := ha.unique hfirst
      refine ⟨0, [pa, pb, pb], .succ ?_, .inl ⟨rfl, rfl⟩, readsWithin_first (by simp)⟩
      simp only [compareReads_end h hend]
      exact Settles.ret
    · exact compares_differ ha hb h
  | cons y b ih =>
    by_cases h : f (m pa) = f (m pb)
    · have hgo : m pb ≠ 0 := hb.1 ▸ hb.2.1
      cases a with
      | nil =>
        have hfirst : m pa = 0 := ha
        rw [hfirst] at h
        exact absurd (hf _ h.symm) hgo
      | cons x a =>
        obtain ⟨res, new, hrun, hres, hnew⟩ := ih (reads ++ [pa, pb, pb]) ha.2.2 hb.2.2
        refine ⟨res, [pa, pb, pb] ++ new, .succ ?_, hres.cons (by rwa [ha.1, hb.1] at h), ?_⟩
        · simp only [compareReads_same h hgo]
          rwa [List.append_assoc] at hrun
        · rw [List.length_cons, List.length_cons, Nat.succ_min_succ]
          exact hnew.behind
    · exact compares_differ ha hb h

/-- The result of `strcmp` or `strcmp_insensitive`. -/
theorem compareStrings_settles (hf : ∀ c, f c = f 0 → c = 0) (ha : StrAt m pa a)
    (hb : StrAt m pb b) : ∃ r, Settles (compareStrings f m pa pb) r ∧
      ReadsWithin pa pb (min a.length b.length) r.2 ∧ (r.1 = 0 ↔ chars f a = chars f b) ∧
      (r.1 < 0 ↔ LexBefore Before (chars f a) (chars f b)) ∧
      ∀ k, DifferAt (chars f a) (chars f b) k →
        r.1 = signOf (chars f a k - chars f b k).toInt8 := by
  obtain ⟨res, new, hrun, hres, hnew⟩ := compares [] hf ha hb
  rw [List.nil_append] at hrun
  have hsettles : Settles (compareStrings f m pa pb) (signOf res, new) := by
    obtain ⟨bound, hbound⟩ := hrun
    refine ⟨bound, fun fuel hfuel => ?_⟩
    have hloop : compareReads f m fuel pa pb [] = .ret (res, new) := hbound fuel hfuel
    rw [compareStrings, hloop, Outcome.ret_bind]
  refine ⟨(signOf res, new), hsettles, hnew, signOf_eq_zero.trans ?_, signOf_neg_iff.trans ?_,
    fun j hj => congrArg signOf ?_⟩
  · rcases hres with ⟨heq, rfl⟩ | ⟨k, hk, rfl⟩
    · exact iff_of_true rfl heq
    · rw [toInt8_sub_eq_zero]
      exact iff_of_false hk.here fun heq => hk.here (congrFun heq k)
  · rcases hres with ⟨heq, rfl⟩ | ⟨k, hk, rfl⟩
    · rw [heq]
      exact iff_of_false (by decide) (lexBefore_irrefl before_irrefl)
    · exact (lexBefore_iff before_irrefl hk).symm
  · rcases hres with ⟨heq, _⟩ | ⟨k, hk, rfl⟩
    · exact absurd (congrFun heq j) hj.here
    · rw [hj.unique hk]

end

/-! ## The order -/

section

variable {f : UInt8 → UInt8} {m : Mem} {pa pb pc : Nat} {a b c : List UInt8}

/-- Steps that do not go around make a step. -/
theorem lexBefore_trans (h : KeepsOrder f a b c) (hab : LexBefore Before (chars f a) (chars f b))
    (hbc : LexBefore Before (chars f b) (chars f c)) :
    LexBefore Before (chars f a) (chars f c) := by
  refine hab.trans_of before_irrefl hbc fun k hka hkb hx hy => ?_
  obtain ⟨hne, hle⟩ := before_iff.mp hx
  have hsum := (h k hka).2 hkb hle (before_iff.mp hy).2
  have hadd := rise_add (x := chars f a k) (y := chars f b k) (z := chars f c k) (by omega)
  have hpos := rise_pos hne
  refine before_iff.mpr ⟨fun heq => ?_, by omega⟩
  rw [heq, rise_self] at hadd
  rw [heq] at hpos
  omega

/-- The comparisons are those of an order if and only if the strings are such. -/
theorem orders_iff {same : List UInt8 → List UInt8 → Prop} (hf : ∀ c, f c = f 0 → c = 0)
    (hsame : ∀ a b, same a b ↔ a.map f = b.map f) (ha : StrAt m pa a) (hb : StrAt m pb b)
    (hc : StrAt m pc c) :
    Orders (compareStrings f m) same pa pb pc a b ↔ KeepsOrder f a b c := by
  obtain ⟨ab, hab, hreads, habZero, habNeg, habSign⟩ := compareStrings_settles hf ha hb
  obtain ⟨ba, hba, _, hbaZero, _, hbaSign⟩ := compareStrings_settles hf hb ha
  obtain ⟨bc, hbc, _, _, hbcNeg, _⟩ := compareStrings_settles hf hb hc
  obtain ⟨ac, hac, _, _, hacNeg, _⟩ := compareStrings_settles hf ha hc
  have hopposite (k : Nat) (hk : DifferAt (chars f a) (chars f b) k) :
      ab.1 = -ba.1 ↔ rise (chars f a k) (chars f b k) ≠ 128 := by
    rw [habSign k hk, hbaSign k hk.symm, signOf_opposite]
  constructor
  · rintro ⟨ab', ba', bc', ac', hab', hba', hbc', hac', _, hneg, htrans, _⟩
    rw [hab'.unique hab, hba'.unique hba] at hneg
    rw [hab'.unique hab, hbc'.unique hbc, hac'.unique hac] at htrans
    intro k hk
    have hapart := (hopposite k hk).mp hneg
    refine ⟨hapart, fun hkc hx hy => ?_⟩
    by_contra hlong
    have hpos := rise_pos hk.here
    -- the way from `a` to `c` is too long for a step, but not a whole turn
    have hadd := rise_add (x := chars f a k) (y := chars f b k) (z := chars f c k) (by omega)
    have hstep := htrans (habNeg.mpr (hk.lexBefore (before_iff.mpr ⟨hk.here, hx⟩)))
      (hbcNeg.mpr (hkc.lexBefore (before_iff.mpr ⟨hkc.here, hy⟩)))
    have hne : chars f a k ≠ chars f c k := by
      intro heq
      rw [heq, rise_self] at hadd
      rw [heq] at hpos
      omega
    have hbefore := (lexBefore_iff before_irrefl (hk.trans_same hkc hne)).mp (hacNeg.mp hstep)
    have hshort := (before_iff.mp hbefore).2
    omega
  · intro h
    refine ⟨ab, ba, bc, ac, hab, hba, hbc, hac, ?_, ?_, fun hx hy => ?_, hreads⟩
    · rw [habZero, hsame, chars_eq_iff hf ha hb]
    · by_cases heq : chars f a = chars f b
      · rw [habZero.mpr heq, hbaZero.mpr heq.symm]
        rfl
      · obtain ⟨k, hk⟩ := exists_differAt heq
        exact (hopposite k hk).mpr (h k hk).1
    · exact hacNeg.mpr (lexBefore_trans h (habNeg.mp hx) (hbcNeg.mp hy))

/-- No way around leads through the lower half of the bytes. -/
theorem keepsOrder_of_low (hf : ∀ x, x.toNat < 128 → (f x).toNat < 128)
    (ha : ∀ x ∈ a, x.toNat < 128) (hb : ∀ x ∈ b, x.toNat < 128) (hc : ∀ x ∈ c, x.toNat < 128) :
    KeepsOrder f a b c := by
  have hlow (s : List UInt8) (hs : ∀ x ∈ s, x.toNat < 128) (k : Nat) :
      (chars f s k).toNat < 128 := by
    refine hf _ ?_
    by_cases hk : k < s.length
    · rw [List.getElem?_eq_getElem hk]
      exact hs _ (List.getElem_mem hk)
    · rw [List.getElem?_eq_none (Nat.not_lt.mp hk)]
      decide
  intro k _
  have hx := hlow a ha k
  have hy := hlow b hb k
  have hz := hlow c hc k
  rw [rise_eq, rise_eq]
  constructor
  · omega
  · intro _ h h'
    omega

end

/-- `strcmp` records its reads, and otherwise is what it was. -/
theorem compareStrings_fst (f : UInt8 → UInt8) (m : Mem) (s1 s2 fuel : Nat) :
    (compareStrings f m s1 s2 fuel >>= fun r => .ret r.1) =
      (compareChars f m fuel s1 s2 >>= fun res => .ret (signOf res)) := by
  rw [compareStrings, ← compareReads_fst fuel s1 s2 []]
  cases compareReads f m fuel s1 s2 [] <;> rfl

theorem strcmpReads_fst (m : Mem) (s1 s2 fuel : Nat) :
    (strcmpReads m s1 s2 fuel >>= fun r => .ret r.1) = strcmp m s1 s2 fuel :=
  compareStrings_fst id m s1 s2 fuel

theorem strcmpInsensitiveReads_fst (m : Mem) (s1 s2 fuel : Nat) :
    (strcmpInsensitiveReads m s1 s2 fuel >>= fun r => .ret r.1) =
      strcmpInsensitive m s1 s2 fuel :=
  compareStrings_fst toLower m s1 s2 fuel

section

variable {m : Mem} {pa pb pc : Nat} {a b c : List UInt8}

theorem strcmp_orders_iff (ha : StrAt m pa a) (hb : StrAt m pb b) (hc : StrAt m pc c) :
    Orders (strcmpReads m) (· = ·) pa pb pc a b ↔ KeepsOrder id a b c :=
  orders_iff (fun _ h => h) (fun a b => by rw [List.map_id, List.map_id]) ha hb hc

theorem strcmpInsensitive_orders_iff (ha : StrAt m pa a) (hb : StrAt m pb b) (hc : StrAt m pc c) :
    Orders (strcmpInsensitiveReads m) SameLetters pa pb pc a b ↔ KeepsOrder toLower a b c :=
  orders_iff (fun _ h => toLower_eq_zero h) (fun _ _ => Iff.rfl) ha hb hc

/-- Strings of ASCII characters are in an order. -/
theorem ascii_orders (ha : StrAt m pa a) (hb : StrAt m pb b) (hc : StrAt m pc c)
    (hla : ∀ x ∈ a, x.toNat < 128) (hlb : ∀ x ∈ b, x.toNat < 128)
    (hlc : ∀ x ∈ c, x.toNat < 128) :
    Orders (strcmpReads m) (· = ·) pa pb pc a b ∧
      Orders (strcmpInsensitiveReads m) SameLetters pa pb pc a b := by
  have hlower : ∀ x : UInt8, x.toNat < 128 → (toLower x).toNat < 128 :=
    byte_cases (by decide +kernel)
  exact ⟨(strcmp_orders_iff ha hb hc).mpr (keepsOrder_of_low (fun _ h => h) hla hlb hlc),
    (strcmpInsensitive_orders_iff ha hb hc).mpr (keepsOrder_of_low hlower hla hlb hlc)⟩

end

/-- The comparisons of strings are those of an order if and only if the way up from one first
different character to the other never is 128, or too long in two steps. -/
theorem stringOrders_iff (m : Mem) (pa pb pc : Nat) (a b c : List UInt8) (ha : StrAt m pa a)
    (hb : StrAt m pb b) (hc : StrAt m pc c) :
    (Orders (strcmpReads m) (· = ·) pa pb pc a b ↔ KeepsOrder id a b c) ∧
      (Orders (strcmpInsensitiveReads m) SameLetters pa pb pc a b ↔ KeepsOrder toLower a b c) :=
  ⟨strcmp_orders_iff ha hb hc, strcmpInsensitive_orders_iff ha hb hc⟩

/-- The strings `a`, `b` and `B`. -/
def letters : Mem := fun x => ([97, 0, 98, 0, 66, 0][x]?).getD 0

theorem stringOrders_iff_letters :
    (Orders (strcmpReads letters) (· = ·) 0 2 4 [97] [98] ↔ KeepsOrder id [97] [98] [66]) ∧
      (Orders (strcmpInsensitiveReads letters) SameLetters 0 2 4 [97] [98] ↔
        KeepsOrder toLower [97] [98] [66]) :=
  stringOrders_iff letters 0 2 4 [97] [98] [66] (by decide) (by decide) (by decide)

/-- The strings `0x80`, the empty one behind it, `0x40`, `0x90` and `0xE0`. -/
def highBytes : Mem := fun x => ([128, 0, 64, 0, 144, 0, 224, 0][x]?).getD 0

/-- `0x80` is before the empty string, and that before it; `0x40` is before `0x90` and that before
`0xE0`, but `0x40` is not. -/
theorem stringOrders_fail :
    (¬ Orders (strcmpReads highBytes) (· = ·) 0 1 1 [128] [] ∧
      ¬ Orders (strcmpReads highBytes) (· = ·) 2 4 6 [64] [144]) ∧
    ¬ Orders (strcmpInsensitiveReads highBytes) SameLetters 0 1 1 [128] [] ∧
      ¬ Orders (strcmpInsensitiveReads highBytes) SameLetters 2 4 6 [64] [144] := by
  have hfirst {f : UInt8 → UInt8} {a b : List UInt8} (h : chars f a 0 ≠ chars f b 0) :
      DifferAt (chars f a) (chars f b) 0 := ⟨nofun, h⟩
  rw [strcmp_orders_iff (c := []) (by decide) (by decide) (by decide),
    strcmp_orders_iff (c := [224]) (by decide) (by decide) (by decide),
    strcmpInsensitive_orders_iff (c := []) (by decide) (by decide) (by decide),
    strcmpInsensitive_orders_iff (c := [224]) (by decide) (by decide) (by decide)]
  refine ⟨⟨fun h => ?_, fun h => ?_⟩, fun h => ?_, fun h => ?_⟩
  · exact (h 0 (hfirst (by decide))).1 (by decide)
  · exact absurd ((h 0 (hfirst (by decide))).2 (hfirst (by decide)) (by decide) (by decide))
      (by decide)
  · exact (h 0 (hfirst (by decide))).1 (by decide)
  · exact absurd ((h 0 (hfirst (by decide))).2 (hfirst (by decide)) (by decide) (by decide))
      (by decide)

end MeOS.StringOrder
