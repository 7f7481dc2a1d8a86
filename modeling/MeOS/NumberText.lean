import MeOS.Lib.Numerals
import MeOS.Lib.Reversal
import MeOS.PeImports

/-! # `utility.cpp`: numbers and their text

`uitoa` and `itoa` write the digits of a number as divisions find them, and reverse the text in its
buffer. `atoui` adds up the characters of a text, each times a power of the base.

The addresses that are written to and the indices into the table of digits are recorded. What is
around the table in memory is a parameter. A signed negation wraps.
-/

namespace MeOS.NumberText

open Bytes Numerals Reversal

/-! ## The functions -/

/-- The memory, and what has been written to and looked up on the way to it. -/
structure Conversion where
  memory : Mem
  writes : List Nat
  indices : List Int

/-- A character is written. -/
def Conversion.put (s : Conversion) (a : Nat) (c : UInt8) : Conversion :=
  { s with memory := store8 s.memory a c, writes := s.writes ++ [a] }

/-- The text `0123456789ABCDEF`. -/
def hexText : List UInt8 := [48, 49, 50, 51, 52, 53, 54, 55, 56, 57, 65, 66, 67, 68, 69, 70]

/-- `hexes`: the text, the zero behind it, and what is around them. -/
def hexes (around : Int → UInt8) (i : Int) : UInt8 :=
  if 0 ≤ i ∧ i ≤ 16 then hexText.getD i.toNat 0 else around i

/-- A character of `hexes` is written. -/
def Conversion.putDigit (around : Int → UInt8) (s : Conversion) (a : Nat) (index : Int) :
    Conversion :=
  { s.put a (hexes around index) with indices := s.indices ++ [index] }

/-- The loop of `uitoa` and `itoa`, with the quotient and the remainder of C. An unsigned number is
one that is not negative. -/
def digitLoop (around : Int → UInt8) (buffer base : Nat) :
    Nat → Int → Nat → Conversion → Outcome (Nat × Conversion)
  | 0, _, _, _ => .running
  | fuel + 1, val, i, s =>
    if base = 0 then .undefined
    else
      let s := s.putDigit around (buffer + i) (val.tmod base)
      let i := (i + 1) % 65536
      let val := val.tdiv base
      if val ≠ 0 then digitLoop around buffer base fuel val i s else .ret (i, s)

/-- The loop of `strlen`. -/
def strlen (m : Mem) (ch : Nat) : Nat → Nat → Outcome Nat
  | 0, _ => .running
  | fuel + 1, i => if m (ch + i) ≠ 0 then strlen m ch fuel ((i + 1) % 65536) else .ret i

/-- One turn of the loop that reverses a text. -/
def swapTurn (buffer length i : Nat) (s : Conversion) : Conversion :=
  let temp := s.memory (buffer + i)
  let s := s.put (buffer + i) (s.memory (buffer + (length - 1 - i)))
  s.put (buffer + (length - 1 - i)) temp

/-- The loop, from turn `i` on with `n` left. -/
def reverseLoop (buffer length : Nat) : Nat → Nat → Conversion → Conversion
  | 0, _, s => s
  | n + 1, i, s => reverseLoop buffer length n (i + 1) (swapTurn buffer length i s)

/-- The end of `uitoa` and `itoa`, from the zero behind the characters on. -/
def reverseText (buffer i fuel : Nat) (s : Conversion) : Outcome Conversion := do
  let s := s.put (buffer + i) 0
  let length ← strlen s.memory buffer fuel 0
  let s := reverseLoop buffer length (length / 2) 0 s
  .ret (s.put (buffer + length) 0)

/-- `uitoa`. -/
def uitoa (around : Int → UInt8) (val buffer base fuel : Nat) (s : Conversion) :
    Outcome Conversion := do
  let r ← digitLoop around buffer base fuel val 0 s
  reverseText buffer r.1 fuel r.2

/-- The negation of an `int32`. -/
def neg32 (val : Int) : Int := if val = -2147483648 then val else -val

/-- The prefix of `itoa` for base 16. -/
def putPrefix (buffer base : Nat) (r : Nat × Conversion) : Nat × Conversion :=
  if base = 16 then
    ((r.1 + 2) % 65536, (r.2.put (buffer + r.1) 120).put (buffer + (r.1 + 1)) 48)
  else r

/-- The sign of `itoa`. -/
def putSign (buffer : Nat) (sign : Int) (r : Nat × Conversion) : Nat × Conversion :=
  if sign = -1 then ((r.1 + 1) % 65536, r.2.put (buffer + r.1) 45) else r

/-- `itoa`. -/
def itoa (around : Int → UInt8) (val : Int) (buffer base fuel : Nat) (s : Conversion) :
    Outcome Conversion :=
  if base ≤ 1 ∨ 17 ≤ base then .ret s
  else do
    let sign := if val < 0 then -1 else 1
    let val := if val < 0 then neg32 val else val
    let r ← digitLoop around buffer base fuel val 0 s
    let r := putSign buffer sign (putPrefix buffer base r)
    reverseText buffer r.1 fuel r.2

/-- `pow`. -/
def pow (base : Nat) : Nat → Nat
  | 0 => 1
  | exp + 1 => mul32 (pow base exp) base

/-- The loop of `atoui_hex` and `atoui_dec`, from character `i` on with `n` left. -/
def sumLoop (mult : UInt8 → Nat) (base : Nat) (m : Mem) (input length : Nat) :
    Nat → Nat → Nat → Nat
  | 0, _, res => res
  | n + 1, i, res => sumLoop mult base m input length n (i + 1)
      (add32 res (mul32 (mult (m (input + i))) (pow base (length - 1 - i))))

/-- A `char` as a `uint32`. -/
def charWord (c : UInt8) : Nat := (c.toInt8.toInt % 4294967296).toNat

/-- `isalpha`. -/
def isAlpha (c : UInt8) : Bool := (97 ≤ c && c ≤ 122) || (65 ≤ c && c ≤ 90)

/-- The value of a digit in `atoui_dec`. -/
def decMult (c : UInt8) : Nat := sub32 (charWord c) 48

/-- The value of a digit in `atoui_hex`. -/
def hexMult (c : UInt8) : Nat :=
  if isAlpha c then sub32 (add32 10 (charWord (toLower c))) 97 else sub32 (charWord c) 48

/-- `atoui_hex`. -/
def atouiHex (m : Mem) (input length : Nat) : Nat := sumLoop hexMult 16 m input length length 0 0

/-- `atoui_dec`. -/
def atouiDec (m : Mem) (input length : Nat) : Nat := sumLoop decMult 10 m input length length 0 0

/-- `atoui`. -/
def atoui (m : Mem) (input fuel : Nat) : Outcome Nat :=
  if m input = 48 ∧ toLower (m (input + 1)) = 120 then do
    let length ← strlen m input fuel 0
    .ret (atouiHex m (input + 2) ((length + 65534) % 65536))
  else do
    let length ← strlen m input fuel 0
    .ret (atouiDec m input length)

/-! ## What is written -/

section

variable {around : Int → UInt8} {m : Mem} {s s' s'' : Conversion} {l l' text : List UInt8}
variable {a b c i n k length base buffer : Nat} {val : Int}

/-- From one state to the other nothing is written but bytes, in their order, from an address on. -/
structure Wrote (b : Nat) (l : List UInt8) (s s' : Conversion) : Prop where
  cells : ∀ k (h : k < l.length), s'.memory (b + k) = l[k]
  frame : ∀ x, x < b ∨ b + l.length ≤ x → s'.memory x = s.memory x
  writes : s'.writes = s.writes ++ List.range' b l.length

theorem Wrote.refl (b : Nat) (s : Conversion) : Wrote b [] s s where
  cells := fun k h => absurd h (Nat.not_lt_zero k)
  frame := fun _ _ => rfl
  writes := (List.append_nil _).symm

/-- More bytes. -/
theorem Wrote.trans (h : Wrote b l s s') (h' : Wrote (b + l.length) l' s' s'') :
    Wrote b (l ++ l') s s'' where
  cells := by
    intro k hk
    rw [List.length_append] at hk
    by_cases hfirst : k < l.length
    · rw [h'.frame _ (by omega), h.cells k hfirst, List.getElem_append_left hfirst]
    · have hcell := h'.cells (k - l.length) (by omega)
      rw [show b + l.length + (k - l.length) = b + k by omega] at hcell
      rw [hcell, List.getElem_append_right (by omega)]
  frame := by
    intro x hx
    rw [List.length_append] at hx
    rw [h'.frame x (by omega), h.frame x (by omega)]
  writes := by
    rw [h'.writes, h.writes, List.append_assoc, List.length_append, ← List.range'_append_1]

theorem Wrote.put (s : Conversion) (b : Nat) (c : UInt8) : Wrote b [c] s (s.put b c) where
  cells := by
    intro k hk
    obtain rfl : k = 0 := by simpa using hk
    exact store8_same _ _ _
  frame := by
    intro x hx
    rw [List.length_singleton] at hx
    exact store8_ne _ _ (by omega)
  writes := rfl

theorem Wrote.putDigit (s : Conversion) (b : Nat) (index : Int) :
    Wrote b [hexes around index] s (s.putDigit around b index) :=
  have h := Wrote.put s b (hexes around index)
  ⟨h.cells, h.frame, h.writes⟩

/-- One byte more. -/
theorem Wrote.snoc (h : Wrote b l s s') (c : UInt8) :
    Wrote b (l ++ [c]) s (s'.put (b + l.length) c) :=
  h.trans (Wrote.put s' _ c)

/-- A string is its characters and a zero. -/
theorem strAt_iff : StrAt m a l ↔
    (∀ k (h : k < l.length), m (a + k) = l[k] ∧ l[k] ≠ 0) ∧ m (a + l.length) = 0 := by
  induction l generalizing a with
  | nil => exact ⟨fun h => ⟨fun k hk => absurd hk (Nat.not_lt_zero k), h⟩, fun h => h.2⟩
  | cons c l ih =>
    have hnext : ∀ k, a + 1 + k = a + (k + 1) := fun k => by omega
    have hrest : StrAt m a (c :: l) ↔ (m a = c ∧ c ≠ 0) ∧ StrAt m (a + 1) l := and_assoc.symm
    rw [hrest, ih, hnext]
    constructor
    · rintro ⟨hfirst, hcells, hzero⟩
      refine ⟨fun k hk => ?_, hzero⟩
      cases k with
      | zero => exact hfirst
      | succ k =>
        rw [← hnext]
        exact hcells k (Nat.lt_of_succ_lt_succ hk)
    · rintro ⟨hcells, hzero⟩
      refine ⟨hcells 0 (Nat.zero_lt_succ _), fun k hk => ?_, hzero⟩
      rw [hnext]
      exact hcells (k + 1) (Nat.succ_lt_succ hk)

/-- The writes between two states, and the changes, are in `[lo, hi)`. -/
structure Within (lo hi : Nat) (s s' : Conversion) : Prop where
  writes : ∃ new, s'.writes = s.writes ++ new ∧ ∀ a ∈ new, lo ≤ a ∧ a < hi
  frame : ∀ x, x < lo ∨ hi ≤ x → s'.memory x = s.memory x

theorem Within.refl (lo hi : Nat) (s : Conversion) : Within lo hi s s :=
  ⟨⟨[], (List.append_nil _).symm, nofun⟩, fun _ _ => rfl⟩

theorem Within.trans {lo hi : Nat} (h : Within lo hi s s') (h' : Within lo hi s' s'') :
    Within lo hi s s'' := by
  obtain ⟨⟨new, heq, hnew⟩, hframe⟩ := h
  obtain ⟨⟨new', heq', hnew'⟩, hframe'⟩ := h'
  refine ⟨⟨new ++ new', ?_, ?_⟩, fun x hx => (hframe' x hx).trans (hframe x hx)⟩
  · rw [heq', heq, List.append_assoc]
  · intro a ha
    rcases List.mem_append.mp ha with ha | ha
    · exact hnew a ha
    · exact hnew' a ha

theorem Within.put {lo hi : Nat} (hlo : lo ≤ a) (hhi : a < hi) (s : Conversion) (c : UInt8) :
    Within lo hi s (s.put a c) := by
  refine ⟨⟨[a], rfl, fun x hx => ?_⟩, fun x hx => store8_ne _ _ (by omega)⟩
  rw [List.mem_singleton.mp hx]
  exact ⟨hlo, hhi⟩

/-- What is written in a row is within its place. -/
theorem Wrote.within (h : Wrote b l s s') : Within b (b + l.length) s s' :=
  ⟨⟨_, h.writes, fun _ ha => List.mem_range'_1.mp ha⟩, h.frame⟩

/-! ## The digits -/

/-- The indices into the table for a number. Those of a negative one are negative. -/
def digitIndices (base : Nat) (val : Int) : List Int :=
  (digitsOf base val.natAbs).map fun d : Nat => val.sign * d

theorem digitIndices_length (base : Nat) (val : Int) :
    (digitIndices base val).length = (digitsOf base val.natAbs).length :=
  List.length_map fun d : Nat => val.sign * (d : Int)

/-- What an odd function does to a number is what it does to its size. -/
theorem odd_eq {g : Int → Int} {h : Nat → Nat} (hzero : h 0 = 0) (hpos : ∀ n : Nat, g n = h n)
    (hneg : ∀ n : Nat, g (-n) = -h n) (val : Int) : g val = val.sign * (h val.natAbs : Int) := by
  obtain ⟨n, rfl | rfl⟩ := val.eq_nat_or_neg
  · rw [Int.natAbs_natCast, hpos]
    rcases Nat.eq_zero_or_pos n with rfl | hn
    · rw [hzero]
      rfl
    · rw [Int.sign_eq_one_of_pos (by omega), one_mul]
  · rw [Int.natAbs_neg, Int.natAbs_natCast, hneg]
    rcases Nat.eq_zero_or_pos n with rfl | hn
    · rw [hzero]
      rfl
    · rw [Int.sign_eq_neg_one_of_neg (by omega), neg_one_mul]

/-- The remainder has the sign of the number. -/
theorem tmod_eq (val : Int) (base : Nat) :
    val.tmod base = val.sign * ((val.natAbs % base : Nat) : Int) :=
  odd_eq (g := fun val => val.tmod base) (h := fun n => n % base) (Nat.zero_mod base)
    (fun n => Int.ofNat_tmod n base) (fun n => by rw [Int.neg_tmod, Int.ofNat_tmod]) val

/-- So has the quotient, unless it is zero. -/
theorem tdiv_eq (val : Int) (base : Nat) :
    val.tdiv base = val.sign * ((val.natAbs / base : Nat) : Int) :=
  odd_eq (g := fun val => val.tdiv base) (h := fun n => n / base) (Nat.zero_div base)
    (fun n => Int.ofNat_tdiv n base) (fun n => by rw [Int.neg_tdiv, Int.ofNat_tdiv]) val

/-- The last turn of the loop. -/
theorem digitIndices_small (h : val.natAbs < base) :
    val.tdiv base = 0 ∧ digitIndices base val = [val.tmod base] := by
  rw [tdiv_eq, tmod_eq, Nat.div_eq_of_lt h, Nat.mod_eq_of_lt h, digitIndices, digitsOf_small h]
  exact ⟨mul_zero _, rfl⟩

/-- Any other turn. -/
theorem digitIndices_large (hbase : 2 ≤ base) (h : base ≤ val.natAbs) :
    val.tdiv base ≠ 0 ∧
      digitIndices base val = val.tmod base :: digitIndices base (val.tdiv base) := by
  have hquot : 0 < val.natAbs / base := Nat.div_pos h (by omega)
  have habs : (val.tdiv base).natAbs = val.natAbs / base := Int.natAbs_tdiv val base
  have hsign : (val.tdiv base).sign = val.sign := by
    rw [tdiv_eq, Int.sign_mul, Int.sign_sign, Int.sign_natCast_of_ne_zero (by omega), mul_one]
  constructor
  · rw [← Int.natAbs_ne_zero, habs]
    omega
  · rw [digitIndices, digitIndices, habs, hsign, tmod_eq, digitsOf_large hbase h, List.map_cons]

/-- The loop writes the digits. -/
theorem digitLoop_settles (around : Int → UInt8) (hbase : 2 ≤ base) (buffer : Nat) (val : Int)
    {i : Nat} {s : Conversion} (hi : i + (digitIndices base val).length < 65536) :
    ∃ s', Settles (fun fuel => digitLoop around buffer base fuel val i s)
        (i + (digitIndices base val).length, s') ∧
      Wrote (buffer + i) ((digitIndices base val).map (hexes around)) s s' ∧
      s'.indices = s.indices ++ digitIndices base val := by
  generalize hn : val.natAbs = n
  have hzero : base ≠ 0 := by omega
  refine digits_induction (motive := fun n => ∀ (val : Int) (i : Nat) (s : Conversion),
    val.natAbs = n → i + (digitIndices base val).length < 65536 →
      ∃ s', Settles (fun fuel => digitLoop around buffer base fuel val i s)
          (i + (digitIndices base val).length, s') ∧
        Wrote (buffer + i) ((digitIndices base val).map (hexes around)) s s' ∧
        s'.indices = s.indices ++ digitIndices base val) hbase ?_ ?_ n val i s hn hi
  · intro n hsmall val i s hval hi
    subst hval
    obtain ⟨hdiv, hdigits⟩ := digitIndices_small hsmall
    rw [hdigits] at hi ⊢
    refine ⟨s.putDigit around (buffer + i) (val.tmod base), .succ ?_, Wrote.putDigit s _ _, rfl⟩
    have hturn : (i + 1) % 65536 = i + 1 := Nat.mod_eq_of_lt hi
    simp only [digitLoop, if_neg hzero, hdiv, ne_eq, not_true_eq_false, if_false, hturn]
    exact Settles.ret
  · intro n hlarge ih val i s hval hi
    subst hval
    obtain ⟨hdiv, hdigits⟩ := digitIndices_large hbase hlarge
    rw [hdigits, List.length_cons] at hi
    have habs : (val.tdiv base).natAbs = val.natAbs / base := Int.natAbs_tdiv val base
    obtain ⟨s', hs', hwrote, hindices⟩ := ih (val.tdiv base) (i + 1)
      (s.putDigit around (buffer + i) (val.tmod base)) habs (by omega)
    have hturn : (i + 1) % 65536 = i + 1 := Nat.mod_eq_of_lt (by omega)
    have hlength : i + (val.tmod base :: digitIndices base (val.tdiv base)).length =
        i + 1 + (digitIndices base (val.tdiv base)).length := by
      rw [List.length_cons]
      omega
    rw [hdigits, hlength]
    have hfirst : Wrote (buffer + i) [hexes around (val.tmod base)] s _ := Wrote.putDigit s _ _
    refine ⟨s', .succ ?_, hfirst.trans hwrote, ?_⟩
    · simp only [digitLoop, if_neg hzero, if_pos hdiv, hturn]
      exact hs'
    · rw [hindices]
      exact List.append_assoc _ _ _

/-! ## The reversal -/

/-- `strlen` finds the first zero. -/
theorem strlen_settles (hn : n < 65536) (hzero : m (a + n) = 0) :
    ∃ k ≤ n, Settles (fun fuel => strlen m a fuel 0) k ∧ m (a + k) = 0 ∧
      ∀ j < k, m (a + j) ≠ 0 := by
  -- from `i` on, with `n - i` characters left
  have hloop : ∀ t i, i + t = n → ∃ k, i ≤ k ∧ k ≤ n ∧
      Settles (fun fuel => strlen m a fuel i) k ∧ m (a + k) = 0 ∧
      ∀ j, i ≤ j → j < k → m (a + j) ≠ 0 := by
    intro t
    induction t with
    | zero =>
      intro i hi
      obtain rfl : i = n := hi
      refine ⟨i, Nat.le_refl _, Nat.le_refl _, .succ ?_, hzero, fun j hj hlt => by omega⟩
      simp only [strlen, hzero, ne_eq, not_true_eq_false, if_false]
      exact Settles.ret
    | succ t ih =>
      intro i hi
      by_cases hend : m (a + i) = 0
      · refine ⟨i, Nat.le_refl _, by omega, .succ ?_, hend, fun j hj hlt => by omega⟩
        simp only [strlen, hend, ne_eq, not_true_eq_false, if_false]
        exact Settles.ret
      · obtain ⟨k, hk, hkn, hsettles, hk0, hbefore⟩ := ih (i + 1) (by omega)
        refine ⟨k, by omega, hkn, .succ ?_, hk0, fun j hj hlt => ?_⟩
        · simp only [strlen, ne_eq, hend, not_false_eq_true, if_true,
            Nat.mod_eq_of_lt (show i + 1 < 65536 by omega)]
          exact hsettles
        · rcases Nat.eq_or_lt_of_le hj with rfl | hj
          · exact hend
          · exact hbefore j hj hlt
  obtain ⟨k, _, hkn, hsettles, hk0, hbefore⟩ := hloop n 0 (Nat.zero_add n)
  exact ⟨k, hkn, hsettles, hk0, fun j hj => hbefore j (Nat.zero_le j) hj⟩

/-- Its place is the length of the string. -/
theorem strAt_length (h : StrAt m a l) (hzero : m (a + k) = 0)
    (hbefore : ∀ j < k, m (a + j) ≠ 0) : k = l.length := by
  obtain ⟨hcells, hend⟩ := strAt_iff.mp h
  rcases Nat.lt_trichotomy k l.length with hlt | heq | hlt
  · obtain ⟨hcell, hne⟩ := hcells k hlt
    exact absurd (hcell.symm.trans hzero) hne
  · exact heq
  · exact absurd hend (hbefore _ hlt)

/-- A turn of the loop. -/
theorem swapTurn_memory : (swapTurn buffer length i s).memory =
    exchange s.memory (buffer + i) (buffer + (length - 1 - i)) := rfl

/-- The loop reverses what is there. -/
theorem reverseLoop_memory {f : Mem} (hn : 2 * (i + n) ≤ length)
    (hs : s.memory = mirrored f buffer length i) :
    (reverseLoop buffer length n i s).memory = mirrored f buffer length (i + n) := by
  induction n generalizing i s with
  | zero => exact hs
  | succ n ih =>
    have hsum : i + (n + 1) = i + 1 + n := by omega
    rw [reverseLoop, hsum]
    refine ih (by omega) ?_
    rw [swapTurn_memory, hs, mirrored_succ (by omega)]

/-- It writes nowhere else. -/
theorem reverseLoop_within (buffer : Nat) (hn : 2 * (i + n) ≤ length) :
    Within buffer (buffer + length) s (reverseLoop buffer length n i s) ∧
      (reverseLoop buffer length n i s).indices = s.indices := by
  induction n generalizing i s with
  | zero => exact ⟨Within.refl _ _ s, rfl⟩
  | succ n ih =>
    obtain ⟨hwithin, hindices⟩ := ih (i := i + 1) (s := swapTurn buffer length i s) (by omega)
    have hturn : Within buffer (buffer + length) s (swapTurn buffer length i s) :=
      (Within.put (by omega) (by omega) s _).trans (Within.put (by omega) (by omega) _ _)
    exact ⟨hturn.trans hwithin, hindices⟩

theorem Within.mono {lo hi hi' : Nat} (h : Within lo hi s s') (hle : hi ≤ hi') :
    Within lo hi' s s' := by
  obtain ⟨⟨new, heq, hnew⟩, hframe⟩ := h
  exact ⟨⟨new, heq, fun a ha => ⟨(hnew a ha).1, Nat.lt_of_lt_of_le (hnew a ha).2 hle⟩⟩,
    fun x hx => hframe x (by omega)⟩

/-- What has been written stays written. -/
theorem Within.mem_writes {lo hi : Nat} (h : Within lo hi s s') (ha : a ∈ s.writes) :
    a ∈ s'.writes := by
  obtain ⟨new, heq, _⟩ := h.writes
  rw [heq]
  exact List.mem_append_left _ ha

/-- The end of a conversion. It writes a zero behind the characters, and reverses them if none of
them is zero. -/
theorem reverseText_settles (h : Wrote buffer l s s') (hlength : l.length < 65536) :
    ∃ t, Settles (fun fuel => reverseText buffer l.length fuel s') t ∧
      Within buffer (buffer + l.length + 1) s t ∧ buffer + l.length ∈ t.writes ∧
      t.indices = s'.indices ∧ ((∀ c ∈ l, c ≠ 0) → StrAt t.memory buffer l.reverse) := by
  have hzero := h.snoc 0
  generalize hfrom : s'.put (buffer + l.length) 0 = z at hzero
  have hend : z.memory (buffer + l.length) = 0 := by
    rw [hzero.cells l.length (by simp), List.getElem_append_right (Nat.le_refl _)]
    simp
  obtain ⟨k, hk, hstrlen, hk0, hbefore⟩ := strlen_settles hlength hend
  have hhalf : 2 * (0 + k / 2) ≤ k := by omega
  obtain ⟨hwithin, hindices⟩ := reverseLoop_within buffer (s := z) hhalf
  have hmemory : (reverseLoop buffer k (k / 2) 0 z).memory = reversed z.memory buffer k := by
    rw [reverseLoop_memory (f := z.memory) hhalf mirrored_zero.symm, Nat.zero_add, mirrored_half]
  have hput : Within buffer (buffer + l.length + 1) (reverseLoop buffer k (k / 2) 0 z)
      ((reverseLoop buffer k (k / 2) 0 z).put (buffer + k) 0) :=
    Within.put (by omega) (by omega) _ _
  have hafter := (hwithin.mono (show buffer + k ≤ buffer + l.length + 1 by omega)).trans hput
  have hfirst : Within buffer (buffer + l.length + 1) s z := by
    have hplace := hzero.within
    rwa [List.length_append] at hplace
  refine ⟨_, ?_, hfirst.trans hafter, hafter.mem_writes ?_, ?_, fun hchars => ?_⟩
  · subst hfrom
    exact hstrlen.bind (g := fun length _ => .ret
      ((reverseLoop buffer length (length / 2) 0 (s'.put (buffer + l.length) 0)).put
        (buffer + length) 0)) Settles.ret
  · rw [← hfrom]
    exact List.mem_append_right _ (List.mem_singleton.mpr rfl)
  · have hput : z.indices = s'.indices := by
      rw [← hfrom]
      rfl
    exact hindices.trans hput
  · have hcell : ∀ j (hj : j < l.length), z.memory (buffer + j) = l[j] := by
      intro j hj
      rw [hzero.cells j (by rw [List.length_append]; omega), List.getElem_append_left hj]
    have hstr : StrAt z.memory buffer l :=
      strAt_iff.mpr ⟨fun j hj => ⟨hcell j hj, hchars _ (List.getElem_mem hj)⟩, hend⟩
    obtain rfl : k = l.length := strAt_length hstr hk0 hbefore
    refine strAt_iff.mpr ⟨fun j hj => ?_, ?_⟩
    · rw [List.length_reverse] at hj
      refine ⟨?_, fun h0 => ?_⟩
      · rw [List.getElem_reverse, ← hcell _ (by omega)]
        have hlast : (reverseLoop buffer l.length (l.length / 2) 0 z).memory (buffer + j) =
            z.memory (buffer + (l.length - 1 - j)) := by
          rw [hmemory, reversed_inside hj]
        exact (store8_ne _ _ (by omega)).trans hlast
      · rw [List.getElem_reverse] at h0
        exact hchars _ (List.getElem_mem _) h0
    · rw [List.length_reverse]
      exact store8_same _ _ _

/-! ## `uitoa` and `itoa` -/

/-- An upper-case digit. -/
def digitChar (d : Nat) : UInt8 := UInt8.ofNat (if d < 10 then 48 + d else 55 + d)

/-- The text of a number: its digits, the first one first. -/
def numeral (base n : Nat) : List UInt8 := ((digitsOf base n).map digitChar).reverse

/-- The table holds the digits. -/
theorem hexes_digit (around : Int → UInt8) {d : Nat} (h : d < 16) :
    hexes around (d : Int) = digitChar d ∧ digitChar d ≠ 0 := by
  have htable : ∀ d < 16, hexText.getD d 0 = digitChar d ∧ digitChar d ≠ 0 := by decide
  rw [hexes, if_pos (by omega), Int.toNat_natCast]
  exact htable d h

theorem digitIndices_natCast (base n : Nat) :
    digitIndices base (n : Int) = (digitsOf base n).map fun d : Nat => (d : Int) := by
  rw [digitIndices, Int.natAbs_natCast]
  rcases Nat.eq_zero_or_pos n with rfl | hn
  · rfl
  · simp only [Int.sign_natCast_of_ne_zero (Nat.ne_of_gt hn), one_mul]

/-- What the loop writes for a number that is not negative. -/
theorem digitIndices_chars (around : Int → UInt8) (hbase : 2 ≤ base) (hbase' : base ≤ 16)
    (n : Nat) :
    (digitIndices base (n : Int)).map (hexes around) = (digitsOf base n).map digitChar ∧
      ∀ c ∈ (digitsOf base n).map digitChar, c ≠ 0 := by
  have hdigit : ∀ d ∈ digitsOf base n, d < 16 := fun d hd =>
    Nat.lt_of_lt_of_le (digitsOf_lt hbase hd) hbase'
  constructor
  · rw [digitIndices_natCast, List.map_map]
    exact List.map_congr_left fun d hd => (hexes_digit around (hdigit d hd)).1
  · intro c hc
    obtain ⟨d, hd, rfl⟩ := List.mem_map.mp hc
    exact (hexes_digit around (hdigit d hd)).2

/-- A word has 32 digits at most. -/
theorem digits_length_le (hbase : 2 ≤ base) (hn : n < 4294967296) :
    (digitsOf base n).length ≤ 32 := by
  rw [digitsOf_length_le_iff hbase (by decide)]
  exact Nat.lt_of_lt_of_le hn (Nat.pow_le_pow_left hbase 32)

/-- `uitoa` writes the digits and a zero. -/
theorem uitoa_settles (around : Int → UInt8) (buffer : Nat) (s : Conversion) (hbase : 2 ≤ base)
    (hn : n < 4294967296) :
    ∃ t, Settles (fun fuel => uitoa around n buffer base fuel s) t ∧
      Within buffer (buffer + (digitsOf base n).length + 1) s t ∧
      buffer + (digitsOf base n).length ∈ t.writes ∧
      (base ≤ 16 → StrAt t.memory buffer (numeral base n)) := by
  have hcount : (digitIndices base (n : Int)).length = (digitsOf base n).length :=
    digitIndices_length base n
  have hshort := digits_length_le hbase hn
  obtain ⟨s', hs', hwrote, _⟩ := digitLoop_settles around hbase buffer n (i := 0) (s := s)
    (by omega)
  rw [Nat.zero_add, hcount] at hs'
  have hlength : ((digitIndices base (n : Int)).map (hexes around)).length =
      (digitsOf base n).length := by
    rw [List.length_map, hcount]
  obtain ⟨t, ht, hwithin, hmem, _, hstr⟩ := reverseText_settles hwrote (by omega)
  rw [hlength] at ht hwithin hmem
  refine ⟨t, ?_, hwithin, hmem, fun hbase' => ?_⟩
  · exact hs'.bind (g := fun r fuel => reverseText buffer r.1 fuel r.2) ht
  · obtain ⟨hchars, hne⟩ := digitIndices_chars around hbase hbase' n
    rw [hchars] at hstr
    exact hstr hne

/-- The characters of `itoa` in the order of the loop: digits, then prefix, then sign. -/
def signedChars (around : Int → UInt8) (base : Nat) (sign w : Int) : List UInt8 :=
  (digitIndices base w).map (hexes around) ++ (if base = 16 then [120, 48] else []) ++
    if sign = -1 then [45] else []

theorem signedChars_length (around : Int → UInt8) (base : Nat) (sign w : Int) :
    (signedChars around base sign w).length ≤ (digitsOf base w.natAbs).length + 3 := by
  have hpre : (if base = 16 then [120, 48] else [] : List UInt8).length ≤ 2 := by
    split <;> simp
  have hsign : (if sign = -1 then [45] else [] : List UInt8).length ≤ 1 := by
    split <;> simp
  rw [signedChars, List.length_append, List.length_append, List.length_map, digitIndices_length]
  omega

/-- The prefix, behind what has been written. -/
theorem putPrefix_wrote (base : Nat) {r : Nat × Conversion} (h : Wrote buffer l s r.2)
    (hr : r.1 = l.length)
    (hshort : l.length < 65000) :
    Wrote buffer (l ++ if base = 16 then [120, 48] else []) s (putPrefix buffer base r).2 ∧
      (putPrefix buffer base r).1 = (l ++ if base = 16 then [120, 48] else []).length ∧
      (putPrefix buffer base r).2.indices = r.2.indices := by
  unfold putPrefix
  by_cases h16 : base = 16
  · have hpre := (h.snoc 120).snoc 48
    rw [List.length_append, List.length_singleton, List.append_assoc] at hpre
    simp only [if_pos h16, hr]
    refine ⟨hpre, ?_, rfl⟩
    rw [List.length_append, Nat.mod_eq_of_lt (by omega)]
    rfl
  · simp only [if_neg h16, List.append_nil]
    exact ⟨h, hr, trivial⟩

/-- The sign, behind what has been written. -/
theorem putSign_wrote (sign : Int) {r : Nat × Conversion} (h : Wrote buffer l s r.2)
    (hr : r.1 = l.length) (hshort : l.length < 65000) :
    Wrote buffer (l ++ if sign = -1 then [45] else []) s (putSign buffer sign r).2 ∧
      (putSign buffer sign r).1 = (l ++ if sign = -1 then [45] else []).length ∧
      (putSign buffer sign r).2.indices = r.2.indices := by
  unfold putSign
  by_cases hneg : sign = -1
  · simp only [if_pos hneg, hr]
    refine ⟨h.snoc 45, ?_, rfl⟩
    rw [List.length_append, Nat.mod_eq_of_lt (by omega)]
    rfl
  · simp only [if_neg hneg, List.append_nil]
    exact ⟨h, hr, trivial⟩

/-- The negation of a word keeps its absolute value. -/
theorem natAbs_neg32 (val : Int) : (neg32 val).natAbs = val.natAbs := by
  unfold neg32
  split
  · rfl
  · exact Int.natAbs_neg val

/-- `itoa` for the number `w` whose digits its loop writes. -/
theorem itoa_settles (around : Int → UInt8) (val : Int) (buffer : Nat) (s : Conversion)
    (hbase : 2 ≤ base)
    (hbase' : base ≤ 16) {w : Int} (hw : w = if val < 0 then neg32 val else val)
    (hval : w.natAbs < 4294967296) :
    ∃ t, Settles (fun fuel => itoa around val buffer base fuel s) t ∧
      Within buffer
        (buffer + (signedChars around base (if val < 0 then -1 else 1) w).length + 1) s t ∧
      t.indices = s.indices ++ digitIndices base w ∧
      ((∀ c ∈ signedChars around base (if val < 0 then -1 else 1) w, c ≠ 0) →
        StrAt t.memory buffer
          (signedChars around base (if val < 0 then -1 else 1) w).reverse) := by
  generalize hsign : (if val < 0 then (-1 : Int) else 1) = sign
  have hcount := digitIndices_length base w
  have hshort := digits_length_le hbase hval
  have hall := signedChars_length around base sign w
  obtain ⟨s', hs', hwrote, hindices⟩ := digitLoop_settles around hbase buffer w (i := 0)
    (s := s) (by omega)
  rw [Nat.zero_add] at hs'
  have hlength : ((digitIndices base w).map (hexes around)).length =
      (digitIndices base w).length := List.length_map _
  obtain ⟨hpre, hp, hpreIndices⟩ := putPrefix_wrote base
    (r := ((digitIndices base w).length, s')) hwrote hlength.symm (by omega)
  have hshort' : ((digitIndices base w).map (hexes around) ++
      if base = 16 then [120, 48] else []).length < 65000 := by
    rw [signedChars, List.length_append] at hall
    omega
  obtain ⟨hall', hr, hsignIndices⟩ := putSign_wrote sign hpre hp hshort'
  obtain ⟨t, ht, hwithin, _, htIndices, hstr⟩ := reverseText_settles hall'
    (show (signedChars around base sign w).length < 65536 by omega)
  refine ⟨t, ?_, hwithin, ?_, hstr⟩
  · have hrange : ¬ (base ≤ 1 ∨ 17 ≤ base) := by omega
    simp only [itoa, if_neg hrange, hsign, ← hw]
    rw [← hr] at ht
    exact hs'.bind (g := fun r fuel =>
      reverseText buffer (putSign buffer sign (putPrefix buffer base r)).1 fuel
        (putSign buffer sign (putPrefix buffer base r)).2) ht
  · rw [htIndices, hsignIndices, hpreIndices, hindices]

/-- The text of a signed number. -/
def signedNumeral (base : Nat) (val : Int) : List UInt8 :=
  (if val < 0 then [45] else []) ++ (if base = 16 then [48, 120] else []) ++
    numeral base val.natAbs

/-- `itoa` writes the text of the number, and indexes the table within its digits only. -/
def PrintsSigned (around : Int → UInt8) (val : Int) (buffer base : Nat) (s : Conversion) : Prop :=
  ∃ t, Settles (fun fuel => itoa around val buffer base fuel s) t ∧
    StrAt t.memory buffer (signedNumeral base val) ∧
    ∃ new, t.indices = s.indices ++ new ∧ ∀ i ∈ new, 0 ≤ i ∧ i ≤ 15

/-- With a number that is not negative in the loop all is right. -/
theorem printsSigned_of_natAbs (hbase : 2 ≤ base) (hbase' : base ≤ 16)
    (hw : (val.natAbs : Int) = if val < 0 then neg32 val else val)
    (hval : val.natAbs < 4294967296) : PrintsSigned around val buffer base s := by
  obtain ⟨t, ht, _, hindices, hstr⟩ := itoa_settles around val buffer s hbase hbase' hw
    (by rwa [Int.natAbs_natCast])
  obtain ⟨hchars, hne⟩ := digitIndices_chars around hbase hbase' val.natAbs
  refine ⟨t, ht, ?_, _, hindices, fun i hi => ?_⟩
  · have hall : ∀ c ∈ signedChars around base (if val < 0 then -1 else 1) val.natAbs, c ≠ 0 := by
      intro c hc
      rw [signedChars, hchars, List.mem_append, List.mem_append] at hc
      rcases hc with (hc | hc) | hc
      · exact hne c hc
      · split at hc
        · rcases List.mem_pair.mp hc with rfl | rfl <;> decide
        · cases hc
      · split at hc
        · rw [List.mem_singleton.mp hc]
          decide
        · cases hc
    have htext : (signedChars around base (if val < 0 then -1 else 1) val.natAbs).reverse =
        signedNumeral base val := by
      rw [signedChars, hchars, signedNumeral, numeral, List.reverse_append, List.reverse_append,
        List.append_assoc]
      by_cases hneg : val < 0
      · rw [if_pos hneg, if_pos hneg, if_pos rfl]
        split <;> rfl
      · rw [if_neg hneg, if_neg hneg, if_neg (by decide)]
        split <;> rfl
    rw [← htext]
    exact hstr hall
  · rw [digitIndices_natCast] at hi
    obtain ⟨d, hd, rfl⟩ := List.mem_map.mp hi
    have hlt := digitsOf_lt hbase hd
    omega

/-- The least number is its own negation, and its digits are below zero. -/
theorem not_printsSigned_least (hbase : 2 ≤ base) (hbase' : base ≤ 16) :
    ¬ PrintsSigned around (-2147483648) buffer base s := by
  rintro ⟨t, ht, _, new, hnew, hrange⟩
  obtain ⟨t', ht', _, hindices, _⟩ := itoa_settles around (-2147483648) buffer s hbase
    hbase' (w := -2147483648) rfl (by decide)
  obtain rfl := ht.unique ht'
  obtain rfl : new = digitIndices base (-2147483648) :=
    List.append_cancel_left (hnew.symm.trans hindices)
  obtain ⟨d, hd, hpos⟩ := exists_digit_pos base
    (show (-2147483648 : Int).natAbs ≠ 0 by decide)
  have hmem : -(d : Int) ∈ digitIndices base (-2147483648) :=
    List.mem_map.mpr ⟨d, hd, neg_one_mul _⟩
  have hnonneg := (hrange _ hmem).1
  omega

/-- `itoa` is right exactly for all numbers but the least one. -/
theorem printsSigned_iff (around : Int → UInt8) (val : Int) (buffer base : Nat) (s : Conversion)
    (hlow : -2147483648 ≤ val) (hhigh : val < 2147483648) (hbase : 2 ≤ base)
    (hbase' : base ≤ 16) :
    PrintsSigned around val buffer base s ↔ val ≠ -2147483648 := by
  constructor
  · rintro h rfl
    exact not_printsSigned_least hbase hbase' h
  · intro hval
    refine printsSigned_of_natAbs hbase hbase' ?_ (by omega)
    by_cases hneg : val < 0
    · rw [if_pos hneg, neg32, if_neg hval]
      omega
    · rw [if_neg hneg]
      omega

/-- An empty memory, with nothing done. -/
def blank : Conversion := ⟨fun _ => 0, [], []⟩

theorem printsSigned_iff_neg :
    PrintsSigned (fun _ => 0) (-255) 4096 16 blank ↔ (-255 : Int) ≠ -2147483648 :=
  printsSigned_iff (fun _ => 0) (-255) 4096 16 blank (by decide) (by decide) (by decide)
    (by decide)

/-- The least number in base 10 is not printed. -/
theorem printsSigned_fails : ¬ PrintsSigned (fun _ => 0) (-2147483648) 4096 10 blank :=
  not_printsSigned_least (by decide) (by decide)

/-! ## `atoui` -/

theorem pow_eq (base exp : Nat) : pow base exp = base ^ exp % 4294967296 := by
  induction exp with
  | zero => rfl
  | succ exp ih => rw [pow, ih, mul32, Nat.mod_mul_mod, ← Nat.pow_succ]

/-- The loop adds the value of the digits, modulo the size of a word. -/
theorem sumLoop_eq {mult : UInt8 → Nat} {input i res : Nat} {ds : List Nat}
    (hlength : length = i + ds.length) (hres : res < 4294967296)
    (hdigits : ∀ k (h : k < ds.length), mult (m (input + (i + k))) = ds[k]) :
    sumLoop mult base m input length ds.length i res = (res + valueOf base ds) % 4294967296 := by
  induction ds generalizing i res with
  | nil =>
    rw [valueOf, Nat.add_zero, Nat.mod_eq_of_lt hres]
    rfl
  | cons d ds ih =>
    have hfirst : mult (m (input + i)) = d := hdigits 0 (Nat.zero_lt_succ _)
    rw [List.length_cons] at hlength
    have hrest : ∀ k (h : k < ds.length), mult (m (input + (i + 1 + k))) = ds[k] := by
      intro k hk
      rw [Nat.add_assoc, Nat.add_comm 1]
      exact hdigits (k + 1) (Nat.succ_lt_succ hk)
    have hexp : length - 1 - i = ds.length := by omega
    rw [List.length_cons, sumLoop, ih (by omega) (add32_lt _ _) hrest, hfirst, hexp, pow_eq,
      valueOf,
      add32, mul32, Nat.mul_mod_mod, Nat.add_mod_mod, Nat.mod_add_mod, Nat.add_assoc]

/-- The length of a string. -/
theorem strlen_of_strAt (h : StrAt m a l) (hshort : l.length < 65536) :
    Settles (fun fuel => strlen m a fuel 0) l.length := by
  obtain ⟨k, _, hsettles, hzero, hbefore⟩ := strlen_settles hshort (strAt_iff.mp h).2
  rwa [strAt_length h hzero hbefore] at hsettles

/-- A digit, read back. -/
theorem decMult_digitChar : ∀ d < 10, decMult (digitChar d) = d := by decide

theorem hexMult_digitChar : ∀ d < 16, hexMult (toLower (digitChar d)) = d := by decide

/-- The case of a digit does not matter. -/
theorem hexMult_toLower (c : UInt8) : hexMult (toLower c) = hexMult c := by
  have hupper : ∀ n < 26, hexMult (toLower (UInt8.ofNat (65 + n))) =
      hexMult (UInt8.ofNat (65 + n)) := by decide
  by_cases h : 65 ≤ c ∧ c ≤ 90
  · have hlow := UInt8.le_iff_toNat_le.mp h.1
    have hhigh := UInt8.le_iff_toNat_le.mp h.2
    simp only [UInt8.reduceToNat] at hlow hhigh
    have hc : UInt8.ofNat (65 + (c.toNat - 65)) = c := by
      rw [Nat.add_sub_cancel' hlow, UInt8.ofNat_toNat]
    rw [← hc]
    exact hupper _ (by omega)
  · rw [toLower, if_neg h]

/-- The number of characters of a text. -/
theorem numeral_length (base n : Nat) : (numeral base n).length = (digitsOf base n).length := by
  rw [numeral, List.length_reverse, List.length_map]

/-- `atoui_dec` of the decimal text. -/
theorem atouiDec_numeral (hn : n < 4294967296) (h : StrAt m a (numeral 10 n)) :
    atouiDec m a (numeral 10 n).length = n := by
  have hlength : (numeral 10 n).length = (digitsOf 10 n).reverse.length := by
    rw [numeral_length, List.length_reverse]
  have hdigits : ∀ k (hk : k < (digitsOf 10 n).reverse.length),
      decMult (m (a + (0 + k))) = (digitsOf 10 n).reverse[k] := by
    intro k hk
    have hlt : (digitsOf 10 n).reverse[k] < 10 :=
      digitsOf_lt (by decide) (List.mem_reverse.mp (List.getElem_mem hk))
    rw [Nat.zero_add, ((strAt_iff.mp h).1 k (by omega)).1, ← decMult_digitChar _ hlt]
    simp only [numeral, ← List.map_reverse, List.getElem_map]
  rw [atouiDec, hlength, sumLoop_eq (Nat.zero_add _).symm (by decide) hdigits, Nat.zero_add,
    valueOf_reverse_digitsOf (by decide), Nat.mod_eq_of_lt hn]

/-- `atoui_hex` of the text in base 16, in any case. -/
theorem atouiHex_numeral (hn : n < 4294967296)
    (hcase : text.map toLower = (numeral 16 n).map toLower)
    (hcells : ∀ k (hk : k < text.length), m (a + k) = text[k]) :
    atouiHex m a text.length = n := by
  have hlength : text.length = (digitsOf 16 n).reverse.length := by
    have hsame := congrArg List.length hcase
    rw [List.length_map, List.length_map, numeral_length] at hsame
    rw [hsame, List.length_reverse]
  have hdigits : ∀ k (hk : k < (digitsOf 16 n).reverse.length),
      hexMult (m (a + (0 + k))) = (digitsOf 16 n).reverse[k] := by
    intro k hk
    have hlt : (digitsOf 16 n).reverse[k] < 16 :=
      digitsOf_lt (by decide) (List.mem_reverse.mp (List.getElem_mem hk))
    have htext : k < text.length := by omega
    have hchar : toLower text[k] = toLower (digitChar (digitsOf 16 n).reverse[k]) := by
      have hget : (text.map toLower)[k]? = ((numeral 16 n).map toLower)[k]? := by rw [hcase]
      simpa only [numeral, ← List.map_reverse, List.getElem?_map,
        List.getElem?_eq_getElem htext, List.getElem?_eq_getElem hk,
        Option.map_some, Option.some.injEq] using hget
    rw [Nat.zero_add, hcells k htext, ← hexMult_toLower, hchar, hexMult_digitChar _ hlt]
  rw [atouiHex, hlength, sumLoop_eq (Nat.zero_add _).symm (by decide) hdigits, Nat.zero_add,
    valueOf_reverse_digitsOf (by decide), Nat.mod_eq_of_lt hn]

/-- A decimal text does not look like one in base 16. -/
theorem numeral_not_hex (h : StrAt m a (numeral 10 n)) :
    ¬ (m a = 48 ∧ toLower (m (a + 1)) = 120) := by
  rintro ⟨_, hx⟩
  obtain ⟨hcells, hend⟩ := strAt_iff.mp h
  have hpos : 0 < (numeral 10 n).length := by
    rw [numeral_length]
    exact digitsOf_length_pos 10 n
  rcases Nat.eq_or_lt_of_le (Nat.succ_le_of_lt hpos) with hone | hmore
  · -- one digit: the zero is behind it
    rw [← hone] at hend
    rw [hend] at hx
    exact absurd hx (by decide)
  · have hmem : (numeral 10 n)[1] ∈ numeral 10 n := List.getElem_mem hmore
    rw [← (hcells 1 hmore).1, numeral, List.mem_reverse] at hmem
    obtain ⟨d, hd, hchar⟩ := List.mem_map.mp hmem
    have hdigit : ∀ d < 10, toLower (digitChar d) ≠ 120 := by decide
    rw [← hchar] at hx
    exact hdigit d (digitsOf_lt (by decide) hd) hx

/-- `atoui` of the decimal text. -/
theorem atoui_decimal (hn : n < 4294967296) (h : StrAt m a (numeral 10 n)) :
    Settles (atoui m a) n := by
  have hshort : (numeral 10 n).length < 65536 := by
    have hdigits := digits_length_le (show 2 ≤ 10 by decide) hn
    rw [numeral_length]
    omega
  have hrun : atoui m a = fun fuel => strlen m a fuel 0 >>= fun length =>
      .ret (atouiDec m a length) := by
    funext fuel
    exact if_neg (numeral_not_hex h)
  have hvalue := atouiDec_numeral hn h
  rw [hrun]
  refine (strlen_of_strAt h hshort).bind (g := fun length _ => .ret (atouiDec m a length)) ?_
  rw [hvalue]
  exact Settles.ret

/-- `atoui` of a text in base 16. -/
theorem atoui_hexadecimal (hn : n < 4294967296)
    (hcase : text.map toLower = (numeral 16 n).map toLower)
    (h : StrAt m a (48 :: 120 :: text)) : Settles (atoui m a) n := by
  have hdigits := digits_length_le (show 2 ≤ 16 by decide) hn
  have hlength : text.length = (digitsOf 16 n).length := by
    have hsame := congrArg List.length hcase
    rwa [List.length_map, List.length_map, numeral_length] at hsame
  have hcells := (strAt_iff.mp h).1
  have hpre : m a = 48 ∧ toLower (m (a + 1)) = 120 := by
    have hfirst : m a = 48 := (hcells 0 (by simp)).1
    have hsecond : m (a + 1) = 120 := (hcells 1 (by simp)).1
    rw [hsecond]
    exact ⟨hfirst, by decide⟩
  have hrun : atoui m a = fun fuel => strlen m a fuel 0 >>= fun length =>
      .ret (atouiHex m (a + 2) ((length + 65534) % 65536)) := by
    funext fuel
    exact if_pos hpre
  have hcount : ((48 :: 120 :: text).length + 65534) % 65536 = text.length := by
    rw [List.length_cons, List.length_cons]
    omega
  have hvalue : atouiHex m (a + 2) text.length = n := by
    refine atouiHex_numeral hn hcase fun k hk => ?_
    rw [Nat.add_assoc, Nat.add_comm 2]
    exact (hcells (k + 2) (by rw [List.length_cons, List.length_cons]; omega)).1
  rw [hrun]
  refine (strlen_of_strAt h (by rw [List.length_cons, List.length_cons]; omega)).bind
    (g := fun length _ => .ret (atouiHex m (a + 2) ((length + 65534) % 65536))) ?_
  rw [hcount, hvalue]
  exact Settles.ret

/-- Printing and parsing: `uitoa` writes the canonical text of a word in every base and changes
nothing else; `atoui` reads the word from its decimal text, and from `0x` and its text in base 16, in
upper case, in lower case or mixed. -/
theorem uitoa_atoui (around : Int → UInt8) (v buffer base : Nat) (s : Conversion)
    (hv : v < 4294967296) (hbase : 2 ≤ base) (hbase' : base ≤ 16) :
    (∃ t, Settles (fun fuel => uitoa around v buffer base fuel s) t ∧
      StrAt t.memory buffer (numeral base v) ∧
      ∀ x, x < buffer ∨ buffer + (numeral base v).length < x → t.memory x = s.memory x) ∧
    (∀ m a, StrAt m a (numeral 10 v) → Settles (atoui m a) v) ∧
    ∀ m a text, text.map toLower = (numeral 16 v).map toLower →
      StrAt m a (48 :: 120 :: text) → Settles (atoui m a) v := by
  refine ⟨?_, fun m a h => atoui_decimal hv h, fun m a text hcase h => atoui_hexadecimal hv hcase h⟩
  obtain ⟨t, ht, hwithin, _, hstr⟩ := uitoa_settles around buffer s hbase hv
  refine ⟨t, ht, hstr hbase', fun x hx => hwithin.frame x ?_⟩
  rw [numeral_length] at hx
  omega

theorem uitoa_atoui_word :
    (∃ t, Settles (fun fuel => uitoa (fun _ => 0) 48879 4096 7 fuel blank) t ∧
      StrAt t.memory 4096 (numeral 7 48879) ∧
      ∀ x, x < 4096 ∨ 4096 + (numeral 7 48879).length < x → t.memory x = blank.memory x) ∧
    (∀ m a, StrAt m a (numeral 10 48879) → Settles (atoui m a) 48879) ∧
    ∀ m a text, text.map toLower = (numeral 16 48879).map toLower →
      StrAt m a (48 :: 120 :: text) → Settles (atoui m a) 48879 :=
  uitoa_atoui (fun _ => 0) 48879 4096 7 blank (by decide) (by decide) (by decide)

end

end MeOS.NumberText
