import MeOS.NumberText

/-! # `printf_base` and `serial_printf`

Both formatters walk over a format and convert numbers in a local buffer of 20 bytes. What they
print is recorded, as are the writes of the conversions and the characters read of the format.

The arguments are the words behind the format on the stack. The table of error texts and the files
that are printed to are not modelled.
-/

namespace MeOS.Printf

open Bytes Numerals NumberText

/-! ## The functions -/

/-- What is sent to the screen or to the serial port. -/
inductive Output where
  | string (m : Mem) (a : Nat)
  | literal (l : List UInt8)
  | char (c : UInt8)

/-- The state of a formatter: its conversions, the next argument, the addresses read of the format,
and what it has printed. -/
structure Printing where
  text : Conversion
  arg : Nat
  reads : List Nat
  output : List Output

/-- Something is printed. -/
def Printing.print (s : Printing) (o : Output) : Printing := { s with output := s.output ++ [o] }

/-- An argument of some words is taken. -/
def Printing.take (s : Printing) (words : Nat) : Printing := { s with arg := s.arg + words }

/-- A conversion by `uitoa`, and its text printed. -/
def Printing.unsigned (around : Int → UInt8) (buffer val base fuel : Nat) (s : Printing) :
    Outcome Printing := do
  let text ← uitoa around val buffer base fuel s.text
  .ret ({ s with text := text }.print (.string text.memory buffer))

/-- A conversion by `itoa`, and its text printed. -/
def Printing.signed (around : Int → UInt8) (buffer : Nat) (val : Int) (base fuel : Nat)
    (s : Printing) : Outcome Printing := do
  let text ← itoa around val buffer base fuel s.text
  .ret ({ s with text := text }.print (.string text.memory buffer))

/-- The inner `switch` of `printf_base`. -/
def printConversion (around : Int → UInt8) (args : Nat → UInt32) (buffer : Nat) (c : UInt8)
    (fuel : Nat) (s : Printing) : Outcome Printing :=
  let val := (args s.arg).toNat
  if c = 117 then (s.take 1).unsigned around buffer val 10 fuel
  else if c = 105 then (s.take 1).signed around buffer (args s.arg).toInt32.toInt 10 fuel
  else if c = 104 then ((s.take 1).print (.literal [48, 120])).unsigned around buffer val 16 fuel
  else if c = 120 then (s.take 1).unsigned around buffer val 16 fuel
  else if c = 115 then .ret ((s.take 1).print (.string s.text.memory val))
  else if c = 99 then
    .ret ({ s.take 1 with text := s.text.put buffer (UInt8.ofNat val) }.print
      (.char (UInt8.ofNat val)))
  else if c = 108 then (s.take 2).unsigned around buffer val 10 fuel
  else if c = 98 then (s.take 1).unsigned around buffer val 2 fuel
  else .ret s

/-- The inner `switch` of `serial_printf`. -/
def serialConversion (around : Int → UInt8) (errorText : Nat → Nat) (args : Nat → UInt32)
    (buffer : Nat) (c : UInt8) (fuel : Nat) (s : Printing) : Outcome Printing :=
  let val := (args s.arg).toNat
  if c = 117 then (s.take 1).unsigned around buffer val 10 fuel
  else if c = 105 then (s.take 1).signed around buffer (args s.arg).toInt32.toInt 10 fuel
  else if c = 104 then ((s.take 1).print (.literal [48, 120])).unsigned around buffer val 16 fuel
  else if c = 120 then (s.take 1).unsigned around buffer val 16 fuel
  else if c = 115 then .ret ((s.take 1).print (.string s.text.memory val))
  else if c = 99 then .ret ((s.take 1).print (.char (UInt8.ofNat val)))
  else if c = 108 then (s.take 2).unsigned around buffer val 10 fuel
  else if c = 98 then (s.take 1).unsigned around buffer val 2 fuel
  else if c = 101 then do
    let s := (s.take 1).print (.literal [98, 97, 115, 101, 58, 32])
    let s ← s.unsigned around buffer (val &&& 255) 10 fuel
    let s := s.print (.literal [32, 101, 120, 116, 58, 32])
    let s ← s.unsigned around buffer ((val >>> 8) &&& 65535) 10 fuel
    let s := s.print (.literal [32])
    .ret (s.print (.string s.text.memory (errorText (val >>> 24))))
  else .ret s

/-- A character of the format is read. -/
def Printing.read (s : Printing) (a : Nat) : Printing := { s with reads := s.reads ++ [a] }

/-- `strlen`, with the addresses it reads. -/
def strlenReads (m : Mem) (ch : Nat) : Nat → Nat → List Nat → Outcome (Nat × List Nat)
  | 0, _, _ => .running
  | fuel + 1, i, reads =>
    if m (ch + i) ≠ 0 then strlenReads m ch fuel ((i + 1) % 65536) (reads ++ [ch + i])
    else .ret (i, reads ++ [ch + i])

/-- The loop of both formatters, from character `i` on. -/
def formatLoop (conversion : UInt8 → Nat → Printing → Outcome Printing) (fmt length : Nat) :
    Nat → Nat → Printing → Outcome Printing
  | 0, _, _ => .running
  | fuel + 1, i, s =>
    if i < length then
      let c := s.text.memory (fmt + i)
      let s := s.read (fmt + i)
      if c = 37 then do
        let d := s.text.memory (fmt + (i + 1))
        let s ← conversion d fuel (s.read (fmt + (i + 1)))
        formatLoop conversion fmt length fuel (((i + 1) % 65536 + 1) % 65536) s
      else formatLoop conversion fmt length fuel ((i + 1) % 65536) (s.print (.char c))
    else .ret s

/-- A formatter, when it prints at all. -/
def formatAll (conversion : UInt8 → Nat → Printing → Outcome Printing) (fmt fuel : Nat)
    (s : Printing) : Outcome Printing := do
  let r ← strlenReads s.text.memory fmt fuel 0 s.reads
  formatLoop conversion fmt r.1 fuel 0 { s with reads := r.2 }

/-- `printf_base`. -/
def printfBase (initialized : Bool) (around : Int → UInt8) (args : Nat → UInt32)
    (fmt buffer fuel : Nat) (s : Printing) : Outcome Printing :=
  if !initialized then .ret s
  else formatAll (printConversion around args buffer) fmt fuel s

/-- `serial_printf`. -/
def serialPrintf (portFound : Bool) (around : Int → UInt8) (errorText : Nat → Nat)
    (args : Nat → UInt32) (fmt buffer fuel : Nat) (s : Printing) : Outcome Printing :=
  if !portFound then .ret s
  else formatAll (serialConversion around errorText args buffer) fmt fuel s

/-! ## The specification -/

/-- The words that a conversion of `printf_base` takes. -/
def printWords (c : UInt8) : Nat :=
  if c = 108 then 2 else if c ∈ [117, 105, 104, 120, 115, 99, 98] then 1 else 0

/-- The words that a conversion of `serial_printf` takes. -/
def serialWords (c : UInt8) : Nat := if c = 101 then 1 else printWords c

/-- Along a format, every argument that is printed in base 2 has at most 19 digits. -/
def SmallBinary (words : UInt8 → Nat) (args : Nat → UInt32) : List UInt8 → Nat → Prop
  | [], _ => True
  | [_], _ => True
  | c :: d :: text, k =>
    if c = 37 then
      (d = 98 → (args k).toNat < 524288) ∧ SmallBinary words args text (k + words d)
    else SmallBinary words args (d :: text) k

/-- A formatter comes to its end, having written nothing outside of the buffer and read nothing of
the format behind its zero. -/
def StaysInside (fmt length buffer : Nat) (run : Nat → Outcome Printing) : Prop :=
  ∃ t, Settles run t ∧ (∀ a ∈ t.text.writes, buffer ≤ a ∧ a < buffer + 20) ∧
    ∀ a ∈ t.reads, fmt ≤ a ∧ a ≤ fmt + length

/-- The state in front of a formatter. -/
def fresh (m : Mem) : Printing := ⟨⟨m, [], []⟩, 0, [], []⟩

/-! ## The conversions -/

section

variable {around : Int → UInt8} {errorText : Nat → Nat} {args : Nat → UInt32}
variable {conversion : UInt8 → Nat → Printing → Outcome Printing} {words : UInt8 → Nat}
variable {s s' t : Printing} {text : List UInt8} {c d : UInt8}
variable {fmt length buffer val base i fuel : Nat}

/-- What a conversion does: it takes its words, reads nothing of the format, and stays in the buffer
but for a long number in base 2. -/
structure Converts (args : Nat → UInt32) (words : UInt8 → Nat) (buffer : Nat) (c : UInt8)
    (s s' : Printing) : Prop where
  arg : s'.arg = s.arg + words c
  reads : s'.reads = s.reads
  kept : ∀ a ∈ s.text.writes, a ∈ s'.text.writes
  inside : (c = 98 → (args s.arg).toNat < 524288) →
    Within buffer (buffer + 20) s.text s'.text
  outside : c = 98 → 524288 ≤ (args s.arg).toNat → ∃ a ∈ s'.text.writes, buffer + 20 ≤ a

/-- A conversion by `uitoa`. -/
theorem unsigned_settles (around : Int → UInt8) (buffer : Nat) (s : Printing) (hbase : 2 ≤ base)
    (hval : val < 4294967296) :
    ∃ s', Settles (fun fuel => s.unsigned around buffer val base fuel) s' ∧
      s'.arg = s.arg ∧ s'.reads = s.reads ∧
      Within buffer (buffer + (digitsOf base val).length + 1) s.text s'.text ∧
      buffer + (digitsOf base val).length ∈ s'.text.writes := by
  obtain ⟨text, htext, hwithin, hmem, _⟩ := uitoa_settles around buffer s.text hbase hval
  refine ⟨{ s with text := text }.print (.string text.memory buffer), ?_, rfl, rfl, hwithin, hmem⟩
  exact htext.bind (g := fun text _ =>
    .ret ({ s with text := text }.print (.string text.memory buffer))) Settles.ret

/-- In a base of 10 or more the text of a word fits the buffer. -/
theorem unsigned_inside (around : Int → UInt8) (buffer : Nat) (s : Printing) (hbase : 10 ≤ base)
    (hval : val < 4294967296) :
    ∃ s', Settles (fun fuel => s.unsigned around buffer val base fuel) s' ∧
      s'.arg = s.arg ∧ s'.reads = s.reads ∧ Within buffer (buffer + 20) s.text s'.text := by
  obtain ⟨s', hs', harg, hreads, hwithin, _⟩ :=
    unsigned_settles around buffer s (show 2 ≤ base by omega) hval
  have hdigits : (digitsOf base val).length ≤ 10 := by
    rw [digitsOf_length_le_iff (by omega) (by decide)]
    calc val < 4294967296 := hval
      _ ≤ 10 ^ 10 := by decide
      _ ≤ base ^ 10 := Nat.pow_le_pow_left hbase 10
  exact ⟨s', hs', harg, hreads, hwithin.mono (by omega)⟩

/-- So does a signed word in base 10. -/
theorem signed_inside (around : Int → UInt8) (buffer : Nat) (s : Printing) (val : Int32) :
    ∃ s', Settles (fun fuel => s.signed around buffer val.toInt 10 fuel) s' ∧
      s'.arg = s.arg ∧ s'.reads = s.reads ∧ Within buffer (buffer + 20) s.text s'.text := by
  have hlow := Int32.le_toInt val
  have hhigh := Int32.toInt_lt val
  have habs : (if val.toInt < 0 then neg32 val.toInt else val.toInt).natAbs = val.toInt.natAbs := by
    split
    · exact natAbs_neg32 _
    · rfl
  obtain ⟨text, htext, hwithin, _⟩ := itoa_settles around val.toInt buffer s.text
    (show 2 ≤ 10 by decide) (by decide) rfl (by rw [habs]; omega)
  have hchars := signedChars_length around 10 (if val.toInt < 0 then -1 else 1)
    (if val.toInt < 0 then neg32 val.toInt else val.toInt)
  have hdigits : (digitsOf 10 val.toInt.natAbs).length ≤ 10 := by
    rw [digitsOf_length_le_iff (by decide) (by decide)]
    omega
  rw [habs] at hchars
  refine ⟨{ s with text := text }.print (.string text.memory buffer), ?_, rfl, rfl,
    hwithin.mono (by omega)⟩
  exact htext.bind (g := fun text _ =>
    .ret ({ s with text := text }.print (.string text.memory buffer))) Settles.ret

/-- Any conversion but that to base 2. -/
theorem Converts.of_inside (hc : c ≠ 98) (harg : s'.arg = s.arg + words c)
    (hreads : s'.reads = s.reads) (hwithin : Within buffer (buffer + 20) s.text s'.text) :
    Converts args words buffer c s s' where
  arg := harg
  reads := hreads
  kept := fun _ ha => hwithin.mem_writes ha
  inside := fun _ => hwithin
  outside := fun h => absurd h hc

/-- The conversion to base 2. Its text fits the buffer up to 19 digits. -/
theorem converts_binary (around : Int → UInt8) (args : Nat → UInt32) (words : UInt8 → Nat)
    (buffer : Nat) (s : Printing) (hwords : words 98 = 1) :
    ∃ s', Settles (fun fuel => (s.take 1).unsigned around buffer (args s.arg).toNat 2 fuel) s' ∧
      Converts args words buffer 98 s s' := by
  obtain ⟨s', hs', harg, hreads, hwithin, hmem⟩ := unsigned_settles around buffer (s.take 1)
    (show 2 ≤ 2 by decide) (args s.arg).toNat_lt
  have hdigits : (digitsOf 2 (args s.arg).toNat).length ≤ 19 ↔ (args s.arg).toNat < 524288 :=
    digitsOf_length_le_iff (by decide) (by decide)
  refine ⟨s', hs', ?_⟩
  exact {
    arg := by rw [harg, hwords]; rfl
    reads := hreads
    kept := fun _ ha => hwithin.mem_writes ha
    inside := fun hsmall => by
      have hshort := hdigits.mpr (hsmall rfl)
      exact hwithin.mono (by omega)
    outside := fun _ hlarge => by
      have hlong : ¬ (digitsOf 2 (args s.arg).toNat).length ≤ 19 := fun h =>
        absurd (hdigits.mp h) (by omega)
      exact ⟨_, hmem, by omega⟩ }

/-- Every conversion of `printf_base`. -/
theorem printConversion_settles (around : Int → UInt8) (args : Nat → UInt32) (buffer : Nat)
    (c : UInt8) (s : Printing) :
    ∃ s', Settles (fun fuel => printConversion around args buffer c fuel s) s' ∧
      Converts args printWords buffer c s s' := by
  have hval : (args s.arg).toNat < 4294967296 := (args s.arg).toNat_lt
  -- the four numbers in base 10 and 16
  have hnumber : ∀ (s₀ : Printing) (base : Nat), 10 ≤ base → c ≠ 98 →
      s₀.arg = s.arg + printWords c → s₀.reads = s.reads → s₀.text = s.text →
      ∃ s', Settles (fun fuel => s₀.unsigned around buffer (args s.arg).toNat base fuel) s' ∧
        Converts args printWords buffer c s s' := by
    intro s₀ base hbase hc harg hreads htext
    obtain ⟨s', hs', harg', hreads', hwithin⟩ := unsigned_inside around buffer s₀ hbase hval
    rw [htext] at hwithin
    exact ⟨s', hs', .of_inside hc (harg'.trans harg) (hreads'.trans hreads) hwithin⟩
  unfold printConversion
  by_cases hu : c = 117
  · simp only [if_pos hu]
    subst hu
    exact hnumber _ 10 (by decide) (by decide) rfl rfl rfl
  by_cases hi : c = 105
  · simp only [if_neg hu, if_pos hi]
    subst hi
    obtain ⟨s', hs', harg, hreads, hwithin⟩ :=
      signed_inside around buffer (s.take 1) (args s.arg).toInt32
    exact ⟨s', hs', .of_inside (by decide) harg hreads hwithin⟩
  by_cases hh : c = 104
  · simp only [if_neg hu, if_neg hi, if_pos hh]
    subst hh
    exact hnumber _ 16 (by decide) (by decide) rfl rfl rfl
  by_cases hx : c = 120
  · simp only [if_neg hu, if_neg hi, if_neg hh, if_pos hx]
    subst hx
    exact hnumber _ 16 (by decide) (by decide) rfl rfl rfl
  by_cases hs : c = 115
  · simp only [if_neg hu, if_neg hi, if_neg hh, if_neg hx, if_pos hs]
    subst hs
    exact ⟨_, Settles.ret, .of_inside (by decide) rfl rfl (Within.refl _ _ _)⟩
  by_cases hc : c = 99
  · simp only [if_neg hu, if_neg hi, if_neg hh, if_neg hx, if_neg hs, if_pos hc]
    subst hc
    exact ⟨_, Settles.ret, .of_inside (by decide) rfl rfl
      (Within.put (Nat.le_refl _) (by omega) _ _)⟩
  by_cases hl : c = 108
  · simp only [if_neg hu, if_neg hi, if_neg hh, if_neg hx, if_neg hs, if_neg hc, if_pos hl]
    subst hl
    exact hnumber _ 10 (by decide) (by decide) rfl rfl rfl
  by_cases hb : c = 98
  · simp only [if_neg hu, if_neg hi, if_neg hh, if_neg hx, if_neg hs, if_neg hc, if_neg hl,
      if_pos hb]
    subst hb
    exact converts_binary around args printWords buffer s rfl
  · have hwords : printWords c = 0 := by
      simp [printWords, hu, hi, hh, hx, hs, hc, hl, hb]
    simp only [if_neg hu, if_neg hi, if_neg hh, if_neg hx, if_neg hs, if_neg hc, if_neg hl,
      if_neg hb]
    refine ⟨s, Settles.ret, .of_inside hb ?_ rfl (Within.refl _ _ _)⟩
    rw [hwords, Nat.add_zero]

/-- The two formatters convert alike but for `%c` and `%e`. -/
theorem serialConversion_eq (hc : c ≠ 99) (he : c ≠ 101) :
    serialConversion around errorText args buffer c fuel s =
      printConversion around args buffer c fuel s := by
  simp only [serialConversion, printConversion, if_neg hc, if_neg he]

/-- Every conversion of `serial_printf`. -/
theorem serialConversion_settles (around : Int → UInt8) (errorText : Nat → Nat)
    (args : Nat → UInt32) (buffer : Nat) (c : UInt8) (s : Printing) :
    ∃ s', Settles (fun fuel => serialConversion around errorText args buffer c fuel s) s' ∧
      Converts args serialWords buffer c s s' := by
  by_cases hc : c = 99
  · subst hc
    exact ⟨(s.take 1).print (.char (UInt8.ofNat (args s.arg).toNat)), Settles.ret,
      .of_inside (by decide) rfl rfl (Within.refl _ _ _)⟩
  by_cases he : c = 101
  · subst he
    have hcode : (args s.arg).toNat &&& 255 < 4294967296 :=
      Nat.lt_of_le_of_lt Nat.and_le_right (by decide)
    have hext : (args s.arg).toNat >>> 8 &&& 65535 < 4294967296 :=
      Nat.lt_of_le_of_lt Nat.and_le_right (by decide)
    obtain ⟨s₁, hs₁, harg₁, hreads₁, hwithin₁⟩ := unsigned_inside around buffer
      ((s.take 1).print (.literal [98, 97, 115, 101, 58, 32])) (show 10 ≤ 10 by decide) hcode
    obtain ⟨s₂, hs₂, harg₂, hreads₂, hwithin₂⟩ := unsigned_inside around buffer
      (s₁.print (.literal [32, 101, 120, 116, 58, 32])) (show 10 ≤ 10 by decide) hext
    have hrun : (fun fuel => serialConversion around errorText args buffer 101 fuel s) =
        fun fuel => ((s.take 1).print (.literal [98, 97, 115, 101, 58, 32])).unsigned around buffer
            ((args s.arg).toNat &&& 255) 10 fuel >>= fun s₁ =>
          (s₁.print (.literal [32, 101, 120, 116, 58, 32])).unsigned around buffer
            ((args s.arg).toNat >>> 8 &&& 65535) 10 fuel >>= fun s₂ =>
          .ret ((s₂.print (.literal [32])).print (.string (s₂.print (.literal [32])).text.memory
            (errorText ((args s.arg).toNat >>> 24)))) := rfl
    rw [hrun]
    refine ⟨(s₂.print (.literal [32])).print (.string (s₂.print (.literal [32])).text.memory
      (errorText ((args s.arg).toNat >>> 24))), ?_, ?_⟩
    · exact hs₁.bind (g := fun s₁ fuel =>
          (s₁.print (.literal [32, 101, 120, 116, 58, 32])).unsigned around buffer
              ((args s.arg).toNat >>> 8 &&& 65535) 10 fuel >>= fun s₂ =>
            .ret ((s₂.print (.literal [32])).print (.string (s₂.print (.literal [32])).text.memory
              (errorText ((args s.arg).toNat >>> 24)))))
        (hs₂.bind (g := fun s₂ _ => .ret ((s₂.print (.literal [32])).print
          (.string (s₂.print (.literal [32])).text.memory
            (errorText ((args s.arg).toNat >>> 24))))) Settles.ret)
    · exact .of_inside (by decide) (harg₂.trans harg₁) (hreads₂.trans hreads₁)
        (hwithin₁.trans hwithin₂)
  · obtain ⟨s', hs', hconverts⟩ := printConversion_settles around args buffer c s
    have hrun : (fun fuel => serialConversion around errorText args buffer c fuel s) =
        fun fuel => printConversion around args buffer c fuel s :=
      funext fun fuel => serialConversion_eq hc he
    have hwords : serialWords c = printWords c := if_neg he
    rw [hrun]
    exact ⟨s', hs', hconverts.arg.trans (by rw [hwords]), hconverts.reads, hconverts.kept,
      hconverts.inside, hconverts.outside⟩

/-! ## The loop -/

/-- A read address is new, or was read before. -/
theorem mem_snoc {l : List Nat} {a b : Nat} : a ∈ l ++ [b] ↔ a ∈ l ∨ a = b := by
  rw [List.mem_append, List.mem_singleton]

/-- The reads of `strlen` end at the zero. -/
theorem strlenReads_settles {m : Mem} {a : Nat} (h : StrAt m a text) (hshort : text.length < 65536)
    (reads : List Nat) :
    ∃ all, Settles (fun fuel => strlenReads m a fuel 0 reads) (text.length, all) ∧
      ∀ r ∈ all, r ∈ reads ∨ a ≤ r ∧ r ≤ a + text.length := by
  obtain ⟨hcells, hend⟩ := strAt_iff.mp h
  -- from character `i` on, with `n` left
  have hloop : ∀ n i reads, i + n = text.length →
      ∃ all, Settles (fun fuel => strlenReads m a fuel i reads) (text.length, all) ∧
        ∀ r ∈ all, r ∈ reads ∨ a ≤ r ∧ r ≤ a + text.length := by
    intro n
    induction n with
    | zero =>
      intro i reads hi
      obtain rfl : i = text.length := hi
      refine ⟨reads ++ [a + text.length], .succ ?_, fun r hr => ?_⟩
      · simp only [strlenReads, hend, ne_eq, not_true_eq_false, if_false]
        exact Settles.ret
      · rcases mem_snoc.mp hr with hr | heq
        · exact .inl hr
        · exact .inr (by omega)
    | succ n ih =>
      intro i reads hi
      obtain ⟨all, hall, hin⟩ := ih (i + 1) (reads ++ [a + i]) (by omega)
      obtain ⟨hcell, hne⟩ := hcells i (by omega)
      refine ⟨all, .succ ?_, fun r hr => ?_⟩
      · rw [← hcell] at hne
        simp only [strlenReads, if_pos hne, Nat.mod_eq_of_lt (show i + 1 < 65536 by omega)]
        exact hall
      · rcases hin r hr with hr | hr
        · rcases mem_snoc.mp hr with hr | heq
          · exact .inl hr
          · exact .inr (by omega)
        · exact .inr hr
  exact hloop text.length 0 reads (Nat.zero_add _)

/-- At a conversion the loop goes on behind its letter. -/
theorem formatLoop_percent (hi : i < length) (hlength : length < 65535)
    (hc : s.text.memory (fmt + i) = 37)
    (hs' : Settles (fun fuel => conversion (s.text.memory (fmt + (i + 1))) fuel
      ((s.read (fmt + i)).read (fmt + (i + 1)))) s')
    (ht : Settles (fun fuel => formatLoop conversion fmt length fuel (i + 2) s') t) :
    Settles (fun fuel => formatLoop conversion fmt length fuel i s) t := by
  refine .succ ?_
  have hturn : ((i + 1) % 65536 + 1) % 65536 = i + 2 := by omega
  simp only [formatLoop, if_pos hi, hc, if_true, hturn]
  exact hs'.bind (g := fun s' fuel => formatLoop conversion fmt length fuel (i + 2) s') ht

/-- At any other character it prints that. -/
theorem formatLoop_plain (hi : i < length) (hlength : length < 65535)
    (hc : s.text.memory (fmt + i) ≠ 37)
    (ht : Settles (fun fuel => formatLoop conversion fmt length fuel (i + 1)
      ((s.read (fmt + i)).print (.char (s.text.memory (fmt + i))))) t) :
    Settles (fun fuel => formatLoop conversion fmt length fuel i s) t := by
  refine .succ ?_
  have hturn : (i + 1) % 65536 = i + 1 := by omega
  simp only [formatLoop, if_pos hi, if_neg hc, hturn]
  exact ht

theorem formatLoop_end (hi : ¬ i < length) :
    Settles (fun fuel => formatLoop conversion fmt length fuel i s) s := by
  refine .succ ?_
  simp only [formatLoop, if_neg hi]
  exact Settles.ret

/-- The loop comes to an end. What has been written stays so, and it reads up to the zero. -/
theorem formatLoop_settles (fmt : Nat)
    (hconversion : ∀ c s, ∃ s', Settles (fun fuel => conversion c fuel s) s' ∧
      Converts args words buffer c s s')
    (hlength : length < 65535) (n i : Nat) (s : Printing) (hn : length ≤ i + n) :
    ∃ t, Settles (fun fuel => formatLoop conversion fmt length fuel i s) t ∧
      (∀ a ∈ s.text.writes, a ∈ t.text.writes) ∧
      ∀ a ∈ t.reads, a ∈ s.reads ∨ fmt ≤ a ∧ a ≤ fmt + length := by
  induction n using Nat.strong_induction_on generalizing i s with
  | _ n ih =>
    by_cases hi : i < length
    · by_cases hc : s.text.memory (fmt + i) = 37
      · obtain ⟨s', hs', hconverts⟩ := hconversion (s.text.memory (fmt + (i + 1)))
          ((s.read (fmt + i)).read (fmt + (i + 1)))
        obtain ⟨t, ht, hkept, hreads⟩ := ih (n - 2) (by omega) (i + 2) s' (by omega)
        refine ⟨t, formatLoop_percent hi hlength hc hs' ht,
          fun a ha => hkept a (hconverts.kept a ha), fun a ha => ?_⟩
        rcases hreads a ha with ha | ha
        · rw [hconverts.reads] at ha
          rcases mem_snoc.mp ha with ha | heq
          · rcases mem_snoc.mp ha with ha | heq
            · exact .inl ha
            · exact .inr (by omega)
          · exact .inr (by omega)
        · exact .inr ha
      · obtain ⟨t, ht, hkept, hreads⟩ := ih (n - 1) (by omega) (i + 1)
          ((s.read (fmt + i)).print (.char (s.text.memory (fmt + i)))) (by omega)
        refine ⟨t, formatLoop_plain hi hlength hc ht, hkept, fun a ha => ?_⟩
        rcases hreads a ha with ha | ha
        · rcases mem_snoc.mp ha with ha | heq
          · exact .inl ha
          · exact .inr (by omega)
        · exact .inr ha
    · exact ⟨s, formatLoop_end hi, fun _ ha => ha, fun _ ha => .inl ha⟩

/-- Along the format the loop stays in the buffer exactly if no number in base 2 is too long. -/
theorem formatLoop_walk
    (hconversion : ∀ c s, ∃ s', Settles (fun fuel => conversion c fuel s) s' ∧
      Converts args words buffer c s s')
    (hlength : length < 65535) (hlocal : fmt + length < buffer ∨ buffer + 20 ≤ fmt)
    (hi : i + text.length = length) (h : StrAt s.text.memory (fmt + i) text) :
    ∃ t, Settles (fun fuel => formatLoop conversion fmt length fuel i s) t ∧
      (SmallBinary words args text s.arg → Within buffer (buffer + 20) s.text t.text) ∧
      (¬ SmallBinary words args text s.arg → ∃ a ∈ t.text.writes, buffer + 20 ≤ a) := by
  induction hn : text.length using Nat.strong_induction_on generalizing text i s with
  | _ n ih =>
    match text, hi, h, hn with
    | [], hi, _, _ =>
      have hend : ¬ i < length := by
        rw [List.length_nil] at hi
        omega
      exact ⟨s, formatLoop_end hend, fun _ => Within.refl _ _ _, fun h => absurd trivial h⟩
    | [c], hi, h, _ =>
      rw [List.length_singleton] at hi
      obtain ⟨hc, _, hzero⟩ := h
      have hend : ¬ i + 1 < length := by omega
      by_cases hpercent : c = 37
      · -- the format ends in `%`: what is behind it is the zero
        obtain ⟨s', hs', hconverts⟩ := hconversion (s.text.memory (fmt + (i + 1)))
          ((s.read (fmt + i)).read (fmt + (i + 1)))
        have hd : s.text.memory (fmt + (i + 1)) ≠ 98 := by
          intro h98
          rw [show s.text.memory (fmt + (i + 1)) = 0 from hzero] at h98
          cases h98
        exact ⟨s', formatLoop_percent (by omega) hlength (hc.trans hpercent) hs'
            (formatLoop_end (by omega)),
          fun _ => hconverts.inside fun h => absurd h hd, fun h => absurd trivial h⟩
      · exact ⟨_, formatLoop_plain (by omega) hlength (fun h => hpercent (hc.symm.trans h))
            (formatLoop_end hend),
          fun _ => Within.refl _ _ _, fun h => absurd trivial h⟩
    | c :: d :: rest, hi, h, hn =>
      rw [List.length_cons, List.length_cons] at hi hn
      obtain ⟨hc, _, hrest⟩ := h
      by_cases hpercent : c = 37
      · obtain ⟨s', hs', hconverts⟩ := hconversion (s.text.memory (fmt + (i + 1)))
          ((s.read (fmt + i)).read (fmt + (i + 1)))
        have hd : s.text.memory (fmt + (i + 1)) = d := hrest.1
        have hsmall : SmallBinary words args (c :: d :: rest) s.arg ↔
            (d = 98 → (args s.arg).toNat < 524288) ∧
              SmallBinary words args rest (s.arg + words d) := by
          rw [SmallBinary, if_pos hpercent]
        rw [hd] at hconverts
        rw [hsmall]
        by_cases hfits : d = 98 → (args s.arg).toNat < 524288
        · -- the format is where it was, behind the conversion
          have hwithin := hconverts.inside hfits
          have hkept : StrAt s'.text.memory (fmt + (i + 2)) rest :=
            hrest.2.2.move fun k hk => hwithin.frame _ (by omega)
          obtain ⟨t, ht, hin, hout⟩ := ih rest.length (by omega) (by omega) hkept rfl
          have harg : s'.arg = s.arg + words d := hconverts.arg
          rw [harg] at hin hout
          exact ⟨t, formatLoop_percent (by omega) hlength (hc.trans hpercent) hs' ht,
            fun h => hwithin.trans (hin h.2), fun h => hout fun hrest => h ⟨hfits, hrest⟩⟩
        · have hlong : d = 98 ∧ 524288 ≤ (args s.arg).toNat := by
            by_contra hnot
            exact hfits fun hd => Nat.lt_of_not_le fun hle => hnot ⟨hd, hle⟩
          obtain ⟨a, ha, houtside⟩ := hconverts.outside hlong.1 hlong.2
          obtain ⟨t, ht, hkept, _⟩ :=
            formatLoop_settles fmt hconversion hlength length (i + 2) s' (by omega)
          exact ⟨t, formatLoop_percent (by omega) hlength (hc.trans hpercent) hs' ht,
            fun h => absurd h.1 hfits, fun _ => ⟨a, hkept a ha, houtside⟩⟩
      · have hplain : SmallBinary words args (c :: d :: rest) s.arg ↔
            SmallBinary words args (d :: rest) s.arg := by
          rw [SmallBinary, if_neg hpercent]
        have hsum : i + 1 + (d :: rest).length = length := by
          rw [List.length_cons]
          omega
        obtain ⟨t, ht, hin, hout⟩ := ih (rest.length + 1) (by omega) (i := i + 1)
          (s := (s.read (fmt + i)).print (.char (s.text.memory (fmt + i)))) hsum hrest rfl
        rw [hplain]
        exact ⟨t, formatLoop_plain (by omega) hlength (fun h => hpercent (hc.symm.trans h)) ht,
          hin, hout⟩

/-! ## The formatters -/

/-- A formatter that prints stays in its buffer and its format exactly if no number in base 2 is too
long. -/
theorem formatAll_iff
    (hconversion : ∀ c s, ∃ s', Settles (fun fuel => conversion c fuel s) s' ∧
      Converts args words buffer c s s') {m : Mem}
    (h : StrAt m fmt text) (hlength : text.length < 65535)
    (hlocal : fmt + text.length < buffer ∨ buffer + 20 ≤ fmt) :
    StaysInside fmt text.length buffer (fun fuel => formatAll conversion fmt fuel (fresh m)) ↔
      SmallBinary words args text 0 := by
  obtain ⟨all, hstrlen, hall⟩ := strlenReads_settles h (by omega) []
  obtain ⟨t, ht, hin, hout⟩ := formatLoop_walk (s := { fresh m with reads := all }) (i := 0)
    hconversion hlength hlocal (Nat.zero_add _) h
  obtain ⟨t', ht', _, hreads⟩ := formatLoop_settles fmt hconversion hlength text.length 0
    { fresh m with reads := all } (by omega)
  obtain rfl := ht.unique ht'
  have hrun : Settles (fun fuel => formatAll conversion fmt fuel (fresh m)) t := by
    unfold formatAll
    exact hstrlen.bind (g := fun r fuel =>
      formatLoop conversion fmt r.1 fuel 0 { fresh m with reads := r.2 }) ht
  constructor
  · rintro ⟨t', ht', hwrites, _⟩
    obtain rfl := hrun.unique ht'
    by_contra hlarge
    obtain ⟨a, ha, houtside⟩ := hout hlarge
    have hinside := (hwrites a ha).2
    omega
  · intro hsmall
    obtain ⟨⟨new, hnew, hplace⟩, _⟩ := hin hsmall
    refine ⟨t, hrun, fun a ha => hplace a ?_, fun a ha => ?_⟩
    · rw [hnew] at ha
      exact ha
    · rcases hreads a ha with ha | ha
      · exact (hall a ha).resolve_left (List.not_mem_nil)
      · exact ha

/-- A formatter that does not print does nothing. -/
theorem staysInside_silent (fmt length buffer : Nat) (m : Mem) :
    StaysInside fmt length buffer fun _ => .ret (fresh m) :=
  ⟨fresh m, Settles.ret, nofun, nofun⟩

/-- `printf_base` and `serial_printf` stay in their buffer and their format exactly if they print
nothing, or no number in base 2 that is too long. -/
theorem printf_inside_iff (initialized portFound : Bool) (around : Int → UInt8)
    (errorText : Nat → Nat) (args : Nat → UInt32) (fmt buffer : Nat) (m : Mem)
    (text : List UInt8) (h : StrAt m fmt text) (hlength : text.length < 65535)
    (hlocal : fmt + text.length < buffer ∨ buffer + 20 ≤ fmt) :
    (StaysInside fmt text.length buffer
        (fun fuel => printfBase initialized around args fmt buffer fuel (fresh m)) ↔
      (initialized = true → SmallBinary printWords args text 0)) ∧
    (StaysInside fmt text.length buffer
        (fun fuel => serialPrintf portFound around errorText args fmt buffer fuel (fresh m)) ↔
      (portFound = true → SmallBinary serialWords args text 0)) := by
  constructor
  · cases initialized with
    | false => exact iff_of_true (staysInside_silent _ _ _ m) nofun
    | true =>
      rw [imp_iff_right rfl]
      exact formatAll_iff (printConversion_settles around args buffer) h hlength hlocal
  · cases portFound with
    | false => exact iff_of_true (staysInside_silent _ _ _ m) nofun
    | true =>
      rw [imp_iff_right rfl]
      exact formatAll_iff (serialConversion_settles around errorText args buffer) h hlength hlocal

/-- The format `%b` at 0. -/
def binaryFormat : Mem := store8 (store8 (fun _ => 0) 0 37) 1 98

theorem printf_inside_iff_binary :
    (StaysInside 0 2 4096 (fun fuel => printfBase true (fun _ => 0) (fun _ => 255) 0 4096 fuel
        (fresh binaryFormat)) ↔
      (true = true → SmallBinary printWords (fun _ => 255) [37, 98] 0)) ∧
    (StaysInside 0 2 4096 (fun fuel => serialPrintf true (fun _ => 0) (fun _ => 0) (fun _ => 255) 0
        4096 fuel (fresh binaryFormat)) ↔
      (true = true → SmallBinary serialWords (fun _ => 255) [37, 98] 0)) :=
  printf_inside_iff true true (fun _ => 0) (fun _ => 0) (fun _ => 255) 0 4096 binaryFormat
    [37, 98] (by decide) (by decide) (by decide)

/-- The largest word in base 2 is too long for either buffer. -/
theorem printf_overruns :
    ¬ StaysInside 0 2 4096 (fun fuel => printfBase true (fun _ => 0) (fun _ => 4294967295) 0 4096
        fuel (fresh binaryFormat)) ∧
    ¬ StaysInside 0 2 4096 (fun fuel => serialPrintf true (fun _ => 0) (fun _ => 0)
        (fun _ => 4294967295) 0 4096 fuel (fresh binaryFormat)) := by
  have hlarge : ∀ words, ¬ SmallBinary words (fun _ => 4294967295) [37, 98] 0 := by
    intro words h
    have hdigits : (4294967295 : UInt32).toNat < 524288 := h.1 rfl
    exact absurd hdigits (by decide)
  have hformat : StrAt binaryFormat 0 [37, 98] := by decide
  constructor
  · intro h
    exact hlarge _ ((formatAll_iff (printConversion_settles (fun _ => 0) (fun _ => 4294967295) 4096)
      hformat (by decide) (by decide)).mp h)
  · intro h
    exact hlarge _ ((formatAll_iff (serialConversion_settles (fun _ => 0) (fun _ => 0)
      (fun _ => 4294967295) 4096) hformat (by decide) (by decide)).mp h)

end

end MeOS.Printf
