import MeOS.Types
import Mathlib.Logic.Function.Basic
import Mathlib.Data.List.Infix

/-! # `keyboard_irq`: the modifier flags

The daemon takes one code after the other and keeps a flag for each modifier. A flag stands for
two keys, and any release of one of them clears it. The table of keys by make code leaves the
codes 0x4a to 0x4f out, so it ends at 0x52.
-/

namespace MeOS.KeyModifiers

/-! ## Keys -/

/-- `KEY_LSHIFT`. -/
abbrev keyLshift : Nat := 0x4002

/-- `KEY_RSHIFT`. -/
abbrev keyRshift : Nat := 0x4006

/-- `KEY_LCTRL`. -/
abbrev keyLctrl : Nat := 0x4003

/-- `KEY_RCTRL`. -/
abbrev keyRctrl : Nat := 0x4007

/-- `KEY_LALT`. -/
abbrev keyLalt : Nat := 0x4004

/-- `KEY_RALT`. -/
abbrev keyRalt : Nat := 0x4008

/-- `KEY_CAPSLOCK`. -/
abbrev keyCapslock : Nat := 0x4001

/-- `KEY_KP_NUMLOCK`. -/
abbrev keyKpNumlock : Nat := 0x300f

/-- `KEY_SCROLLLOCK`. -/
abbrev keyScrolllock : Nat := 0x4010

/-- `KEY_UNKNOWN`. -/
abbrev keyUnknown : Nat := 0x4012

/-- `_kybrd_scancode_std`; characters are written as their codes. -/
def kybrdScancodeStd : List Nat :=
  -- unknown, escape, `1234567890-=`, backspace, tab
  [keyUnknown, 0x1001, 49, 50, 51, 52, 53, 54, 55, 56, 57, 48, 45, 61, 8, 0x4000] ++
  -- `qwertyuiop[]`, return
  [113, 119, 101, 114, 116, 121, 117, 105, 111, 112, 91, 93, 13, keyLctrl] ++
  -- `asdfghjkl;'`, grave
  [97, 115, 100, 102, 103, 104, 106, 107, 108, 59, 39, 96, keyLshift] ++
  -- backslash, `zxcvbnm,./`
  [92, 122, 120, 99, 118, 98, 110, 109, 44, 46, 47, keyRshift] ++
  -- keypad asterisk, right alt, space, caps lock
  [42, keyRalt, 32, keyCapslock] ++
  -- F1 to F10
  [0x1201, 0x1202, 0x1203, 0x1204, 0x1205, 0x1206, 0x1207, 0x1208, 0x1209, 0x120a] ++
  -- num lock, scroll lock, home, keypad 8, page up
  [keyKpNumlock, keyScrolllock, 0x400c, 56, 0x400e] ++
  -- keypad 2, 3, 0 and decimal, labelled 0x50 and on
  [50, 51, 48, 46, keyUnknown, keyUnknown, keyUnknown, 0x120b, 0x120b]

/-! ## The functions -/

/-- The flags of the driver. -/
structure Modifiers where
  scancode : Nat
  shift : Bool
  ctrl : Bool
  alt : Bool
  capslock : Bool
  numlock : Bool
  scrolllock : Bool
  batRes : Bool
  diagRes : Bool
  resendRes : Bool
deriving Repr, DecidableEq

/-- The flags that `init_keyboard` sets. -/
def initKeyboard : Modifiers where
  scancode := 0
  shift := false
  ctrl := false
  alt := false
  capslock := false
  numlock := false
  scrolllock := false
  batRes := true
  diagRes := false
  resendRes := false

/-- A key is released. -/
def releaseKey (s : Modifiers) (key : Nat) : Modifiers :=
  if key = keyLshift ∨ key = keyRshift then { s with shift := false }
  else if key = keyLctrl ∨ key = keyRctrl then { s with ctrl := false }
  else if key = keyLalt ∨ key = keyRalt then { s with alt := false }
  else s

/-- A key is pressed. -/
def pressKey (s : Modifiers) (key : Nat) : Modifiers :=
  if key = keyLshift ∨ key = keyRshift then { s with shift := true }
  else if key = keyLctrl ∨ key = keyRctrl then { s with ctrl := true }
  else if key = keyLalt ∨ key = keyRalt then { s with alt := true }
  else if key = keyCapslock then { s with capslock := !s.capslock }
  else if key = keyKpNumlock then { s with numlock := !s.numlock }
  else if key = keyScrolllock then { s with scrolllock := !s.scrolllock }
  else s

/-- The error codes of the encoder. -/
def watchErrors (s : Modifiers) (code : Nat) : Modifiers :=
  if code = 0xFC then { s with batRes := false }
  else if code = 0xFD then { s with diagRes := false }
  else if code = 0xFE then { s with resendRes := true }
  else s

/-- What `keyboard_irq` does to the flags for one code of the queue. -/
def keyboardIrq (s : Modifiers) (code : Nat) : Outcome Modifiers :=
  if code &&& 0x80 ≠ 0 then
    let code := code - 0x80
    match kybrdScancodeStd[code]? with
    | none => .undefined
    | some key => .ret (watchErrors (releaseKey s key) code)
  else
    let s := { s with scancode := code }
    match kybrdScancodeStd[code]? with
    | none => .undefined
    | some key => .ret (watchErrors (pressKey s key) code)

/-- The codes of the queue in their order; each is a byte. -/
def processCodes (s : Modifiers) (codes : List UInt8) : Outcome Modifiers :=
  codes.foldlM (fun s code => keyboardIrq s code.toNat) s

/-! ## The keys themselves -/

section

variable {held : Nat → Bool} {pressed : Nat → Nat} {s : Modifiers} {code key : Nat}
  {codes : List UInt8}

/-- Which keys are held, by make code, after one more code. -/
def heldStep (held : Nat → Bool) (code : Nat) : Nat → Bool :=
  if code &&& 0x80 ≠ 0 then Function.update held (code - 0x80) false
  else Function.update held code true

/-- Which keys are held after the codes. -/
def heldAfter (held : Nat → Bool) (codes : List UInt8) : Nat → Bool :=
  codes.foldl (fun held code => heldStep held code.toNat) held

/-- How often each key was pressed, by make code. -/
def pressedAfter (pressed : Nat → Nat) (codes : List UInt8) : Nat → Nat :=
  fun k => pressed k + (codes.map UInt8.toNat).count k

/-- The flags follow the keys: without the prefixes of the extended keys only the left ones of
`_ctrl` and `_alt` have a code. -/
structure Follows (held : Nat → Bool) (pressed : Nat → Nat) (s : Modifiers) : Prop where
  shift : s.shift = (held 0x2a || held 0x36)
  ctrl : s.ctrl = held 0x1d
  alt : s.alt = held 0x38
  capslock : s.capslock = decide (pressed 0x3a % 2 = 1)
  numlock : s.numlock = decide (pressed 0x45 % 2 = 1)
  scrolllock : s.scrolllock = decide (pressed 0x46 % 2 = 1)

/-- The flags are there after the codes, and follow the keys. -/
def FollowsAfter (held : Nat → Bool) (pressed : Nat → Nat) (s : Modifiers) (codes : List UInt8) :
    Prop :=
  ∃ s', processCodes s codes = .ret s' ∧
    Follows (heldAfter held codes) (pressedAfter pressed codes) s'

/-- The code is of a key in the table, and does not release a shift key while the other is held. -/
def StepMeets (held : Nat → Bool) (code : Nat) : Prop :=
  code % 0x80 < 0x53 ∧ (code = 0xaa → held 0x36 = false) ∧ (code = 0xb6 → held 0x2a = false)

/-- So is each of the codes. -/
def StepsMeet (held : Nat → Bool) : List UInt8 → Prop
  | [] => True
  | code :: rest => StepMeets held code.toNat ∧ StepsMeet (heldStep held code.toNat) rest

/-! ## One code -/

/-- Codes with the highest bit. -/
theorem and_ne_zero_iff : ∀ code < 0x100, (code &&& 0x80 ≠ 0 ↔ 0x80 ≤ code) := by
  decide +kernel

/-- The keys of the modifiers. -/
def modifierKeys : List Nat :=
  [keyLshift, keyRshift, keyLctrl, keyRctrl, keyLalt, keyRalt, keyCapslock, keyKpNumlock,
    keyScrolllock]

/-- The make codes of these keys. -/
def modifierCodes : List Nat := [0x1d, 0x2a, 0x36, 0x38, 0x3a, 0x45, 0x46]

/-- No other code of the table is of a modifier. -/
theorem table_plain : ∀ code < 0x53, code ∉ modifierCodes →
    kybrdScancodeStd.getD code 0 ∉ modifierKeys := by
  decide +kernel

theorem table_get (h : code < 0x53) :
    kybrdScancodeStd[code]? = some (kybrdScancodeStd.getD code 0) := by
  rw [List.getD_eq_getElem?_getD, List.getElem?_eq_getElem (show code < 83 from h),
    Option.getD_some]

theorem pressKey_plain (h : key ∉ modifierKeys) : pressKey s key = s := by
  simp only [modifierKeys, List.mem_cons, List.not_mem_nil, or_false, not_or] at h
  simp only [pressKey, h, or_self, if_false]

theorem releaseKey_plain (h : key ∉ modifierKeys) : releaseKey s key = s := by
  simp only [modifierKeys, List.mem_cons, List.not_mem_nil, or_false, not_or] at h
  simp only [releaseKey, h, or_self, if_false]

/-- Neither a make code nor what is left of a break code is an error code. -/
theorem watchErrors_small (h : code < 0x80) : watchErrors s code = s := by
  unfold watchErrors
  rw [if_neg (by omega), if_neg (by omega), if_neg (by omega)]

/-- A make code of the table. -/
theorem keyboardIrq_make (h : code < 0x53) :
    keyboardIrq s code =
      .ret (pressKey { s with scancode := code } (kybrdScancodeStd.getD code 0)) := by
  have hmake : ¬ code &&& 0x80 ≠ 0 := by
    rw [and_ne_zero_iff code (by omega)]
    omega
  rw [keyboardIrq, if_neg hmake]
  dsimp only
  rw [table_get h]
  exact congrArg Outcome.ret (watchErrors_small (by omega))

/-- A break code of the table. -/
theorem keyboardIrq_break (h : code < 0x53) :
    keyboardIrq s (0x80 + code) = .ret (releaseKey s (kybrdScancodeStd.getD code 0)) := by
  have hbreak : (0x80 + code) &&& 0x80 ≠ 0 := by
    rw [and_ne_zero_iff (0x80 + code) (by omega)]
    omega
  rw [keyboardIrq, if_pos hbreak, Nat.add_sub_cancel_left]
  dsimp only
  rw [table_get h]
  exact congrArg Outcome.ret (watchErrors_small (by omega))

/-- A code of no key in the table. -/
theorem keyboardIrq_outside (hlt : code < 0x100) (h : 0x53 ≤ code % 0x80) :
    keyboardIrq s code = .undefined := by
  have hnone : ∀ k, 0x53 ≤ k → kybrdScancodeStd[k]? = none :=
    fun k hk => List.getElem?_eq_none (show 83 ≤ k from hk)
  unfold keyboardIrq
  by_cases hbreak : code &&& 0x80 ≠ 0
  · have hge := (and_ne_zero_iff code hlt).mp hbreak
    rw [if_pos hbreak]
    simp only [hnone (code - 0x80) (by omega)]
  · have hless := (not_iff_not.mpr (and_ne_zero_iff code hlt)).mp hbreak
    rw [if_neg hbreak]
    simp only [hnone code (by omega)]

theorem toggle_parity (n : Nat) :
    (!decide (n % 2 = 1)) = decide ((n + 1) % 2 = 1) := by
  rw [← decide_not, decide_eq_decide]
  omega

/-- A key that is no modifier does not matter. -/
theorem Follows.update_held {b : Bool} (h : Follows held pressed s) (hmod : code ∉ modifierCodes) :
    Follows (Function.update held code b) pressed s := by
  simp only [modifierCodes, List.mem_cons, List.not_mem_nil, or_false, not_or] at hmod
  obtain ⟨hctrl, hlshift, hrshift, halt, _⟩ := hmod
  refine ⟨?_, ?_, ?_, h.capslock, h.numlock, h.scrolllock⟩
  · rw [Function.update_of_ne (Ne.symm hlshift), Function.update_of_ne (Ne.symm hrshift)]
    exact h.shift
  · rw [Function.update_of_ne (Ne.symm hctrl)]
    exact h.ctrl
  · rw [Function.update_of_ne (Ne.symm halt)]
    exact h.alt

/-- Only the presses of the three locks are counted. -/
theorem Follows.update_pressed {n : Nat} (h : Follows held pressed s) (hcaps : code ≠ 0x3a)
    (hnum : code ≠ 0x45) (hscroll : code ≠ 0x46) :
    Follows held (Function.update pressed code n) s := by
  refine ⟨h.shift, h.ctrl, h.alt, ?_, ?_, ?_⟩
  · rw [Function.update_of_ne (Ne.symm hcaps)]
    exact h.capslock
  · rw [Function.update_of_ne (Ne.symm hnum)]
    exact h.numlock
  · rw [Function.update_of_ne (Ne.symm hscroll)]
    exact h.scrolllock

/-- A make code of the table keeps the flags with the keys. -/
theorem Follows.make (h : Follows held pressed s) (hcode : code < 0x53) :
    ∃ s', keyboardIrq s code = .ret s' ∧ Follows (Function.update held code true)
      (Function.update pressed code (pressed code + 1)) s' := by
  refine ⟨_, keyboardIrq_make hcode, ?_⟩
  by_cases hmod : code ∈ modifierCodes
  · simp only [modifierCodes, List.mem_cons, List.not_mem_nil, or_false] at hmod
    rcases hmod with rfl | rfl | rfl | rfl | rfl | rfl | rfl
    · exact ⟨h.shift, rfl, h.alt, h.capslock, h.numlock, h.scrolllock⟩
    · exact ⟨(Bool.true_or _).symm, h.ctrl, h.alt, h.capslock, h.numlock, h.scrolllock⟩
    · exact ⟨(Bool.or_true _).symm, h.ctrl, h.alt, h.capslock, h.numlock, h.scrolllock⟩
    · exact ⟨h.shift, h.ctrl, rfl, h.capslock, h.numlock, h.scrolllock⟩
    · exact ⟨h.shift, h.ctrl, h.alt, (congrArg _ h.capslock).trans (toggle_parity _), h.numlock,
        h.scrolllock⟩
    · exact ⟨h.shift, h.ctrl, h.alt, h.capslock, (congrArg _ h.numlock).trans (toggle_parity _),
        h.scrolllock⟩
    · exact ⟨h.shift, h.ctrl, h.alt, h.capslock, h.numlock,
        (congrArg _ h.scrolllock).trans (toggle_parity _)⟩
  · rw [pressKey_plain (table_plain code hcode hmod)]
    have hheld := h.update_held (b := true) hmod
    simp only [modifierCodes, List.mem_cons, List.not_mem_nil, or_false, not_or] at hmod
    obtain ⟨_, _, _, _, hcaps, hnum, hscroll⟩ := hmod
    have h' := hheld.update_pressed (n := pressed code + 1) hcaps hnum hscroll
    exact ⟨h'.shift, h'.ctrl, h'.alt, h'.capslock, h'.numlock, h'.scrolllock⟩

/-- A break code of the table keeps the flags with the keys, unless it releases a shift key while
the other is held. -/
theorem Follows.release (h : Follows held pressed s) (hcode : code < 0x53) {n : Nat}
    (hleft : code = 0x2a → held 0x36 = false) (hright : code = 0x36 → held 0x2a = false) :
    ∃ s', keyboardIrq s (0x80 + code) = .ret s' ∧ Follows (Function.update held code false)
      (Function.update pressed (0x80 + code) n) s' := by
  refine ⟨_, keyboardIrq_break hcode, ?_⟩
  have h' : Follows held (Function.update pressed (0x80 + code) n) s :=
    h.update_pressed (by omega) (by omega) (by omega)
  by_cases hmod : code ∈ modifierCodes
  · simp only [modifierCodes, List.mem_cons, List.not_mem_nil, or_false] at hmod
    rcases hmod with rfl | rfl | rfl | rfl | rfl | rfl | rfl
    · exact ⟨h'.shift, rfl, h'.alt, h'.capslock, h'.numlock, h'.scrolllock⟩
    · exact ⟨(hleft rfl).symm, h'.ctrl, h'.alt, h'.capslock, h'.numlock, h'.scrolllock⟩
    · refine ⟨?_, h'.ctrl, h'.alt, h'.capslock, h'.numlock, h'.scrolllock⟩
      exact ((Bool.or_false _).trans (hright rfl)).symm
    · exact ⟨h'.shift, h'.ctrl, rfl, h'.capslock, h'.numlock, h'.scrolllock⟩
    · exact ⟨h'.shift, h'.ctrl, h'.alt, h'.capslock, h'.numlock, h'.scrolllock⟩
    · exact ⟨h'.shift, h'.ctrl, h'.alt, h'.capslock, h'.numlock, h'.scrolllock⟩
    · exact ⟨h'.shift, h'.ctrl, h'.alt, h'.capslock, h'.numlock, h'.scrolllock⟩
  · rw [releaseKey_plain (table_plain code hcode hmod)]
    exact h'.update_held hmod

/-- One code keeps the flags with the keys exactly when it is of a key in the table and does not
release a shift key while the other is held. -/
theorem step_follows_iff (h : Follows held pressed s) (hcode : code < 0x100) :
    (∃ s', keyboardIrq s code = .ret s' ∧
        Follows (heldStep held code) (Function.update pressed code (pressed code + 1)) s') ↔
      StepMeets held code := by
  by_cases htable : code % 0x80 < 0x53
  swap
  · constructor
    · rintro ⟨s', hret, _⟩
      rw [keyboardIrq_outside hcode (by omega)] at hret
      cases hret
    · intro hmeets
      exact absurd hmeets.1 htable
  by_cases hbreak : code &&& 0x80 ≠ 0
  · have hge := (and_ne_zero_iff code hcode).mp hbreak
    obtain ⟨k, rfl⟩ : ∃ k, code = 0x80 + k := ⟨code - 0x80, by omega⟩
    have hk : k < 0x53 := by omega
    unfold heldStep
    rw [if_pos hbreak, Nat.add_sub_cancel_left]
    constructor
    · rintro ⟨s', hret, hfollows⟩
      rw [keyboardIrq_break hk] at hret
      injection hret with hret
      have hshift := hfollows.shift
      refine ⟨htable, fun hleft => ?_, fun hright => ?_⟩
      · obtain rfl : k = 0x2a := by omega
        rw [← hret] at hshift
        exact hshift.symm
      · obtain rfl : k = 0x36 := by omega
        rw [← hret] at hshift
        exact (Bool.or_false _).symm.trans hshift.symm
    · rintro ⟨_, hleft, hright⟩
      exact h.release hk (fun hk => hleft (by omega)) fun hk => hright (by omega)
  · have hless := (not_iff_not.mpr (and_ne_zero_iff code hcode)).mp hbreak
    unfold heldStep
    rw [if_neg hbreak]
    refine ⟨fun _ => ⟨htable, fun hleft => ?_, fun hright => ?_⟩, fun _ => h.make (by omega)⟩
    · omega
    · omega

/-! ## A run -/

theorem pressedAfter_cons (c : UInt8) :
    pressedAfter pressed (c :: codes) =
      pressedAfter (Function.update pressed c.toNat (pressed c.toNat + 1)) codes := by
  funext k
  unfold pressedAfter
  rw [List.map_cons, List.count_cons]
  by_cases hk : k = c.toNat
  · rw [hk, Function.update_self, if_pos (beq_self_eq_true _)]
    omega
  · rw [Function.update_of_ne hk, if_neg (by simpa using Ne.symm hk), Nat.add_zero]

/-- What a first code leaves for the rest. -/
theorem followsAfter_cons {c : UInt8} :
    FollowsAfter held pressed s (c :: codes) ↔
      ∃ s', keyboardIrq s c.toNat = .ret s' ∧ FollowsAfter (heldStep held c.toNat)
        (Function.update pressed c.toNat (pressed c.toNat + 1)) s' codes := by
  unfold FollowsAfter processCodes heldAfter
  simp only [List.foldlM_cons, List.foldl_cons, Outcome.bind_eq_ret, pressedAfter_cons]
  constructor
  · rintro ⟨s'', ⟨s', hret, hrest⟩, hfollows⟩
    exact ⟨s', hret, s'', hrest, hfollows⟩
  · rintro ⟨s', hret, s'', hrest, hfollows⟩
    exact ⟨s'', ⟨s', hret, hrest⟩, hfollows⟩

theorem followsAfter_nil : FollowsAfter held pressed s [] ↔ Follows held pressed s := by
  constructor
  · rintro ⟨s', hret, hfollows⟩
    cases hret
    exact hfollows
  · intro h
    exact ⟨s, rfl, h⟩

/-- The flags follow the keys after each of the codes exactly when each code keeps them there. -/
theorem follows_along_iff (h : Follows held pressed s) :
    (∀ pre, pre <+: codes → FollowsAfter held pressed s pre) ↔ StepsMeet held codes := by
  induction codes generalizing held pressed s with
  | nil =>
    refine ⟨fun _ => trivial, fun _ pre hpre => ?_⟩
    rw [List.prefix_nil.mp hpre]
    exact followsAfter_nil.mpr h
  | cons c codes ih =>
    have hstep := step_follows_iff h c.toNat_lt
    constructor
    · intro hall
      obtain ⟨s', hret, hnil⟩ := followsAfter_cons.mp (hall [c] (List.prefix_append [c] codes))
      have hfollows := followsAfter_nil.mp hnil
      refine ⟨hstep.mp ⟨s', hret, hfollows⟩, (ih hfollows).mp fun pre hpre => ?_⟩
      obtain ⟨s'', hret', hrest⟩ := followsAfter_cons.mp
        (hall (c :: pre) (List.cons_prefix_cons.mpr ⟨rfl, hpre⟩))
      cases hret.symm.trans hret'
      exact hrest
    · rintro ⟨hmeets, hrest⟩ pre hpre
      obtain ⟨s', hret, hfollows⟩ := hstep.mpr hmeets
      cases pre with
      | nil => exact followsAfter_nil.mpr h
      | cons d pre =>
        obtain ⟨rfl, htail⟩ := List.cons_prefix_cons.mp hpre
        exact followsAfter_cons.mpr ⟨s', hret, (ih hfollows).mpr hrest pre htail⟩

theorem initKeyboard_follows : Follows (fun _ => false) (fun _ => 0) initKeyboard :=
  ⟨rfl, rfl, rfl, rfl, rfl, rfl⟩

/-- Along a sequence of codes the flags follow the keys exactly as long as no shift key is released
while the other is held and no code is of a key behind the table. -/
theorem modifiers_follow_iff (codes : List UInt8) :
    (∀ pre, pre <+: codes →
        FollowsAfter (fun _ => false) (fun _ => 0) initKeyboard pre) ↔
      StepsMeet (fun _ => false) codes :=
  follows_along_iff initKeyboard_follows

/-- Left shift and right shift are pressed, and left shift is released. -/
theorem modifiers_both_shifts :
    ¬ ∀ pre, pre <+: [0x2a, 0x36, 0xaa] →
      FollowsAfter (fun _ => false) (fun _ => 0) initKeyboard pre := by
  intro hall
  obtain ⟨s, hret, hfollows⟩ := hall [0x2a, 0x36, 0xaa] (List.prefix_refl _)
  have hrun : processCodes initKeyboard [0x2a, 0x36, 0xaa] =
      .ret { initKeyboard with scancode := 0x36 } := by decide +kernel
  cases hrun.symm.trans hret
  exact absurd hfollows.shift (by decide)

end

end MeOS.KeyModifiers
