import MeOS.Types

/-! # `screen_gfx.cpp`: the text console

Characters are drawn as glyphs of 8 by 16 dots into the frame buffer. The cursor counts characters;
it is checked against the screen after it has been moved, and the dots of a glyph are stored at
addresses that are only counted on from the first one.

The addresses of the stores are recorded. The arithmetic on `int` wraps like that on `uint32`.
-/

namespace MeOS.ScreenGfx

open Bytes

/-! ## The data -/

/-- `FONT_CHAR_WIDTH`. -/
abbrev fontCharWidth : Nat := 8

/-- `FONT_CHAR_PAD`. -/
abbrev fontCharPad : Nat := 1

/-- `FONT_CHAR_HEIGHT`. -/
abbrev fontCharHeight : Nat := 16

/-- `FONT_ENTRIES`. -/
abbrev fontEntries : Nat := 256

/-- `FONT_SIZE`. -/
abbrev fontSize : Nat := (fontCharWidth + fontCharPad) * fontCharHeight * fontEntries

/-- `INVALID_IO`. -/
abbrev invalidIo : Nat := 4294967295

/-- `point`. -/
structure Point where
  x : Nat
  y : Nat
deriving Repr, DecidableEq

/-- `make_point`: the coordinates are `uint16`. -/
def makePoint (x y : Nat) : Point := ⟨x % 65536, y % 65536⟩

/-- `vbe_mode_info_block`, as far as drawing looks at it. -/
structure VbeModeInfoBlock where
  pitch : Nat
  width : Nat
  height : Nat
  bpp : Nat
  framebuffer : Nat
  width_lt : width < 65536
  height_lt : height < 65536

/-- The variables of the module and the memory. `font` gives the bytes around the start of the font,
`stores` the addresses that pixels have been stored at. -/
structure Screen where
  vbe : VbeModeInfoBlock
  cursor : Point
  charsHorizontal : Nat
  charsVertical : Nat
  foreground : Nat
  background : Nat
  font : Int → UInt8
  fontLoaded : Bool
  screenInitialized : Bool
  mem : Mem
  stores : List Nat

/-- The variables before the first call. -/
def boot (vbe : VbeModeInfoBlock) (font : Int → UInt8) (mem : Mem) : Screen :=
  ⟨vbe, ⟨0, 0⟩, 0, 0, 0, 0, font, false, false, mem, []⟩

/-! ## Glyphs -/

/-- `put_pixel_raw`. -/
def putPixelRaw (index color : Nat) (s : Screen) : Screen :=
  { s with mem := store32 s.mem index color, stores := index :: s.stores }

/-- `get_LFA_index`. -/
def getLfaIndex (vbe : VbeModeInfoBlock) (p : Point) : Nat :=
  add32 (add32 (mul32 p.y vbe.pitch) (p.x * vbe.bpp / 8)) vbe.framebuffer

/-- `increment_LFA_index`. -/
def incrementLfaIndex (vbe : VbeModeInfoBlock) (index : Nat) : Nat := add32 index (vbe.bpp / 8)

/-- `skip_LFA_line`. -/
def skipLfaLine (vbe : VbeModeInfoBlock) (index : Nat) : Nat := add32 index vbe.pitch

/-- The colour of dot `x` in line `y` of the glyph `c`. A `char` is signed, and so is the index. -/
def dotColor (c : Int) (y x : Nat) (s : Screen) : Nat :=
  let width := fontCharWidth + fontCharPad
  if s.font (c * width + y * fontEntries * width + x) ≠ 0 then s.foreground else s.background

/-- The loop over `x` of `_draw_char` from `x` on, with `n` dots left. -/
def drawDots (c : Int) (y : Nat) : Nat → Nat → Nat → Screen → Screen
  | 0, _, _, s => s
  | n + 1, x, vidmem, s =>
    drawDots c y n (x + 1) (incrementLfaIndex s.vbe vidmem)
      (putPixelRaw vidmem (dotColor c y x s) s)

/-- The loop over `y` of `_draw_char` from `y` on, with `n` lines left. -/
def drawLines (c : Int) : Nat → Nat → Nat → Screen → Screen
  | 0, _, _, s => s
  | n + 1, y, startVidmem, s =>
    drawLines c n (y + 1) (skipLfaLine s.vbe startVidmem) (drawDots c y 8 0 startVidmem s)

/-- `_draw_char`. -/
def drawGlyph (c : Int) (p : Point) (s : Screen) : Screen :=
  drawLines c 16 0 (getLfaIndex s.vbe p) s

/-! ## Characters -/

/-- Draw at the cursor. -/
def drawAtCursor (c : Int) (s : Screen) : Screen :=
  drawGlyph c (makePoint (s.cursor.x * 8) (s.cursor.y * 16)) s

/-- The `switch` of `draw_char`. -/
def placeChar (c : Int) (s : Screen) : Screen :=
  if c = 0x08 then
    if s.cursor.x > 0 then
      drawAtCursor 0 { s with cursor := { s.cursor with x := s.cursor.x - 1 } }
    else if s.cursor.y > 0 then
      drawAtCursor 0 { s with cursor := ⟨(s.charsHorizontal + 65535) % 65536, s.cursor.y - 1⟩ }
    else s
  else if c = 0x0d ∨ c = 0x0a then
    { s with cursor := ⟨0, (s.cursor.y + 1) % 65536⟩ }
  else
    let c := if c = 0x09 then 0x20 else c
    let s := drawAtCursor c s
    { s with cursor := { s.cursor with x := (s.cursor.x + 1) % 65536 } }

/-- The end of `draw_char`: the cursor goes to the next line, and from the last line to the
first. -/
def wrapCursor (s : Screen) : Screen :=
  let s :=
    if s.cursor.x ≥ s.charsHorizontal then
      { s with cursor := ⟨0, (s.cursor.y + 1) % 65536⟩ }
    else s
  if s.cursor.y ≥ s.charsVertical then { s with cursor := { s.cursor with y := 0 } } else s

/-- `draw_char`. -/
def drawChar (c : Int) (s : Screen) : Screen :=
  if s.screenInitialized = false then s else wrapCursor (placeChar c s)

/-! ## Texts -/

/-- A byte as a `char`. -/
def asChar (b : UInt8) : Int := b.toInt8.toInt

/-- Draw `n` characters from `ptr` on. -/
def drawCount : Nat → Nat → Screen → Screen
  | 0, _, s => s
  | n + 1, ptr, s => drawCount n (add32 ptr 1) (drawChar (asChar (s.mem ptr)) s)

/-- Draw the characters from `ptr` up to a zero, and return where that is. -/
def drawUntilZero : Nat → Nat → Screen → Screen × Outcome Nat
  | 0, _, s => (s, .running)
  | fuel + 1, ptr, s =>
    if s.mem ptr ≠ 0 then drawUntilZero fuel (add32 ptr 1) (drawChar (asChar (s.mem ptr)) s)
    else (s, .ret ptr)

/-- `screen_gfx_write`. -/
def screenGfxWrite (fuel start count address : Nat) (s : Screen) : Screen × Outcome Nat :=
  if s.fontLoaded = false then (s, .ret invalidIo)
  else
    let ptr := add32 address start
    if count ≠ 0 then (drawCount count ptr s, .ret count)
    else
      let (s, last) := drawUntilZero fuel ptr s
      (s, last >>= fun last => .ret (sub32 last address))

/-- `draw_string`. -/
def drawString (fuel str : Nat) (s : Screen) : Screen :=
  if s.screenInitialized = false then s else (drawUntilZero fuel str s).1

/-- `clear_screen`. -/
def clearScreen (s : Screen) : Screen :=
  let column := fun s : Screen => (drawChar 0)^[s.charsVertical] s
  let s := column^[s.charsHorizontal] s
  { s with cursor := makePoint 0 0 }

/-! ## Initialisation -/

/-- What reading the font file is answered: whether it can be opened, how many bytes are read, and
which. -/
structure FontFile where
  opened : Bool
  bytesRead : Nat
  content : Nat → UInt8

/-- `load_default_font`. -/
def loadDefaultFont (file : FontFile) (s : Screen) : Outcome Screen :=
  if file.opened = false then .ret s
  else if file.bytesRead ≠ fontSize then .panic
  else
    let font := fun i : Int => if 0 ≤ i ∧ i < fontSize then file.content i.toNat else s.font i
    .ret { s with font := font, fontLoaded := true }

/-- `init_screen_gfx`; `mapped` tells whether the frame buffer could be mapped. -/
def initScreenGfx (mapped : Bool) (file : FontFile) (vbe : VbeModeInfoBlock) (s : Screen) :
    Outcome Screen :=
  if mapped = false then .panic
  else do
    let s ← loadDefaultFont file
      { s with
        vbe := vbe
        cursor := makePoint 0 0
        charsHorizontal := vbe.width / 8
        charsVertical := vbe.height / 16 }
    .ret { s with screenInitialized := true }

/-! ## Runs -/

/-- The calls that draw characters or change how they look, and what the rest of the system does to
the memory. -/
inductive Call where
  | drawChar (c : Int)
  | write (start count address : Nat)
  | drawString (str : Nat)
  | clearScreen
  | setForegroundColor (color : Nat)
  | setBackgroundColor (color : Nat)
  | loadDefaultFont (file : FontFile)
  | memory (mem : Mem)

/-- One call; a loop over a string has come as far as `fuel` lets it. -/
def perform (fuel : Nat) (s : Screen) : Call → Screen
  | .drawChar c => drawChar c s
  | .write start count address => (screenGfxWrite fuel start count address s).1
  | .drawString str => drawString fuel str s
  | .clearScreen => clearScreen s
  | .setForegroundColor color => { s with foreground := color &&& 0x00ffffff }
  | .setBackgroundColor color => { s with background := color &&& 0x00ffffff }
  | .loadDefaultFont file =>
    match loadDefaultFont file s with
    | .ret s => s
    | _ => s
  | .memory mem => { s with mem := mem }

/-- The screens that calls lead to. The screens within a text or `clear_screen` are among them: they
come from calls of `draw_char`. -/
inductive Reachable (start : Screen) : Screen → Prop where
  | start : Reachable start start
  | call {s : Screen} (fuel : Nat) (call : Call) :
    Reachable start s → Reachable start (perform fuel s call)

/-! ## Where a glyph is stored -/

section Glyphs

variable {s s' s'' : Screen} {lo hi n x y vidmem startVidmem : Nat} {c : Int} {p : Point}
variable {vbe : VbeModeInfoBlock}

/-- Only the memory changes, by stores between `lo` and `hi`. -/
def Paints (lo hi : Nat) (s s' : Screen) : Prop :=
  ∃ mem stores, s' = { s with mem := mem, stores := stores } ∧
    ∀ a ∈ stores, a ∈ s.stores ∨ lo ≤ a ∧ a + 4 ≤ hi

theorem Paints.refl : Paints lo hi s s := ⟨s.mem, s.stores, rfl, fun _ ha => .inl ha⟩

theorem Paints.trans (h : Paints lo hi s s') (h' : Paints lo hi s' s'') : Paints lo hi s s'' := by
  obtain ⟨mem, stores, rfl, hstores⟩ := h
  obtain ⟨mem', stores', rfl, hstores'⟩ := h'
  refine ⟨mem', stores', rfl, fun a ha => ?_⟩
  rcases hstores' a ha with ha | ha
  · exact hstores a ha
  · exact .inr ha

theorem Paints.vbe_eq (h : Paints lo hi s s') : s'.vbe = s.vbe := by
  obtain ⟨_, _, rfl, _⟩ := h
  rfl

theorem putPixelRaw_paints {color : Nat} (hlo : lo ≤ vidmem) (hhi : vidmem + 4 ≤ hi) :
    Paints lo hi s (putPixelRaw vidmem color s) := by
  refine ⟨_, _, rfl, fun a ha => ?_⟩
  rcases List.mem_cons.mp ha with rfl | ha
  · exact .inr ⟨hlo, hhi⟩
  · exact .inl ha

/-- The dots of a line stay where there is room for each. -/
theorem drawDots_paints (hbpp : s.vbe.bpp = 32) (hmax : hi ≤ 4294967296)
    (hroom : ∀ k < n, lo ≤ vidmem + 4 * k ∧ vidmem + 4 * k + 4 ≤ hi) :
    Paints lo hi s (drawDots c y n x vidmem s) := by
  induction n generalizing x vidmem s with
  | zero => exact Paints.refl
  | succ n ih =>
    have hfirst := hroom 0 (by omega)
    have hpixel : Paints lo hi s (putPixelRaw vidmem (dotColor c y x s) s) :=
      putPixelRaw_paints (by omega) (by omega)
    refine hpixel.trans (ih hbpp fun k hk => ?_)
    -- there is another dot, so counting on does not wrap
    have hnext := hroom (k + 1) (by omega)
    have hindex : incrementLfaIndex s.vbe vidmem = vidmem + 4 := by
      rw [incrementLfaIndex, hbpp]
      exact add32_eq (by omega)
    rw [hindex]
    omega

/-- The lines of a glyph stay where there is room for each. -/
theorem drawLines_paints (hbpp : s.vbe.bpp = 32) (hmax : hi ≤ 4294967296)
    (hroom : ∀ k < n, lo ≤ startVidmem + k * s.vbe.pitch ∧
      startVidmem + k * s.vbe.pitch + 32 ≤ hi) :
    Paints lo hi s (drawLines c n y startVidmem s) := by
  induction n generalizing y startVidmem s with
  | zero => exact Paints.refl
  | succ n ih =>
    have hfirst := hroom 0 (by omega)
    have hline : Paints lo hi s (drawDots c y 8 0 startVidmem s) :=
      drawDots_paints hbpp hmax fun k hk => by omega
    refine hline.trans (ih (by rw [hline.vbe_eq, hbpp]) fun k hk => ?_)
    have hnext := hroom (k + 1) (by omega)
    rw [Nat.add_mul, Nat.one_mul] at hnext
    have hindex : skipLfaLine s.vbe startVidmem = startVidmem + s.vbe.pitch :=
      add32_eq (by omega)
    rw [hline.vbe_eq, hindex]
    omega

/-- A mode of 32 bits per pixel with room for a character, whose frame buffer is below
`2 ^ 32`. -/
structure Fits (vbe : VbeModeInfoBlock) : Prop where
  bpp : vbe.bpp = 32
  width : 8 ≤ vbe.width
  height : 16 ≤ vbe.height
  pitch : 4 * vbe.width ≤ vbe.pitch
  below : vbe.framebuffer + vbe.pitch * vbe.height ≤ 4294967296

/-- The end of the frame buffer. -/
def frameEnd (vbe : VbeModeInfoBlock) : Nat := vbe.framebuffer + vbe.pitch * vbe.height

/-- The dots `x` to `x + 7` of line `y` are in the frame buffer. -/
theorem line_inside (h : Fits vbe) (hx : x + 8 ≤ vbe.width) (hy : y < vbe.height) :
    vbe.framebuffer + y * vbe.pitch + 4 * x + 32 ≤ frameEnd vbe := by
  have hpitch := h.pitch
  have hline : (y + 1) * vbe.pitch ≤ vbe.height * vbe.pitch := Nat.mul_le_mul_right _ hy
  rw [Nat.add_mul, Nat.one_mul] at hline
  unfold frameEnd
  rw [Nat.mul_comm vbe.pitch]
  omega

theorem getLfaIndex_eq (h : Fits vbe) (hx : p.x + 8 ≤ vbe.width) (hy : p.y < vbe.height) :
    getLfaIndex vbe p = vbe.framebuffer + p.y * vbe.pitch + 4 * p.x := by
  have hinside := line_inside h hx hy
  have hbelow : frameEnd vbe ≤ 4294967296 := h.below
  have hbytes : p.x * vbe.bpp / 8 = 4 * p.x := by
    rw [h.bpp]
    omega
  have hsum : add32 (p.y * vbe.pitch) (4 * p.x) = p.y * vbe.pitch + 4 * p.x :=
    add32_eq (by omega)
  rw [getLfaIndex, hbytes, mul32_eq (by omega), hsum, add32_eq (by omega)]
  omega

/-- A glyph on the screen is stored in the frame buffer. -/
theorem drawGlyph_paints (h : Fits s.vbe) (hx : p.x + 8 ≤ s.vbe.width)
    (hy : p.y + 16 ≤ s.vbe.height) :
    Paints s.vbe.framebuffer (frameEnd s.vbe) s (drawGlyph c p s) := by
  unfold drawGlyph
  rw [getLfaIndex_eq h hx (by omega)]
  refine drawLines_paints h.bpp h.below fun k hk => ?_
  have hinside := line_inside h hx (y := p.y + k) (by omega)
  rw [Nat.add_mul] at hinside
  omega

end Glyphs

/-! ## The invariant -/

section Invariant

variable {vbe : VbeModeInfoBlock} {s s' : Screen} {c : Int} {n fuel ptr : Nat}

/-- The screen has the size of the mode, and all pixels are in the frame buffer. -/
structure Drawn (vbe : VbeModeInfoBlock) (s : Screen) : Prop where
  vbe_eq : s.vbe = vbe
  horizontal : s.charsHorizontal = vbe.width / 8
  vertical : s.charsVertical = vbe.height / 16
  stores : ∀ a ∈ s.stores, vbe.framebuffer ≤ a ∧ a + 4 ≤ frameEnd vbe

/-- The cursor is on the screen, too. -/
structure Inv (vbe : VbeModeInfoBlock) (s : Screen) : Prop extends Drawn vbe s where
  x_lt : s.cursor.x < vbe.width / 8
  y_lt : s.cursor.y < vbe.height / 16

/-- What only paints the frame buffer keeps what has been drawn. -/
theorem Drawn.paints (hs : Drawn vbe s) (h : Paints vbe.framebuffer (frameEnd vbe) s s') :
    Drawn vbe s' := by
  obtain ⟨mem, stores, rfl, hstores⟩ := h
  refine ⟨hs.vbe_eq, hs.horizontal, hs.vertical, fun a ha => ?_⟩
  rcases hstores a ha with ha | ha
  · exact hs.stores a ha
  · exact ha

theorem Drawn.setCursor {cursor : Point} (hs : Drawn vbe s) :
    Drawn vbe { s with cursor := cursor } :=
  ⟨hs.vbe_eq, hs.horizontal, hs.vertical, hs.stores⟩

/-- Colours, font and memory do not matter. -/
theorem Inv.other {foreground background : Nat} {font : Int → UInt8}
    {fontLoaded screenInitialized : Bool} {mem : Mem} (hs : Inv vbe s) :
    Inv vbe { s with
      foreground := foreground
      background := background
      font := font
      fontLoaded := fontLoaded
      screenInitialized := screenInitialized
      mem := mem } :=
  ⟨⟨hs.vbe_eq, hs.horizontal, hs.vertical, hs.stores⟩, hs.x_lt, hs.y_lt⟩

/-- A character at a cursor on the screen is drawn in the frame buffer. -/
theorem drawAtCursor_drawn (h : Fits vbe) (hs : Inv vbe s) : Drawn vbe (drawAtCursor c s) := by
  have hx := hs.x_lt
  have hy := hs.y_lt
  have hwidth := vbe.width_lt
  have hheight := vbe.height_lt
  obtain rfl := hs.vbe_eq
  refine hs.toDrawn.paints (drawGlyph_paints h ?_ ?_)
  · show s.cursor.x * 8 % 65536 + 8 ≤ s.vbe.width
    omega
  · show s.cursor.y * 16 % 65536 + 16 ≤ s.vbe.height
    omega

/-- Wherever the cursor has been moved, it comes back to the screen. -/
theorem wrapCursor_inv (h : Fits vbe) (hs : Drawn vbe s) : Inv vbe (wrapCursor s) := by
  have hcols : 0 < vbe.width / 8 := Nat.div_pos h.width (by decide)
  have hrows : 0 < vbe.height / 16 := Nat.div_pos h.height (by decide)
  have hx := hs.horizontal
  have hy := hs.vertical
  unfold wrapCursor
  by_cases hright : s.cursor.x ≥ s.charsHorizontal
  · by_cases hlast : (s.cursor.y + 1) % 65536 ≥ s.charsVertical
    · simp only [hright, hlast, if_true]
      exact ⟨hs.setCursor, hcols, hrows⟩
    · simp only [hright, hlast, if_true, if_false]
      exact ⟨hs.setCursor, hcols, hy ▸ Nat.lt_of_not_le hlast⟩
  · by_cases hlast : s.cursor.y ≥ s.charsVertical
    · simp only [hright, hlast, if_true, if_false]
      exact ⟨hs.setCursor, hx ▸ Nat.lt_of_not_le hright, hrows⟩
    · simp only [hright, hlast, if_false]
      exact ⟨hs, hx ▸ Nat.lt_of_not_le hright, hy ▸ Nat.lt_of_not_le hlast⟩

theorem placeChar_drawn (h : Fits vbe) (hs : Inv vbe s) : Drawn vbe (placeChar c s) := by
  have hx := hs.x_lt
  have hy := hs.y_lt
  have hwidth := vbe.width_lt
  unfold placeChar
  by_cases hback : c = 0x08
  · rw [if_pos hback]
    by_cases hcol : s.cursor.x > 0
    · rw [if_pos hcol]
      have hleft : s.cursor.x - 1 < vbe.width / 8 := by
        omega
      exact drawAtCursor_drawn h ⟨hs.setCursor, hleft, hy⟩
    · rw [if_neg hcol]
      by_cases hrow : s.cursor.y > 0
      · rw [if_pos hrow]
        -- the last character of the line above
        have hlast : (s.charsHorizontal + 65535) % 65536 < vbe.width / 8 := by
          rw [hs.horizontal]
          omega
        have habove : s.cursor.y - 1 < vbe.height / 16 := by
          omega
        exact drawAtCursor_drawn h ⟨hs.setCursor, hlast, habove⟩
      · rw [if_neg hrow]
        exact hs.toDrawn
  · rw [if_neg hback]
    by_cases hline : c = 0x0d ∨ c = 0x0a
    · rw [if_pos hline]
      exact hs.setCursor
    · rw [if_neg hline]
      exact (drawAtCursor_drawn h hs).setCursor

/-- A character leaves the cursor on the screen. -/
theorem drawChar_inv (h : Fits vbe) (hs : Inv vbe s) : Inv vbe (drawChar c s) := by
  unfold drawChar
  by_cases hinit : s.screenInitialized = false
  · rwa [if_pos hinit]
  · rw [if_neg hinit]
    exact wrapCursor_inv h (placeChar_drawn h hs)

theorem drawCount_inv (h : Fits vbe) (hs : Inv vbe s) : Inv vbe (drawCount n ptr s) := by
  induction n generalizing ptr s with
  | zero => exact hs
  | succ n ih => exact ih (drawChar_inv h hs)

theorem drawUntilZero_inv (h : Fits vbe) (hs : Inv vbe s) :
    Inv vbe (drawUntilZero fuel ptr s).1 := by
  induction fuel generalizing ptr s with
  | zero => exact hs
  | succ fuel ih =>
    unfold drawUntilZero
    by_cases hmore : s.mem ptr ≠ 0
    · rw [if_pos hmore]
      exact ih (drawChar_inv h hs)
    · rw [if_neg hmore]
      exact hs

theorem screenGfxWrite_inv {start count address : Nat} (h : Fits vbe) (hs : Inv vbe s) :
    Inv vbe (screenGfxWrite fuel start count address s).1 := by
  unfold screenGfxWrite
  by_cases hfont : s.fontLoaded = false
  · rwa [if_pos hfont]
  · rw [if_neg hfont]
    by_cases hcount : count ≠ 0
    · simp only [if_pos hcount]
      exact drawCount_inv h hs
    · simp only [if_neg hcount]
      exact drawUntilZero_inv h hs

theorem drawString_inv (h : Fits vbe) (hs : Inv vbe s) : Inv vbe (drawString fuel ptr s) := by
  unfold drawString
  by_cases hinit : s.screenInitialized = false
  · rwa [if_pos hinit]
  · rw [if_neg hinit]
    exact drawUntilZero_inv h hs

theorem clearScreen_inv (h : Fits vbe) (hs : Inv vbe s) : Inv vbe (clearScreen s) := by
  have hcolumn : ∀ s, Inv vbe s → Inv vbe ((drawChar 0)^[s.charsVertical] s) :=
    fun s hs => Function.Iterate.rec (Inv vbe) hs (fun _ => drawChar_inv h) _
  have hdrawn := Function.Iterate.rec (Inv vbe) hs hcolumn s.charsHorizontal
  exact ⟨hdrawn.setCursor, Nat.div_pos h.width (by decide), Nat.div_pos h.height (by decide)⟩

theorem loadDefaultFont_inv {file : FontFile} (hs : Inv vbe s)
    (hload : loadDefaultFont file s = .ret s') : Inv vbe s' := by
  unfold loadDefaultFont at hload
  by_cases hopened : file.opened = false
  · rw [if_pos hopened] at hload
    injection hload with hload
    rwa [← hload]
  · rw [if_neg hopened] at hload
    by_cases hread : file.bytesRead ≠ fontSize
    · rw [if_pos hread] at hload
      cases hload
    · rw [if_neg hread] at hload
      injection hload with hload
      rw [← hload]
      exact hs.other

/-- Every call leaves the cursor on the screen. -/
theorem perform_inv (h : Fits vbe) (hs : Inv vbe s) (call : Call) :
    Inv vbe (perform fuel s call) := by
  cases call with
  | drawChar c => exact drawChar_inv h hs
  | write start count address => exact screenGfxWrite_inv h hs
  | drawString str => exact drawString_inv h hs
  | clearScreen => exact clearScreen_inv h hs
  | setForegroundColor color => exact hs.other
  | setBackgroundColor color => exact hs.other
  | loadDefaultFont file =>
    cases hload : loadDefaultFont file s with
    | ret s' =>
      simp only [perform, hload]
      exact loadDefaultFont_inv hs hload
    | panic => simpa only [perform, hload] using hs
    | undefined => simpa only [perform, hload] using hs
    | running => simpa only [perform, hload] using hs
  | memory mem => exact hs.other

/-- `init_screen_gfx` has stored nothing, and has the cursor in the corner. -/
theorem initScreenGfx_inv {mapped : Bool} {file : FontFile} {font : Int → UInt8} {mem : Mem}
    {start : Screen} (h : Fits vbe)
    (hinit : initScreenGfx mapped file vbe (boot vbe font mem) = .ret start) : Inv vbe start := by
  unfold initScreenGfx at hinit
  by_cases hmapped : mapped = false
  · rw [if_pos hmapped] at hinit
    cases hinit
  · rw [if_neg hmapped, Outcome.bind_eq_ret] at hinit
    obtain ⟨s, hload, hret⟩ := hinit
    injection hret with hret
    have hcols : 0 < vbe.width / 8 := Nat.div_pos h.width (by decide)
    have hrows : 0 < vbe.height / 16 := Nat.div_pos h.height (by decide)
    have hs : Inv vbe s :=
      loadDefaultFont_inv ⟨⟨rfl, rfl, rfl, fun a ha => absurd ha List.not_mem_nil⟩, hcols, hrows⟩
        hload
    rw [← hret]
    exact hs.other

/-- The invariant holds in every run. -/
theorem reachable_inv {start : Screen} (h : Fits vbe) (hstart : Inv vbe start)
    (hs : Reachable start s) : Inv vbe s := by
  induction hs with
  | start => exact hstart
  | call fuel call _ ih => exact perform_inv h ih call

/-- Whatever is written to the console after its initialisation, the cursor is on the screen and
every pixel has been stored in the frame buffer. -/
theorem console_onScreen {mapped : Bool} {file : FontFile} {font : Int → UInt8} {mem : Mem}
    {start : Screen} (hbpp : vbe.bpp = 32) (hwidth : 8 ≤ vbe.width) (hheight : 16 ≤ vbe.height)
    (hpitch : 4 * vbe.width ≤ vbe.pitch)
    (hbelow : vbe.framebuffer + vbe.pitch * vbe.height ≤ 4294967296)
    (hinit : initScreenGfx mapped file vbe (boot vbe font mem) = .ret start)
    (hs : Reachable start s) :
    (s.cursor.x < vbe.width / 8 ∧ s.cursor.y < vbe.height / 16) ∧
      ∀ a ∈ s.stores,
        vbe.framebuffer ≤ a ∧ a + 4 ≤ vbe.framebuffer + vbe.pitch * vbe.height := by
  have hfits : Fits vbe := ⟨hbpp, hwidth, hheight, hpitch, hbelow⟩
  have hinv := reachable_inv hfits (initScreenGfx_inv hfits hinit) hs
  exact ⟨⟨hinv.x_lt, hinv.y_lt⟩, hinv.stores⟩

/-- A mode whose width is not a multiple of 8. -/
def panel : VbeModeInfoBlock := ⟨5504, 1366, 768, 32, 3758096384, by decide, by decide⟩

/-- The screen after its initialisation, without a font. -/
def panelScreen : Screen :=
  { boot panel (fun _ => 0) (fun _ => 0) with
    charsHorizontal := 170
    charsVertical := 48
    screenInitialized := true }

theorem console_onScreen_panel :
    ((drawChar 65 panelScreen).cursor.x < panel.width / 8 ∧
      (drawChar 65 panelScreen).cursor.y < panel.height / 16) ∧
      ∀ a ∈ (drawChar 65 panelScreen).stores, panel.framebuffer ≤ a ∧
        a + 4 ≤ panel.framebuffer + panel.pitch * panel.height := by
  have hinit : initScreenGfx true ⟨false, 0, fun _ => 0⟩ panel
      (boot panel (fun _ => 0) fun _ => 0) = .ret panelScreen := rfl
  exact console_onScreen rfl (by decide) (by decide) (by decide) (by decide) hinit
    (.call 0 (.drawChar 65) .start)

/-- A backspace at the start of a line goes to the end of the line above. -/
example : (drawChar 8 { panelScreen with cursor := ⟨0, 3⟩ }).cursor = ⟨169, 2⟩ := by decide

end Invariant

end MeOS.ScreenGfx
