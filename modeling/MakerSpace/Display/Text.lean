import MakerSpace.Display.Gfx
import MakerSpace.Raster.TextGrid

/-! Text on the display, `Adafruit_GFX::write`.

Each byte of a text draws a character at the cursor and moves it on, or starts a line.
As long as the cursor stays on the grid of cells the text size makes (`AtCell`), the text
is laid out as `TextGrid.layout` says, and no character paints another's cell:
`print_shows` reads every pixel off the layout. -/
namespace MakerSpace.Display
open Raster TextGrid

variable {p : Panel}

/-- The text settings, and the buffer. No custom font is set. -/
structure Screen (p : Panel) where
  cursorX : Int := 0
  cursorY : Int := 0
  textcolor : BitVec 16 := 0xFFFF
  textbgcolor : BitVec 16 := 0xFFFF
  textsizeX : Nat := 1
  textsizeY : Nat := 1
  wrap : Bool := true
  cp437 : Bool := false
  buffer : Buffer p := clearDisplay
  sizeX : 1 ≤ textsizeX ∧ textsizeX ≤ 255 := by decide
  sizeY : 1 ≤ textsizeY ∧ textsizeY ≤ 255 := by decide

def setCursor (x y : Int) (s : Screen p) : Screen p := {s with cursorX := x, cursorY := y}

/-- Text in one color, with no background of its own. -/
def setTextColor (color : BitVec 16) (s : Screen p) : Screen p :=
  {s with textcolor := color, textbgcolor := color}

def textSize (size : BitVec 8) : Nat := if size.toNat > 0 then size.toNat else 1

theorem textSize_range (size : BitVec 8) : 1 ≤ textSize size ∧ textSize size ≤ 255 := by
  have := size.isLt
  unfold textSize
  split <;> omega

def setTextSize (size : BitVec 8) (s : Screen p) : Screen p :=
  {s with
    textsizeX := textSize size, textsizeY := textSize size
    sizeX := textSize_range size, sizeY := textSize_range size}

/-- Column zero, one line on. -/
def Screen.newline (s : Screen p) : Screen p :=
  {s with cursorX := 0, cursorY := int16 (s.cursorY + s.textsizeY * 8)}

def write (font : Nat → BitVec 8) (c : BitVec 8) (s : Screen p) : Option (Screen p) :=
  if c = 10 then some s.newline
  else if c = 13 then some s
  else
    -- off right?
    let s := if s.wrap && s.cursorX + s.textsizeX * 6 > p.width then s.newline else s
    (drawChar font s.cp437 s.cursorX s.cursorY c s.textcolor s.textbgcolor s.textsizeX s.textsizeY
      s.buffer).map fun buf =>
        {s with buffer := buf, cursorX := int16 (s.cursorX + s.textsizeX * 6)}

def print (font : Nat → BitVec 8) (text : List (BitVec 8)) (s : Screen p) : Option (Screen p) :=
  text.foldlM (fun s c => write font c s) s

/-! ### On the grid -/

def keyOf (c : BitVec 8) : Key (BitVec 8) :=
  if c = 10 then .newline else if c = 13 then .skip else .glyph c

/-- How many characters fit a row. -/
def Screen.cols (s : Screen p) : Nat := p.width / (6 * s.textsizeX)

/-- The cursor is at the corner of the cell. -/
structure AtCell (s : Screen p) (cell : Cell) : Prop where
  x : s.cursorX = (6 * cell.col * s.textsizeX : Nat)
  y : s.cursorY = (8 * cell.row * s.textsizeY : Nat)

/-- The cell a pixel is in. -/
def Screen.cellOf (s : Screen p) (x y : Int) : Cell :=
  ⟨(y / s.textsizeY / 8).toNat, (x / s.textsizeX / 6).toNat⟩

/-- Whether the character has its pixel lit in a cell. -/
def Screen.lit (font : Nat → BitVec 8) (s : Screen p) (c : BitVec 8) (x y : Int) : Bool :=
  charLit font (charCode s.cp437 c) (x / s.textsizeX % 6) (y / s.textsizeY % 8)

/-- What a character of the text does to a pixel of its cell. -/
def Screen.inkOf (font : Nat → BitVec 8) (s : Screen p) (c : BitVec 8) (x y : Int) : Bool → Bool :=
  if s.lit font c x y then ink s.textcolor else ink s.textbgcolor

/-- Moved on, with something drawn. -/
def Screen.moved (s : Screen p) (cell : Cell) (buf : Buffer p) : Screen p :=
  {s with
    cursorX := (6 * cell.col * s.textsizeX : Nat), cursorY := (8 * cell.row * s.textsizeY : Nat)
    buffer := buf}

theorem Screen.moved_atCell (s : Screen p) (cell : Cell) (buf : Buffer p) :
    AtCell (s.moved cell buf) cell := ⟨rfl, rfl⟩

theorem AtCell.moved {s : Screen p} {cell : Cell} (h : AtCell s cell) : s.moved cell s.buffer = s := by
  rw [Screen.moved, ← h.x, ← h.y]

/-- A place of the panel lies in a character's cells when it is in its cell of the grid. -/
theorem cell_of_corner {s : Nat} (hs : 1 ≤ s) (n a : Nat) {t : Int} (ht : 0 ≤ t) (hn : 0 < n) :
    (0 ≤ (t - ((n * a * s : Nat) : Int)) / s ∧ (t - ((n * a * s : Nat) : Int)) / s < n ↔
      (t / s / n).toNat = a) ∧
    ((t / s / n).toNat = a → (t - ((n * a * s : Nat) : Int)) / s = t / s % n) := by
  have hpos : (0 : Int) < s := by omega
  have hq : 0 ≤ t / s := Int.ediv_nonneg ht (Int.le_of_lt hpos)
  have hshift : (t - ((n * a * s : Nat) : Int)) / s = t / s - (n * a : Nat) := by
    rw [Int.natCast_mul (n * a) s]
    exact Int.sub_mul_ediv_right _ _ (Int.ne_of_gt hpos)
  have hcell := cell_iff (by omega : 1 ≤ n) 0 (t / s) a
  have hdiv : 0 ≤ t / s / n := Int.ediv_nonneg hq (by omega)
  have hmul : ((n * a : Nat) : Int) = a * n := by rw [Int.natCast_mul, Int.mul_comm]
  rw [Int.sub_zero, Int.zero_add, ← hmul] at hcell
  have hiff : (t / s / n).toNat = a ↔ t / s / n = a := by omega
  rw [hshift, hiff]
  refine ⟨by omega, fun h => ?_⟩
  rw [Int.emod_def, h, hmul, Int.mul_comm]

/-- Whether the character has anything to draw there. -/
def Screen.drawn (font : Nat → BitVec 8) (s : Screen p) (c : BitVec 8) (x y : Int) : Prop :=
  s.lit font c x y = true ∨ s.textbgcolor ≠ s.textcolor

/-- The places the characters of a layout draw on. -/
def Screen.text (font : Nat → BitVec 8) (s : Screen p) (placed : List (Cell × BitVec 8)) (x y : Int) :
    Prop :=
  ∃ q ∈ placed, s.cellOf x y = q.1 ∧ s.drawn font q.2 x y

/-- The cells of a character at the cursor are those of the cursor's cell. -/
theorem AtCell.corner {s : Screen p} {cell : Cell} (hs : AtCell s cell) {x y : Int} (hx : 0 ≤ x)
    (hy : 0 ≤ y) :
    ((0 ≤ (x - s.cursorX) / s.textsizeX ∧ (x - s.cursorX) / s.textsizeX < 6) ∧
        0 ≤ (y - s.cursorY) / s.textsizeY ∧ (y - s.cursorY) / s.textsizeY < 8 ↔
      s.cellOf x y = cell) ∧
    (s.cellOf x y = cell → (x - s.cursorX) / s.textsizeX = x / s.textsizeX % 6 ∧
      (y - s.cursorY) / s.textsizeY = y / s.textsizeY % 8) := by
  have hcol := cell_of_corner s.sizeX.1 6 cell.col hx (by decide)
  have hrow := cell_of_corner s.sizeY.1 8 cell.row hy (by decide)
  rw [← hs.x] at hcol
  rw [← hs.y] at hrow
  have hiff : s.cellOf x y = cell ↔
      (x / s.textsizeX / 6).toNat = cell.col ∧ (y / s.textsizeY / 8).toNat = cell.row := by
    rw [Screen.cellOf, Cell.ext_iff, and_comm]
  rw [hiff]
  exact ⟨and_congr hcol.1 hrow.1, fun h => ⟨hcol.2 h.1, hrow.2 h.2⟩⟩

/-- A character at the corner of a cell stays in the cell. -/
theorem drawChar_cell (font : Nat → BitVec 8) {s : Screen p} {cell : Cell} (hs : AtCell s cell)
    (hcolor : Known s.textcolor) (hbg : Known s.textbgcolor) (c : BitVec 8) :
    ∃ buf', drawChar font s.cp437 s.cursorX s.cursorY c s.textcolor s.textbgcolor s.textsizeX
        s.textsizeY s.buffer = some buf' ∧
      Paints (fun k : Place p => s.inkOf font c (p.logical k).1 (p.logical k).2)
        (p.onPanel (s.text font [(cell, c)])) (pixel s.buffer) (pixel buf') := by
  obtain ⟨buf', hdraw, hpaint⟩ := drawChar_paints font s.cp437 c hcolor hbg s.cursorX s.cursorY
    s.sizeX s.sizeY s.buffer
  have hcorner : ∀ k : Place p, k.2 < p.rawHeight → _ := fun k hrow =>
    hs.corner (p.logical_inBounds k hrow).1 (p.logical_inBounds k hrow).2.2.1
  refine ⟨buf', hdraw, hpaint.congr (fun k => ?_) fun k hk => ?_⟩
  · refine and_congr_right fun hrow => ?_
    obtain ⟨hcell, hbit⟩ := hcorner k hrow
    simp only [Screen.text, List.mem_singleton, exists_eq_left]
    rw [hcell]
    refine and_congr_right fun hsame => ?_
    rw [charDrawn, (hbit hsame).1, (hbit hsame).2, Screen.drawn, Screen.lit]
  · obtain ⟨hrow, hin, -⟩ := hk
    obtain ⟨hcell, hbit⟩ := hcorner k hrow
    obtain ⟨hcol, hline⟩ := hbit (hcell.mp hin)
    rw [charInk, hcol, hline, Screen.inkOf, Screen.lit]

theorem Screen.col_lt_iff (s : Screen p) (col : Nat) :
    col < s.cols ↔ 6 * (col + 1) * s.textsizeX ≤ p.width := by
  have hpos : 0 < 6 * s.textsizeX := by
    have := s.sizeX.1
    omega
  rw [cols, ← Nat.add_one_le_iff, Nat.le_div_iff_mul_le hpos, Nat.mul_comm 6 (col + 1), Nat.mul_assoc]

theorem Panel.width_le (p : Panel) : p.width ≤ 255 := by
  have := p.widthByte
  have := p.heightByte
  rw [Panel.width]
  split <;> omega

/-- A line break, or the wrap at the end of a row. -/
theorem AtCell.newline {s : Screen p} {cell : Cell} (hs : AtCell s cell)
    (hrow : 8 * (cell.row + 1) * s.textsizeY ≤ 32767) :
    s.newline = s.moved ⟨cell.row + 1, 0⟩ s.buffer := by
  have hy : s.cursorY + s.textsizeY * 8 = ((8 * (cell.row + 1) * s.textsizeY : Nat) : Int) := by
    rw [hs.y, Nat.mul_add, Nat.add_mul]
    omega
  have hid : int16 (s.cursorY + s.textsizeY * 8) = ((8 * (cell.row + 1) * s.textsizeY : Nat) : Int) := by
    rw [hy, int16]
    omega
  rw [Screen.newline, Screen.moved, hid]
  simp

/-- A glyph wraps when its cell does. -/
theorem AtCell.wrapped {s : Screen p} {cell : Cell} (hs : AtCell s cell) (hwrap : s.wrap = true)
    (hrow : 8 * (cell.wrapped s.cols).row * s.textsizeY ≤ 32767) :
    (if s.wrap && s.cursorX + s.textsizeX * 6 > p.width then s.newline else s) =
      s.moved (cell.wrapped s.cols) s.buffer := by
  have hx : s.cursorX + s.textsizeX * 6 = ((6 * (cell.col + 1) * s.textsizeX : Nat) : Int) := by
    rw [hs.x, Nat.mul_add, Nat.add_mul]
    omega
  have hfits := s.col_lt_iff cell.col
  rw [hwrap, Bool.true_and, hx]
  unfold Cell.wrapped at hrow ⊢
  by_cases hlt : cell.col < s.cols
  · have hroom := hfits.mp hlt
    rw [if_pos hlt, if_neg (by rw [decide_eq_true_eq]; omega), hs.moved]
  · have hfull : ¬6 * (cell.col + 1) * s.textsizeX ≤ p.width := fun h => hlt (hfits.mpr h)
    rw [if_neg hlt] at hrow
    rw [if_neg hlt, if_pos (by rw [decide_eq_true_eq]; omega)]
    exact hs.newline hrow

theorem nothing_drawn (font : Nat → BitVec 8) (s : Screen p) (f : Place p → Bool → Bool) :
    Paints f (p.onPanel (s.text font [])) (pixel s.buffer) (pixel s.buffer) :=
  .nothing _ (fun k hk => by
    obtain ⟨-, q, hq, -⟩ := hk
    cases hq) _

/-- **One byte of a text**: a glyph is drawn in its cell, and the cursor stays on the grid. -/
theorem write_grid (font : Nat → BitVec 8) {s : Screen p} {cell : Cell} (hs : AtCell s cell)
    (hwrap : s.wrap = true) (hcols : 0 < s.cols) (hcolor : Known s.textcolor)
    (hbg : Known s.textbgcolor) (c : BitVec 8)
    (hrow : 8 * (cell.step s.cols (keyOf c)).row * s.textsizeY ≤ 32767) :
    ∃ buf', write font c s = some (s.moved (cell.step s.cols (keyOf c)) buf') ∧
      Paints (fun k : Place p => s.inkOf font c (p.logical k).1 (p.logical k).2)
        (p.onPanel (s.text font (layout s.cols cell [keyOf c]))) (pixel s.buffer) (pixel buf') := by
  rw [write]
  by_cases hbreak : c = 10
  · have hkey : keyOf c = .newline := if_pos hbreak
    rw [if_pos hbreak]
    rw [hkey] at hrow ⊢
    exact ⟨s.buffer, congrArg some (hs.newline hrow), nothing_drawn font s _⟩
  · by_cases hreturn : c = 13
    · have hkey : keyOf c = .skip := by rw [keyOf, if_neg hbreak, if_pos hreturn]
      rw [if_neg hbreak, if_pos hreturn, hkey]
      exact ⟨s.buffer, congrArg some hs.moved.symm, nothing_drawn font s _⟩
    · have hkey : keyOf c = .glyph c := by rw [keyOf, if_neg hbreak, if_neg hreturn]
      rw [hkey] at hrow ⊢
      rw [if_neg hbreak, if_neg hreturn, hs.wrapped hwrap hrow]
      obtain ⟨buf', hdraw, hpaint⟩ :=
        drawChar_cell font (s.moved_atCell (cell.wrapped s.cols) s.buffer) hcolor hbg c
      have hlt := (s.col_lt_iff _).mp (wrapped_col_lt hcols cell)
      have hid : int16 ((s.moved (cell.wrapped s.cols) s.buffer).cursorX + s.textsizeX * 6) =
          ((6 * ((cell.wrapped s.cols).col + 1) * s.textsizeX : Nat) : Int) := by
        have hwidth := p.width_le
        have hx : (s.moved (cell.wrapped s.cols) s.buffer).cursorX =
          ((6 * (cell.wrapped s.cols).col * s.textsizeX : Nat) : Int) := rfl
        rw [Nat.mul_add, Nat.add_mul] at hlt ⊢
        rw [hx, int16]
        omega
      refine ⟨buf', ?_, hpaint⟩
      show Option.map _ (drawChar ..) = _
      rw [hdraw, Option.map_some]
      exact congrArg (fun x => some {s.moved (cell.wrapped s.cols) buf' with cursorX := x}) hid

theorem layout_keyOf {cols : Nat} {cell : Cell} {c : BitVec 8} {q : Cell × BitVec 8}
    (h : q ∈ layout cols cell [keyOf c]) : q.2 = c := by
  unfold keyOf at h
  split at h
  · cases h
  · split at h
    · cases h
    · obtain rfl := List.mem_singleton.mp h
      rfl

/-- **A text** is painted cell by cell, and the cursor ends up where the layout does. -/
theorem print_paints (font : Nat → BitVec 8) (text : List (BitVec 8)) {s : Screen p} {cell : Cell}
    (hs : AtCell s cell) (hwrap : s.wrap = true) (hcols : 0 < s.cols) (hcolor : Known s.textcolor)
    (hbg : Known s.textbgcolor)
    (hrows : 8 * (finish s.cols cell (text.map keyOf)).row * s.textsizeY ≤ 32767)
    (f : Int → Int → Bool → Bool)
    (hf : ∀ q ∈ layout s.cols cell (text.map keyOf), ∀ x y, s.cellOf x y = q.1 →
      f x y = s.inkOf font q.2 x y) :
    ∃ buf', print font text s = some (s.moved (finish s.cols cell (text.map keyOf)) buf') ∧
      Paints (fun k : Place p => f (p.logical k).1 (p.logical k).2)
        (p.onPanel (s.text font (layout s.cols cell (text.map keyOf)))) (pixel s.buffer) (pixel buf') := by
  induction text generalizing s cell with
  | nil => exact ⟨s.buffer, congrArg some hs.moved.symm, nothing_drawn font s _⟩
  | cons c rest ih =>
    rw [List.map_cons, layout_cons] at hf ⊢
    have hrow : 8 * (cell.step s.cols (keyOf c)).row * s.textsizeY ≤ 32767 :=
      Nat.le_trans (Nat.mul_le_mul_right _ (Nat.mul_le_mul_left 8 (row_le_finish s.cols _ _))) hrows
    obtain ⟨buf₁, hwrite, hpaint⟩ := write_grid font hs hwrap hcols hcolor hbg c hrow
    obtain ⟨buf', hprint, hpaint'⟩ := @ih (s.moved (cell.step s.cols (keyOf c)) buf₁) _
      (s.moved_atCell _ buf₁) hwrap hcols hcolor hbg hrows
      (fun q hq => hf q (List.mem_append_right _ hq))
    have hfirst : Paints (fun k : Place p => f (p.logical k).1 (p.logical k).2)
        (p.onPanel (s.text font (layout s.cols cell [keyOf c]))) (pixel s.buffer) (pixel buf₁) := by
      refine hpaint.congr (fun k => Iff.rfl) fun k hk => ?_
      obtain ⟨-, q, hq, hcell, -⟩ := hk
      rw [hf q (List.mem_append_left _ hq) _ _ hcell, layout_keyOf hq]
    refine ⟨buf', ?_, (hfirst.union hpaint' fun k hk hk' => ?_).congr (fun k => ?_) fun _ _ => rfl⟩
    · rw [print, List.foldlM_cons, hwrite]
      exact hprint
    · obtain ⟨-, q, hq, hcell, -⟩ := hk
      obtain ⟨-, q', hq', hcell', -⟩ := hk'
      have hdistinct := layout_distinct s.cols cell ((c :: rest).map keyOf)
      rw [List.map_cons, layout_cons] at hdistinct
      exact (List.pairwise_append.mp hdistinct).2.2 q hq q' hq' (hcell.symm.trans hcell')
    · constructor
      · intro hk
        rcases hk with hk | hk
        · obtain ⟨hrow, q, hq, hdrawn⟩ := hk
          exact ⟨hrow, q, List.mem_append_left _ hq, hdrawn⟩
        · obtain ⟨hrow, q, hq, hdrawn⟩ := hk
          exact ⟨hrow, q, List.mem_append_right _ hq, hdrawn⟩
      · intro hk
        obtain ⟨hrow, q, hq, hdrawn⟩ := hk
        rcases List.mem_append.mp hq with hq | hq
        · exact .inl ⟨hrow, q, hq, hdrawn⟩
        · exact .inr ⟨hrow, q, hq, hdrawn⟩

/-! ### Reading it off the panel -/

theorem bitTest (byte : BitVec 8) {j : Nat} (hj : j < 8) :
    (byte &&& (1 : BitVec 8) <<< j != 0) = byte.getLsbD j := by
  cases hbit : byte.getLsbD j with
  | false =>
    have hzero : byte &&& (1 : BitVec 8) <<< j = 0 := by
      apply BitVec.eq_of_getLsbD_eq
      intro i hi
      rw [BitVec.getLsbD_and, bitMask_bit j hj i hi]
      by_cases hsame : i = j
      · rw [hsame, hbit, Bool.false_and]
        exact BitVec.getLsbD_zero.symm
      · rw [decide_eq_false hsame, Bool.and_false]
        exact BitVec.getLsbD_zero.symm
    rw [hzero]
    rfl
  | true =>
    rw [bne_iff_ne]
    intro hzero
    have hset : (byte &&& (1 : BitVec 8) <<< j).getLsbD j = true := by
      rw [BitVec.getLsbD_and, hbit, bitMask_bit j hj j hj, decide_eq_true rfl, Bool.true_and]
    rw [hzero] at hset
    cases hset.symm.trans BitVec.getLsbD_zero

theorem getPixel_eq {x y : Int} (h : p.InBounds x y) :
    ∃ k : Place p, k.2 < p.rawHeight ∧ p.logical k = (x, y) ∧
      ∀ buf : Buffer p, getPixel x y buf = some (pixel buf k) := by
  obtain ⟨k, hplace, hrow, hlogical⟩ := p.place_spec h
  refine ⟨k, hrow, hlogical, fun buf => ?_⟩
  have hindex : ((k.1 : Int) + (k.2 : Int) / 8 * p.rawWidth).toNat = k.1 + k.2 / 8 * p.rawWidth := by
    rw [show (k.1 : Int) + (k.2 : Int) / 8 * p.rawWidth = ((k.1 + k.2 / 8 * p.rawWidth : Nat) : Int) by
      push_cast; rfl, Int.toNat_natCast]
  have hbit : ((k.2 : Int) % 8).toNat = k.2 % 8 := by omega
  have hlt := index_lt k.1.isLt (div_lt_pages hrow)
  rw [getPixel, if_pos h, hplace]
  simp only [hindex, hbit, Vector.getElem?_eq_getElem hlt, Option.map_some, pixel, Option.getD_some,
    bitTest _ (Nat.mod_lt k.2 (by decide : 0 < 8))]

/-- What every pixel is once a text is printed. -/
theorem print_pixels (font : Nat → BitVec 8) (text : List (BitVec 8)) {s : Screen p} {cell : Cell}
    (hs : AtCell s cell) (hwrap : s.wrap = true) (hcols : 0 < s.cols) (hcolor : Known s.textcolor)
    (hbg : Known s.textbgcolor)
    (hrows : 8 * (finish s.cols cell (text.map keyOf)).row * s.textsizeY ≤ 32767) :
    ∃ buf', print font text s = some (s.moved (finish s.cols cell (text.map keyOf)) buf') ∧
      ∀ x y, p.InBounds x y → getPixel x y buf' =
        match glyphAt (layout s.cols cell (text.map keyOf)) (s.cellOf x y) with
        | none => getPixel x y s.buffer
        | some c => (getPixel x y s.buffer).map fun on =>
          if s.lit font c x y then ink s.textcolor on
          else if s.textbgcolor ≠ s.textcolor then ink s.textbgcolor on
          else on := by
  obtain ⟨buf', hprint, hpaint⟩ := print_paints font text hs hwrap hcols hcolor hbg hrows
    (fun x y => match glyphAt (layout s.cols cell (text.map keyOf)) (s.cellOf x y) with
      | none => id
      | some c => s.inkOf font c x y)
    (fun q hq x y hcell => by
      rw [hcell, glyphAt_eq_some.mpr hq])
  refine ⟨buf', hprint, fun x y hin => ?_⟩
  obtain ⟨k, hrow, hlogical, hget⟩ := getPixel_eq hin
  have hinside := hpaint.inside k
  have houtside := hpaint.outside k
  simp only [Panel.onPanel, hlogical, hrow, true_and] at hinside houtside
  rw [hget, hget]
  cases hglyph : glyphAt (layout s.cols cell (text.map keyOf)) (s.cellOf x y) with
  | none =>
    refine congrArg some (houtside fun hdrawn => ?_)
    obtain ⟨q, hq, hcell, -⟩ := hdrawn
    rw [hcell, glyphAt_eq_some.mpr hq] at hglyph
    cases hglyph
  | some c =>
    have hmem := glyphAt_eq_some.mp hglyph
    rw [hglyph] at hinside
    refine congrArg some (?_ : pixel buf' k = if s.lit font c x y then ink s.textcolor (pixel s.buffer k)
      else if s.textbgcolor ≠ s.textcolor then ink s.textbgcolor (pixel s.buffer k)
      else pixel s.buffer k)
    by_cases hdrawn : s.drawn font c x y
    · rw [hinside ⟨_, hmem, rfl, hdrawn⟩]
      show s.inkOf font c x y (pixel s.buffer k) = _
      rw [Screen.inkOf]
      rcases hdrawn with hlit | hopaque
      · rw [if_pos hlit, if_pos hlit]
      · rw [if_pos hopaque, apply_ite (fun f : Bool → Bool => f (pixel s.buffer k))]
    · rw [houtside fun htext => by
        obtain ⟨q, hq, hcell, hq'⟩ := htext
        have hsame : q.2 = c := layout_unique (hcell ▸ hq) hmem
        exact hdrawn (hsame ▸ hq')]
      rw [Screen.drawn, not_or] at hdrawn
      rw [if_neg hdrawn.1, if_neg hdrawn.2]

/-- **What a text shows**, from the corner of any cell, in any size, colors and rotation:
a pixel in the cell of a glyph is drawn as the font has it, a pixel in no glyph's cell
stays as it was, and the cursor is at the corner of the cell where the layout ends. -/
theorem print_shows (font : Nat → BitVec 8) (text : List (BitVec 8)) {s : Screen p} {cell : Cell}
    (hs : AtCell s cell) (hwrap : s.wrap = true) (hcols : 0 < s.cols) (hcolor : Known s.textcolor)
    (hbg : Known s.textbgcolor)
    (hrows : 8 * (finish s.cols cell (text.map keyOf)).row * s.textsizeY ≤ 32767) :
    ∃ s', print font text s = some s' ∧ AtCell s' (finish s.cols cell (text.map keyOf)) ∧
      ∀ x y, p.InBounds x y → getPixel x y s'.buffer =
        match glyphAt (layout s.cols cell (text.map keyOf)) (s.cellOf x y) with
        | none => getPixel x y s.buffer
        | some c => (getPixel x y s.buffer).map fun on =>
          if s.lit font c x y then ink s.textcolor on
          else if s.textbgcolor ≠ s.textcolor then ink s.textbgcolor on
          else on := by
  obtain ⟨buf', hprint, hpixels⟩ := print_pixels font text hs hwrap hcols hcolor hbg hrows
  exact ⟨_, hprint, s.moved_atCell _ buf', hpixels⟩

/-- A white T in the first cell: its stem is lit, and what is left of the stem is not. -/
theorem print_shows_oled :
    ∃ s', print (fun i => [0x03, 0x01, 0x7F, 0x01, 0x03].getD (i - 84 * 5) 0) [84]
        (setTextColor ssd1306White ({} : Screen oled)) = some s' ∧ AtCell s' ⟨0, 1⟩ ∧
      getPixel 2 6 s'.buffer = some true ∧ getPixel 1 6 s'.buffer = some false := by
  have hat : AtCell (setTextColor ssd1306White ({} : Screen oled)) ⟨0, 0⟩ := ⟨rfl, rfl⟩
  obtain ⟨s', hprint, hat', hpixels⟩ := print_shows
    (fun i => [0x03, 0x01, 0x7F, 0x01, 0x03].getD (i - 84 * 5) 0) [84] hat rfl (by decide) (.inl rfl)
    (.inl rfl) (by decide)
  refine ⟨s', hprint, hat', ?_, ?_⟩
  · rw [hpixels 2 6 (by decide)]
    decide +kernel
  · rw [hpixels 1 6 (by decide)]
    decide +kernel

end MakerSpace.Display
