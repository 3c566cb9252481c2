import MakerSpace.Raster.Paint

/-! The display buffer, `Adafruit_SSD1306.cpp`.

A panel of `WIDTH` by `HEIGHT` pixels is kept in bytes of eight rows each, one above the
other: pixel (x, y) is bit `y % 8` of byte `x + y / 8 * WIDTH`. Drawing addresses pixels
as the panel is rotated. Coordinates are `int16_t`, and a sum stored back into one wraps. -/
namespace MakerSpace.Display
open Raster

def ssd1306Black : BitVec 16 := 0
def ssd1306White : BitVec 16 := 1
def ssd1306Inverse : BitVec 16 := 2

/-- An `int` stored into an `int16_t`. -/
def int16 (v : Int) : Int := (v + 32768) % 65536 - 32768

/-- The constructor takes both dimensions as `uint8_t`. -/
structure Panel where
  rawWidth : Nat
  rawHeight : Nat
  rotation : Fin 4 := 0
  widthByte : rawWidth < 256
  heightByte : rawHeight < 256

def Panel.width (p : Panel) : Nat :=
  if p.rotation = 1 ∨ p.rotation = 3 then p.rawHeight else p.rawWidth

def Panel.height (p : Panel) : Nat :=
  if p.rotation = 1 ∨ p.rotation = 3 then p.rawWidth else p.rawHeight

/-- The panel of the sketches, `SCREEN_WIDTH` by `SCREEN_HEIGHT`. -/
def oled : Panel := {rawWidth := 128, rawHeight := 64, widthByte := by decide, heightByte := by decide}

/-- Rows of bytes. -/
def Panel.pages (p : Panel) : Nat := (p.rawHeight + 7) / 8

abbrev Buffer (p : Panel) := Vector (BitVec 8) (p.rawWidth * p.pages)

variable {p : Panel}

/-- `buffer[i] = f(buffer[i])`. Outside the buffer that has no defined outcome. -/
def modify (i : Nat) (f : BitVec 8 → BitVec 8) (buf : Buffer p) : Option (Buffer p) :=
  if h : i < p.rawWidth * p.pages then some (buf.set i (f (buf.get ⟨i, h⟩)) h) else none

def clearDisplay : Buffer p := Vector.replicate _ 0

/-! ### Pixels -/

/-- `switch (color)`, on the bits of a mask. -/
def inkByte (color : BitVec 16) (mask byte : BitVec 8) : BitVec 8 :=
  if color = ssd1306White then byte ||| mask
  else if color = ssd1306Black then byte &&& ~~~mask
  else if color = ssd1306Inverse then byte ^^^ mask
  else byte

/-- Where the panel has the pixel. -/
def Panel.place (p : Panel) (x y : Int) : Int × Int :=
  match p.rotation with
  | 0 => (x, y)
  | 1 => (p.rawWidth - y - 1, x)
  | 2 => (p.rawWidth - x - 1, p.rawHeight - y - 1)
  | 3 => (y, p.rawHeight - x - 1)

def Panel.InBounds (p : Panel) (x y : Int) : Prop := 0 ≤ x ∧ x < p.width ∧ 0 ≤ y ∧ y < p.height

instance (p : Panel) (x y : Int) : Decidable (p.InBounds x y) := by
  unfold Panel.InBounds
  infer_instance

def drawPixel (x y : Int) (color : BitVec 16) (buf : Buffer p) : Option (Buffer p) :=
  if p.InBounds x y then
    let (x, y) := p.place x y
    modify (x + y / 8 * p.rawWidth).toNat (inkByte color ((1 : BitVec 8) <<< (y % 8).toNat)) buf
  else some buf

def getPixel (x y : Int) (buf : Buffer p) : Option Bool :=
  if p.InBounds x y then
    let (x, y) := p.place x y
    buf[(x + y / 8 * p.rawWidth).toNat]?.map fun byte =>
      byte &&& (1 : BitVec 8) <<< (y % 8).toNat != 0
  else some false

/-! ### Lines -/

def drawFastHLineInternal (x y w : Int) (color : BitVec 16) (buf : Buffer p) : Option (Buffer p) :=
  if 0 ≤ y ∧ y < p.rawHeight then
    -- clipped on the left, then on the right
    let w := if x < 0 then int16 (w + x) else w
    let x := if x < 0 then 0 else x
    let w := if x + w > p.rawWidth then int16 (p.rawWidth - x) else w
    if w > 0 then
      (List.range w.toNat).foldlM (fun buf k =>
        modify ((y / 8 * p.rawWidth + x).toNat + k) (inkByte color ((1 : BitVec 8) <<< (y % 8).toNat)) buf) buf
    else some buf
  else some buf

def premask (mod : Nat) : BitVec 8 := [0x00, 0x80, 0xC0, 0xE0, 0xF0, 0xF8, 0xFC, 0xFE].getD mod 0
def postmask (mod : Nat) : BitVec 8 := [0x00, 0x01, 0x03, 0x07, 0x0F, 0x1F, 0x3F, 0x7F].getD mod 0

/-- A whole byte: only `SSD1306_INVERSE` and `SSD1306_BLACK` are asked for. -/
def solidByte (color : BitVec 16) (byte : BitVec 8) : BitVec 8 :=
  if color = ssd1306Inverse then byte ^^^ 0xFF
  else if color ≠ ssd1306Black then 255 else 0

/-- Whole bytes while there are eight rows, then the low bits of one more. -/
def drawBytes (color : BitVec 16) (i h : Nat) (buf : Buffer p) : Option (Buffer p) := do
  let buf ← (List.range (h / 8)).foldlM
    (fun buf k => modify (i + k * p.rawWidth) (solidByte color) buf) buf
  if h % 8 ≠ 0 then modify (i + h / 8 * p.rawWidth) (inkByte color (postmask (h % 8))) buf
  else some buf

/-- The part of a vertical line that is on the panel; `y` and `h` are `uint8_t` here. -/
def drawColumn (color : BitVec 16) (x y h : Nat) (buf : Buffer p) : Option (Buffer p) :=
  let i := y / 8 * p.rawWidth + x
  if y % 8 ≠ 0 then do
    -- the high bits of the first byte, and no more of them than the line is long
    let mod := 8 - y % 8
    let mask := if h < mod then premask mod &&& (0xFF : BitVec 8) >>> (mod - h) else premask mod
    let buf ← modify i (inkByte color mask) buf
    if h ≥ mod then drawBytes color (i + p.rawWidth) (h - mod) buf else some buf
  else drawBytes color i h buf

def drawFastVLineInternal (x y h : Int) (color : BitVec 16) (buf : Buffer p) : Option (Buffer p) :=
  if 0 ≤ x ∧ x < p.rawWidth then
    let h := if y < 0 then int16 (h + y) else h
    let y := if y < 0 then 0 else y
    let h := if y + h > p.rawHeight then int16 (p.rawHeight - y) else h
    if h > 0 then drawColumn color x.toNat (y.toNat % 256) (h.toNat % 256) buf
    else some buf
  else some buf

def drawFastHLine (x y w : Int) (color : BitVec 16) (buf : Buffer p) : Option (Buffer p) :=
  match p.rotation with
  | 0 => drawFastHLineInternal x y w color buf
  | 1 => drawFastVLineInternal (int16 (p.rawWidth - y - 1)) x w color buf
  | 2 => drawFastHLineInternal (int16 (int16 (p.rawWidth - x - 1) - (w - 1)))
      (int16 (p.rawHeight - y - 1)) w color buf
  | 3 => drawFastVLineInternal y (int16 (int16 (p.rawHeight - x - 1) - (w - 1))) w color buf

def drawFastVLine (x y h : Int) (color : BitVec 16) (buf : Buffer p) : Option (Buffer p) :=
  match p.rotation with
  | 0 => drawFastVLineInternal x y h color buf
  | 1 => drawFastHLineInternal (int16 (int16 (p.rawWidth - y - 1) - (h - 1))) x h color buf
  | 2 => drawFastVLineInternal (int16 (p.rawWidth - x - 1))
      (int16 (int16 (p.rawHeight - y - 1) - (h - 1))) h color buf
  | 3 => drawFastHLineInternal y (int16 (p.rawHeight - x - 1)) h color buf

/-! ### What the bytes show -/

/-- What a color does to a pixel. -/
def ink (color : BitVec 16) (on : Bool) : Bool :=
  if color = ssd1306White then true
  else if color = ssd1306Black then false
  else if color = ssd1306Inverse then !on
  else on

/-- A column of the panel and a row. -/
abbrev Place (p : Panel) := Fin p.rawWidth × Nat

def pixel (buf : Buffer p) (i : Place p) : Bool :=
  (buf[i.1 + i.2 / 8 * p.rawWidth]?.getD 0).getLsbD (i.2 % 8)

theorem inkByte_bit (color : BitVec 16) (mask byte : BitVec 8) {j : Nat} (hj : j < 8) :
    (inkByte color mask byte).getLsbD j =
      if mask.getLsbD j then ink color (byte.getLsbD j) else byte.getLsbD j := by
  unfold inkByte ink
  split
  · rw [BitVec.getLsbD_or]
    cases mask.getLsbD j <;> simp
  · split
    · rw [BitVec.getLsbD_and, BitVec.getLsbD_not, decide_eq_true hj, Bool.true_and]
      cases mask.getLsbD j <;> simp
    · split
      · rw [BitVec.getLsbD_xor]
        cases mask.getLsbD j <;> simp
      · rw [ite_self]

/-- The bytes of different pages and columns are different ones. -/
theorem index_inj {w x x' a b : Nat} (hx : x < w) (hx' : x' < w) :
    x + a * w = x' + b * w ↔ x = x' ∧ a = b := by
  constructor
  · intro h
    have hdiv := congrArg (· / w) h
    simp only [Nat.add_mul_div_right _ _ (Nat.lt_of_le_of_lt (Nat.zero_le x) hx),
      Nat.div_eq_of_lt hx, Nat.div_eq_of_lt hx', Nat.zero_add] at hdiv
    subst hdiv
    exact ⟨Nat.add_right_cancel h, rfl⟩
  · intro h
    obtain ⟨rfl, rfl⟩ := h
    rfl

theorem index_lt {w x a pages : Nat} (hx : x < w) (ha : a < pages) : x + a * w < w * pages := by
  have hpage : (a + 1) * w ≤ pages * w := Nat.mul_le_mul_right w ha
  rw [Nat.add_one_mul] at hpage
  rw [Nat.mul_comm w pages]
  omega

/-- A changed byte changes eight pixels of its column. -/
theorem modify_paints {x page : Nat} (hx : x < p.rawWidth) (hpage : page < p.pages) (mask : BitVec 8)
    {f : BitVec 8 → BitVec 8} {color : BitVec 16}
    (hf : ∀ byte j, j < 8 → (f byte).getLsbD j =
      if mask.getLsbD j then ink color (byte.getLsbD j) else byte.getLsbD j) (buf : Buffer p) :
    ∃ buf', modify (x + page * p.rawWidth) f buf = some buf' ∧
      Paints (fun _ => ink color)
        (fun i => i.1 = x ∧ i.2 / 8 = page ∧ mask.getLsbD (i.2 % 8) = true) (pixel buf) (pixel buf') := by
  have hlt := index_lt hx hpage
  refine ⟨_, by rw [modify, dif_pos hlt], ?_⟩
  have hbits : ∀ i : Place p, pixel (buf.set _ (f (buf.get ⟨_, hlt⟩)) hlt) i =
      if i.1 = x ∧ i.2 / 8 = page ∧ mask.getLsbD (i.2 % 8) = true then ink color (pixel buf i)
      else pixel buf i := by
    intro i
    have hj : i.2 % 8 < 8 := Nat.mod_lt _ (by decide)
    have hiff := index_inj hx i.1.isLt (a := page) (b := i.2 / 8)
    rw [pixel, pixel, Vector.getElem?_set]
    by_cases hsame : x + page * p.rawWidth = i.1 + i.2 / 8 * p.rawWidth
    · obtain ⟨hcol, hrow⟩ := hiff.mp hsame
      have hbyte : buf[i.1 + i.2 / 8 * p.rawWidth]?.getD 0 = buf.get ⟨_, hlt⟩ := by
        rw [← hsame, Vector.getElem?_eq_getElem hlt]
        rfl
      rw [if_pos hsame, Option.getD_some, hbyte, hf _ _ hj]
      simp [← hcol, ← hrow]
    · have hne : ¬(i.1.val = x ∧ i.2 / 8 = page ∧ mask.getLsbD (i.2 % 8) = true) :=
        fun h => hsame (hiff.mpr ⟨h.1.symm, h.2.1.symm⟩)
      rw [if_neg hsame, if_neg hne]
  constructor
  · intro i hi
    rw [hbits, if_pos hi]
  · intro i hi
    rw [hbits, if_neg hi]

end MakerSpace.Display
