import MakerSpace.Display.FastLines

/-! Rectangles and characters, `Adafruit_GFX.cpp`.

A rectangle is drawn column by column and a character cell by cell, each bit of the
classic font a rectangle of the text size. The font table is a parameter. `drawChar_paints`
says what a character paints, in the caller's coordinates: cell (u, v) of its six by eight
cells in the text color where the font has a bit, else in the background color, and not
at all when the two colors are the same. -/
namespace MakerSpace.Display
open Raster

variable {p : Panel}

/-! ### Rectangles -/

/-- `for (int16_t i = first; i < stop; i++)`. A counter that has taken as many steps as it
has values goes round for ever. -/
def forInt16 {σ : Type} (stop : Int) (body : Int → σ → Option σ) : Nat → Int → σ → Option σ
  | 0, i, s => if i < stop then none else some s
  | steps + 1, i, s =>
    if i < stop then (body i s).bind (forInt16 stop body steps (int16 (i + 1))) else some s

def fillRect (x y w h : Int) (color : BitVec 16) (buf : Buffer p) : Option (Buffer p) :=
  forInt16 (x + w) (fun i buf => drawFastVLine i y h color buf) 65536 x buf

/-- A loop that stops within `int16_t` runs through its range. -/
theorem forInt16_eq {σ : Type} {stop : Int} (hstop : stop ≤ 32767) (body : Int → σ → Option σ)
    {steps : Nat} {i : Int} (hi : -32768 ≤ i) (hsteps : stop - i ≤ steps) (s : σ) :
    forInt16 stop body steps i s =
      (List.range (stop - i).toNat).foldlM (fun s k => body (i + (k : Nat)) s) s := by
  induction steps generalizing i s with
  | zero =>
    rw [forInt16, if_neg (by omega), show (stop - i).toNat = 0 by omega]
    rfl
  | succ steps ih =>
    rw [forInt16]
    split
    · next hlt =>
      have hnext : int16 (i + 1) = i + 1 := by
        rw [int16]
        omega
      rw [hnext, show (stop - i).toNat = (stop - (i + 1)).toNat + 1 by omega,
        List.range_succ_eq_map, List.foldlM_cons, Int.natCast_zero, Int.add_zero]
      cases hbody : body i s with
      | none => rfl
      | some s' =>
        have hshift : ∀ k : Nat, i + ((Nat.succ k : Nat) : Int) = i + 1 + k := by
          intro k
          omega
        show forInt16 stop body steps (i + 1) s' = List.foldlM _ s' (List.map Nat.succ _)
        simp only [List.foldlM_map, hshift]
        exact ih (by omega) (by omega) s'
    · next hge =>
      rw [show (stop - i).toNat = 0 by omega]
      rfl

theorem fillRect_paints (buf : Buffer p) {x y w h : Int} (hx : -32768 ≤ x)
    (hy : -32768 ≤ y ∧ y ≤ 32767) (hw : 0 ≤ w ∧ w ≤ 32767) (hh : 0 ≤ h ∧ h ≤ 32767)
    (hstop : x + w ≤ 32767) {color : BitVec 16} (hcolor : Known color) :
    ∃ buf', fillRect x y w h color buf = some buf' ∧ Paints (fun _ => ink color)
      (p.onPanel fun x' y' => (x ≤ x' ∧ x' < x + w) ∧ y ≤ y' ∧ y' < y + h) (pixel buf) (pixel buf') := by
  obtain ⟨buf', hloop, hpaint⟩ := paints_foldlM pixel
    (fun (k : Nat) buf => drawFastVLine (x + k) y h color buf) _ (List.range (x + w - x).toNat)
    (fun k hk buf => drawFastVLine_paints buf (by have := List.mem_range.mp hk; omega) hy hcolor hh)
    (List.pairwise_lt_range.imp fun hlt i hi hi' => by
      obtain ⟨-, hcol, -⟩ := hi
      obtain ⟨-, hcol', -⟩ := hi'
      omega) buf
  refine ⟨buf', ?_, hpaint.congr (fun i => ?_) fun _ _ => rfl⟩
  · rw [fillRect, forInt16_eq hstop _ hx (by omega)]
    exact hloop
  · constructor
    · intro hk
      obtain ⟨k, hk, hrow, hcol, hrows⟩ := hk
      have := List.mem_range.mp hk
      exact ⟨hrow, ⟨by omega, by omega⟩, hrows⟩
    · intro hi
      obtain ⟨hrow, hcols, hrows⟩ := hi
      exact ⟨((p.logical i).1 - x).toNat, List.mem_range.mpr (by omega), hrow, by omega, hrows⟩

/-! ### Characters -/

/-- One bit of a character, as large as the text. -/
def drawBit (x y : Int) (sizeX sizeY i j : Nat) (color : BitVec 16) (buf : Buffer p) :
    Option (Buffer p) :=
  if sizeX = 1 ∧ sizeY = 1 then drawPixel (int16 (x + i)) (int16 (y + j)) color buf
  else fillRect (int16 (x + i * sizeX)) (int16 (y + j * sizeY)) sizeX sizeY color buf

/-- The body of the two loops over a character's bits. -/
def drawCharBit (font : Nat → BitVec 8) (code : BitVec 8) (x y : Int) (color bg : BitVec 16)
    (sizeX sizeY i j : Nat) (buf : Buffer p) : Option (Buffer p) :=
  if (font (code.toNat * 5 + i)).getLsbD j then drawBit x y sizeX sizeY i j color buf
  else if bg ≠ color then drawBit x y sizeX sizeY i j bg buf
  else some buf

/-- The classic charset leaves out code 176. -/
def charCode (cp437 : Bool) (c : BitVec 8) : BitVec 8 := if !cp437 && c ≥ 176 then c + 1 else c

def drawChar (font : Nat → BitVec 8) (cp437 : Bool) (x y : Int) (c : BitVec 8) (color bg : BitVec 16)
    (sizeX sizeY : Nat) (buf : Buffer p) : Option (Buffer p) :=
  if x ≥ p.width ∨ y ≥ p.height ∨ x + 6 * sizeX - 1 < 0 ∨ y + 8 * sizeY - 1 < 0 then some buf
  else do
    let buf ← (List.range 5).foldlM (fun buf i => (List.range 8).foldlM (fun buf j =>
      drawCharBit font (charCode cp437 c) x y color bg sizeX sizeY i j buf) buf) buf
    -- if opaque, the last column
    if bg ≠ color then
      if sizeX = 1 ∧ sizeY = 1 then drawFastVLine (int16 (x + 5)) y 8 bg buf
      else fillRect (int16 (x + 5 * sizeX)) y sizeX (8 * sizeY) bg buf
    else some buf

/-- The cell of a character that has a coordinate. -/
theorem cell_iff {s : Nat} (hs : 1 ≤ s) (x t : Int) (a : Nat) :
    (t - x) / s = a ↔ x + a * s ≤ t ∧ t < x + a * s + s := by
  have hpos : (0 : Int) < s := by omega
  have hlo := Int.le_ediv_iff_mul_le (a := a) (b := t - x) hpos
  have hhi := Int.ediv_lt_iff_lt_mul (a := t - x) (b := a + 1) hpos
  rw [Int.add_mul, Int.one_mul] at hhi
  omega

/-- Whether the font has a bit in a cell of the character. -/
def charLit (font : Nat → BitVec 8) (code : BitVec 8) (u v : Int) : Bool :=
  decide (u < 5) && (font (code.toNat * 5 + u.toNat)).getLsbD v.toNat

theorem drawBit_paints (buf : Buffer p) {x y : Int} (hx : -1530 ≤ x ∧ x ≤ 255)
    (hy : -2040 ≤ y ∧ y ≤ 255) {sizeX sizeY : Nat} (hsizeX : 1 ≤ sizeX ∧ sizeX ≤ 255)
    (hsizeY : 1 ≤ sizeY ∧ sizeY ≤ 255) {i j : Nat} (hi : i < 6) (hj : j < 8) {color : BitVec 16}
    (hcolor : Known color) :
    ∃ buf', drawBit x y sizeX sizeY i j color buf = some buf' ∧ Paints (fun _ => ink color)
      (p.onPanel fun x' y' => (x' - x) / sizeX = i ∧ (y' - y) / sizeY = j) (pixel buf) (pixel buf') := by
  have hid : ∀ v : Int, -32768 ≤ v ∧ v ≤ 32767 → int16 v = v := by
    intro v hv
    rw [int16]
    omega
  unfold drawBit
  split
  · next hsmall =>
    obtain ⟨rfl, rfl⟩ := hsmall
    rw [hid _ (by omega), hid _ (by omega)]
    obtain ⟨buf', hdraw, hpaint⟩ := drawPixel_paints (x + i) (y + j) color buf
    refine ⟨buf', hdraw, hpaint.congr (fun k => ?_) fun _ _ => rfl⟩
    simp only [Panel.onPanel, Int.natCast_one, Int.ediv_one]
    omega
  · have hwide : i * sizeX ≤ 5 * 255 := Nat.mul_le_mul (by omega) hsizeX.2
    have hhigh : j * sizeY ≤ 7 * 255 := Nat.mul_le_mul (by omega) hsizeY.2
    have hwide' : ((i * sizeX : Nat) : Int) = i * sizeX := Int.natCast_mul i sizeX
    have hhigh' : ((j * sizeY : Nat) : Int) = j * sizeY := Int.natCast_mul j sizeY
    rw [hid _ (by omega), hid _ (by omega)]
    obtain ⟨buf', hdraw, hpaint⟩ := fillRect_paints buf (by omega : -32768 ≤ x + (i : Int) * sizeX)
      (by omega : -32768 ≤ y + (j : Int) * sizeY ∧ y + (j : Int) * sizeY ≤ 32767)
      (by omega : 0 ≤ (sizeX : Int) ∧ (sizeX : Int) ≤ 32767)
      (by omega : 0 ≤ (sizeY : Int) ∧ (sizeY : Int) ≤ 32767) (by omega) hcolor
    refine ⟨buf', hdraw, hpaint.congr (fun k => ?_) fun _ _ => rfl⟩
    simp only [Panel.onPanel, cell_iff hsizeX.1, cell_iff hsizeY.1]

section Characters
variable (font : Nat → BitVec 8) (code : BitVec 8) (color bg : BitVec 16) (x y : Int) (sizeX sizeY : Nat)

/-- What a character does to a pixel of its cells. -/
def charInk (x' y' : Int) : Bool → Bool :=
  if charLit font code ((x' - x) / sizeX) ((y' - y) / sizeY) then ink color else ink bg

/-- Whether the character has anything to draw there. -/
def charDrawn (x' y' : Int) : Prop :=
  charLit font code ((x' - x) / sizeX) ((y' - y) / sizeY) = true ∨ bg ≠ color

variable {font code color bg x y sizeX sizeY}

section Cells
variable (hx : -1530 ≤ x ∧ x ≤ 255) (hy : -2040 ≤ y ∧ y ≤ 255) (hsizeX : 1 ≤ sizeX ∧ sizeX ≤ 255)
  (hsizeY : 1 ≤ sizeY ∧ sizeY ≤ 255) (hcolor : Known color) (hbg : Known bg)
include hx hy hsizeX hsizeY hcolor hbg

/-- One bit of the font. -/
theorem charBit_paints {i j : Nat} (hi : i < 5) (hj : j < 8) (buf : Buffer p) :
    ∃ buf', drawCharBit font code x y color bg sizeX sizeY i j buf = some buf' ∧
      Paints (fun k : Place p => charInk font code color bg x y sizeX sizeY (p.logical k).1 (p.logical k).2)
        (p.onPanel fun x' y' => ((x' - x) / sizeX = i ∧ (y' - y) / sizeY = j) ∧
          charDrawn font code color bg x y sizeX sizeY x' y') (pixel buf) (pixel buf') := by
  have hlit : charLit font code i j = (font (code.toNat * 5 + i)).getLsbD j := by
    rw [charLit, decide_eq_true (by omega), Bool.true_and, Int.toNat_natCast, Int.toNat_natCast]
  rw [drawCharBit, ← hlit]
  split
  · next hon =>
    obtain ⟨buf', hdraw, hpaint⟩ := drawBit_paints buf hx hy hsizeX hsizeY (by omega : i < 6) hj hcolor
    refine ⟨buf', hdraw, hpaint.congr (fun k => ?_) fun k hk => ?_⟩
    · refine and_congr_right fun _ => (and_iff_left_of_imp fun hcell => ?_).symm
      rw [charDrawn, hcell.1, hcell.2]
      exact .inl hon
    · rw [charInk, hk.2.1, hk.2.2, if_pos hon]
  · next hoff =>
    split
    · next hopaque =>
      obtain ⟨buf', hdraw, hpaint⟩ := drawBit_paints buf hx hy hsizeX hsizeY (by omega : i < 6) hj hbg
      refine ⟨buf', hdraw, hpaint.congr (fun k => ?_) fun k hk => ?_⟩
      · exact and_congr_right fun _ => (and_iff_left_of_imp fun _ => .inr hopaque).symm
      · rw [charInk, hk.2.1, hk.2.2, if_neg hoff]
    · next hsame =>
      refine ⟨buf, rfl, .nothing _ (fun k hk => ?_) _⟩
      obtain ⟨-, hcell, hdrawn⟩ := hk
      rw [charDrawn, hcell.1, hcell.2] at hdrawn
      rcases hdrawn with hon | hne
      · exact hoff hon
      · exact hsame hne

/-- One column of the font, from the top. -/
theorem charColumn_paints {i : Nat} (hi : i < 5) (buf : Buffer p) :
    ∃ buf', (List.range 8).foldlM (fun buf j =>
        drawCharBit font code x y color bg sizeX sizeY i j buf) buf = some buf' ∧
      Paints (fun k : Place p => charInk font code color bg x y sizeX sizeY (p.logical k).1 (p.logical k).2)
        (p.onPanel fun x' y' => ((x' - x) / sizeX = i ∧ 0 ≤ (y' - y) / sizeY ∧ (y' - y) / sizeY < 8) ∧
          charDrawn font code color bg x y sizeX sizeY x' y') (pixel buf) (pixel buf') := by
  obtain ⟨buf', hloop, hpaint⟩ := paints_foldlM pixel
    (fun j buf => drawCharBit font code x y color bg sizeX sizeY i j buf) _ (List.range 8)
    (fun j hj buf => charBit_paints hx hy hsizeX hsizeY hcolor hbg hi (List.mem_range.mp hj) buf)
    (List.pairwise_lt_range.imp fun hlt k hk hk' => by
      have hrow := hk.2.1.2
      have hrow' := hk'.2.1.2
      omega) buf
  refine ⟨buf', hloop, hpaint.congr (fun k => ?_) fun _ _ => rfl⟩
  constructor
  · intro hk
    obtain ⟨j, hj, hpanel, hcell, hdrawn⟩ := hk
    have := List.mem_range.mp hj
    exact ⟨hpanel, ⟨hcell.1, by omega, by omega⟩, hdrawn⟩
  · intro hk
    obtain ⟨hpanel, hcell, hdrawn⟩ := hk
    exact ⟨(((p.logical k).2 - y) / sizeY).toNat, List.mem_range.mpr (by omega), hpanel,
      ⟨hcell.1, by omega⟩, hdrawn⟩

/-- The five columns of the font. -/
theorem charColumns_paints (buf : Buffer p) :
    ∃ buf', (List.range 5).foldlM (fun buf i => (List.range 8).foldlM (fun buf j =>
        drawCharBit font code x y color bg sizeX sizeY i j buf) buf) buf = some buf' ∧
      Paints (fun k : Place p => charInk font code color bg x y sizeX sizeY (p.logical k).1 (p.logical k).2)
        (p.onPanel fun x' y' => ((0 ≤ (x' - x) / sizeX ∧ (x' - x) / sizeX < 5) ∧
            0 ≤ (y' - y) / sizeY ∧ (y' - y) / sizeY < 8) ∧
          charDrawn font code color bg x y sizeX sizeY x' y') (pixel buf) (pixel buf') := by
  obtain ⟨buf', hloop, hpaint⟩ := paints_foldlM pixel
    (fun i buf => (List.range 8).foldlM (fun buf j =>
      drawCharBit font code x y color bg sizeX sizeY i j buf) buf) _ (List.range 5)
    (fun i hi buf => charColumn_paints hx hy hsizeX hsizeY hcolor hbg (List.mem_range.mp hi) buf)
    (List.pairwise_lt_range.imp fun hlt k hk hk' => by
      have hcol := hk.2.1.1
      have hcol' := hk'.2.1.1
      omega) buf
  refine ⟨buf', hloop, hpaint.congr (fun k => ?_) fun _ _ => rfl⟩
  constructor
  · intro hk
    obtain ⟨i, hi, hpanel, hcell, hdrawn⟩ := hk
    have := List.mem_range.mp hi
    exact ⟨hpanel, ⟨⟨by omega, by omega⟩, hcell.2⟩, hdrawn⟩
  · intro hk
    obtain ⟨hpanel, hcell, hdrawn⟩ := hk
    exact ⟨(((p.logical k).1 - x) / sizeX).toNat, List.mem_range.mpr (by omega), hpanel,
      ⟨by omega, hcell.2⟩, hdrawn⟩

omit hcolor in
/-- The last column, of an opaque character. -/
theorem charMargin_paints (buf : Buffer p) :
    ∃ buf', (if bg ≠ color then
        if sizeX = 1 ∧ sizeY = 1 then drawFastVLine (int16 (x + 5)) y 8 bg buf
        else fillRect (int16 (x + 5 * sizeX)) y sizeX (8 * sizeY) bg buf
      else some buf) = some buf' ∧
      Paints (fun k : Place p => charInk font code color bg x y sizeX sizeY (p.logical k).1 (p.logical k).2)
        (p.onPanel fun x' y' => ((x' - x) / sizeX = (5 : Nat) ∧
            0 ≤ (y' - y) / sizeY ∧ (y' - y) / sizeY < 8) ∧
          charDrawn font code color bg x y sizeX sizeY x' y') (pixel buf) (pixel buf') := by
  have hmargin : ∀ v : Int, charLit font code (5 : Nat) v = false := fun v => rfl
  have hid : ∀ v : Int, -32768 ≤ v ∧ v ≤ 32767 → int16 v = v := by
    intro v hv
    rw [int16]
    omega
  have hrows : ∀ y' : Int, (0 ≤ (y' - y) / sizeY ∧ (y' - y) / sizeY < 8) ↔
      y ≤ y' ∧ y' < y + 8 * sizeY := by
    intro y'
    have hpos : (0 : Int) < sizeY := by omega
    rw [Int.le_ediv_iff_mul_le hpos, Int.ediv_lt_iff_lt_mul hpos]
    omega
  split
  · next hopaque =>
    have hline : ∃ buf', (if sizeX = 1 ∧ sizeY = 1 then drawFastVLine (int16 (x + 5)) y 8 bg buf
        else fillRect (int16 (x + 5 * sizeX)) y sizeX (8 * sizeY) bg buf) = some buf' ∧
        Paints (fun _ => ink bg) (p.onPanel fun x' y' => (x' - x) / sizeX = (5 : Nat) ∧
          0 ≤ (y' - y) / sizeY ∧ (y' - y) / sizeY < 8) (pixel buf) (pixel buf') := by
      simp only [hrows, cell_iff hsizeX.1]
      split
      · next hsmall =>
        obtain ⟨rfl, rfl⟩ := hsmall
        rw [hid _ (by omega)]
        obtain ⟨buf', hdraw, hpaint⟩ := drawFastVLine_paints buf
          (by omega : -32768 ≤ x + 5 ∧ x + 5 ≤ 32767) (by omega : -32768 ≤ y ∧ y ≤ 32767) hbg
          (by decide : 0 ≤ (8 : Int) ∧ (8 : Int) ≤ 32767)
        refine ⟨buf', hdraw, hpaint.congr (fun k => ?_) fun _ _ => rfl⟩
        simp only [Panel.onPanel]
        omega
      · rw [hid _ (by omega)]
        obtain ⟨buf', hdraw, hpaint⟩ := fillRect_paints buf (by omega : -32768 ≤ x + 5 * (sizeX : Int))
          (by omega : -32768 ≤ y ∧ y ≤ 32767) (by omega : 0 ≤ (sizeX : Int) ∧ (sizeX : Int) ≤ 32767)
          (by omega : 0 ≤ 8 * (sizeY : Int) ∧ 8 * (sizeY : Int) ≤ 32767) (by omega) hbg
        refine ⟨buf', hdraw, hpaint.congr (fun k => ?_) fun _ _ => rfl⟩
        simp only [Panel.onPanel]
        omega
    obtain ⟨buf', hdraw, hpaint⟩ := hline
    refine ⟨buf', hdraw, hpaint.congr (fun k => ?_) fun k hk => ?_⟩
    · exact and_congr_right fun _ => (and_iff_left_of_imp fun _ => .inr hopaque).symm
    · rw [charInk, hk.2.1, hmargin, if_neg Bool.false_ne_true]
  · next hsame =>
    refine ⟨buf, rfl, .nothing _ (fun k hk => ?_) _⟩
    obtain ⟨-, hcell, hdrawn⟩ := hk
    rw [charDrawn, hcell.1, hmargin] at hdrawn
    rcases hdrawn with hon | hne
    · cases hon
    · exact hsame hne

end Cells

end Characters

/-- **What a character paints**, wherever its corner is. -/
theorem drawChar_paints (font : Nat → BitVec 8) (cp437 : Bool) (c : BitVec 8) {color bg : BitVec 16}
    (hcolor : Known color) (hbg : Known bg) (x y : Int) {sizeX sizeY : Nat}
    (hsizeX : 1 ≤ sizeX ∧ sizeX ≤ 255) (hsizeY : 1 ≤ sizeY ∧ sizeY ≤ 255) (buf : Buffer p) :
    ∃ buf', drawChar font cp437 x y c color bg sizeX sizeY buf = some buf' ∧
      Paints (fun k : Place p => charInk font (charCode cp437 c) color bg x y sizeX sizeY
          (p.logical k).1 (p.logical k).2)
        (p.onPanel fun x' y' => ((0 ≤ (x' - x) / sizeX ∧ (x' - x) / sizeX < 6) ∧
            0 ≤ (y' - y) / sizeY ∧ (y' - y) / sizeY < 8) ∧
          charDrawn font (charCode cp437 c) color bg x y sizeX sizeY x' y') (pixel buf) (pixel buf') := by
  have hposX : (0 : Int) < sizeX := by omega
  have hposY : (0 : Int) < sizeY := by omega
  unfold drawChar
  split
  · next hclipped =>
    refine ⟨buf, rfl, .nothing _ (fun k hk => ?_) _⟩
    obtain ⟨hrow, ⟨hcols, hrows⟩, -⟩ := hk
    have hin := p.logical_inBounds k hrow
    rw [Int.le_ediv_iff_mul_le hposX, Int.ediv_lt_iff_lt_mul hposX] at hcols
    rw [Int.le_ediv_iff_mul_le hposY, Int.ediv_lt_iff_lt_mul hposY] at hrows
    rw [Panel.InBounds] at hin
    omega
  · next hshown =>
    have hwidth : p.width < 256 := by
      have := p.widthByte
      have := p.heightByte
      rw [Panel.width]
      split <;> omega
    have hheight : p.height < 256 := by
      have := p.widthByte
      have := p.heightByte
      rw [Panel.height]
      split <;> omega
    have hx : -1530 ≤ x ∧ x ≤ 255 := by omega
    have hy : -2040 ≤ y ∧ y ≤ 255 := by omega
    obtain ⟨buf₁, hcolumns, hpaint⟩ := charColumns_paints hx hy hsizeX hsizeY hcolor hbg buf
    obtain ⟨buf', hmargin, hpaint'⟩ := charMargin_paints hx hy hsizeX hsizeY hbg buf₁
    refine ⟨buf', ?_, (hpaint.union hpaint' fun k hk hk' => ?_).congr (fun k => ?_) fun _ _ => rfl⟩
    · rw [hcolumns]
      exact hmargin
    · have hcol := hk.2.1.1
      have hcol' := hk'.2.1.1
      omega
    · constructor
      · intro hk
        rcases hk with hk | hk
        · obtain ⟨hrow, ⟨hcols, hrows⟩, hdrawn⟩ := hk
          exact ⟨hrow, ⟨⟨hcols.1, by omega⟩, hrows⟩, hdrawn⟩
        · obtain ⟨hrow, ⟨hcol, hrows⟩, hdrawn⟩ := hk
          exact ⟨hrow, ⟨⟨by omega, by omega⟩, hrows⟩, hdrawn⟩
      · intro hk
        obtain ⟨hrow, ⟨hcols, hrows⟩, hdrawn⟩ := hk
        by_cases hcol : ((p.logical k).1 - x) / sizeX < 5
        · exact .inl ⟨hrow, ⟨⟨hcols.1, hcol⟩, hrows⟩, hdrawn⟩
        · exact .inr ⟨hrow, ⟨by omega, hrows⟩, hdrawn⟩

end MakerSpace.Display
