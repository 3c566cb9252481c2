import MakerSpace.Codec.Decimal
import MakerSpace.Display.Text
import MakerSpace.Reactive.Machine

/-! The sketch `display_temp.ino`: the last reading, on the panel.

Each pass clears the buffer and prints two lines in size two, so it leaves nothing of the
pass before. `readings_shown` is what every pixel is after any run: the greeting until the
first reading, and then the last reading, wherever its lines wrap. -/
namespace MakerSpace.Display
open Codec.Decimal Raster TextGrid Reactive

variable {p : Panel}

def println (font : Nat → BitVec 8) (text : List (BitVec 8)) (s : Screen p) : Option (Screen p) :=
  (print font text s).bind (print font [13, 10])

/-- What `String` makes of the two values of the sensor. -/
structure Reading where
  temperature : List (BitVec 8)
  pressure : List (BitVec 8)
  plain : ∀ c ∈ temperature ++ pressure, c ≠ 10 ∧ c ≠ 13
  short : temperature.length + pressure.length ≤ 2000

def Reading.lines (r : Reading) : List (List (BitVec 8)) :=
  [ascii "T:" ++ r.temperature ++ ascii " C", ascii "P:" ++ r.pressure ++ ascii " hPa"]

def greeting : List (BitVec 8) := ascii "Hello, UMLIFE OLED!"

/-- An empty buffer, and the text settings both `setup` and `loop` make. -/
def cleared (s : Screen p) : Screen p :=
  setCursor 0 0 (setTextColor ssd1306White (setTextSize 2 {s with buffer := clearDisplay}))

def showLines (font : Nat → BitVec 8) (lines : List (List (BitVec 8))) (s : Screen p) :
    Option (Screen p) :=
  lines.foldlM (fun s line => println font line s) (cleared s)

def setup (font : Nat → BitVec 8) (s : Screen p) : Option (Screen p) := showLines font [greeting] s

/-- The sketch, once it is set up: what it prints goes to the serial port too. -/
def sketch (font : Nat → BitVec 8) : Machine Reading (Option (Screen p)) (List (BitVec 8)) :=
  .ofFallible fun r s => (showLines font r.lines s).map fun s' => (s', r.lines)

/-! ### One screen of lines -/

theorem print_append (font : Nat → BitVec 8) (a b : List (BitVec 8)) (s : Screen p) :
    print font (a ++ b) s = (print font a s).bind (print font b) := List.foldlM_append

/-- Lines printed one after the other are one text. -/
theorem println_all (font : Nat → BitVec 8) (lines : List (List (BitVec 8))) (s : Screen p) :
    lines.foldlM (fun s line => println font line s) s = print font (lines.flatMap (· ++ [13, 10])) s := by
  induction lines generalizing s with
  | nil => rfl
  | cons line rest ih =>
    rw [List.foldlM_cons, List.flatMap_cons, print_append, print_append, println]
    exact congrArg _ (funext ih)

theorem keyOf_lines {lines : List (List (BitVec 8))} (hplain : ∀ line ∈ lines, ∀ c ∈ line, c ≠ 10 ∧ c ≠ 13) :
    (lines.flatMap (· ++ [13, 10])).map keyOf = lines.flatMap TextGrid.line := by
  rw [List.map_flatMap]
  refine List.flatMap_congr fun line hline => ?_
  rw [List.map_append, TextGrid.line]
  refine congrArg (· ++ _) (List.map_congr_left fun c hc => ?_)
  obtain ⟨hbreak, hreturn⟩ := hplain line hline c hc
  rw [keyOf, if_neg hbreak, if_neg hreturn]

/-- Whether the font lights a pixel of the cell it is in. -/
def litAt (font : Nat → BitVec 8) (cp437 : Bool) (x y : Nat) (c : BitVec 8) : Bool :=
  charLit font (charCode cp437 c) ((x / 2 % 6 : Nat)) ((y / 2 % 8 : Nat))

/-- A screen that shows lines of text in size two, and nothing else. -/
def Shows (font : Nat → BitVec 8) (lines : List (List (BitVec 8))) (s : Screen p) : Prop :=
  ∀ x y : Nat, p.InBounds x y → getPixel x y s.buffer = some
    (if x / 12 < p.width / 12 then
      ((shown (p.width / 12) lines (y / 16) (x / 12)).map (litAt font s.cp437 x y)).getD false
    else false)

theorem getPixel_clear {x y : Int} (h : p.InBounds x y) :
    getPixel x y (clearDisplay : Buffer p) = some false := by
  obtain ⟨k, -, -, hget⟩ := getPixel_eq h
  rw [hget, pixel, clearDisplay, Vector.getElem?_replicate]
  split
  · exact congrArg some BitVec.getLsbD_zero
  · exact congrArg some BitVec.getLsbD_zero

@[simp] theorem cleared_textsizeX (s : Screen p) : (cleared s).textsizeX = 2 := rfl

@[simp] theorem cleared_textsizeY (s : Screen p) : (cleared s).textsizeY = 2 := rfl

theorem cleared_cellOf (s : Screen p) (x y : Nat) : (cleared s).cellOf x y = ⟨y / 16, x / 12⟩ := by
  rw [Screen.cellOf, cleared_textsizeX, cleared_textsizeY, Cell.mk.injEq]
  omega

theorem cleared_lit (font : Nat → BitVec 8) (s : Screen p) (c : BitVec 8) (x y : Nat) :
    (cleared s).lit font c x y = litAt font s.cp437 x y c := by
  have hcell : ∀ v n : Nat, ((v / 2 % n : Nat) : Int) = (v : Int) / (2 : Nat) % n := fun v n => rfl
  rw [litAt, hcell, hcell]
  rfl

theorem showLines_shows (font : Nat → BitVec 8) {lines : List (List (BitVec 8))} {s : Screen p}
    (hwrap : s.wrap = true) (hwidth : 12 ≤ p.width)
    (hplain : ∀ line ∈ lines, ∀ c ∈ line, c ≠ 10 ∧ c ≠ 13)
    (hlength : (lines.flatMap (· ++ [13, 10])).length ≤ 2047) :
    ∃ s', showLines font lines s = some s' ∧ s'.wrap = true ∧ s'.cp437 = s.cp437 ∧ Shows font lines s' := by
  have hcols : 0 < p.width / 12 := Nat.div_pos hwidth (by decide)
  have hat : AtCell (cleared s) ⟨0, 0⟩ := ⟨rfl, rfl⟩
  have hrows : 8 * (finish (cleared s).cols ⟨0, 0⟩ ((lines.flatMap (· ++ [13, 10])).map keyOf)).row *
      (cleared s).textsizeY ≤ 32767 := by
    have hbound := finish_row_le (cleared s).cols ⟨0, 0⟩ ((lines.flatMap (· ++ [13, 10])).map keyOf)
    rw [List.length_map, Nat.zero_add] at hbound
    rw [cleared_textsizeY]
    omega
  obtain ⟨buf', hprint, hpixels⟩ := print_pixels font (lines.flatMap (· ++ [13, 10])) hat hwrap hcols
    (.inl rfl) (.inl rfl) hrows
  refine ⟨_, (println_all font lines (cleared s)).trans hprint, hwrap, rfl, fun x y hin => ?_⟩
  have hglyph : glyphAt (layout (cleared s).cols ⟨0, 0⟩ (lines.flatMap TextGrid.line)) ⟨y / 16, x / 12⟩ = _ :=
    Nat.zero_add (y / 16) ▸ glyphAt_page hcols lines 0 (y / 16) (x / 12)
  have hempty : getPixel x y (cleared s).buffer = some false := getPixel_clear hin
  show getPixel x y buf' = _
  rw [hpixels x y hin, cleared_cellOf, keyOf_lines hplain, hglyph, hempty]
  by_cases hcol : x / 12 < p.width / 12
  · rw [if_pos hcol, if_pos hcol]
    cases shown (p.width / 12) lines (y / 16) (x / 12) with
    | none => rfl
    | some c =>
      show some (if (cleared s).lit font c x y then true else false) = some (litAt font s.cp437 x y c)
      rw [cleared_lit, Bool.if_true_left]
      simp
  · rw [if_neg hcol, if_neg hcol]

/-! ### The sketch -/

theorem Reading.lines_plain (r : Reading) : ∀ line ∈ r.lines, ∀ c ∈ line, c ≠ 10 ∧ c ≠ 13 := by
  have hlabels : ∀ c ∈ ascii "T:" ++ ascii " C" ++ ascii "P:" ++ ascii " hPa", c ≠ 10 ∧ c ≠ 13 := by
    simp [ascii, byteOf]
  have hplain := r.plain
  simp only [List.mem_append, or_imp, forall_and] at hlabels hplain
  intro line hline c hc
  rcases List.mem_pair.mp hline with rfl | rfl
  · simp only [List.mem_append] at hc
    rcases hc with (hc | hc) | hc
    · exact ⟨hlabels.1.1.1.1 c hc, hlabels.2.1.1.1 c hc⟩
    · exact ⟨hplain.1.1 c hc, hplain.2.1 c hc⟩
    · exact ⟨hlabels.1.1.1.2 c hc, hlabels.2.1.1.2 c hc⟩
  · simp only [List.mem_append] at hc
    rcases hc with (hc | hc) | hc
    · exact ⟨hlabels.1.1.2 c hc, hlabels.2.1.2 c hc⟩
    · exact ⟨hplain.1.2 c hc, hplain.2.2 c hc⟩
    · exact ⟨hlabels.1.2 c hc, hlabels.2.2 c hc⟩

theorem Reading.lines_length (r : Reading) : (r.lines.flatMap (· ++ [13, 10])).length ≤ 2047 := by
  have hshort := r.short
  simp [lines, ascii]
  omega

variable (font : Nat → BitVec 8)

theorem setup_shows {s : Screen p} (hwrap : s.wrap = true) (hwidth : 12 ≤ p.width) :
    ∃ s', setup font s = some s' ∧ s'.wrap = true ∧ Shows font [greeting] s' := by
  have hplain : ∀ line ∈ [greeting], ∀ c ∈ line, c ≠ 10 ∧ c ≠ 13 := by simp [greeting, ascii, byteOf]
  obtain ⟨s', hshow, hwrap', -, hshows⟩ := showLines_shows font hwrap hwidth hplain (by decide)
  exact ⟨s', hshow, hwrap', hshows⟩

/-- One pass: what the panel had before is gone. -/
theorem loop_shows (r : Reading) {s : Screen p} (hwrap : s.wrap = true) (hwidth : 12 ≤ p.width) :
    ∃ s', (sketch font).pass r (some s) = (some s', r.lines) ∧ s'.wrap = true ∧ Shows font r.lines s' := by
  obtain ⟨s', hshow, hwrap', -, hshows⟩ :=
    showLines_shows font hwrap hwidth r.lines_plain r.lines_length
  exact ⟨s', Machine.ofFallible_pass (by rw [hshow, Option.map_some]), hwrap', hshows⟩

/-- Passes never fail, and print every reading. -/
theorem sketch_run (inputs : List Reading) {s : Screen p} (hwrap : s.wrap = true)
    (hwidth : 12 ≤ p.width) :
    ∃ s', (sketch font).run (some s) inputs = some s' ∧ s'.wrap = true ∧
      (sketch font).log (some s) inputs = inputs.flatMap Reading.lines := by
  induction inputs generalizing s with
  | nil => exact ⟨s, rfl, hwrap, rfl⟩
  | cons r rest ih =>
    obtain ⟨s₁, hpass, hwrap₁, -⟩ := loop_shows font r hwrap hwidth
    obtain ⟨s', hrun, hwrap', hlog⟩ := ih hwrap₁
    refine ⟨s', ?_, hwrap', ?_⟩
    · rw [Machine.run_cons, Machine.next, hpass, hrun]
    · rw [Machine.log_cons, Machine.next, Machine.out, hpass, hlog, List.flatMap_cons]

/-- What the panel should show after the readings. -/
def latest (inputs : List Reading) : List (List (BitVec 8)) :=
  (inputs.getLast?.map Reading.lines).getD [greeting]

/-- **The panel shows the last reading, and only that**, at every pixel and after any run,
while the serial port has them all. -/
theorem readings_shown {s : Screen p} (hwrap : s.wrap = true) (hwidth : 12 ≤ p.width)
    (inputs : List Reading) :
    ∃ s', (sketch font).run (setup font s) inputs = some s' ∧ Shows font (latest inputs) s' ∧
      (sketch font).log (setup font s) inputs = inputs.flatMap Reading.lines := by
  obtain ⟨s₀, hsetup, hwrap₀, hgreeting⟩ := setup_shows font hwrap hwidth
  rw [hsetup]
  rcases List.eq_nil_or_concat inputs with rfl | ⟨earlier, r, rfl⟩
  · exact ⟨s₀, rfl, hgreeting, rfl⟩
  · obtain ⟨s₁, hrun, hwrap₁, hlog⟩ := sketch_run font earlier hwrap₀ hwidth
    obtain ⟨s', hpass, -, hshows⟩ := loop_shows font r hwrap₁ hwidth
    refine ⟨s', ?_, ?_, ?_⟩
    · rw [List.concat_eq_append, Machine.run_concat, hrun, Machine.next, hpass]
    · rw [latest, List.concat_eq_append, List.getLast?_append, List.getLast?_singleton]
      exact hshows
    · rw [List.concat_eq_append, Machine.log_concat, hrun, Machine.out, hpass, hlog, List.flatMap_append]
      simp

/-- Two readings, of which the second stays. -/
theorem readings_shown_oled :
    ∃ s', (sketch fun _ => 0x7F).run (setup (fun _ => 0x7F) ({} : Screen oled))
        [⟨[50, 49], [49, 48, 49, 51], by decide, by decide⟩, ⟨[45, 51], [57, 57, 56], by decide, by decide⟩] =
          some s' ∧
      Shows (fun _ => 0x7F) [ascii "T:-3 C", ascii "P:998 hPa"] s' := by
  obtain ⟨s', hrun, hshows, -⟩ := @readings_shown oled (fun _ => 0x7F) {} rfl (by decide)
    [⟨[50, 49], [49, 48, 49, 51], by decide, by decide⟩, ⟨[45, 51], [57, 57, 56], by decide, by decide⟩]
  exact ⟨s', hrun, hshows⟩

end MakerSpace.Display
