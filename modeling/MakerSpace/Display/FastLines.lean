import MakerSpace.Display.Panel

/-! The fast lines draw what single pixels would.

A horizontal line sets one bit in each of a row of bytes; a vertical one writes the high
bits of a byte, whole bytes below it and the low bits of the last. Either is clipped to
the panel, and each stands for the other when the panel is turned. The region painted is
given in the coordinates of the caller (`Panel.logical`), so it is the same in every
rotation: `drawFastVLine_paints` and `drawFastHLine_paints`. -/
namespace MakerSpace.Display
open Raster

variable {p : Panel}

/-! ### Masks -/

theorem bitMask_bit : ∀ k < 8, ∀ j < 8, ((1 : BitVec 8) <<< k).getLsbD j = decide (j = k) := by
  decide

theorem premask_bit : ∀ mod < 8, ∀ j < 8, (premask mod).getLsbD j = decide (8 - mod ≤ j) := by
  decide

theorem postmask_bit : ∀ mod < 8, ∀ j < 8, (postmask mod).getLsbD j = decide (j < mod) := by
  decide

theorem shortMask_bit : ∀ k ≤ 8, ∀ j < 8, ((0xFF : BitVec 8) >>> k).getLsbD j = decide (j < 8 - k) := by
  decide

theorem allMask_bit : ∀ j < 8, (0xFF : BitVec 8).getLsbD j = true := by
  decide

/-- The colors a line is asked for. -/
def Known (color : BitVec 16) : Prop :=
  color = ssd1306White ∨ color = ssd1306Black ∨ color = ssd1306Inverse

theorem solidByte_bit {color : BitVec 16} (hcolor : Known color) (byte : BitVec 8) {j : Nat}
    (hj : j < 8) :
    (solidByte color byte).getLsbD j =
      if (0xFF : BitVec 8).getLsbD j then ink color (byte.getLsbD j) else byte.getLsbD j := by
  rw [allMask_bit j hj, if_pos rfl]
  have hall : (255 : BitVec 8).getLsbD j = true := allMask_bit j hj
  rcases hcolor with rfl | rfl | rfl
  · exact hall
  · exact BitVec.getLsbD_zero
  · rw [solidByte, if_pos rfl, BitVec.getLsbD_xor, allMask_bit j hj]
    cases byte.getLsbD j <;> rfl

/-- One byte, and the rows of it that are painted. -/
theorem ink_paints {x page : Nat} (hx : x < p.rawWidth) (hpage : page < p.pages) (color : BitVec 16)
    (mask : BitVec 8) (rows : Nat → Prop) (hrows : ∀ j < 8, mask.getLsbD j = true ↔ rows (page * 8 + j))
    (buf : Buffer p) :
    ∃ buf', modify (x + page * p.rawWidth) (inkByte color mask) buf = some buf' ∧
      Paints (fun _ => ink color) (fun i => i.1 = x ∧ i.2 / 8 = page ∧ rows i.2)
        (pixel buf) (pixel buf') := by
  obtain ⟨buf', hmodify, hpaint⟩ :=
    modify_paints hx hpage mask (fun byte j hj => inkByte_bit color mask byte hj) buf
  refine ⟨buf', hmodify, hpaint.congr (fun i => ?_) fun _ _ => rfl⟩
  refine and_congr_right fun _ => and_congr_right fun hi => ?_
  rw [hrows _ (Nat.mod_lt _ (by decide)), ← hi, Nat.div_add_mod']

/-! ### Lines on the panel -/

/-- Clipping leaves the part of the range that is on the panel. -/
theorem clip {limit : Nat} (hlimit : limit < 256) {x w : Int} (hx : -32768 ≤ x ∧ x ≤ 32767)
    (hw : 0 ≤ w ∧ w ≤ 32767) :
    ∃ (left : Nat) (count : Int), (if x < 0 then 0 else x) = left ∧
      (if left + (if x < 0 then int16 (w + x) else w) > limit then int16 (limit - left)
        else if x < 0 then int16 (w + x) else w) = count ∧
      left + count ≤ max limit left ∧
      ∀ X : Nat, X < limit → (left ≤ X ∧ (X : Int) < left + count ↔ x ≤ X ∧ (X : Int) < x + w) := by
  obtain ⟨left, hleft⟩ : ∃ left : Nat, (if x < 0 then 0 else x) = left :=
    ⟨(if x < 0 then 0 else x).toNat, by split <;> omega⟩
  refine ⟨left, _, hleft, rfl, ?_, fun X hX => ?_⟩
  · simp only [int16]
    split at hleft <;> split <;> split <;> omega
  · simp only [int16]
    split at hleft <;> split <;> split <;> omega

theorem div_lt_pages {y : Nat} (hy : y < p.rawHeight) : y / 8 < p.pages := by
  rw [Panel.pages]
  omega

theorem drawFastHLineInternal_paints (buf : Buffer p) {x w : Int} (hx : -32768 ≤ x ∧ x ≤ 32767)
    (hw : 0 ≤ w ∧ w ≤ 32767) (y : Int) (color : BitVec 16) :
    ∃ buf', drawFastHLineInternal x y w color buf = some buf' ∧ Paints (fun _ => ink color)
      (fun i => x ≤ i.1 ∧ i.1 < x + w ∧ (i.2 : Int) = y ∧ i.2 < p.rawHeight)
      (pixel buf) (pixel buf') := by
  unfold drawFastHLineInternal
  split
  · next hy =>
    obtain ⟨y, rfl⟩ := Int.eq_ofNat_of_zero_le hy.1
    obtain ⟨left, count, hleft, hcount, hend, hclip⟩ := clip p.widthByte hx hw
    simp only [hleft, hcount]
    split
    · next hpos =>
      have hyn : y < p.rawHeight := by omega
      have hindex : ∀ k, ((y : Int) / 8 * p.rawWidth + left).toNat + k =
          left + k + y / 8 * p.rawWidth := by
        intro k
        rw [show (y : Int) / 8 * p.rawWidth + left = ((y / 8 * p.rawWidth + left : Nat) : Int) by
          push_cast; rfl, Int.toNat_natCast]
        omega
      have hbit : ((y : Int) % 8).toNat = y % 8 := by omega
      simp only [hindex, hbit]
      have hstroke : ∀ k ∈ List.range count.toNat, ∀ buf : Buffer p, ∃ buf',
          modify (left + k + y / 8 * p.rawWidth) (inkByte color ((1 : BitVec 8) <<< (y % 8))) buf = some buf' ∧
          Paints (fun _ => ink color) (fun i => i.1 = left + k ∧ i.2 / 8 = y / 8 ∧ i.2 = y)
            (pixel buf) (pixel buf') := by
        intro k hk buf
        have hcol : left + k < p.rawWidth := by
          have := List.mem_range.mp hk
          omega
        refine ink_paints hcol (div_lt_pages hyn) color _ (· = y) (fun j hj => ?_) buf
        rw [bitMask_bit _ (Nat.mod_lt _ (by decide)) j hj, decide_eq_true_eq]
        omega
      obtain ⟨buf', hloop, hpaint⟩ := paints_foldlM pixel _ _ (List.range count.toNat) hstroke
        (List.pairwise_lt_range.imp fun hlt i hi hi' => by omega) buf
      refine ⟨buf', hloop, hpaint.congr (fun i => ?_) fun _ _ => rfl⟩
      have hi := hclip i.1 i.1.isLt
      simp only [List.mem_range]
      constructor
      · intro hk
        obtain ⟨k, hk, hcol, -, hrow⟩ := hk
        have := hi.mp (by omega)
        omega
      · intro hregion
        have := hi.mpr ⟨hregion.1, hregion.2.1⟩
        exact ⟨i.1 - left, by omega, by omega, by omega, by omega⟩
    · next hnone =>
      refine ⟨buf, rfl, .nothing _ (fun i hi => ?_) _⟩
      have := (hclip i.1 i.1.isLt).mpr ⟨hi.1, hi.2.1⟩
      omega
  · next hy =>
    exact ⟨buf, rfl, .nothing _ (fun i hi => hy (by omega)) _⟩

theorem solid_paints {color : BitVec 16} (hcolor : Known color) {x page : Nat} (hx : x < p.rawWidth)
    (hpage : page < p.pages) (buf : Buffer p) :
    ∃ buf', modify (x + page * p.rawWidth) (solidByte color) buf = some buf' ∧
      Paints (fun _ => ink color) (fun i => i.1 = x ∧ i.2 / 8 = page) (pixel buf) (pixel buf') := by
  obtain ⟨buf', hmodify, hpaint⟩ :=
    modify_paints hx hpage 0xFF (fun byte j hj => solidByte_bit hcolor byte hj) buf
  refine ⟨buf', hmodify, hpaint.congr (fun i => ?_) fun _ _ => rfl⟩
  rw [allMask_bit _ (Nat.mod_lt _ (by decide))]
  simp

theorem drawBytes_paints {color : BitVec 16} (hcolor : Known color) {x page h : Nat}
    (hx : x < p.rawWidth) (hend : page * 8 + h ≤ p.pages * 8) (buf : Buffer p) :
    ∃ buf', drawBytes color (x + page * p.rawWidth) h buf = some buf' ∧ Paints (fun _ => ink color)
      (fun i => i.1 = x ∧ page * 8 ≤ i.2 ∧ i.2 < page * 8 + h) (pixel buf) (pixel buf') := by
  have hindex : ∀ k, x + page * p.rawWidth + k * p.rawWidth = x + (page + k) * p.rawWidth := by
    intro k
    rw [Nat.add_mul, Nat.add_assoc]
  have hstroke : ∀ k ∈ List.range (h / 8), ∀ buf : Buffer p, ∃ buf',
      modify (x + page * p.rawWidth + k * p.rawWidth) (solidByte color) buf = some buf' ∧
      Paints (fun _ => ink color) (fun i => i.1 = x ∧ i.2 / 8 = page + k) (pixel buf) (pixel buf') := by
    intro k hk buf
    have := List.mem_range.mp hk
    rw [hindex]
    exact solid_paints hcolor hx (by omega) buf
  obtain ⟨buf₁, hloop, hpaint⟩ := paints_foldlM pixel _ _ (List.range (h / 8)) hstroke
    (List.pairwise_lt_range.imp fun hlt i hi hi' => by omega) buf
  have hsolid : Paints (fun _ => ink color)
      (fun i : Place p => i.1 = x ∧ page * 8 ≤ i.2 ∧ i.2 < page * 8 + h / 8 * 8)
      (pixel buf) (pixel buf₁) := by
    refine hpaint.congr (fun i => ?_) fun _ _ => rfl
    simp only [List.mem_range]
    constructor
    · intro hk
      obtain ⟨k, hk, hcol, hrow⟩ := hk
      omega
    · intro hregion
      exact ⟨i.2 / 8 - page, by omega, hregion.1, by omega⟩
  rw [drawBytes, hloop]
  show ∃ buf', (if h % 8 ≠ 0 then _ else _) = some buf' ∧ _
  split
  · next hmore =>
    rw [hindex]
    obtain ⟨buf', hlast, hpaint'⟩ := ink_paints hx (by omega : page + h / 8 < p.pages) color
      (postmask (h % 8)) (fun row => row < page * 8 + h) (fun j hj => by
        rw [postmask_bit _ (Nat.mod_lt _ (by decide)) j hj, decide_eq_true_eq]
        omega) buf₁
    refine ⟨buf', hlast, (hsolid.union hpaint' fun i hi hi' => by omega).congr (fun i => ?_)
      fun _ _ => rfl⟩
    constructor
    · intro hi
      rcases hi with hi | hi <;> omega
    · intro hi
      by_cases hrow : i.2 < page * 8 + h / 8 * 8
      · exact .inl ⟨hi.1, hi.2.1, hrow⟩
      · exact .inr ⟨hi.1, by omega, hi.2.2⟩
  · next hdone =>
    exact ⟨buf₁, rfl, hsolid.congr (fun i => by omega) fun _ _ => rfl⟩

theorem drawColumn_paints {color : BitVec 16} (hcolor : Known color) {x y h : Nat}
    (hx : x < p.rawWidth) (hh : 0 < h) (hend : y + h ≤ p.rawHeight) (buf : Buffer p) :
    ∃ buf', drawColumn color x y h buf = some buf' ∧ Paints (fun _ => ink color)
      (fun i => i.1 = x ∧ y ≤ i.2 ∧ i.2 < y + h) (pixel buf) (pixel buf') := by
  have hpages : p.rawHeight ≤ p.pages * 8 := by
    rw [Panel.pages]
    omega
  unfold drawColumn
  simp only [Nat.add_comm (y / 8 * p.rawWidth) x]
  split
  · next hpartial =>
    -- the first byte, down to its end or to that of the line
    obtain ⟨buf₁, hfirst, hpaint⟩ := ink_paints hx (div_lt_pages (by omega : y < p.rawHeight)) color
      (if h < 8 - y % 8 then premask (8 - y % 8) &&& (0xFF : BitVec 8) >>> (8 - y % 8 - h)
        else premask (8 - y % 8)) (fun row => y ≤ row ∧ row < y + h) (fun j hj => by
        split
        · rw [BitVec.getLsbD_and, premask_bit _ (by omega) j hj, shortMask_bit _ (by omega) j hj,
            Bool.and_eq_true, decide_eq_true_eq, decide_eq_true_eq]
          omega
        · rw [premask_bit _ (by omega) j hj, decide_eq_true_eq]
          omega) buf
    rw [hfirst]
    show ∃ buf', (if h ≥ 8 - y % 8 then _ else _) = some buf' ∧ _
    split
    · next hmore =>
      have hindex : x + y / 8 * p.rawWidth + p.rawWidth = x + (y / 8 + 1) * p.rawWidth := by
        rw [Nat.add_one_mul, Nat.add_assoc]
      obtain ⟨buf', hrest, hpaint'⟩ := drawBytes_paints hcolor hx
        (by omega : (y / 8 + 1) * 8 + (h - (8 - y % 8)) ≤ p.pages * 8) buf₁
      rw [hindex]
      refine ⟨buf', hrest, (hpaint.union hpaint' fun i hi hi' => by omega).congr (fun i => ?_)
        fun _ _ => rfl⟩
      constructor
      · intro hi
        rcases hi with hi | hi <;> omega
      · intro hi
        by_cases hrow : i.2 / 8 = y / 8
        · exact .inl ⟨hi.1, hrow, hi.2⟩
        · exact .inr ⟨hi.1, by omega, by omega⟩
    · next hshort =>
      refine ⟨buf₁, rfl, hpaint.congr (fun i => ?_) fun _ _ => rfl⟩
      constructor
      · exact fun hi => ⟨hi.1, hi.2.2⟩
      · exact fun hi => ⟨hi.1, by omega, hi.2⟩
  · next haligned =>
    obtain ⟨buf', hall, hpaint⟩ := drawBytes_paints hcolor hx
      (by omega : y / 8 * 8 + h ≤ p.pages * 8) buf
    exact ⟨buf', hall, hpaint.congr (fun i => by omega) fun _ _ => rfl⟩

theorem drawFastVLineInternal_paints (buf : Buffer p) {y h : Int} (hy : -32768 ≤ y ∧ y ≤ 32767)
    (hh : 0 ≤ h ∧ h ≤ 32767) (x : Int) {color : BitVec 16} (hcolor : Known color) :
    ∃ buf', drawFastVLineInternal x y h color buf = some buf' ∧ Paints (fun _ => ink color)
      (fun i => (i.1 : Int) = x ∧ y ≤ i.2 ∧ (i.2 : Int) < y + h ∧ i.2 < p.rawHeight)
      (pixel buf) (pixel buf') := by
  have hheight := p.heightByte
  unfold drawFastVLineInternal
  split
  · next hx =>
    obtain ⟨x, rfl⟩ := Int.eq_ofNat_of_zero_le hx.1
    obtain ⟨top, count, htop, hcount, hend, hclip⟩ := clip p.heightByte hy hh
    simp only [htop, hcount]
    split
    · next hpos =>
      obtain ⟨count, rfl⟩ := Int.eq_ofNat_of_zero_le (Int.le_of_lt hpos)
      simp only [Int.toNat_natCast, Nat.mod_eq_of_lt (by omega : top < 256),
        Nat.mod_eq_of_lt (by omega : count < 256)]
      obtain ⟨buf', hcolumn, hpaint⟩ := drawColumn_paints hcolor (by omega : x < p.rawWidth)
        (by omega : 0 < count) (by omega : top + count ≤ p.rawHeight) buf
      refine ⟨buf', hcolumn, hpaint.congr (fun i => ?_) fun _ _ => rfl⟩
      constructor
      · intro hi
        have := (hclip i.2 (by omega)).mp (by omega)
        omega
      · intro hi
        have := (hclip i.2 hi.2.2.2).mpr ⟨hi.2.1, hi.2.2.1⟩
        omega
    · next hnone =>
      refine ⟨buf, rfl, .nothing _ (fun i hi => ?_) _⟩
      have := (hclip i.2 hi.2.2.2).mpr ⟨hi.2.1, hi.2.2.1⟩
      omega
  · next hx =>
    have hcol : ∀ i : Place p, (i.1 : Int) < p.rawWidth := fun i => by exact_mod_cast i.1.isLt
    exact ⟨buf, rfl, .nothing _ (fun i hi => hx ⟨by omega, by rw [← hi.1]; exact hcol i⟩) _⟩

/-! ### As the caller sees it -/

/-- The caller's coordinates of a place on the panel. -/
def Panel.logical (p : Panel) (i : Place p) : Int × Int :=
  match p.rotation with
  | 0 => (i.1, i.2)
  | 1 => (i.2, p.rawWidth - i.1 - 1)
  | 2 => (p.rawWidth - i.1 - 1, p.rawHeight - i.2 - 1)
  | 3 => (p.rawHeight - i.2 - 1, i.1)

/-- The places of a region given in the caller's coordinates. -/
def Panel.onPanel (p : Panel) (S : Int → Int → Prop) (i : Place p) : Prop :=
  i.2 < p.rawHeight ∧ S (p.logical i).1 (p.logical i).2

theorem rotation_cases : ∀ r : Fin 4, r = 0 ∨ r = 1 ∨ r = 2 ∨ r = 3 := by
  decide

/-- Every pixel the caller can address has its place. -/
theorem Panel.place_spec (p : Panel) {x y : Int} (h : p.InBounds x y) :
    ∃ i : Place p, p.place x y = ((i.1 : Int), (i.2 : Int)) ∧ i.2 < p.rawHeight ∧ p.logical i = (x, y) := by
  obtain ⟨hx, hx', hy, hy'⟩ := h
  rw [width] at hx'
  rw [height] at hy'
  rcases rotation_cases p.rotation with hr | hr | hr | hr
  · simp only [hr, Fin.isValue, Fin.reduceEq, or_self, if_false] at hx' hy'
    refine ⟨(⟨x.toNat, by omega⟩, y.toNat), ?_, ?_, ?_⟩
    · simp only [place, hr, Prod.mk.injEq]
      omega
    · show y.toNat < _
      omega
    · simp only [logical, hr, Prod.mk.injEq]
      omega
  · simp only [hr, true_or, if_true] at hx' hy'
    refine ⟨(⟨(p.rawWidth - y - 1).toNat, by omega⟩, x.toNat), ?_, ?_, ?_⟩
    · simp only [place, hr, Prod.mk.injEq]
      omega
    · show x.toNat < _
      omega
    · simp only [logical, hr, Prod.mk.injEq]
      omega
  · simp only [hr, Fin.isValue, Fin.reduceEq, or_self, if_false] at hx' hy'
    refine ⟨(⟨(p.rawWidth - x - 1).toNat, by omega⟩, (p.rawHeight - y - 1).toNat), ?_, ?_, ?_⟩
    · simp only [place, hr, Prod.mk.injEq]
      omega
    · show (p.rawHeight - y - 1).toNat < _
      omega
    · simp only [logical, hr, Prod.mk.injEq]
      omega
  · simp only [hr, or_true, if_true] at hx' hy'
    refine ⟨(⟨y.toNat, by omega⟩, (p.rawHeight - x - 1).toNat), ?_, ?_, ?_⟩
    · simp only [place, hr, Prod.mk.injEq]
      omega
    · show (p.rawHeight - x - 1).toNat < _
      omega
    · simp only [logical, hr, Prod.mk.injEq]
      omega

theorem Panel.logical_inBounds (p : Panel) (i : Place p) (hi : i.2 < p.rawHeight) :
    p.InBounds (p.logical i).1 (p.logical i).2 := by
  have hcol := i.1.isLt
  rw [InBounds, width, height]
  rcases rotation_cases p.rotation with hr | hr | hr | hr <;>
    simp only [logical, hr, Fin.isValue, Fin.reduceEq, or_self, or_true, true_or, if_true, if_false] <;>
    omega

theorem int16_range (v : Int) : -32768 ≤ int16 v ∧ int16 v ≤ 32767 := by
  rw [int16]
  omega

/-- Places the caller takes for one are one. -/
theorem Panel.logical_inj (p : Panel) {i k : Place p} (h : p.logical i = p.logical k) : i = k := by
  have hcol := i.1.isLt
  have hcol' := k.1.isLt
  have hsame : i.1.val = k.1.val ∧ i.2 = k.2 := by
    rcases rotation_cases p.rotation with hr | hr | hr | hr <;>
      simp only [logical, hr, Prod.mk.injEq] at h <;> omega
  exact Prod.ext (Fin.ext hsame.1) hsame.2

section Lines
variable (buf : Buffer p) {x y : Int} (hx : -32768 ≤ x ∧ x ≤ 32767) (hy : -32768 ≤ y ∧ y ≤ 32767)
  {color : BitVec 16} (hcolor : Known color)
include hx hy hcolor

/-- A horizontal line, whichever of the two the panel draws for it. -/
theorem drawFastHLine_paints {w : Int} (hw : 0 ≤ w ∧ w ≤ 32767) :
    ∃ buf', drawFastHLine x y w color buf = some buf' ∧ Paints (fun _ => ink color)
      (p.onPanel fun x' y' => x ≤ x' ∧ x' < x + w ∧ y' = y) (pixel buf) (pixel buf') := by
  have hwidth := p.widthByte
  have hheight := p.heightByte
  rcases rotation_cases p.rotation with hr | hr | hr | hr <;>
    simp only [drawFastHLine, hr]
  · obtain ⟨buf', hline, hpaint⟩ := drawFastHLineInternal_paints buf hx hw y color
    refine ⟨buf', hline, hpaint.congr (fun i => ?_) fun _ _ => rfl⟩
    have := i.1.isLt
    simp only [Panel.onPanel, Panel.logical, hr]
    omega
  · obtain ⟨buf', hline, hpaint⟩ :=
      drawFastVLineInternal_paints buf hx hw (int16 (p.rawWidth - y - 1)) hcolor
    refine ⟨buf', hline, hpaint.congr (fun i => ?_) fun _ _ => rfl⟩
    have := i.1.isLt
    simp only [Panel.onPanel, Panel.logical, hr, int16]
    omega
  · obtain ⟨buf', hline, hpaint⟩ := drawFastHLineInternal_paints buf
      (int16_range (int16 (p.rawWidth - x - 1) - (w - 1))) hw (int16 (p.rawHeight - y - 1)) color
    refine ⟨buf', hline, hpaint.congr (fun i => ?_) fun _ _ => rfl⟩
    have := i.1.isLt
    simp only [Panel.onPanel, Panel.logical, hr, int16]
    omega
  · obtain ⟨buf', hline, hpaint⟩ := drawFastVLineInternal_paints buf
      (int16_range (int16 (p.rawHeight - x - 1) - (w - 1))) hw y hcolor
    refine ⟨buf', hline, hpaint.congr (fun i => ?_) fun _ _ => rfl⟩
    have := i.1.isLt
    simp only [Panel.onPanel, Panel.logical, hr, int16]
    omega

/-- And a vertical one. -/
theorem drawFastVLine_paints {h : Int} (hh : 0 ≤ h ∧ h ≤ 32767) :
    ∃ buf', drawFastVLine x y h color buf = some buf' ∧ Paints (fun _ => ink color)
      (p.onPanel fun x' y' => x' = x ∧ y ≤ y' ∧ y' < y + h) (pixel buf) (pixel buf') := by
  have hwidth := p.widthByte
  have hheight := p.heightByte
  rcases rotation_cases p.rotation with hr | hr | hr | hr <;>
    simp only [drawFastVLine, hr]
  · obtain ⟨buf', hline, hpaint⟩ := drawFastVLineInternal_paints buf hy hh x hcolor
    refine ⟨buf', hline, hpaint.congr (fun i => ?_) fun _ _ => rfl⟩
    have := i.1.isLt
    simp only [Panel.onPanel, Panel.logical, hr]
    omega
  · obtain ⟨buf', hline, hpaint⟩ := drawFastHLineInternal_paints buf
      (int16_range (int16 (p.rawWidth - y - 1) - (h - 1))) hh x color
    refine ⟨buf', hline, hpaint.congr (fun i => ?_) fun _ _ => rfl⟩
    have := i.1.isLt
    simp only [Panel.onPanel, Panel.logical, hr, int16]
    omega
  · obtain ⟨buf', hline, hpaint⟩ := drawFastVLineInternal_paints buf
      (int16_range (int16 (p.rawHeight - y - 1) - (h - 1))) hh (int16 (p.rawWidth - x - 1)) hcolor
    refine ⟨buf', hline, hpaint.congr (fun i => ?_) fun _ _ => rfl⟩
    have := i.1.isLt
    simp only [Panel.onPanel, Panel.logical, hr, int16]
    omega
  · obtain ⟨buf', hline, hpaint⟩ :=
      drawFastHLineInternal_paints buf hy hh (int16 (p.rawHeight - x - 1)) color
    refine ⟨buf', hline, hpaint.congr (fun i => ?_) fun _ _ => rfl⟩
    have := i.1.isLt
    simp only [Panel.onPanel, Panel.logical, hr, int16]
    omega

end Lines

/-! ### Single pixels -/

theorem drawPixel_paints (x y : Int) (color : BitVec 16) (buf : Buffer p) :
    ∃ buf', drawPixel x y color buf = some buf' ∧ Paints (fun _ => ink color)
      (p.onPanel fun x' y' => x' = x ∧ y' = y) (pixel buf) (pixel buf') := by
  unfold drawPixel
  split
  · next hbounds =>
    obtain ⟨i, hplace, hrow, hlogical⟩ := p.place_spec hbounds
    have hindex : ((i.1 : Int) + (i.2 : Int) / 8 * p.rawWidth).toNat =
        i.1 + i.2 / 8 * p.rawWidth := by
      rw [show (i.1 : Int) + (i.2 : Int) / 8 * p.rawWidth = ((i.1 + i.2 / 8 * p.rawWidth : Nat) : Int) by
        push_cast; rfl, Int.toNat_natCast]
    have hbit : ((i.2 : Int) % 8).toNat = i.2 % 8 := by omega
    simp only [hplace, hindex, hbit]
    obtain ⟨buf', hmodify, hpaint⟩ := ink_paints i.1.isLt (div_lt_pages hrow) color
      ((1 : BitVec 8) <<< (i.2 % 8)) (· = i.2) (fun j hj => by
        rw [bitMask_bit _ (Nat.mod_lt _ (by decide)) j hj, decide_eq_true_eq]
        omega) buf
    refine ⟨buf', hmodify, hpaint.congr (fun k => ?_) fun _ _ => rfl⟩
    constructor
    · intro hk
      obtain rfl : k = i := Prod.ext (Fin.ext hk.1) hk.2.2
      rw [Panel.onPanel, hlogical]
      exact ⟨hrow, rfl, rfl⟩
    · intro hk
      have hsame : p.logical k = p.logical i := by
        rw [hlogical]
        exact Prod.ext hk.2.1 hk.2.2
      obtain rfl := p.logical_inj hsame
      exact ⟨rfl, rfl, rfl⟩
  · next hout =>
    refine ⟨buf, rfl, .nothing _ (fun i hi => hout ?_) _⟩
    have hin := p.logical_inBounds i hi.1
    rwa [hi.2.1, hi.2.2] at hin

/-- The pixels are all there is to a buffer. -/
theorem pixel_inj {a b : Buffer p} (h : pixel a = pixel b) : a = b := by
  apply Vector.ext
  intro i hi
  have hwidth : 0 < p.rawWidth := by
    by_contra h0
    rw [show p.rawWidth = 0 by omega, Nat.zero_mul] at hi
    omega
  have hcol : i % p.rawWidth < p.rawWidth := Nat.mod_lt i hwidth
  apply BitVec.eq_of_getLsbD_eq
  intro j hj
  have hbit := congrFun h (⟨i % p.rawWidth, hcol⟩, i / p.rawWidth * 8 + j)
  have hindex : i % p.rawWidth + (i / p.rawWidth * 8 + j) / 8 * p.rawWidth = i := by
    rw [show (i / p.rawWidth * 8 + j) / 8 = i / p.rawWidth by omega, Nat.mul_comm]
    exact Nat.mod_add_div i p.rawWidth
  have hmod : (i / p.rawWidth * 8 + j) % 8 = j := by omega
  simp only [pixel, hindex, hmod, Vector.getElem?_eq_getElem hi, Option.getD_some] at hbit
  exact hbit

section Lines
variable (buf : Buffer p) {x y : Int} (hx : -32768 ≤ x ∧ x ≤ 32767) (hy : -32768 ≤ y ∧ y ≤ 32767)
  {color : BitVec 16} (hcolor : Known color)
include hx hy hcolor

theorem drawFastVLine_eq {h : Int} (hh : 0 ≤ h ∧ h ≤ 32767) :
    drawFastVLine x y h color buf =
      (List.range h.toNat).foldlM (fun buf k => drawPixel x (y + (k : Nat)) color buf) buf := by
  obtain ⟨fast, hfast, hpaint⟩ := drawFastVLine_paints buf hx hy hcolor hh
  obtain ⟨slow, hslow, hpaint'⟩ := paints_foldlM pixel
    (fun (k : Nat) buf => drawPixel x (y + k) color buf) _ (List.range h.toNat)
    (fun k _ buf => drawPixel_paints x (y + k) color buf)
    (List.pairwise_lt_range.imp fun hlt i hi hi' => by
      obtain ⟨-, -, hrow⟩ := hi
      obtain ⟨-, -, hrow'⟩ := hi'
      omega) buf
  rw [hfast, hslow]
  refine congrArg some (pixel_inj (hpaint.unique (hpaint'.congr (fun i => ?_) fun _ _ => rfl)))
  constructor
  · intro hk
    obtain ⟨k, hk, hrow, hcol, hsame⟩ := hk
    have := List.mem_range.mp hk
    exact ⟨hrow, hcol, by omega, by omega⟩
  · intro hi
    obtain ⟨hrow, hcol, hfirst, hlast⟩ := hi
    exact ⟨((p.logical i).2 - y).toNat, List.mem_range.mpr (by omega), hrow, hcol, by omega⟩

theorem drawFastHLine_eq {w : Int} (hw : 0 ≤ w ∧ w ≤ 32767) :
    drawFastHLine x y w color buf =
      (List.range w.toNat).foldlM (fun buf k => drawPixel (x + (k : Nat)) y color buf) buf := by
  obtain ⟨fast, hfast, hpaint⟩ := drawFastHLine_paints buf hx hy hcolor hw
  obtain ⟨slow, hslow, hpaint'⟩ := paints_foldlM pixel
    (fun (k : Nat) buf => drawPixel (x + k) y color buf) _ (List.range w.toNat)
    (fun k _ buf => drawPixel_paints (x + k) y color buf)
    (List.pairwise_lt_range.imp fun hlt i hi hi' => by
      obtain ⟨-, hcol, -⟩ := hi
      obtain ⟨-, hcol', -⟩ := hi'
      omega) buf
  rw [hfast, hslow]
  refine congrArg some (pixel_inj (hpaint.unique (hpaint'.congr (fun i => ?_) fun _ _ => rfl)))
  constructor
  · intro hk
    obtain ⟨k, hk, hrow, hcol, hsame⟩ := hk
    have := List.mem_range.mp hk
    exact ⟨hrow, by omega, by omega, hsame⟩
  · intro hi
    obtain ⟨hrow, hfirst, hlast, hsame⟩ := hi
    exact ⟨((p.logical i).1 - x).toNat, List.mem_range.mpr (by omega), hrow, by omega, hsame⟩

/-- **The fast lines leave the buffer as pixel by pixel drawing does**, in every rotation
and however little of them is on the panel. -/
theorem fastLines_eq_pixels {w h : Int} (hw : 0 ≤ w ∧ w ≤ 32767) (hh : 0 ≤ h ∧ h ≤ 32767) :
    drawFastVLine x y h color buf =
        (List.range h.toNat).foldlM (fun buf k => drawPixel x (y + (k : Nat)) color buf) buf ∧
      drawFastHLine x y w color buf =
        (List.range w.toNat).foldlM (fun buf k => drawPixel (x + (k : Nat)) y color buf) buf :=
  ⟨drawFastVLine_eq buf hx hy hcolor hh, drawFastHLine_eq buf hx hy hcolor hw⟩

end Lines

/-- Lines that start off a panel turned once, one above it and one to the left. -/
theorem fastLines_eq_pixels_turned :
    drawFastVLine 5 (-3) 40 ssd1306Inverse (clearDisplay : Buffer {oled with rotation := 1}) =
        (List.range 40).foldlM (fun buf k => drawPixel 5 (-3 + (k : Nat)) ssd1306Inverse buf) clearDisplay ∧
      drawFastHLine 5 (-3) 200 ssd1306Inverse (clearDisplay : Buffer {oled with rotation := 1}) =
        (List.range 200).foldlM (fun buf k => drawPixel (5 + (k : Nat)) (-3) ssd1306Inverse buf) clearDisplay :=
  fastLines_eq_pixels clearDisplay (by decide) (by decide) (.inr (.inr rfl)) (by decide) (by decide)

end MakerSpace.Display
