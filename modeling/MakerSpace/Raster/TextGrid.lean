import Mathlib.Data.List.Basic
import Mathlib.Data.List.Pairwise

/-! Text on a grid of character cells.

Keys are laid out from a cursor on: a glyph takes the next cell, in the next row when the
row has no more columns, and a line break starts a row. `layout` lists which glyph went
where. The cells come in reading order, so no two glyphs share one (`layout_distinct`), and
lines set one under the other each take the rows their length asks for (`glyphAt_page`).
Nothing here knows what a glyph looks like. -/
namespace MakerSpace.Raster.TextGrid

variable {α : Type}

inductive Key (α : Type) where
  | glyph (a : α)
  | newline
  | skip

@[ext]
structure Cell where
  row : Nat
  col : Nat
  deriving DecidableEq, Repr

/-- Where a glyph goes. -/
def Cell.wrapped (cols : Nat) (c : Cell) : Cell := if c.col < cols then c else ⟨c.row + 1, 0⟩

def Cell.step (cols : Nat) (c : Cell) : Key α → Cell
  | .glyph _ => ⟨(c.wrapped cols).row, (c.wrapped cols).col + 1⟩
  | .newline => ⟨c.row + 1, 0⟩
  | .skip => c

/-- The cursor after the keys. -/
def finish (cols : Nat) (c : Cell) (keys : List (Key α)) : Cell := keys.foldl (Cell.step cols) c

/-- Which glyph went where. -/
def layout (cols : Nat) (c : Cell) : List (Key α) → List (Cell × α)
  | [] => []
  | .glyph a :: rest => (c.wrapped cols, a) :: layout cols (c.step cols (.glyph a)) rest
  | .newline :: rest => layout cols ⟨c.row + 1, 0⟩ rest
  | .skip :: rest => layout cols c rest

theorem layout_cons (cols : Nat) (c : Cell) (k : Key α) (rest : List (Key α)) :
    layout cols c (k :: rest) = layout cols c [k] ++ layout cols (c.step cols k) rest := by
  cases k <;> rfl

/-- Reading order, the cell itself included. -/
def Cell.Upto (c d : Cell) : Prop := c.row < d.row ∨ c.row = d.row ∧ c.col ≤ d.col

theorem Cell.Upto.trans {c d e : Cell} (h : c.Upto d) (h' : d.Upto e) : c.Upto e := by
  rcases h with h | h <;> rcases h' with h' | h'
  · exact .inl (by omega)
  · exact .inl (by omega)
  · exact .inl (by omega)
  · exact .inr (by omega)

theorem Cell.upto_wrapped (cols : Nat) (c : Cell) : c.Upto (c.wrapped cols) := by
  unfold wrapped
  split
  · exact .inr ⟨rfl, Nat.le_refl _⟩
  · exact .inl (Nat.lt_succ_self _)

theorem Cell.upto_step (cols : Nat) (c : Cell) (k : Key α) : c.Upto (c.step cols k) := by
  cases k with
  | glyph a => exact (c.upto_wrapped cols).trans (.inr ⟨rfl, Nat.le_succ _⟩)
  | newline => exact .inl (Nat.lt_succ_self _)
  | skip => exact .inr ⟨rfl, Nat.le_refl _⟩

theorem wrapped_col_lt {cols : Nat} (hcols : 0 < cols) (c : Cell) : (c.wrapped cols).col < cols := by
  unfold Cell.wrapped
  split
  · next h => exact h
  · exact hcols

/-- Rows only go down the page. -/
theorem row_le_finish (cols : Nat) (c : Cell) (keys : List (Key α)) :
    c.row ≤ (finish cols c keys).row := by
  induction keys generalizing c with
  | nil => exact Nat.le_refl _
  | cons k rest ih =>
    have hstep := c.upto_step cols k
    have hrest := ih (c.step cols k)
    have hrow : c.row ≤ (c.step cols k).row := by
      rcases hstep with h | h <;> omega
    exact Nat.le_trans hrow hrest

/-- A key moves the cursor down a row at most. -/
theorem finish_row_le (cols : Nat) (c : Cell) (keys : List (Key α)) :
    (finish cols c keys).row ≤ c.row + keys.length := by
  induction keys generalizing c with
  | nil => exact Nat.le_refl _
  | cons k rest ih =>
    have hrest := ih (c.step cols k)
    have hstep : (c.step cols k).row ≤ c.row + 1 := by
      cases k with
      | glyph a =>
        show (c.wrapped cols).row ≤ c.row + 1
        unfold Cell.wrapped
        split
        · exact Nat.le_succ _
        · exact Nat.le_refl _
      | newline => exact Nat.le_refl _
      | skip => exact Nat.le_succ _
    rw [List.length_cons]
    exact Nat.le_trans hrest (by omega)

theorem layout_upto {cols : Nat} {c : Cell} {keys : List (Key α)} {placed : Cell × α}
    (h : placed ∈ layout cols c keys) : c.Upto placed.1 := by
  induction keys generalizing c with
  | nil => cases h
  | cons k rest ih =>
    cases k with
    | glyph a =>
      rcases List.mem_cons.mp h with rfl | h
      · exact c.upto_wrapped cols
      · exact (c.upto_step cols (.glyph a)).trans (ih h)
    | newline => exact Cell.Upto.trans (.inl (Nat.lt_succ_self _)) (ih h)
    | skip => exact ih h

/-- What comes after a glyph is in other cells. -/
theorem layout_after {cols : Nat} {c : Cell} {a : α} {keys : List (Key α)} {placed : Cell × α}
    (h : placed ∈ layout cols (c.step cols (.glyph a)) keys) : placed.1 ≠ c.wrapped cols := by
  intro heq
  have hupto := layout_upto h
  rw [heq] at hupto
  rcases hupto with hrow | hcol
  · exact Nat.lt_irrefl _ hrow
  · exact Nat.not_succ_le_self _ hcol.2

/-- **No two glyphs share a cell.** -/
theorem layout_distinct (cols : Nat) (c : Cell) (keys : List (Key α)) :
    (layout cols c keys).Pairwise fun a b => a.1 ≠ b.1 := by
  induction keys generalizing c with
  | nil => exact .nil
  | cons k rest ih =>
    cases k with
    | glyph a => exact .cons (fun placed h => (layout_after h).symm) (ih _)
    | newline => exact ih _
    | skip => exact ih _

theorem layout_unique {cols : Nat} {c d : Cell} {keys : List (Key α)} {a b : α}
    (ha : (d, a) ∈ layout cols c keys) (hb : (d, b) ∈ layout cols c keys) : a = b := by
  by_contra hne
  have hsymm : Std.Symm fun p q : Cell × α => p.1 ≠ q.1 := ⟨fun p q h => h.symm⟩
  exact (layout_distinct cols c keys).forall ha hb (fun h => hne (Prod.mk.inj h).2) rfl

/-- The glyph in a cell. -/
def glyphAt (placed : List (Cell × α)) (d : Cell) : Option α :=
  (placed.find? fun q => q.1 = d).map Prod.snd

theorem glyphAt_eq_some {cols : Nat} {c d : Cell} {keys : List (Key α)} {a : α} :
    glyphAt (layout cols c keys) d = some a ↔ (d, a) ∈ layout cols c keys := by
  constructor
  · intro h
    obtain ⟨q, hfind, rfl⟩ := Option.map_eq_some_iff.mp h
    have hcell : q.1 = d := by simpa using List.find?_some hfind
    rw [← hcell]
    exact List.mem_of_find?_eq_some hfind
  · intro h
    cases hfind : (layout cols c keys).find? (fun q => q.1 = d) with
    | none =>
      have hother := List.find?_eq_none.mp hfind (d, a) h
      simp at hother
    | some q =>
      have hcell : q.1 = d := by simpa using List.find?_some hfind
      have hmem : (d, q.2) ∈ layout cols c keys := by
        rw [← hcell]
        exact List.mem_of_find?_eq_some hfind
      rw [glyphAt, hfind, Option.map_some, layout_unique hmem h]

/-! ### Lines -/

/-- A line of glyphs and its end: a return that does nothing and a break. -/
def line (as : List α) : List (Key α) := as.map .glyph ++ [.skip, .newline]

/-- How many rows a line takes. An empty line takes one. -/
def rows (cols n : Nat) : Nat := (n - 1) / cols + 1

/-- What lines set one under the other have in a cell. -/
def shown (cols : Nat) : List (List α) → Nat → Nat → Option α
  | [], _, _ => none
  | as :: page, row, col =>
    if row < rows cols as.length then as[row * cols + col]?
    else shown cols page (row - rows cols as.length) col

theorem layout_append (cols : Nat) (c : Cell) (keys rest : List (Key α)) :
    layout cols c (keys ++ rest) = layout cols c keys ++ layout cols (finish cols c keys) rest := by
  induction keys generalizing c with
  | nil => rfl
  | cons k keys ih => rw [List.cons_append, layout_cons, layout_cons cols c k keys, ih, List.append_assoc]; rfl

/-- Cells counted in reading order. -/
theorem wrapped_eq {cols : Nat} (hcols : 0 < cols) {c : Cell} (hc : c.col ≤ cols) :
    c.wrapped cols = ⟨(c.row * cols + c.col) / cols, (c.row * cols + c.col) % cols⟩ := by
  rw [Nat.mul_comm c.row cols, Nat.mul_add_div hcols, Nat.mul_add_mod, Cell.wrapped]
  split
  · next hlt => rw [Nat.div_eq_of_lt hlt, Nat.mod_eq_of_lt hlt, Nat.add_zero]
  · next hge =>
    have hfull : c.col = cols := by omega
    rw [hfull, Nat.div_self hcols, Nat.mod_self]

theorem step_glyph {cols : Nat} (hcols : 0 < cols) {c : Cell} (hc : c.col ≤ cols) (a : α) :
    (c.step cols (.glyph a)).row * cols + (c.step cols (.glyph a)).col = c.row * cols + c.col + 1 ∧
      (c.step cols (.glyph a)).col ≤ cols := by
  have hstep : c.step cols (.glyph a) = ⟨(c.wrapped cols).row, (c.wrapped cols).col + 1⟩ := rfl
  rw [hstep, wrapped_eq hcols hc]
  refine ⟨?_, Nat.mod_lt _ hcols⟩
  have hdiv := Nat.div_add_mod (c.row * cols + c.col) cols
  rw [Nat.mul_comm] at hdiv
  exact congrArg (· + 1) hdiv

theorem layout_glyphs {cols : Nat} (hcols : 0 < cols) {c : Cell} (hc : c.col ≤ cols) (as : List α) :
    layout cols c (as.map .glyph) =
      (as.zipIdx (c.row * cols + c.col)).map fun q => (⟨q.2 / cols, q.2 % cols⟩, q.1) := by
  induction as generalizing c with
  | nil => rfl
  | cons a as ih =>
    obtain ⟨hnext, hcol⟩ := step_glyph hcols hc a
    rw [List.map_cons, List.zipIdx_cons, List.map_cons, ← hnext, ← ih hcol, ← wrapped_eq hcols hc]
    rfl

theorem finish_glyphs {cols : Nat} (hcols : 0 < cols) {c : Cell} (hc : c.col ≤ cols) (a : α) (as : List α) :
    (finish cols c ((a :: as).map .glyph)).row = (c.row * cols + c.col + as.length) / cols := by
  induction as generalizing c a with
  | nil => exact congrArg Cell.row (wrapped_eq hcols hc)
  | cons b as ih =>
    obtain ⟨hnext, hcol⟩ := step_glyph hcols hc a
    have hrest := ih hcol b
    rw [hnext] at hrest
    rw [List.length_cons, Nat.add_comm as.length, ← Nat.add_assoc, ← hrest]
    rfl

theorem finish_line {cols : Nat} (hcols : 0 < cols) (top : Nat) (as : List α) :
    finish cols ⟨top, 0⟩ (line as) = ⟨top + rows cols as.length, 0⟩ := by
  have hrow : (finish cols ⟨top, 0⟩ (as.map .glyph)).row = top + (as.length - 1) / cols := by
    cases as with
    | nil => rw [List.length_nil, Nat.zero_div, Nat.add_zero]; rfl
    | cons a as =>
      rw [finish_glyphs hcols (Nat.zero_le cols), List.length_cons, Nat.add_sub_cancel, Nat.add_zero,
        Nat.mul_comm, Nat.mul_add_div hcols]
  have hend : finish cols ⟨top, 0⟩ (line as) = ⟨(finish cols ⟨top, 0⟩ (as.map .glyph)).row + 1, 0⟩ := by
    rw [finish, line, List.foldl_append]
    rfl
  rw [hend, hrow, rows, Nat.add_assoc]

/-- Where a line has its glyphs. -/
theorem mem_layout_line {cols : Nat} (hcols : 0 < cols) (top row col : Nat) (as : List α) (a : α) :
    ((⟨top + row, col⟩, a) ∈ layout cols ⟨top, 0⟩ (line as)) ↔
      col < cols ∧ as[row * cols + col]? = some a := by
  have hlayout : layout cols ⟨top, 0⟩ (line as) = layout cols ⟨top, 0⟩ (as.map .glyph) := by
    rw [line, layout_append]
    exact List.append_nil _
  rw [hlayout, layout_glyphs hcols (Nat.zero_le cols), List.mem_map]
  simp only [Nat.add_zero, Prod.mk.injEq, Cell.mk.injEq, Prod.exists,
    List.mk_mem_zipIdx_iff_le_and_getElem?_sub]
  constructor
  · intro h
    obtain ⟨b, i, ⟨hi, hget⟩, ⟨hrow, hcol⟩, rfl⟩ := h
    have hindex := Nat.div_add_mod i cols
    rw [hrow, hcol, Nat.mul_comm, Nat.add_mul] at hindex
    refine ⟨hcol ▸ Nat.mod_lt i hcols, ?_⟩
    rw [← hget]
    congr 1
    omega
  · intro h
    obtain ⟨hcol, hget⟩ := h
    refine ⟨a, (top + row) * cols + col, ⟨?_, ?_⟩, ⟨?_, ?_⟩, rfl⟩
    · rw [Nat.add_mul]
      omega
    · rw [← hget, Nat.add_mul]
      congr 1
      omega
    · rw [Nat.mul_comm, Nat.mul_add_div hcols, Nat.div_eq_of_lt hcol, Nat.add_zero]
    · rw [Nat.mul_comm, Nat.mul_add_mod, Nat.mod_eq_of_lt hcol]

/-- A line stays in its rows. -/
theorem row_lt_rows {cols : Nat} (hcols : 0 < cols) {row col : Nat} {as : List α} {a : α}
    (h : as[row * cols + col]? = some a) : row < rows cols as.length := by
  obtain ⟨hlt, -⟩ := List.getElem?_eq_some_iff.mp h
  have hle : row ≤ (as.length - 1) / cols := (Nat.le_div_iff_mul_le hcols).mpr (by omega)
  exact Nat.lt_succ_of_le hle

/-- **Lines set one under the other**: in each cell the glyph `shown` names, and none in
the columns past the last. -/
theorem glyphAt_page {cols : Nat} (hcols : 0 < cols) (page : List (List α)) (top row col : Nat) :
    glyphAt (layout cols ⟨top, 0⟩ (page.flatMap line)) ⟨top + row, col⟩ =
      if col < cols then shown cols page row col else none := by
  induction page generalizing top row with
  | nil => exact (ite_self none).symm
  | cons as page ih =>
    refine Option.ext fun a => ?_
    rw [glyphAt_eq_some, List.flatMap_cons, layout_append, finish_line hcols, List.mem_append,
      mem_layout_line hcols, shown]
    by_cases hrow : row < rows cols as.length
    · have hbelow : (⟨top + row, col⟩, a) ∉ layout cols ⟨top + rows cols as.length, 0⟩ (page.flatMap line) := by
        intro hmem
        rcases layout_upto hmem with h | h
        · exact absurd (show top + rows cols as.length < top + row from h) (by omega)
        · exact absurd (show top + rows cols as.length = top + row from h.1) (by omega)
      rw [if_pos hrow, or_iff_left hbelow]
      split
      · next hcol => exact and_iff_right hcol
      · next hcol => exact ⟨fun h => absurd h.1 hcol, fun h => by cases h⟩
    · have hnone : ¬(col < cols ∧ as[row * cols + col]? = some a) := fun h => hrow (row_lt_rows hcols h.2)
      have hsplit : top + row = top + rows cols as.length + (row - rows cols as.length) := by omega
      rw [if_neg hrow, or_iff_right hnone, hsplit, ← glyphAt_eq_some, ih]

end MakerSpace.Raster.TextGrid
