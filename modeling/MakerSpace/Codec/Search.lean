import Mathlib.Data.List.Infix
import Mathlib.Data.List.Rotate

/-! Waiting for a text in a stream.

A reader takes what arrives one character at a time and gives up when it stays quiet for
as long as the reader waits. `search p` reads until `p` says something of the text so far.
A reader that keeps only the last characters of the text, in a ring, still sees its ends
(`rotate_set`, `suffix_window`). -/
namespace MakerSpace.Codec.Search

variable {α ρ : Type}

inductive Arrival (α : Type) where
  | char (a : α)
  | quiet
  deriving DecidableEq, Repr

/-- A text that arrives without a pause. -/
def arriving (s : List α) : List (Arrival α) := s.map .char

@[simp] theorem arriving_nil : arriving ([] : List α) = [] := rfl

@[simp] theorem arriving_cons (a : α) (s : List α) : arriving (a :: s) = .char a :: arriving s := rfl

theorem arriving_append (s t : List α) : arriving (s ++ t) = arriving s ++ arriving t :=
  List.map_append

/-- What is found, the text read, and what has not been read. -/
def search (p : List α → Option ρ) (text : List α) :
    List (Arrival α) → Option ρ × List α × List (Arrival α)
  | [] => (none, text, [])
  | .quiet :: rest => (none, text, rest)
  | .char a :: rest =>
    match p (text ++ [a]) with
    | some r => (some r, text ++ [a], rest)
    | none => search p (text ++ [a]) rest

/-- A text at whose end something is found for the first time. -/
structure First (p : List α → Option ρ) (s : List α) (r : ρ) : Prop where
  nonempty : s ≠ []
  found : p s = some r
  before : ∀ q, q ≠ [] → q <+: s → q ≠ s → p q = none

theorem first_iff {p : List α → Option ρ} {s : List α} {r : ρ} :
    First p s r ↔ s ≠ [] ∧ p s = some r ∧ ∀ k < s.length, 0 < k → p (s.take k) = none := by
  constructor
  · intro h
    refine ⟨h.nonempty, h.found, fun k hk hpos => h.before _ ?_ (List.take_prefix k s) fun heq => ?_⟩
    · exact List.ne_nil_of_length_pos (by rw [List.length_take]; omega)
    · have hlength := congrArg List.length heq
      rw [List.length_take] at hlength
      omega
  · intro h
    refine ⟨h.1, h.2.1, fun q hq hstart hne => ?_⟩
    have hlt : q.length < s.length :=
      Nat.lt_of_le_of_ne hstart.length_le fun heq => hne (hstart.eq_of_length heq)
    rw [List.prefix_iff_eq_take.mp hstart]
    exact h.2.2 q.length hlt (List.length_pos_iff.mpr hq)

theorem search_skip {p : List α → Option ρ} {text s : List α}
    (h : ∀ q, q ≠ [] → q <+: s → p (text ++ q) = none) (rest : List (Arrival α)) :
    search p text (arriving s ++ rest) = search p (text ++ s) rest := by
  induction s generalizing text with
  | nil => rw [arriving_nil, List.nil_append, List.append_nil]
  | cons a s ih =>
    have ha := h [a] (List.cons_ne_nil _ _) ⟨s, rfl⟩
    rw [arriving_cons, List.cons_append, search, ha]
    refine (ih fun q hq hstart => ?_).trans (by rw [List.append_assoc, List.singleton_append])
    rw [List.append_assoc, List.singleton_append]
    exact h (a :: q) (List.cons_ne_nil _ _) (List.cons_prefix_cons.mpr ⟨rfl, hstart⟩)

theorem search_first {p : List α → Option ρ} {s : List α} {r : ρ} (h : First p s r)
    (rest : List (Arrival α)) : search p [] (arriving s ++ rest) = (some r, s, rest) := by
  obtain ⟨init, a, rfl⟩ := List.eq_nil_or_concat' s |>.resolve_left h.nonempty
  have hskip : ∀ q, q ≠ [] → q <+: init → p ([] ++ q) = none := fun q hq hstart =>
    h.before q hq (hstart.trans (List.prefix_append _ _)) fun heq => by
      have hlength := hstart.length_le
      rw [heq, List.length_append, List.length_singleton] at hlength
      omega
  rw [arriving_append, List.append_assoc, search_skip hskip, List.nil_append, arriving_cons,
    arriving_nil, List.singleton_append, search, h.found]

/-- The characters of a line, without the silences. -/
def chars : List (Arrival α) → List α
  | [] => []
  | .quiet :: rest => chars rest
  | .char a :: rest => a :: chars rest

/-- Nothing is skipped, and what is found is found at the end of what was read. -/
theorem search_spec (p : List α → Option ρ) (text : List α) (line : List (Arrival α)) :
    ∃ s, (search p text line).2.1 = text ++ s ∧ chars line = s ++ chars (search p text line).2.2 ∧
      ∀ r, (search p text line).1 = some r → p (text ++ s) = some r := by
  induction line generalizing text with
  | nil => exact ⟨[], by simp [search], rfl, by simp [search]⟩
  | cons arrival rest ih =>
    cases arrival with
    | quiet => exact ⟨[], by simp [search], rfl, by simp [search]⟩
    | char a =>
      rw [search]
      cases hp : p (text ++ [a]) with
      | some r => exact ⟨[a], rfl, rfl, fun r' hr => hp.trans hr⟩
      | none =>
        obtain ⟨s, htext, hchars, hfound⟩ := ih (text ++ [a])
        refine ⟨a :: s, ?_, congrArg (a :: ·) hchars, fun r hr => ?_⟩
        · rw [htext, List.append_assoc, List.singleton_append]
        · rw [← hfound r hr, List.append_assoc, List.singleton_append]

/-! ### Rings -/

/-- A ring read round from its cursor, once the cell at the cursor is written. -/
theorem rotate_set {cells : List α} {k : Nat} (hk : k < cells.length) (a : α) :
    (cells.set k a).rotate (k + 1) = (cells.rotate k).tail ++ [a] := by
  have hlength : k + 1 ≤ (cells.set k a).length := by
    rw [List.length_set]
    exact hk
  rw [List.rotate_eq_drop_append_take hlength, List.rotate_eq_drop_append_take (Nat.le_of_lt hk),
    List.drop_set_of_lt (Nat.lt_succ_self k), List.tail_append_of_ne_nil (by simpa using hk),
    List.tail_drop, List.append_assoc]
  congr 1
  rw [List.take_set, List.take_succ_eq_append_getElem hk,
    List.set_append_right _ _ (List.length_take_le _ _)]
  simp [List.length_take, Nat.min_eq_left (Nat.le_of_lt hk)]

/-- A window on a text has the ends of the text that fit into it. -/
theorem suffix_window {s old text : List α} (hs : s.length ≤ old.length) :
    s <:+ (old ++ text).drop text.length ↔ s <:+ old ++ text := by
  constructor
  · exact fun h => h.trans (List.drop_suffix _ _)
  · intro h
    refine List.suffix_of_suffix_length_le h (List.drop_suffix _ _) ?_
    rw [List.length_drop, List.length_append]
    omega

end MakerSpace.Codec.Search
