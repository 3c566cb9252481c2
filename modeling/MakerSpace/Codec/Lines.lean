import Mathlib.Data.List.Basic

/-! Lines of a stream.

A terminator closes the line before it and is no part of it; what stands after the
last terminator is not a line yet. A body with no terminator in it and the terminator
that follows are one line (`lines_line`). -/
namespace MakerSpace.Codec.Lines

variable {A : Type} (stop : A → Bool)

/-- The lines a stream closes, `pending` being open when it begins. -/
def lines (pending : List A) : List A → List (List A)
  | [] => []
  | a :: rest => if stop a then pending :: lines [] rest else lines (pending ++ [a]) rest

/-- The line a stream leaves open. -/
def unfinished (pending : List A) : List A → List A
  | [] => pending
  | a :: rest => if stop a then unfinished [] rest else unfinished (pending ++ [a]) rest

variable {stop}

/-- Nothing that is not a terminator closes a line. -/
theorem lines_body {body : List A} (h : ∀ a ∈ body, stop a = false) (pending rest : List A) :
    lines stop pending (body ++ rest) = lines stop (pending ++ body) rest := by
  induction body generalizing pending with
  | nil => rw [List.nil_append, List.append_nil]
  | cons a body ih =>
    have ha := h a List.mem_cons_self
    rw [List.cons_append, lines, if_neg (by simp [ha]), ih fun x hx => h x (List.mem_cons_of_mem a hx),
      List.append_assoc, List.singleton_append]

/-- A body and its terminator are one line. -/
theorem lines_line {body : List A} (h : ∀ a ∈ body, stop a = false) {z : A} (hz : stop z = true)
    (pending rest : List A) :
    lines stop pending (body ++ z :: rest) = (pending ++ body) :: lines stop [] rest := by
  rw [lines_body h, lines, if_pos hz]

end MakerSpace.Codec.Lines
