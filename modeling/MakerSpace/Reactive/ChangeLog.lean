import Mathlib.Data.List.Induction
import Mathlib.Tactic.SplitIfs

/-! Logs of a value that is recorded whenever it changes.

The last entry of such a log, or the initial value while there is none, is the value
itself (`latest_record`), and a value that is always one of two alternates between
them (`alternates_record`). -/
namespace MakerSpace.Reactive

variable {A : Type}

/-- The value last recorded. -/
def latest (initial : A) (values : List A) : A := values.getLast?.getD initial

/-- What is recorded of a value, `last` being the one before. -/
def record [DecidableEq A] (last value : A) : List A := if value ≠ last then [value] else []

/-- `a`, `b`, `a`, `b`, … -/
def Alternates (a b : A) (values : List A) : Prop :=
  ∀ k (hk : k < values.length), values[k] = if k % 2 = 0 then a else b

theorem latest_concat (initial : A) (values : List A) (value : A) :
    latest initial (values ++ [value]) = value := by
  rw [latest, List.getLast?_concat, Option.getD_some]

theorem latest_record [DecidableEq A] (initial : A) (values : List A) (value : A) :
    latest initial (values ++ record (latest initial values) value) = value := by
  unfold record
  split_ifs with hchange
  · exact latest_concat initial values value
  · rw [List.append_nil]
    exact (not_not.mp hchange).symm

theorem alternates_nil (a b : A) : Alternates a b [] := by
  intro k hk
  cases hk

theorem alternates_concat (a b : A) (values : List A) (value : A) :
    Alternates a b (values ++ [value]) ↔
      Alternates a b values ∧ value = if values.length % 2 = 0 then a else b := by
  constructor
  · intro h
    refine ⟨fun k hk => ?_, ?_⟩
    · have := h k (by simp; omega)
      rwa [List.getElem_append_left hk] at this
    · have := h values.length (by simp)
      rwa [List.getElem_concat_length rfl] at this
  · intro h k hk
    obtain ⟨hvalues, hvalue⟩ := h
    rcases Nat.lt_or_ge k values.length with hlt | hge
    · rw [List.getElem_append_left hlt]
      exact hvalues k hlt
    · obtain rfl : k = values.length := by simp at hk; omega
      rw [List.getElem_concat_length rfl]
      exact hvalue

/-- An alternating log from `b` ends at `b` again after every second entry. -/
theorem latest_of_alternates {a b : A} {values : List A} (h : Alternates a b values) :
    latest b values = if values.length % 2 = 0 then b else a := by
  induction values using List.reverseRecOn with
  | nil => rfl
  | append_singleton history value _ =>
    rw [latest_concat, ((alternates_concat a b history value).mp h).2, List.length_append,
      List.length_singleton]
    by_cases heven : history.length % 2 = 0
    · rw [if_pos heven, if_neg (by omega)]
    · rw [if_neg heven, if_pos (by omega)]

theorem alternates_record [DecidableEq A] {a b value : A} (hvalue : value = a ∨ value = b)
    {values : List A} (h : Alternates a b values) :
    Alternates a b (values ++ record (latest b values) value) := by
  unfold record
  split_ifs with hchange
  · rw [latest_of_alternates h] at hchange
    rw [alternates_concat]
    refine ⟨h, ?_⟩
    split_ifs at hchange ⊢ with heven
    · exact hvalue.resolve_right hchange
    · exact hvalue.resolve_left hchange
  · rwa [List.append_nil]

end MakerSpace.Reactive
