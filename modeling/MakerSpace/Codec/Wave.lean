import Mathlib.Algebra.Ring.Nat
import Mathlib.Data.List.Basic

/-! Two-level signals as alternating runs.

`wave` renders a list of runs as samples. A signal that stays at each level for a
given time has a level at every instant (`levelAt`); a clock of some period and
phase sees `counts` samples of each interval, and `samples_eq_wave` says that what
it sees is the wave of those counts. Nothing here knows what the signal carries. -/
namespace MakerSpace.Codec.Wave

/-- The samples of alternating runs, the first of them at `level`. -/
def wave (level : Bool) : List Nat → List Bool
  | [] => []
  | n :: rest => List.replicate n level ++ wave (!level) rest

/-- The level that follows the runs. -/
def after (level : Bool) : List Nat → Bool
  | [] => level
  | _ :: rest => after (!level) rest

@[simp] theorem wave_nil (level : Bool) : wave level [] = [] := rfl

@[simp] theorem wave_cons (level : Bool) (n : Nat) (rest : List Nat) :
    wave level (n :: rest) = List.replicate n level ++ wave (!level) rest := rfl

@[simp] theorem after_nil (level : Bool) : after level [] = level := rfl

theorem wave_append (level : Bool) (a b : List Nat) :
    wave level (a ++ b) = wave level a ++ wave (after level a) b := by
  induction a generalizing level with
  | nil => rfl
  | cons n rest ih => simp only [List.cons_append, wave_cons, ih, List.append_assoc, after]

theorem after_append (level : Bool) (a b : List Nat) :
    after level (a ++ b) = after (after level a) b := by
  induction a generalizing level with
  | nil => rfl
  | cons n rest ih => exact ih _

/-- The level follows the parity of the number of runs. -/
theorem after_eq (level : Bool) (runs : List Nat) :
    after level runs = (level ^^ decide (runs.length % 2 = 1)) := by
  induction runs generalizing level with
  | nil => simp [after]
  | cons n rest ih =>
    rw [after, ih, List.length_cons]
    rcases Nat.mod_two_eq_zero_or_one rest.length with h | h <;>
      simp [h, Nat.add_mod]

theorem after_even (level : Bool) {runs : List Nat} (h : runs.length % 2 = 0) :
    after level runs = level := by
  simp [after_eq, h]

theorem after_odd (level : Bool) {runs : List Nat} (h : runs.length % 2 = 1) :
    after level runs = !level := by
  simp [after_eq, h]

/-- A run grows by one sample at its end. -/
theorem wave_concat_succ (level : Bool) (runs : List Nat) (n : Nat) :
    wave level (runs ++ [n + 1]) = wave level (runs ++ [n]) ++ [after level runs] := by
  simp [wave_append, List.replicate_succ']

/-- A new run starts with one sample of the other level. -/
theorem wave_concat_one (level : Bool) (runs : List Nat) :
    wave level (runs ++ [1]) = wave level runs ++ [after level runs] := by
  simp [wave_append]

/-! ### Signals in time -/

/-- The level at time `t` of a signal that starts at `level` and changes it after each
of the durations. -/
def levelAt (level : Bool) : List Nat → Nat → Bool
  | [], _ => level
  | d :: rest, t => if t < d then level else levelAt (!level) rest (t - d)

/-- How many instants `phase, phase + period, …` fall below `d`. -/
def below (period phase d : Nat) : Nat := (d + (period - 1) - phase) / period

/-- How many instants fall into each interval. -/
def counts (period : Nat) : Nat → List Nat → List Nat
  | _, [] => []
  | phase, d :: rest =>
    below period phase d :: counts period (phase + below period phase d * period - d) rest

/-- What a clock of the period and phase sees of the signal. -/
def samples (period phase : Nat) (level : Bool) (durations : List Nat) : List Bool :=
  (List.range (below period phase durations.sum)).map
    fun k => levelAt level durations (phase + k * period)

@[simp] theorem counts_length (period phase : Nat) (durations : List Nat) :
    (counts period phase durations).length = durations.length := by
  induction durations generalizing phase with
  | nil => rfl
  | cons d rest ih => simp only [counts, List.length_cons, ih]

/-- An instant is one of the counted ones when it falls below `d`. -/
theorem lt_below_iff {period phase : Nat} (hphase : phase < period) (d k : Nat) :
    k < below period phase d ↔ phase + k * period < d := by
  rw [below, Nat.lt_iff_add_one_le, Nat.le_div_iff_mul_le (by omega), Nat.add_one_mul]
  omega

theorem le_below_mul {period phase : Nat} (hphase : phase < period) (d : Nat) :
    d ≤ phase + below period phase d * period := by
  by_contra hlt
  have := (lt_below_iff hphase d (below period phase d)).mpr (by omega)
  omega

theorem below_mul_lt {period phase : Nat} (hphase : phase < period) (d : Nat) :
    phase + below period phase d * period < d + period ∨ below period phase d = 0 := by
  rcases Nat.eq_zero_or_pos (below period phase d) with h0 | hpos
  · exact .inr h0
  · left
    have hlast := (lt_below_iff hphase d (below period phase d - 1)).mp (by omega)
    have hsucc : (below period phase d - 1) * period + period = below period phase d * period := by
      rw [← Nat.add_one_mul, Nat.sub_add_cancel hpos]
    omega

/-- The first instant past the interval is again a phase. -/
theorem next_phase_lt {period phase : Nat} (hphase : phase < period) (d : Nat) :
    phase + below period phase d * period - d < period := by
  rcases below_mul_lt hphase d with hlt | h0
  · omega
  · simp only [h0, Nat.zero_mul]
    omega

/-- Instants below the end of two intervals are those of the first and, from the phase
it leaves, those of the second. -/
theorem below_add {period phase : Nat} (hphase : phase < period) (d e : Nat) :
    below period phase (d + e) = below period phase d +
      below period (phase + below period phase d * period - d) e := by
  have hle := le_below_mul hphase d
  have hiff : ∀ k, k < below period phase (d + e) ↔
      k < below period phase d + below period (phase + below period phase d * period - d) e := by
    intro k
    rw [lt_below_iff hphase]
    rcases Nat.lt_or_ge k (below period phase d) with hk | hk
    · have := (lt_below_iff hphase d k).mp hk
      constructor <;> omega
    · obtain ⟨j, rfl⟩ := Nat.exists_eq_add_of_le hk
      have hj := lt_below_iff (next_phase_lt hphase d) e j
      rw [Nat.add_lt_add_iff_left, hj, Nat.add_mul]
      omega
  have h₁ := hiff (below period phase (d + e))
  have h₂ := hiff (below period phase d +
    below period (phase + below period phase d * period - d) e)
  omega

/-- **Sampling**: a clock sees the wave of its counts. -/
theorem samples_eq_wave {period phase : Nat} (hphase : phase < period) (level : Bool)
    (durations : List Nat) :
    samples period phase level durations = wave level (counts period phase durations) := by
  induction durations generalizing phase level with
  | nil =>
    have h0 : below period phase 0 = 0 := Nat.div_eq_of_lt (by omega)
    simp [samples, counts, h0]
  | cons d rest ih =>
    rw [samples, List.sum_cons, below_add hphase, List.range_add, List.map_append, counts, wave_cons,
      ← ih (next_phase_lt hphase d), samples, List.map_map]
    congr 1
    · refine List.eq_replicate_iff.mpr ⟨by simp, fun b hb => ?_⟩
      obtain ⟨k, hk, rfl⟩ := List.mem_map.mp hb
      rw [levelAt, if_pos ((lt_below_iff hphase d k).mp (List.mem_range.mp hk))]
    · refine List.map_congr_left fun k _ => ?_
      have hle := le_below_mul hphase d
      simp only [Function.comp_apply, levelAt, Nat.add_mul]
      rw [if_neg (by omega)]
      congr 1
      omega

/-- What is counted of some intervals does not depend on those that follow. -/
theorem counts_append {period phase : Nat} (hphase : phase < period) (a : List Nat) :
    ∃ phase' < period, ∀ b, counts period phase (a ++ b) =
      counts period phase a ++ counts period phase' b := by
  induction a generalizing phase with
  | nil => exact ⟨phase, hphase, fun b => rfl⟩
  | cons d rest ih =>
    obtain ⟨phase', hphase', hrest⟩ := ih (next_phase_lt hphase d)
    exact ⟨phase', hphase', fun b => by rw [List.cons_append, counts, hrest, counts, List.cons_append]⟩

/-- An interval is seen for its length in periods, rounded down or up. -/
theorem counts_near {period phase : Nat} (hphase : phase < period) (durations : List Nat) :
    List.Forall₂ (fun d n => n * period < d + period ∧ d < n * period + period) durations
      (counts period phase durations) := by
  induction durations generalizing phase with
  | nil => exact .nil
  | cons d rest ih =>
    refine .cons ⟨?_, ?_⟩ (ih (next_phase_lt hphase d))
    · rcases below_mul_lt hphase d with hlt | h0
      · omega
      · simp only [h0, Nat.zero_mul]
        omega
    · have := le_below_mul hphase d
      omega

end MakerSpace.Codec.Wave
