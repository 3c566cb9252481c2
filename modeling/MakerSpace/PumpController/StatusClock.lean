import MakerSpace.PumpController.SerialLog
import MakerSpace.Reactive.Rollover

/-! When the status lines are printed.

`handle_display` subtracts two readings of `millis()` as 32-bit `int`s and keeps the later
one. `status_due`: whatever the sensors do meanwhile, and however often the clock rolls over
or changes sign, a status line is printed in exactly the calls that come more than four
seconds after the last one. -/
namespace MakerSpace.PumpController
open Arduino Reactive Rollover

/-- One pass of `loop`, with the true uptime at which `handle_display` reads the clock. -/
structure DisplayCall where
  uptime : Nat
  digitalRead : Nat → Level
  blinkMillis : BitVec 32

def DisplayCall.inputs (c : DisplayCall) : Inputs := ⟨c.digitalRead, c.blinkMillis, reading 32 c.uptime⟩

def Report.isStatus : Report → Bool
  | .status _ _ _ => true
  | .change _ _ => false

/-- What a pass puts out has a status line in it. -/
def printsStatus (effects : List Effect) : Bool := (reports effects).any Report.isStatus

/-- Which calls are due when each comes more than the interval after the last that was. -/
def due (interval last : Nat) : List Nat → List Bool
  | [] => []
  | t :: rest =>
    if last + interval < t then true :: due interval t rest else false :: due interval last rest

/-- In order, and less than half an epoch apart, less the interval. -/
def Spaced (a b : Nat) : Prop := a ≤ b ∧ b + 4000 < a + 2 ^ 31

theorem changeReports_isStatus (digitalRead : Nat → Level) (s : State) :
    (changeReports digitalRead s).any Report.isStatus = false := by
  rw [List.any_eq_false]
  intro r hr
  cases r with
  | change desc value => exact Bool.false_ne_true
  | status digit pump1 pump2 => exact absurd hr (status_notMem_changeReports digitalRead s digit pump1 pump2)

theorem displayed_displayT (i : Inputs) (s : State) : (displayed i s).displayT = s.displayT := by
  rw [displayed]
  rcases handleBlink_cases i.blinkMillis.toNat (readSensors i.digitalRead s).1 with
    ⟨-, h⟩ | ⟨-, h⟩ | ⟨-, h⟩ | h <;> rw [h] <;> rw [readSensors_fst]

/-- A pass prints a status line, and keeps its time, exactly when it is due. -/
theorem status_pass (i : Inputs) (s : State) :
    printsStatus (controller.out i s) = decide ((i.displayMillis - s.displayT).toInt > 4000) ∧
      (controller.next i s).displayT =
        if (i.displayMillis - s.displayT).toInt > 4000 then i.displayMillis else s.displayT := by
  have hnext : controller.next i s = (handleDisplay i.displayMillis (displayed i s)).1 := rfl
  rw [printsStatus, reports_of_prints (prints_out i s), List.any_append, changeReports_isStatus, Bool.false_or,
    hnext, handleDisplay, statusReport, displayed_displayT]
  by_cases hdue : (i.displayMillis - s.displayT).toInt > 4000
  · rw [if_pos hdue, if_pos hdue, if_pos hdue, decide_eq_true hdue]
    exact ⟨rfl, rfl⟩
  · rw [if_neg hdue, if_neg hdue, if_neg hdue, decide_eq_false hdue]
    exact ⟨rfl, displayed_displayT i s⟩

/-- From any state: `last` is when the last status line was printed, and the last call was
not due. -/
theorem status_run (calls : List DisplayCall) {s : State} {last now : Nat}
    (hshown : s.displayT = reading 32 last) (hlast : last ≤ now ∧ now ≤ last + 4000)
    (hspaced : (now :: calls.map DisplayCall.uptime).IsChain Spaced) :
    (controller.trace (fun _ => ()) s (calls.map DisplayCall.inputs)).map (fun p => printsStatus p.2) =
      due 4000 last (calls.map DisplayCall.uptime) := by
  induction calls generalizing s last now with
  | nil => rfl
  | cons c rest ih =>
    rw [List.map_cons, List.isChain_cons_cons] at hspaced
    obtain ⟨⟨horder, hclose⟩, hrest⟩ := hspaced
    obtain ⟨hprints, hnext⟩ := status_pass c.inputs s
    have helapsed : (c.inputs.displayMillis - s.displayT).toInt = c.uptime - last := by
      rw [hshown]
      exact signed_elapsed 31 (by omega) (by omega)
    rw [helapsed] at hprints hnext
    rw [List.map_cons, List.map_cons, Machine.trace, List.map_cons, due]
    by_cases hdue : last + 4000 < c.uptime
    · rw [if_pos (by omega)] at hnext
      rw [if_pos hdue, hprints, decide_eq_true (by omega)]
      exact congrArg (true :: ·) (ih hnext ⟨Nat.le_refl _, Nat.le_add_right _ _⟩ hrest)
    · rw [if_neg (by omega)] at hnext
      rw [if_neg hdue, hprints, decide_eq_false (by omega)]
      exact congrArg (false :: ·) (ih (hnext.trans hshown) ⟨by omega, by omega⟩ hrest)

/-- **Status lines are on time**, from power-up on and over any number of rollovers. -/
theorem status_due (calls : List DisplayCall)
    (hspaced : (0 :: calls.map DisplayCall.uptime).IsChain Spaced) :
    (controller.trace (fun _ => ()) powerUp (calls.map DisplayCall.inputs)).map (fun p => printsStatus p.2) =
      due 4000 0 (calls.map DisplayCall.uptime) :=
  status_run calls rfl ⟨Nat.le_refl 0, Nat.zero_le _⟩ hspaced

/-- Calls around the change of sign, after 24 days, and around the rollover, after 49. -/
theorem status_due_rollover :
    (controller.trace (fun _ => ()) powerUp
      ([⟨2147479000, fun _ => .high, 0⟩, ⟨2147483000, fun _ => .low, 0⟩, ⟨2147484000, fun _ => .low, 0⟩,
        ⟨2200000000, fun _ => .low, 0⟩, ⟨4294966000, fun _ => .low, 0⟩, ⟨4294967300, fun _ => .low, 0⟩,
        ⟨4294970001, fun _ => .low, 0⟩].map DisplayCall.inputs)).map (fun p => printsStatus p.2) =
      [true, false, true, true, true, false, true] :=
  (status_due [⟨2147479000, fun _ => .high, 0⟩, ⟨2147483000, fun _ => .low, 0⟩,
    ⟨2147484000, fun _ => .low, 0⟩, ⟨2200000000, fun _ => .low, 0⟩, ⟨4294966000, fun _ => .low, 0⟩,
    ⟨4294967300, fun _ => .low, 0⟩, ⟨4294970001, fun _ => .low, 0⟩] (by simp [Spaced])).trans (by decide)

end MakerSpace.PumpController
