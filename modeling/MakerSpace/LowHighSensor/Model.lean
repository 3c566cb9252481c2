import MakerSpace.Arduino
import MakerSpace.Reactive.Latch

/-! The prototype pump monitor, `arduino/low_high_sensor/low_high_sensor.ino`.

Two float switches on pull-ups and an LED that stands for the pump. The sketch
starts at `pumping = -1` and spends its first pass reporting the sensors. -/
namespace MakerSpace.LowHighSensor
open Arduino Reactive

def lowSensor : Nat := 12
def highSensor : Nat := 13
def led : Nat := 4

structure State where
  pumping : Int := -1
  deriving DecidableEq, Repr

def powerUp : State := {}

/-- The status line: the sketch builds it in `buf`, afresh on every pass. -/
def buf (pumping lowSignal highSignal : Int) : String :=
  (if pumping ≠ 0 then "pumping " else "------- ") ++
    (if lowSignal = 0 then "low-v " else "LOW-^ ") ++
    (if highSignal = 0 then "high-v " else "HIGH-^ ")

/-- The `if`/`else` chain on `pumping`, with what its first branch prints. -/
def switchPump (lowSignal highSignal pumping : Int) : Int × List Effect :=
  if pumping = -1 then
    (0, [.print (if lowSignal ≠ 0 then "low is signaling" else "low is not signalling"), .println,
      .print (if highSignal ≠ 0 then "high is signaling" else "high is not signalling"), .println])
  else if pumping = 0 ∧ lowSignal = 0 ∧ highSignal = 0 then (1, [])
  else if pumping = 1 ∧ lowSignal ≠ 0 ∧ highSignal ≠ 0 then (0, [])
  else (pumping, [])

/-- One pass, less the closing `delay(500)`. -/
def loop (digitalRead : Nat → Level) (s : State) : State × List Effect :=
  let lowSignal := ofBool (digitalRead lowSensor = .low)
  let highSignal := ofBool (digitalRead highSensor = .low)
  let switched := switchPump lowSignal highSignal s.pumping
  ({s with pumping := switched.1},
    switched.2 ++ [.print (buf switched.1 lowSignal highSignal), .println] ++
      [.digitalWrite led (if switched.1 ≠ 0 then .high else .low)])

def monitor : Machine (Nat → Level) State Effect := ⟨loop⟩

/-! ### One pass -/

/-- A sensor signals when its pin is LOW. -/
def Signals (digitalRead : Nat → Level) (pin : Nat) : Prop := digitalRead pin = .low

instance (digitalRead : Nat → Level) (pin : Nat) : Decidable (Signals digitalRead pin) :=
  inferInstanceAs (Decidable (_ = _))

/-- Neither sensor signals. -/
def Clear (digitalRead : Nat → Level) : Prop :=
  ¬Signals digitalRead lowSensor ∧ ¬Signals digitalRead highSensor

/-- Both sensors signal. -/
def Full (digitalRead : Nat → Level) : Prop :=
  Signals digitalRead lowSensor ∧ Signals digitalRead highSensor

instance (digitalRead : Nat → Level) : Decidable (Clear digitalRead) :=
  inferInstanceAs (Decidable (_ ∧ _))

instance (digitalRead : Nat → Level) : Decidable (Full digitalRead) :=
  inferInstanceAs (Decidable (_ ∧ _))

/-- After its first pass the sketch is either pumping or not. -/
def Started (s : State) : Prop := s.pumping = 0 ∨ s.pumping = 1

theorem next_pumping (digitalRead : Nat → Level) (s : State) :
    (monitor.next digitalRead s).pumping =
      (switchPump (ofBool (Signals digitalRead lowSensor)) (ofBool (Signals digitalRead highSensor))
        s.pumping).1 := rfl

/-- The first pass only reports. -/
theorem next_powerUp (digitalRead : Nat → Level) :
    (monitor.next digitalRead powerUp).pumping = 0 := rfl

/-- Started, the pump is switched on by a clear sample, off by a full one, and
kept by any other. -/
theorem next_started (digitalRead : Nat → Level) (s : State) (h : Started s) :
    (monitor.next digitalRead s).pumping =
      if Clear digitalRead then 1 else if Full digitalRead then 0 else s.pumping := by
  rw [next_pumping]
  by_cases hlow : Signals digitalRead lowSensor <;>
    by_cases hhigh : Signals digitalRead highSensor <;>
    rcases h with h | h <;> simp [switchPump, ofBool, Clear, Full, hlow, hhigh, h]

theorem started_next (digitalRead : Nat → Level) (s : State) (h : Started s) :
    Started (monitor.next digitalRead s) := by
  rw [Started, next_started digitalRead s h]
  split_ifs
  · exact .inr rfl
  · exact .inl rfl
  · exact h

/-- The pass ends by writing the LED from `pumping`. -/
theorem out_getLast (digitalRead : Nat → Level) (s : State) :
    (monitor.out digitalRead s).getLast? =
      some (.digitalWrite led (if (monitor.next digitalRead s).pumping ≠ 0 then .high else .low)) := by
  show (_ ++ [_]).getLast? = _
  rw [List.getLast?_append, List.getLast?_singleton]
  rfl

theorem drive_switchPump (pin : Nat) (level : Level) (lowSignal highSignal pumping : Int) :
    (switchPump lowSignal highSignal pumping).2.foldl (drive pin) level = level := by
  unfold switchPump
  split_ifs <;> rfl

/-- The LED is left as `pumping` has it. -/
theorem led_next (digitalRead : Nat → Level) (s : State) (level : Level) :
    (monitor.out digitalRead s).foldl (drive led) level =
      if (monitor.next digitalRead s).pumping ≠ 0 then .high else .low := by
  show ((loop digitalRead s).2).foldl (drive led) level = _
  simp only [loop, List.foldl_append, drive_switchPump]
  rfl

end MakerSpace.LowHighSensor
