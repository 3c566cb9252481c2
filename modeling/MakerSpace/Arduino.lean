import MakerSpace.Reactive.Machine

/-! What the sketches share: pin levels, C truth values, and the effects a sketch
has on its board.

A sketch is a reactive machine whose outputs are `Effect`s. The level of an
output pin and the text on the serial line are read off the effects so far; a pin
never written is LOW, as reset leaves it. -/
namespace MakerSpace.Arduino

inductive Level where
  | low
  | high
  deriving DecidableEq, Repr

/-- What `digitalRead` returns. -/
def Level.toInt : Level → Int
  | .low => 0
  | .high => 1

/-- What `digitalWrite` drives: anything but 0 is HIGH. -/
def Level.ofInt (value : Int) : Level := if value = 0 then .low else .high

@[simp] theorem Level.ofInt_zero : Level.ofInt 0 = .low := rfl

@[simp] theorem Level.ofInt_one : Level.ofInt 1 = .high := rfl

theorem Level.ne_low {l : Level} : ¬l = .low ↔ l = .high := by cases l <;> simp

theorem Level.ne_high {l : Level} : ¬l = .high ↔ l = .low := by cases l <;> simp

/-- C's `!`. -/
def lnot (x : Int) : Int := if x = 0 then 1 else 0

/-- C's `&&`. -/
def land (x y : Int) : Int := if x ≠ 0 ∧ y ≠ 0 then 1 else 0

/-- A comparison as an `int`. -/
def ofBool (p : Prop) [Decidable p] : Int := if p then 1 else 0

inductive Effect where
  | digitalWrite (pin : Nat) (level : Level)
  | analogWrite (pin : Nat) (duty : BitVec 8)
  | print (text : String)
  | printInt (value : Int)
  | printHex (value : Nat)
  | println
  deriving DecidableEq, Repr

/-! ### Pins -/

/-- One effect's mark on a pin's level. -/
def drive (pin : Nat) (level : Level) : Effect → Level
  | .digitalWrite p l => if p = pin then l else level
  | _ => level

/-- One effect's mark on a pin's duty. -/
def driveDuty (pin : Nat) (duty : BitVec 8) : Effect → BitVec 8
  | .analogWrite p d => if p = pin then d else duty
  | _ => duty

/-- The level a pin is left at. -/
def pinLevel (pin : Nat) (effects : List Effect) : Level := effects.foldl (drive pin) .low

/-- The duty a PWM pin is left at. -/
def pinDuty (pin : Nat) (effects : List Effect) : BitVec 8 := effects.foldl (driveDuty pin) 0

theorem pinLevel_append (pin : Nat) (a b : List Effect) :
    pinLevel pin (a ++ b) = b.foldl (drive pin) (pinLevel pin a) := List.foldl_append

theorem pinDuty_append (pin : Nat) (a b : List Effect) :
    pinDuty pin (a ++ b) = b.foldl (driveDuty pin) (pinDuty pin a) := List.foldl_append

/-! ### The serial line -/

/-- `Serial.print(value, HEX)`: uppercase digits, no leading zero. -/
def hexDigits (value : Nat) : List Char := (Nat.toDigits 16 value).map Char.toUpper

def Effect.text : Effect → List Char
  | .digitalWrite _ _ => []
  | .analogWrite _ _ => []
  | .print text => text.toList
  | .printInt value => (toString value).toList
  | .printHex value => hexDigits value
  | .println => ['\r', '\n']

/-- The text a list of effects writes to the serial line. -/
def serialText (effects : List Effect) : List Char := effects.flatMap Effect.text

theorem serialText_append (a b : List Effect) :
    serialText (a ++ b) = serialText a ++ serialText b := List.flatMap_append

end MakerSpace.Arduino
