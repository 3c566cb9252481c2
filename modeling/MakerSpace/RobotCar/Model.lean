import MakerSpace.Arduino
import Mathlib.Data.Rat.Floor
import Mathlib.Tactic.Ring
import Mathlib.Tactic.NormNum

/-! The infrared remote control car, `IR_Remote_Control_Car2.ino`.

Key codes from the remote step a speed and a turn between the bounds the tuning
globals set. `updateSpeeds2` mixes the two into a direction and a PWM duty for
each wheel; `updateSpeeds` writes them to the motor driver. The two duties come from one
expression, and the mix is written for any function in its place: here the float
quotient `abs(x) / (float)maxSpeed` is an exact rational, in `SinglePrecision` every
float operation rounds. `int()` truncates in both. -/
namespace MakerSpace.RobotCar
open Arduino Reactive

def enA : Nat := 5
def in1 : Nat := 2
def in2 : Nat := 4
def in3 : Nat := 7
def in4 : Nat := 8
def enB : Nat := 6

def irGo : BitVec 32 := 0xB946FF00
def irBack : BitVec 32 := 0xEA15FF00
def irLeft : BitVec 32 := 0xBB44FF00
def irRight : BitVec 32 := 0xBC43FF00
def irStop : BitVec 32 := 0xBF40FF00

/-- The globals that set the bounds; the sketch never writes them. -/
structure Tuning where
  maxSpeed : Int := 6
  maxTurn : Int := 2
  deriving DecidableEq, Repr

/-- The globals the remote steps. -/
structure State where
  speed : Int := 0
  turn : Int := 0
  deriving DecidableEq, Repr

def powerUp : State := {}

structure MotorState where
  forward : Bool
  pwm : BitVec 8
  deriving DecidableEq, Repr

structure MotorsState where
  left : MotorState
  right : MotorState
  deriving DecidableEq, Repr

/-! ### The wheel mix -/

def minSpeed : Int := 100

/-- C's conversion of a floating point value to `int`. -/
def truncate (q : ℚ) : Int := if 0 ≤ q then ⌊q⌋ else ⌈q⌉

/-- The expression both duties are computed by, at `x`. -/
def duty (maxSpeed x : Int) : Int :=
  (if x ≠ 0 then minSpeed else 0) + truncate (((|x| : Int) : ℚ) / maxSpeed * (255 - minSpeed))

/-- A duty stored into the `unsigned char` field: its low eight bits. -/
def pwmOf (duty : Int) : BitVec 8 := BitVec.ofInt 8 duty

def clampSpeed (maxSpeed speed : Int) : Int :=
  if speed > maxSpeed then maxSpeed
  else if speed < -maxSpeed then -maxSpeed
  else speed

/-- The speed of the wheel on the inside of the turn. -/
def slowerSpeed (speed turn : Int) : Int := speed - (if speed > 0 then |turn| else -|turn|)

/-- The body of `updateSpeeds2`, for the expression its duties are computed by. -/
def mixSpeeds (duty : Int → Int) (maxSpeed speed turn : Int) : MotorsState :=
  if speed = 0 then ⟨⟨true, 0⟩, ⟨true, 0⟩⟩
  else
    let speed := clampSpeed maxSpeed speed
    let speedMax := duty speed
    let slowerSpeed := slowerSpeed speed turn
    let speedSlower := duty slowerSpeed
    if turn > 0 then
      if speed > 0 then
        -- right goes slightly slower
        ⟨⟨true, pwmOf speedMax⟩, ⟨slowerSpeed > 0, pwmOf speedSlower⟩⟩
      else
        -- left goes slightly slower
        ⟨⟨false, pwmOf speedMax⟩, ⟨slowerSpeed > 0, pwmOf speedSlower⟩⟩
    else
      if speed > 0 then
        -- left goes slightly slower
        ⟨⟨slowerSpeed > 0, pwmOf speedSlower⟩, ⟨true, pwmOf speedMax⟩⟩
      else
        -- right goes slightly slower
        ⟨⟨slowerSpeed > 0, pwmOf speedSlower⟩, ⟨false, pwmOf speedMax⟩⟩

def updateSpeeds2 (maxSpeed speed turn : Int) : MotorsState :=
  mixSpeeds (duty maxSpeed) maxSpeed speed turn

/-- The direction pins of one side of the motor driver. -/
def writeDirection (forwardPin backwardPin : Nat) (forward : Bool) : List Effect :=
  if forward then [.digitalWrite forwardPin .high, .digitalWrite backwardPin .low]
  else [.digitalWrite forwardPin .low, .digitalWrite backwardPin .high]

def updateSpeeds (maxSpeed speed turn : Int) : List Effect :=
  let motors := updateSpeeds2 maxSpeed speed turn
  [.print "speed=", .printInt speed, .print " turn=", .printInt turn,
    .print " -> right(forward=", .printInt motors.right.forward.toInt,
    .print ",pwm=", .printInt motors.right.pwm.toNat,
    .print "), left(forward=", .printInt motors.left.forward.toInt,
    .print ",pwm=", .printInt motors.left.pwm.toNat, .print ")", .println] ++
  writeDirection in1 in2 motors.left.forward ++ writeDirection in3 in4 motors.right.forward ++
  [.analogWrite enA motors.left.pwm, .analogWrite enB motors.right.pwm]

/-! ### The remote -/

/-- The `switch` on the key code. -/
def handleKey (g : Tuning) (key : BitVec 32) (s : State) : State × List Effect :=
  if key = irGo then
    (if s.speed < g.maxSpeed then {s with speed := s.speed + 1} else s,
      [.print "incrementing speed", .println])
  else if key = irBack then
    (if s.speed > -g.maxSpeed then {s with speed := s.speed - 1} else s,
      [.print "decrementing speed", .println])
  else if key = irLeft then
    (if s.turn > -g.maxTurn then {s with turn := s.turn - 1} else s, [])
  else if key = irRight then
    (if s.turn < g.maxTurn then {s with turn := s.turn + 1} else s, [])
  else if key = irStop then
    ({s with speed := 0, turn := 0}, [])
  else
    (s, [])

/-- One call; `decoded` is the key code when `IrReceiver.decode()` has one. -/
def irControl (g : Tuning) (decoded : Option (BitVec 32)) (s : State) : State × List Effect :=
  match decoded with
  | none => (s, [])
  | some key =>
    let handled := handleKey g key s
    (handled.1, [.printHex key.toNat, .println] ++ handled.2 ++
      updateSpeeds g.maxSpeed handled.1.speed handled.1.turn)

def car (g : Tuning) : Machine (Option (BitVec 32)) State Effect := ⟨irControl g⟩

/-! ### Duties in integers -/

/-- The rational quotient, scaled and truncated, is an integer division. -/
theorem duty_eq {maxSpeed : Int} (hM : 1 ≤ maxSpeed) (x : Int) :
    duty maxSpeed x = (if x ≠ 0 then 100 else 0) + 155 * |x| / maxSpeed := by
  have hnonneg : (0 : ℚ) ≤ ((|x| : Int) : ℚ) / maxSpeed * (255 - minSpeed) := by
    have hx : (0 : ℚ) ≤ ((|x| : Int) : ℚ) := by exact_mod_cast abs_nonneg x
    have hM' : (0 : ℚ) ≤ (maxSpeed : ℚ) := by exact_mod_cast (by omega : (0 : Int) ≤ maxSpeed)
    have hscale : (0 : ℚ) ≤ 255 - minSpeed := by norm_num [minSpeed]
    exact mul_nonneg (div_nonneg hx hM') hscale
  have hquot : ((|x| : Int) : ℚ) / maxSpeed * (255 - minSpeed) = ((155 * |x| : Int) : ℚ) / maxSpeed := by
    push_cast [minSpeed]
    ring
  rw [duty, truncate, if_pos hnonneg, hquot, Int.floor_div_cast_of_nonneg (by omega),
    Int.floor_intCast, minSpeed]

theorem duty_zero {maxSpeed : Int} (hM : 1 ≤ maxSpeed) : duty maxSpeed 0 = 0 := by
  simp [duty_eq hM]

@[simp] theorem duty_neg (maxSpeed x : Int) : duty maxSpeed (-x) = duty maxSpeed x := by
  simp only [duty, abs_neg, ne_eq, neg_eq_zero]

/-- A nonzero speed gets at least the minimum duty. -/
theorem duty_ge {maxSpeed : Int} (hM : 1 ≤ maxSpeed) {x : Int} (hx : x ≠ 0) :
    100 ≤ duty maxSpeed x := by
  have := Int.ediv_nonneg (by positivity : 0 ≤ 155 * |x|) (by omega : 0 ≤ maxSpeed)
  simp only [duty_eq hM, hx, ne_eq, not_false_eq_true, if_true]
  omega

/-- Within the bound the duty fits the eight bits it is stored in. -/
theorem duty_le {maxSpeed : Int} (hM : 1 ≤ maxSpeed) {x : Int} (hx : |x| ≤ maxSpeed) :
    duty maxSpeed x ≤ 255 := by
  have hdiv : 155 * |x| / maxSpeed ≤ 155 := Int.ediv_le_of_le_mul (by omega) (by omega)
  rw [duty_eq hM]
  split_ifs <;> omega

/-- Faster is no lower a duty. -/
theorem duty_mono {maxSpeed : Int} (hM : 1 ≤ maxSpeed) {x y : Int} (h : |x| ≤ |y|) :
    duty maxSpeed x ≤ duty maxSpeed y := by
  have hdiv : 155 * |x| / maxSpeed ≤ 155 * |y| / maxSpeed :=
    Int.ediv_le_ediv (by omega) (by omega)
  have hzero : y = 0 → x = 0 := by
    intro hy
    rw [hy, abs_zero] at h
    exact abs_nonpos_iff.mp h
  rw [duty_eq hM, duty_eq hM]
  split_ifs with hx hy hy
  · omega
  · exact absurd (hzero (not_not.mp hy)) hx
  · omega
  · omega

/-! ### What the mix asks of a duty

No more than this is used of the expression, so what follows holds of any that has it. -/

structure DutyLaw (maxSpeed : Int) (duty : Int → Int) : Prop where
  zero : duty 0 = 0
  neg : ∀ x, duty (-x) = duty x
  ge : ∀ {x}, x ≠ 0 → 100 ≤ duty x
  le : ∀ {x}, |x| ≤ maxSpeed → duty x ≤ 255
  mono : ∀ {x y}, |x| ≤ |y| → duty x ≤ duty y

theorem dutyLaw {maxSpeed : Int} (hM : 1 ≤ maxSpeed) : DutyLaw maxSpeed (duty maxSpeed) where
  zero := duty_zero hM
  neg := duty_neg maxSpeed
  ge := duty_ge hM
  le := duty_le hM
  mono := duty_mono hM

/-- A duty in the direction of the speed it was computed from. -/
def signedDuty (duty : Int → Int) (x : Int) : Int := if x > 0 then duty x else -duty x

/-- A wheel's velocity: its duty, negative when it runs backward. -/
def MotorState.velocity (w : MotorState) : Int :=
  if w.forward then w.pwm.toNat else -w.pwm.toNat

/-- The wheel a speed is written to. -/
def wheel (duty : Int → Int) (x : Int) : MotorState := ⟨x > 0, pwmOf (duty x)⟩

theorem pwmOf_toNat {d : Int} (h0 : 0 ≤ d) (h255 : d ≤ 255) : ((pwmOf d).toNat : Int) = d := by
  simp only [pwmOf, BitVec.toNat_ofInt]
  omega

section
variable {maxSpeed : Int} {duty : Int → Int} (law : DutyLaw maxSpeed duty)
include law

theorem signedDuty_nonpos {x : Int} (hx : x ≤ 0) : signedDuty duty x ≤ 0 := by
  rw [signedDuty, if_neg (by omega)]
  by_cases h0 : x = 0
  · simp [h0, law.zero]
  · have := law.ge h0
    omega

theorem signedDuty_neg (x : Int) : signedDuty duty (-x) = -signedDuty duty x := by
  rcases lt_trichotomy x 0 with hx | rfl | hx
  · rw [signedDuty, signedDuty, if_pos (by omega), if_neg (by omega), law.neg, neg_neg]
  · simp [signedDuty, law.zero]
  · rw [signedDuty, signedDuty, if_neg (by omega), if_pos hx, law.neg]

theorem signedDuty_mono {x y : Int} (h : x ≤ y) : signedDuty duty x ≤ signedDuty duty y := by
  by_cases hx : x > 0
  · rw [signedDuty, signedDuty, if_pos hx, if_pos (by omega)]
    exact law.mono (by rw [abs_of_pos hx, abs_of_pos (by omega)]; exact h)
  · by_cases hy : y > 0
    · have h100 := law.ge (by omega : y ≠ 0)
      refine (signedDuty_nonpos law (by omega)).trans ?_
      rw [signedDuty, if_pos hy]
      omega
    · rw [signedDuty, signedDuty, if_neg hx, if_neg hy]
      exact neg_le_neg (law.mono (by
        rw [abs_of_nonpos (by omega), abs_of_nonpos (by omega)]; omega))

/-- A duty within the eight bits is stored whole. -/
theorem pwmOf_duty {x : Int} (hx : |x| ≤ maxSpeed) : ((pwmOf (duty x)).toNat : Int) = duty x := by
  refine pwmOf_toNat ?_ (law.le hx)
  by_cases h0 : x = 0
  · simp [h0, law.zero]
  · exact (law.ge h0).trans' (by decide)

theorem wheel_velocity {x : Int} (hx : |x| ≤ maxSpeed) :
    (wheel duty x).velocity = signedDuty duty x := by
  simp only [MotorState.velocity, wheel, signedDuty, pwmOf_duty law hx, decide_eq_true_eq]

end

/-! ### The two wheels

Whatever the branch, the wheel on one side gets the full speed and the wheel on the
other the slower one; which is which goes by the sign of the turn alone. -/

theorem mixSpeeds_zero (duty : Int → Int) (maxSpeed turn : Int) :
    mixSpeeds duty maxSpeed 0 turn = ⟨⟨true, 0⟩, ⟨true, 0⟩⟩ := if_pos rfl

theorem mixSpeeds_ne_zero (duty : Int → Int) (maxSpeed turn : Int) {speed : Int} (h : speed ≠ 0) :
    mixSpeeds duty maxSpeed speed turn =
      let outer := clampSpeed maxSpeed speed
      let inner := slowerSpeed outer turn
      if turn > 0 then ⟨wheel duty outer, wheel duty inner⟩
      else ⟨wheel duty inner, wheel duty outer⟩ := by
  simp only [mixSpeeds, h, if_false, wheel]
  split_ifs with hturn hspeed hspeed <;> simp [hspeed]

theorem clampSpeed_of_le {maxSpeed speed : Int} (h : |speed| ≤ maxSpeed) :
    clampSpeed maxSpeed speed = speed := by
  rw [abs_le] at h
  rw [clampSpeed, if_neg (by omega), if_neg (by omega)]

/-- A turn of at most two never makes the inside wheel the faster one. -/
theorem abs_slowerSpeed {speed turn : Int} (hs : speed ≠ 0) (ht : |turn| ≤ 2) :
    |slowerSpeed speed turn| ≤ |speed| := by
  have h0 := abs_nonneg turn
  unfold slowerSpeed
  rcases lt_or_gt_of_ne hs with h | h
  · rw [if_neg (by omega), abs_of_neg h, abs_le]
    omega
  · rw [if_pos h, abs_of_pos h, abs_le]
    omega

end MakerSpace.RobotCar
