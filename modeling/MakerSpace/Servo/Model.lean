import MakerSpace.Arduino

/-! The servo library, `libraries/Servo/src/avr/Servo.cpp`, on the ATmega328: one 16-bit
timer of two ticks to the microsecond, and twelve servos on it.

The compare interrupt ends one servo's pulse and starts the next one's; after the last it
waits for the refresh interval to be over. Between two interrupts the timer runs on to
the compare value, and the interrupt is served some time after that. -/
namespace MakerSpace.Servo
open Arduino Reactive

def minPulseWidth : Int := 544
def maxPulseWidth : Int := 2400
def defaultPulseWidth : Int := 1500
def refreshInterval : Int := 20000
def servosPerTimer : Nat := 12
def trimDuration : Int := 2
def invalidServo : Nat := 255

/-- A clock of 16 MHz, divided by 8. -/
def usToTicks (us : Int) : Int := (16 * us).tdiv 8
/-- In `unsigned int`, of 16 bits. -/
def ticksToUs (ticks : BitVec 16) : BitVec 16 := ticks * 8 / 16

/-- `servo_t`: a pin of six bits, whether it is pulsed, and for how long. -/
structure Entry where
  nbr : BitVec 6 := 0
  isActive : Bool := false
  ticks : BitVec 16 := 0
  deriving DecidableEq, Repr

abbrev Table := Vector Entry servosPerTimer

/-- `Servo`, the sketch's handle. -/
structure Handle where
  servoIndex : Nat
  min : BitVec 8 := 0
  max : BitVec 8 := 0
  deriving DecidableEq, Repr

def Handle.servoMin (o : Handle) : Int := minPulseWidth - o.min.toInt * 4
def Handle.servoMax (o : Handle) : Int := maxPulseWidth - o.max.toInt * 4

/-- The library's statics, and the timer's registers. -/
structure Board where
  servos : Table := Vector.replicate servosPerTimer {}
  channel : Int := 0
  servoCount : Nat := 0
  tcnt : BitVec 16 := 0
  ocr : BitVec 16 := 0

/-- The core's `map`, in `long`. -/
def map (x inMin inMax outMin outMax : Int) : Int :=
  ((x - inMin) * (outMax - outMin)).tdiv (inMax - inMin) + outMin

/-! ### Calls of the sketch -/

/-- The constructor. -/
def construct (b : Board) : Handle × Board :=
  if h : b.servoCount < servosPerTimer then
    ({servoIndex := b.servoCount},
      {b with
        servos := b.servos.set b.servoCount
          {b.servos.get ⟨b.servoCount, h⟩ with ticks := BitVec.ofInt 16 (usToTicks defaultPulseWidth)} h
        servoCount := b.servoCount + 1})
  else ({servoIndex := invalidServo}, b)

def isTimerActive (b : Board) : Bool := b.servos.any (·.isActive)

/-- `initISR` clears the timer's count. -/
def attach (pin : BitVec 6) (min max : Int) (o : Handle) (b : Board) : Handle × Board :=
  if h : o.servoIndex < servosPerTimer then
    ({o with
        min := BitVec.ofInt 8 ((minPulseWidth - min).tdiv 4)
        max := BitVec.ofInt 8 ((maxPulseWidth - max).tdiv 4)},
      {b with
        tcnt := if isTimerActive b then b.tcnt else 0
        servos := b.servos.set o.servoIndex
          {b.servos.get ⟨o.servoIndex, h⟩ with nbr := pin, isActive := true} h})
  else (o, b)

/-- The pulse width a value asks for. -/
def Handle.width (o : Handle) (value : Int) : Int :=
  if value < o.servoMin then o.servoMin else if value > o.servoMax then o.servoMax else value

def writeMicroseconds (value : Int) (o : Handle) (servos : Table) : Table :=
  if h : o.servoIndex < servosPerTimer then
    servos.set o.servoIndex
      {servos.get ⟨o.servoIndex, h⟩ with
        ticks := BitVec.ofInt 16 (usToTicks (o.width value - trimDuration))} h
  else servos

/-- Values below the shortest pulse are angles. -/
def write (value : Int) (o : Handle) (servos : Table) : Table :=
  if value < minPulseWidth then
    let angle := if value < 0 then 0 else value
    let angle := if angle > 180 then 180 else angle
    writeMicroseconds (map angle 0 180 o.servoMin o.servoMax) o servos
  else writeMicroseconds value o servos

def readMicroseconds (o : Handle) (servos : Table) : BitVec 16 :=
  match servos[o.servoIndex]? with
  | some entry => ticksToUs entry.ticks + BitVec.ofInt 16 trimDuration
  | none => 0

def read (o : Handle) (servos : Table) : Int :=
  map ((readMicroseconds o servos).toInt + 1) o.servoMin o.servoMax 0 180

/-! ### The interrupt -/

def Board.entry (b : Board) (channel : Int) : Entry := b.servos[channel.toNat]?.getD {}

/-- What is written to the pins, in order. -/
abbrev Writes := List (BitVec 6 × Level)

def Entry.drive (e : Entry) (level : Level) : Writes := if e.isActive then [(e.nbr, level)] else []

/-- The end of a pulse, or of the refresh interval. -/
def endPulse (b : Board) : Board × Writes :=
  if b.channel < 0 then ({b with tcnt := 0}, [])
  else (b, if b.channel < b.servoCount then (b.entry b.channel).drive .low else [])

/-- The next channel, or the wait for the refresh interval. -/
def startPulse (b : Board) : Board × Writes :=
  if b.channel < b.servoCount ∧ b.channel < servosPerTimer then
    ({b with ocr := b.tcnt + (b.entry b.channel).ticks}, (b.entry b.channel).drive .high)
  else
    ({b with
        ocr := if (b.tcnt + 4).toNat < usToTicks refreshInterval then
            BitVec.ofInt 16 (usToTicks refreshInterval)
          else b.tcnt + 4
        channel := -1}, [])

def handleInterrupts (b : Board) : Board × Writes :=
  let (b, low) := endPulse b
  let (b, high) := startPulse {b with channel := b.channel + 1}
  (b, low ++ high)

/-! ### Time -/

inductive Command where
  | write (o : Handle) (value : Int)
  | writeMicroseconds (o : Handle) (value : Int)

def Command.apply (servos : Table) : Command → Table
  | .write o value => Servo.write value o servos
  | .writeMicroseconds o value => Servo.writeMicroseconds value o servos

/-- An interrupt: what the sketch wrote since the last, and how many ticks after the
match it is served. -/
structure Interrupt where
  commands : List Command := []
  late : Nat := 0

/-- Ticks until the count meets the compare value. A count set to it has to come round. -/
def Board.toMatch (b : Board) : Nat := if b.ocr = b.tcnt then 65536 else (b.ocr - b.tcnt).toNat

structure Edge where
  time : Nat
  pin : BitVec 6
  level : Level
  deriving DecidableEq, Repr

def stamp (time : Nat) (writes : Writes) : List Edge := writes.map fun w => ⟨time, w.1, w.2⟩

/-- The board and the time, in ticks. -/
def timer : Machine Interrupt (Board × Nat) Edge where
  pass := fun i (b, now) =>
    let elapsed := b.toMatch + i.late
    let b := {b with servos := i.commands.foldl Command.apply b.servos
                     tcnt := b.tcnt + BitVec.ofNat 16 elapsed}
    let (b, writes) := handleInterrupts b
    ((b, now + elapsed), stamp (now + elapsed) writes)

end MakerSpace.Servo
