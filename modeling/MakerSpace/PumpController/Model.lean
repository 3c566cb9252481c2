import MakerSpace.Arduino

/-! The irrigation controller, `arduino/esp32/pump-controller/pump-controller.ino`.

Three float switches per channel, wired to pull-ups (an active sensor pulls its
pin LOW), switch a relay per channel. The same LED carries a heartbeat and, once
the heartbeat is over, whether both pumps run. -/
namespace MakerSpace.PumpController
open Arduino Reactive

def led : Nat := 2
def sensorLow1 : Nat := 15
def sensorHigh1 : Nat := 16
def sensorKill1 : Nat := 17
def sensorLow2 : Nat := 18
def sensorHigh2 : Nat := 19
def sensorKill2 : Nat := 21
def relayCtrl1 : Nat := 22
def relayCtrl2 : Nat := 23

def blinkInterval : Int := 5000

/-- The sketch's globals. `blinkT` is a signed 64-bit `time_t`, and `displayT` a
32-bit `int`. -/
structure State where
  ledState : Int := 0
  lastHigh1 : Int := 0
  lastLow1 : Int := 0
  lastKill1 : Int := 0
  lastHigh2 : Int := 0
  lastLow2 : Int := 0
  lastKill2 : Int := 0
  pumpState1 : Int := 0
  pumpState2 : Int := 0
  blinkStep : Int := 0
  blinkT : Int := 0
  displayT : BitVec 32 := 0
  deriving DecidableEq, Repr

def powerUp : State := {}

/-- The new value of a sensor, and the report of a change. -/
def readPin (digitalRead : Nat → Level) (pin : Nat) (lastVal : Int) (desc : String) :
    Int × List Effect :=
  let val := lnot (digitalRead pin).toInt
  if val ≠ lastVal then
    (val, [.print desc, .print " change detected: ", .printInt val, .println])
  else
    (lastVal, [])

/-- `t` is what `millis()` gave, widened to `time_t`. -/
def handleBlink (t : Int) (s : State) : State × List Effect :=
  if t - s.blinkT > blinkInterval then
    ({s with blinkT := t, blinkStep := 0}, [.digitalWrite led .high])
  else if s.blinkStep = 0 ∧ t - s.blinkT > blinkInterval / 10 then
    ({s with blinkStep := 1}, [.digitalWrite led .low])
  else if s.blinkStep = 1 ∧ t - s.blinkT > blinkInterval / 5 then
    ({s with blinkStep := 2}, [.digitalWrite led (.ofInt s.ledState)])
  else
    (s, [])

/-- `t` is what `millis()` gave, as a 32-bit `int`; the subtraction wraps. -/
def handleDisplay (t : BitVec 32) (s : State) : State × List Effect :=
  if (t - s.displayT).toInt > 4000 then
    ({s with displayT := t},
      [.print "1:[", .printInt s.lastLow1, .printInt s.lastHigh1, .printInt s.lastKill1,
        .print "]->", .printInt s.pumpState1,
        .print "  2:[", .printInt s.lastLow2, .printInt s.lastHigh2, .printInt s.lastKill2,
        .print "]->", .printInt s.pumpState2, .println])
  else
    (s, [])

/-- The `if`/`else` chain of `read_sensors` for channel 1. -/
def switchPump1 (lastLow1 lastHigh1 lastKill1 pumpState1 : Int) : Int :=
  if lastKill1 ≠ 0 then 0
  else if lastHigh1 = 0 ∧ lastLow1 = 0 then 1
  else if pumpState1 = 1 ∧ lastHigh1 ≠ 0 then 0
  else pumpState1

/-- The same chain for channel 2, where the source tests `pump_state2` itself and
not `pump_state2 == 1`. -/
def switchPump2 (lastLow2 lastHigh2 lastKill2 pumpState2 : Int) : Int :=
  if lastKill2 ≠ 0 then 0
  else if lastHigh2 = 0 ∧ lastLow2 = 0 then 1
  else if pumpState2 ≠ 0 ∧ lastHigh2 ≠ 0 then 0
  else pumpState2

/-- The LED follows `led_state` when it changes. -/
def writeLed (prevLedState ledState : Int) : List Effect :=
  if led ≠ 0 ∧ prevLedState ≠ ledState then [.digitalWrite led (.ofInt ledState)] else []

def readSensors (digitalRead : Nat → Level) (s : State) : State × List Effect :=
  let low1 := readPin digitalRead sensorLow1 s.lastLow1 "low1"
  let high1 := readPin digitalRead sensorHigh1 s.lastHigh1 "high1"
  let kill1 := readPin digitalRead sensorKill1 s.lastKill1 "kill1"
  let low2 := readPin digitalRead sensorLow2 s.lastLow2 "low2"
  let high2 := readPin digitalRead sensorHigh2 s.lastHigh2 "high2"
  let kill2 := readPin digitalRead sensorKill2 s.lastKill2 "kill2"
  let pumpState1 := switchPump1 low1.1 high1.1 kill1.1 s.pumpState1
  let pumpState2 := switchPump2 low2.1 high2.1 kill2.1 s.pumpState2
  let ledState := land pumpState1 pumpState2
  ({s with
      lastLow1 := low1.1, lastHigh1 := high1.1, lastKill1 := kill1.1
      lastLow2 := low2.1, lastHigh2 := high2.1, lastKill2 := kill2.1
      pumpState1 := pumpState1, pumpState2 := pumpState2, ledState := ledState},
    low1.2 ++ high1.2 ++ kill1.2 ++ low2.2 ++ high2.2 ++ kill2.2 ++ writeLed s.ledState ledState ++
      [.digitalWrite relayCtrl1 (.ofInt pumpState1), .digitalWrite relayCtrl2 (.ofInt pumpState2)])

/-- What one pass of `loop` reads: the pins, and the clock twice. -/
structure Inputs where
  digitalRead : Nat → Level
  blinkMillis : BitVec 32
  displayMillis : BitVec 32

def loop (i : Inputs) (s : State) : State × List Effect :=
  let a := readSensors i.digitalRead s
  let b := handleBlink i.blinkMillis.toNat a.1
  let c := handleDisplay i.displayMillis b.1
  (c.1, a.2 ++ b.2 ++ c.2)

def controller : Machine Inputs State Effect := ⟨loop⟩

/-- `read_sensors` called over and over, without the blinking and the display. -/
def sensing : Machine (Nat → Level) State Effect := ⟨readSensors⟩

/-! ### What each function does -/

/-- A sensor's value: 1 when its switch pulls the pin LOW. -/
def sensed (digitalRead : Nat → Level) (pin : Nat) : Int := lnot (digitalRead pin).toInt

theorem sensed_cases (digitalRead : Nat → Level) (pin : Nat) :
    (digitalRead pin = .low ∧ sensed digitalRead pin = 1) ∨
      (digitalRead pin = .high ∧ sensed digitalRead pin = 0) := by
  cases h : digitalRead pin <;> simp [sensed, h, Level.toInt, lnot]

/-- Changed or not, the value kept is the one just read. -/
@[simp] theorem readPin_fst (digitalRead : Nat → Level) (pin : Nat) (lastVal : Int) (desc : String) :
    (readPin digitalRead pin lastVal desc).1 = sensed digitalRead pin := by
  simp only [readPin, sensed]
  split
  · rfl
  · rename_i h
    exact (not_not.mp h).symm

/-- Reading a sensor drives no pin. -/
@[simp] theorem drive_readPin (out : Nat) (level : Level) (digitalRead : Nat → Level) (pin : Nat)
    (lastVal : Int) (desc : String) :
    (readPin digitalRead pin lastVal desc).2.foldl (drive out) level = level := by
  simp only [readPin]
  split <;> rfl

theorem readSensors_fst (digitalRead : Nat → Level) (s : State) :
    (readSensors digitalRead s).1 =
      let pump1 := switchPump1 (sensed digitalRead sensorLow1) (sensed digitalRead sensorHigh1)
        (sensed digitalRead sensorKill1) s.pumpState1
      let pump2 := switchPump2 (sensed digitalRead sensorLow2) (sensed digitalRead sensorHigh2)
        (sensed digitalRead sensorKill2) s.pumpState2
      {s with
        lastLow1 := sensed digitalRead sensorLow1
        lastHigh1 := sensed digitalRead sensorHigh1
        lastKill1 := sensed digitalRead sensorKill1
        lastLow2 := sensed digitalRead sensorLow2
        lastHigh2 := sensed digitalRead sensorHigh2
        lastKill2 := sensed digitalRead sensorKill2
        pumpState1 := pump1, pumpState2 := pump2, ledState := land pump1 pump2} := by
  simp only [readSensors, readPin_fst]

/-- The sensors report, then the LED and the relays are written from the new state. -/
theorem drive_readSensors (pin : Nat) (level : Level) (digitalRead : Nat → Level) (s : State) :
    (readSensors digitalRead s).2.foldl (drive pin) level =
      [.digitalWrite relayCtrl1 (.ofInt (readSensors digitalRead s).1.pumpState1),
        .digitalWrite relayCtrl2 (.ofInt (readSensors digitalRead s).1.pumpState2)].foldl (drive pin)
        ((writeLed s.ledState (readSensors digitalRead s).1.ledState).foldl (drive pin) level) := by
  simp only [readSensors, List.foldl_append, drive_readPin]

theorem drive_writeLed (pin : Nat) (hpin : pin ≠ led) (level : Level) (prev now : Int) :
    (writeLed prev now).foldl (drive pin) level = level := by
  unfold writeLed
  split
  · simp [drive, hpin.symm]
  · rfl

/-- A restart, the end of the lit phase, the end of the dark one, or nothing. -/
theorem handleBlink_cases (t : Int) (s : State) :
    (t ≠ s.blinkT ∧
      handleBlink t s = ({s with blinkT := t, blinkStep := 0}, [.digitalWrite led .high])) ∨
    (s.blinkStep = 0 ∧ handleBlink t s = ({s with blinkStep := 1}, [.digitalWrite led .low])) ∨
    (s.blinkStep = 1 ∧
      handleBlink t s = ({s with blinkStep := 2}, [.digitalWrite led (.ofInt s.ledState)])) ∨
    handleBlink t s = (s, []) := by
  unfold handleBlink
  split_ifs with hrestart hpause hstatus
  · refine .inl ⟨fun heq => ?_, rfl⟩
    rw [heq, Int.sub_self] at hrestart
    exact absurd hrestart (by decide)
  · exact .inr (.inl ⟨hpause.1, rfl⟩)
  · exact .inr (.inr (.inl ⟨hstatus.1, rfl⟩))
  · exact .inr (.inr (.inr rfl))

theorem handleDisplay_fst (t : BitVec 32) (s : State) :
    ∃ d, (handleDisplay t s).1 = {s with displayT := d} := by
  unfold handleDisplay
  split_ifs
  · exact ⟨t, rfl⟩
  · exact ⟨s.displayT, rfl⟩

end MakerSpace.PumpController
