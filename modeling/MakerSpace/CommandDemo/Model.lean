import MakerSpace.Arduino

/-! The command terminal, `arduino/positioning/command_demo/command_demo.ino`.

Characters are gathered into a command until Enter, and an LED blinks meanwhile. A
pass of `loop` takes one character at most. -/
namespace MakerSpace.CommandDemo
open Arduino Reactive

def blinkLedPin : Nat := 2

def blinkInterval : BitVec 32 := 2000

/-- The sketch's globals; `lastBlinkT` is a 32-bit `int`. -/
structure State where
  command : List Char := []
  lastBlinkT : BitVec 32 := 0
  deriving DecidableEq, Repr

def powerUp : State := {}

/-! ### Strings -/

/-- C's `isspace`. -/
def isspace (c : Char) : Bool :=
  c = ' ' || c = '\t' || c = '\n' || c = '\x0b' || c = '\x0c' || c = '\r'

/-- `String::trim`. -/
def trim (cmd : List Char) : List Char :=
  ((cmd.dropWhile isspace).reverse.dropWhile isspace).reverse

/-- `String::operator==` against a literal compares as C strings, up to a NUL. -/
def equals (cmd : List Char) (text : String) : Bool :=
  cmd.takeWhile (fun c => c ≠ '\x00') = text.toList

/-! ### The functions -/

def printPrompt : List Effect := [.print "> "]

def processCommand (command : List Char) : List Effect :=
  let cmd := trim command
  if equals cmd "help" then
    [.print "Available commands:", .println,
      .print "  help - Display this help message", .println,
      .print "  hello - Greet the user", .println,
      .print "  status - Show a simple status message", .println]
  else if equals cmd "hello" then [.print "Hello there!", .println]
  else if equals cmd "status" then [.print "System operational.", .println]
  else if cmd.length > 0 then [.print "Unknown command: ", .print (String.ofList cmd), .println]
  else []

def initBlink (millis : BitVec 32) (s : State) : State := {s with lastBlinkT := millis}

def setup (millis : BitVec 32) (s : State) : State × List Effect :=
  (initBlink millis s, [.print "Arduino Terminal Ready.", .println] ++ printPrompt)

/-- `blinkLed` is what `digitalRead` gives for the LED's own pin. The sum wraps, and
the comparison is signed. -/
def handleBlink (millis : BitVec 32) (blinkLed : Level) (s : State) : State × List Effect :=
  if (s.lastBlinkT + blinkInterval).toInt < millis.toInt then
    ({s with lastBlinkT := millis}, [.digitalWrite blinkLedPin (.ofInt (lnot blinkLed.toInt))])
  else
    (s, [])

def isEnter (c : Char) : Bool := c = '\n' || c = '\r'

/-- The part of `loop` that reads the serial line. -/
def receive (incoming : Option Char) (s : State) : State × List Effect :=
  match incoming with
  | none => (s, [])
  | some incomingChar =>
    if isEnter incomingChar then
      ({s with command := []}, processCommand s.command ++ printPrompt)
    else
      ({s with command := s.command ++ [incomingChar]}, [])

/-- What one pass of `loop` reads: the next character, if one has arrived, the clock,
and the LED's pin. -/
structure Inputs where
  incoming : Option Char
  millis : BitVec 32
  blinkLed : Level

def loop (i : Inputs) (s : State) : State × List Effect :=
  let a := receive i.incoming s
  let b := handleBlink i.millis i.blinkLed a.1
  (b.1, a.2 ++ b.2)

def terminal : Machine Inputs State Effect := ⟨loop⟩

/-! ### What each function does -/

theorem lastBlinkT_receive (incoming : Option Char) (s : State) :
    (receive incoming s).1.lastBlinkT = s.lastBlinkT := by
  unfold receive
  split
  · rfl
  · split_ifs <;> rfl

theorem command_handleBlink (millis : BitVec 32) (blinkLed : Level) (s : State) :
    (handleBlink millis blinkLed s).1.command = s.command := by
  unfold handleBlink
  split_ifs <;> rfl

theorem command_next (i : Inputs) (s : State) :
    (terminal.next i s).command = (receive i.incoming s).1.command :=
  command_handleBlink i.millis i.blinkLed (receive i.incoming s).1

/-- Blinking prints nothing. -/
theorem text_handleBlink (millis : BitVec 32) (blinkLed : Level) (s : State) :
    serialText (handleBlink millis blinkLed s).2 = [] := by
  unfold handleBlink
  split_ifs <;> rfl

theorem text_out (i : Inputs) (s : State) :
    serialText (terminal.out i s) = serialText (receive i.incoming s).2 := by
  show serialText ((loop i s).2) = _
  rw [loop, serialText_append, text_handleBlink, List.append_nil]

end MakerSpace.CommandDemo
