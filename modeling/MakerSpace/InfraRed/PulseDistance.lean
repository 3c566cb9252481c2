import MakerSpace.InfraRed.Receiver
import MakerSpace.Codec.BitStream

/-! Pulse distance and pulse width codes, `IRSend.hpp` and `IRReceive.hpp`.

A bit is a mark and a space, and one of the two tells a 1 from a 0. The sender
(`sendPulseDistanceWidthData`) writes the bits of a word as such pairs; the decoder
(`decodePulseDistanceWidthData`) looks at one entry of each pair and asks only whether
it is that of a 1.

`decodeBits_reads`: the decoder gathers the bits its entries are read as.
`sendBits_eq`: the sender writes the bits of the word. -/
namespace MakerSpace.InfraRed
open Codec.BitStream

/-! ### Matching -/

def markExcessMicros : Nat := 20

def ticksLow (us : Nat) : Nat := us / 67
def ticksHigh (us : Nat) : Nat := us / 40 + 1

/-- Marks are received longer than they are sent. The sum is a `uint16_t`. -/
def matchMark (measuredTicks matchValueMicros : Nat) : Bool :=
  let us := (matchValueMicros + markExcessMicros) % 0x10000
  ticksLow us ≤ measuredTicks && measuredTicks ≤ ticksHigh us

/-- Spaces are received shorter than they are sent. The difference is a `uint16_t`. -/
def matchSpace (measuredTicks matchValueMicros : Nat) : Bool :=
  let us := (matchValueMicros + 0x10000 - markExcessMicros) % 0x10000
  ticksLow us ≤ measuredTicks && measuredTicks ≤ ticksHigh us

/-! ### Protocols -/

structure DistanceWidthTimingInfo where
  headerMarkMicros : Nat
  headerSpaceMicros : Nat
  oneMarkMicros : Nat
  oneSpaceMicros : Nat
  zeroMarkMicros : Nat
  zeroSpaceMicros : Nat
  deriving DecidableEq, Repr

/-- What the sender does with its output, in order. -/
inductive IrOut where
  | enableIROut (frequencyKHz : Nat)
  | mark (micros : Nat)
  | space (micros : Nat)
  /-- Waits for what is left of the period since the frame began. -/
  | delayToPeriod (millis : Nat)
  deriving DecidableEq, Repr

structure PulseDistanceWidthProtocolConstants where
  protocolIndex : DecodeType
  frequencyKHz : Nat
  distanceWidthTimingInfo : DistanceWidthTimingInfo
  flags : BitVec 8
  repeatPeriodMillis : Nat
  specialSendRepeatFunction : Option (List IrOut)
  deriving Repr

def protocolIsMsbFirst : BitVec 8 := 0x80
def protocolIsLsbFirst : BitVec 8 := 0x00
def suppressStopBit : BitVec 8 := 0x20

/-! ### Sending -/

/-- A 1 and a 0 on the line. -/
def DistanceWidthTimingInfo.bit (t : DistanceWidthTimingInfo) (one : Bool) : List IrOut :=
  if one then [.mark t.oneMarkMicros, .space t.oneSpaceMicros]
  else [.mark t.zeroMarkMicros, .space t.zeroSpaceMicros]

/-- The loop over the bits. -/
def sendBits (t : DistanceWidthTimingInfo) (msbFirst : Bool) :
    Nat → BitVec 32 → BitVec 32 → List IrOut
  | 0, _, _ => []
  | i + 1, data, mask =>
    t.bit ((msbFirst && data &&& mask != 0) || (!msbFirst && data &&& 1 != 0)) ++
      sendBits t msbFirst i (if msbFirst then data else data >>> 1) (if msbFirst then mask >>> 1 else mask)

/-- A stop bit follows unless it is suppressed or both spaces are about as long. -/
def hasStopBit (t : DistanceWidthTimingInfo) (flags : BitVec 8) : Bool :=
  flags &&& suppressStopBit == 0 &&
    ((t.oneSpaceMicros : Int) - t.zeroSpaceMicros).natAbs > t.oneSpaceMicros / 4

def sendPulseDistanceWidthData (c : PulseDistanceWidthProtocolConstants) (data : BitVec 32)
    (numberOfBits : Nat) : List IrOut :=
  let t := c.distanceWidthTimingInfo
  sendBits t (c.flags &&& protocolIsMsbFirst != 0) numberOfBits data (1 <<< (numberOfBits - 1)) ++
    if hasStopBit t c.flags then [.mark t.oneMarkMicros] else []

def sendFrame (c : PulseDistanceWidthProtocolConstants) (data : BitVec 32) (numberOfBits : Nat) :
    List IrOut :=
  [.mark c.distanceWidthTimingInfo.headerMarkMicros, .space c.distanceWidthTimingInfo.headerSpaceMicros] ++
    sendPulseDistanceWidthData c data numberOfBits

/-- The `while` loop, with `left` of `total` commands to go. -/
def sendCommands (c : PulseDistanceWidthProtocolConstants) (data : BitVec 32)
    (numberOfBits total : Nat) : Nat → List IrOut
  | 0 => []
  | left + 1 =>
    -- a special repeat, if there is one and this is not the first command
    (if left + 1 < total then c.specialSendRepeatFunction.getD (sendFrame c data numberOfBits)
      else sendFrame c data numberOfBits) ++
    (if 0 < left then [.delayToPeriod c.repeatPeriodMillis] else []) ++
    sendCommands c data numberOfBits total left

/-- The number of repeats is an `int_fast8_t`, eight bits on AVR. -/
def sendPulseDistanceWidth (c : PulseDistanceWidthProtocolConstants) (data : BitVec 32)
    (numberOfBits : Nat) (numberOfRepeats : BitVec 8) : List IrOut :=
  if numberOfRepeats.toInt < 0 then
    match c.specialSendRepeatFunction with
    | some special => special
    | none => .enableIROut c.frequencyKHz :: sendCommands c data numberOfBits 1 1
  else
    .enableIROut c.frequencyKHz ::
      sendCommands c data numberOfBits (numberOfRepeats.toNat + 1) (numberOfRepeats.toNat + 1)

/-! ### Decoding -/

/-- The entry of the pair that is checked, and whether it is that of a 1. A read outside
the buffer has no defined outcome. -/
def readBit (oneMarkMicros oneSpaceMicros zeroMarkMicros : Nat) (ptr : List (BitVec 8)) : Option Bool :=
  if oneMarkMicros = zeroMarkMicros then ptr[1]?.map fun ticks => matchSpace ticks.toNat oneSpaceMicros
  else ptr[0]?.map fun ticks => matchMark ticks.toNat oneMarkMicros

/-- The loop over the bits; `ptr` is what the buffer holds from the pointer on. -/
def decodeBits (oneMarkMicros oneSpaceMicros zeroMarkMicros : Nat) (msbFirst : Bool) :
    Nat → List (BitVec 8) → BitVec 32 → BitVec 32 → Option (BitVec 32)
  | 0, _, data, _ => some data
  | i + 1, ptr, data, mask => do
    let bit ← readBit oneMarkMicros oneSpaceMicros zeroMarkMicros ptr
    let data := if msbFirst then data <<< 1 else data
    let data := if bit then (if msbFirst then data ||| 1 else data ||| mask) else data
    decodeBits oneMarkMicros oneSpaceMicros zeroMarkMicros msbFirst i (ptr.drop 2) data (mask <<< 1)

/-- The decoded word; it never fails but on a read outside the buffer. The bit order is
any flag at all, as the flags are converted to a `bool`. -/
def decodePulseDistanceWidthData (c : PulseDistanceWidthProtocolConstants) (rawbuf : List (BitVec 8))
    (numberOfBits startOffset : Nat) : Option (BitVec 32) :=
  let t := c.distanceWidthTimingInfo
  decodeBits t.oneMarkMicros t.oneSpaceMicros t.zeroMarkMicros (c.flags != 0) numberOfBits
    (rawbuf.drop startOffset) 0 1

/-! ### The bits on both sides -/

/-- The entries from the pointer on are read as the bits. -/
def Reads (oneMarkMicros oneSpaceMicros zeroMarkMicros : Nat) : List Bool → List (BitVec 8) → Prop
  | [], _ => True
  | bit :: rest, ptr => readBit oneMarkMicros oneSpaceMicros zeroMarkMicros ptr = some bit ∧
    Reads oneMarkMicros oneSpaceMicros zeroMarkMicros rest (ptr.drop 2)

theorem decodeBits_reads {oneMark oneSpace zeroMark : Nat} {bits : List Bool} {ptr : List (BitVec 8)}
    (h : Reads oneMark oneSpace zeroMark bits ptr) (msbFirst : Bool) (data mask : BitVec 32) :
    decodeBits oneMark oneSpace zeroMark msbFirst bits.length ptr data mask =
      some (gather msbFirst bits data mask) := by
  induction bits generalizing ptr data mask with
  | nil => rfl
  | cons bit rest ih =>
    obtain ⟨hbit, hrest⟩ := h
    rw [List.length_cons, decodeBits, hbit]
    exact ih hrest _ _

/-- The bits are written in the order the mask or the shift takes them. -/
theorem sendBits_eq (t : DistanceWidthTimingInfo) (msbFirst : Bool) (count : Nat)
    (data mask : BitVec 32) :
    sendBits t msbFirst count data mask = (shiftOut msbFirst count data mask).flatMap t.bit := by
  induction count generalizing data mask with
  | zero => rfl
  | succ count ih => rw [sendBits, shiftOut, ih, List.flatMap_cons]

/-- What is sent of a word: its bits in the protocol's order, and the stop bit. -/
theorem sendPulseDistanceWidthData_eq (c : PulseDistanceWidthProtocolConstants) (data : BitVec 32)
    {numberOfBits : Nat} (h : numberOfBits ≤ 32) :
    sendPulseDistanceWidthData c data numberOfBits =
      (bitsOf (c.flags &&& protocolIsMsbFirst != 0) numberOfBits data).flatMap
        c.distanceWidthTimingInfo.bit ++
      if hasStopBit c.distanceWidthTimingInfo c.flags then
        [.mark c.distanceWidthTimingInfo.oneMarkMicros] else [] := by
  rw [sendPulseDistanceWidthData, sendBits_eq]
  cases c.flags &&& protocolIsMsbFirst != 0 with
  | false => rw [shiftOut_lsb]
  | true =>
    rw [← shiftOut_msb h data]
    rfl

end MakerSpace.InfraRed
