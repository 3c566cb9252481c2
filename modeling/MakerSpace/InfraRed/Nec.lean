import MakerSpace.InfraRed.Protocols
import MakerSpace.InfraRed.Receiver
import Mathlib.Tactic.SplitIfs

/-! The NEC protocol and the main decoder, `ir_NEC.hpp` and `IRrecv::decode()`.

A data frame is a header and 32 bits, lowest first: an address and a command, each
eight bits and their complement or sixteen bits as they are. A key held down sends a
short repeat frame that carries no data. The decoders after `decodeNEC` are a parameter:
what the frame leaves in `decodedIRData` when NEC refuses it.

`necFields_compute_iff` says which addresses and commands survive the way through the
32 bits. -/
namespace MakerSpace.InfraRed

/-! ### Four bytes and a word -/

/-- `LongUnion`, from its bytes. -/
def longUnion (lowByte midLowByte midHighByte highByte : BitVec 8) : BitVec 32 :=
  lowByte.setWidth 32 ||| midLowByte.setWidth 32 <<< 8 ||| midHighByte.setWidth 32 <<< 16 |||
    highByte.setWidth 32 <<< 24

def lowByte (v : BitVec 32) : BitVec 8 := v.setWidth 8
def midLowByte (v : BitVec 32) : BitVec 8 := (v >>> 8).setWidth 8
def midHighByte (v : BitVec 32) : BitVec 8 := (v >>> 16).setWidth 8
def highByte (v : BitVec 32) : BitVec 8 := (v >>> 24).setWidth 8
def lowWord (v : BitVec 32) : BitVec 16 := v.setWidth 16
def highWord (v : BitVec 32) : BitVec 16 := (v >>> 16).setWidth 16

section Union
variable (low midLow midHigh high : BitVec 8)

theorem longUnion_bit (i : Nat) (hi : i < 32) :
    (longUnion low midLow midHigh high).getLsbD i =
      if i < 8 then low.getLsbD i
      else if i < 16 then midLow.getLsbD (i - 8)
      else if i < 24 then midHigh.getLsbD (i - 16)
      else high.getLsbD (i - 24) := by
  simp only [longUnion, BitVec.getLsbD_or, BitVec.getLsbD_shiftLeft, BitVec.getLsbD_setWidth]
  grind

@[simp] theorem lowByte_longUnion : lowByte (longUnion low midLow midHigh high) = low := by
  apply BitVec.eq_of_getLsbD_eq
  intro i hi
  rw [lowByte, BitVec.getLsbD_setWidth, longUnion_bit _ _ _ _ i (by omega), if_pos hi]
  simp [hi]

@[simp] theorem midLowByte_longUnion : midLowByte (longUnion low midLow midHigh high) = midLow := by
  apply BitVec.eq_of_getLsbD_eq
  intro i hi
  rw [midLowByte, BitVec.getLsbD_setWidth, BitVec.getLsbD_ushiftRight,
    longUnion_bit _ _ _ _ _ (by omega), if_neg (by omega), if_pos (by omega)]
  simp [hi]

@[simp] theorem midHighByte_longUnion : midHighByte (longUnion low midLow midHigh high) = midHigh := by
  apply BitVec.eq_of_getLsbD_eq
  intro i hi
  rw [midHighByte, BitVec.getLsbD_setWidth, BitVec.getLsbD_ushiftRight,
    longUnion_bit _ _ _ _ _ (by omega), if_neg (by omega), if_neg (by omega), if_pos (by omega)]
  simp [hi]

@[simp] theorem highByte_longUnion : highByte (longUnion low midLow midHigh high) = high := by
  apply BitVec.eq_of_getLsbD_eq
  intro i hi
  rw [highByte, BitVec.getLsbD_setWidth, BitVec.getLsbD_ushiftRight,
    longUnion_bit _ _ _ _ _ (by omega), if_neg (by omega), if_neg (by omega), if_neg (by omega)]
  simp [hi]

end Union

/-! ### Sending -/

def necBits : Nat := 32
def appleAddress : BitVec 16 := 0x87EE

/-- An address below 256 is sent with its complement. The command always is. -/
def computeNECRawDataAndChecksum (address command : BitVec 16) : BitVec 32 :=
  let command := command.setWidth 8
  if address &&& 0xFF00 = 0 then
    longUnion (address.setWidth 8) (~~~(address.setWidth 8)) command (~~~command)
  else
    longUnion (address.setWidth 8) ((address >>> 8).setWidth 8) command (~~~command)

def sendNECRaw (rawData : BitVec 32) (numberOfRepeats : BitVec 8) : List IrOut :=
  sendPulseDistanceWidth necProtocolConstants rawData necBits numberOfRepeats

def sendNEC (address command : BitVec 16) (numberOfRepeats : BitVec 8) : List IrOut :=
  sendNECRaw (computeNECRawDataAndChecksum address command) numberOfRepeats

/-! ### Decoding -/

def irdataFlagsEmpty : BitVec 8 := 0x00
def irdataFlagsIsRepeat : BitVec 8 := 0x01
def irdataFlagsIsProtocolWithDifferentRepeat : BitVec 8 := 0x20
def irdataFlagsWasOverflow : BitVec 8 := 0x40
def irdataFlagsIsLsbFirst : BitVec 8 := 0x00

def necRepeatPeriod : Nat := 110000
def necMinimalDuration : Nat := 49900
def necMaximumRepeatDistance : Nat := necRepeatPeriod - necMinimalDuration + 10000

def checkForRepeatSpaceTicksAndSetFlag (maximumRepeatSpaceTicks : Nat) (d : IRData) : IRData :=
  if d.initialGapTicks < maximumRepeatSpaceTicks then {d with flags := d.flags ||| irdataFlagsIsRepeat}
  else d

/-- What `decodeNEC` makes of 32 decoded bits. -/
def necFields (d : IRData) : IRData :=
  let value := d.decodedRawData
  let d := {d with command := (midHighByte value).setWidth 16}
  let d :=
    if lowWord value = appleAddress then
      {d with protocol := .apple, address := (highByte value).setWidth 16}
    else
      let address :=
        if lowByte value = ~~~(midLowByte value) then (lowByte value).setWidth 16 else lowWord value
      let d := {d with address := address}
      if midHighByte value = ~~~(highByte value) then {d with protocol := .nec}
      else {d with protocol := .onkyo, command := highWord value}
  let d := checkForRepeatSpaceTicksAndSetFlag (necMaximumRepeatDistance / microsPerTick)
    {d with numberOfBits := necBits}
  if d.flags &&& irdataFlagsIsRepeat ≠ 0 then
    {d with protocol := .nec2, flags := d.flags ||| irdataFlagsIsProtocolWithDifferentRepeat}
  else d

variable {n : Nat}

/-- The return value, and `decodedIRData` afterwards. A read outside the buffer has no
defined outcome. -/
def decodeNEC (r : IrReceiver n) : Option (Bool × IRData) :=
  let d := r.decodedIRData
  let refused := some (false, d)
  if d.rawlen ≠ 2 * necBits + 4 ∧ d.rawlen ≠ 4 then refused
  else
    r.irparams.rawbuf[1]?.bind fun headerMark =>
    if !matchMark headerMark.toNat necHeaderMark then refused
    else
      r.irparams.rawbuf[2]?.bind fun headerSpace =>
      if d.rawlen = 4 then
        if matchSpace headerSpace.toNat necRepeatHeaderSpace then
          r.irparams.rawbuf[3]?.bind fun bitMark =>
          if matchMark bitMark.toNat necBitMark then
            some (true, {d with
              flags := irdataFlagsIsRepeat ||| irdataFlagsIsLsbFirst, address := r.lastDecodedAddress
              command := r.lastDecodedCommand, protocol := r.lastDecodedProtocol})
          else refused
        else refused
      else if !matchSpace headerSpace.toNat necHeaderSpace then refused
      else
        (decodePulseDistanceWidthData necProtocolConstants r.irparams.rawbuf.toList necBits 3).map
          fun raw => (true, necFields {d with decodedRawData := raw})

def initDecodedIRData (r : IrReceiver n) : IrReceiver n :=
  let d := r.decodedIRData
  let r :=
    if r.irparams.overflowFlag then
      {r with decodedIRData := {d with flags := irdataFlagsWasOverflow}}
    else
      {r with
        decodedIRData := {d with flags := irdataFlagsEmpty}
        lastDecodedProtocol := d.protocol
        lastDecodedCommand := d.command
        lastDecodedAddress := d.address}
  {r with decodedIRData := {r.decodedIRData with
    protocol := .unknown, command := 0, address := 0, decodedRawData := 0, numberOfBits := 0}}

/-- The return value, and the receiver afterwards. `others` is what the decoders after
NEC leave in `decodedIRData`. -/
def decode (others : IrReceiver n → IRData) (r : IrReceiver n) : Option (Bool × IrReceiver n) :=
  if r.irparams.stateForISR ≠ .stop then some (false, r)
  else
    let r := initDecodedIRData r
    if r.decodedIRData.flags &&& irdataFlagsWasOverflow ≠ 0 then
      some (true, {r with decodedIRData := {r.decodedIRData with protocol := .unknown}})
    else
      (decodeNEC r).map fun result =>
        (true, {r with decodedIRData := if result.1 then result.2 else others r})

/-! ### Addresses and commands -/

theorem checkForRepeat_frame (ticks : Nat) (d : IRData) :
    checkForRepeatSpaceTicksAndSetFlag ticks d =
      {d with flags := (checkForRepeatSpaceTicksAndSetFlag ticks d).flags} := by
  unfold checkForRepeatSpaceTicksAndSetFlag
  split <;> rfl

theorem necFields_address (d : IRData) :
    (necFields d).address =
      if lowWord d.decodedRawData = appleAddress then (highByte d.decodedRawData).setWidth 16
      else if lowByte d.decodedRawData = ~~~(midLowByte d.decodedRawData) then
        (lowByte d.decodedRawData).setWidth 16
      else lowWord d.decodedRawData := by
  simp only [necFields]
  rw [checkForRepeat_frame]
  split_ifs <;> rfl

theorem necFields_command (d : IRData) :
    (necFields d).command =
      if lowWord d.decodedRawData = appleAddress ∨
          midHighByte d.decodedRawData = ~~~(highByte d.decodedRawData) then
        (midHighByte d.decodedRawData).setWidth 16
      else highWord d.decodedRawData := by
  simp only [necFields]
  rw [checkForRepeat_frame]
  split_ifs <;> simp_all

@[simp] theorem necFields_decodedRawData (d : IRData) :
    (necFields d).decodedRawData = d.decodedRawData := by
  simp only [necFields]
  rw [checkForRepeat_frame]
  split_ifs <;> rfl

theorem lowByte_eq (v : BitVec 32) : lowByte v = (lowWord v).setWidth 8 := by
  rw [lowByte, lowWord, BitVec.setWidth_setWidth_of_le _ (by decide)]

theorem midLowByte_eq (v : BitVec 32) : midLowByte v = (lowWord v >>> 8).setWidth 8 := by
  apply BitVec.eq_of_getLsbD_eq
  intro i hi
  simp [midLowByte, lowWord, hi, show 8 + i < 16 by omega]

/-- A word is its two bytes. -/
theorem lowWord_longUnion (address : BitVec 16) (midHigh high : BitVec 8) :
    lowWord (longUnion (address.setWidth 8) ((address >>> 8).setWidth 8) midHigh high) = address := by
  apply BitVec.eq_of_getLsbD_eq
  intro i hi
  rw [lowWord, BitVec.getLsbD_setWidth, longUnion_bit _ _ _ _ i (by omega)]
  split
  · next h => simp [hi, h]
  · simp [hi, show i - 8 < 8 by omega, show 8 + (i - 8) = i by omega]

theorem setWidth_byte_iff (a : BitVec 16) : (a.setWidth 8).setWidth 16 = a ↔ a.toNat < 256 := by
  rw [← BitVec.toNat_inj, BitVec.toNat_setWidth, BitVec.toNat_setWidth]
  omega

theorem and_ff00_iff (a : BitVec 16) : a &&& 0xFF00 = 0 ↔ a.toNat < 256 := by
  have hmask : ∀ i < 16, (0xFF00 : BitVec 16).getLsbD i = decide (8 ≤ i) := by decide
  rw [← setWidth_byte_iff]
  constructor
  · intro h
    apply BitVec.eq_of_getLsbD_eq
    intro i hi
    have hbit := congrArg (·.getLsbD i) h
    simp only [BitVec.getLsbD_and, hmask i hi] at hbit
    simp only [BitVec.getLsbD_setWidth, hi, decide_true, Bool.true_and]
    by_cases h8 : i < 8
    · simp [h8]
    · simp [show 8 ≤ i by omega] at hbit
      simp [h8, hbit]
  · intro h
    apply BitVec.eq_of_getLsbD_eq
    intro i hi
    rw [BitVec.getLsbD_and, hmask i hi, ← h]
    by_cases h8 : i < 8
    · simp [show ¬8 ≤ i by omega]
    · simp [h8]

/-- **Which addresses and commands survive**: a command of eight bits, and an address of
eight bits or one of sixteen that is neither Apple's nor a byte and its complement. -/
theorem necFields_compute_iff (address command : BitVec 16) (d : IRData) :
    ((necFields {d with decodedRawData := computeNECRawDataAndChecksum address command}).address =
        address ∧
      (necFields {d with decodedRawData := computeNECRawDataAndChecksum address command}).command =
        command) ↔
    command.toNat < 256 ∧ (address.toNat < 256 ∨
      address ≠ appleAddress ∧ address.setWidth 8 ≠ ~~~((address >>> 8).setWidth 8)) := by
  rw [necFields_address, necFields_command]
  by_cases h8 : address &&& 0xFF00 = 0
  · have happle : lowWord (longUnion (address.setWidth 8) (~~~(address.setWidth 8))
        (command.setWidth 8) (~~~(command.setWidth 8))) ≠ appleAddress := by
      intro h
      have hlow := lowByte_eq (longUnion (address.setWidth 8) (~~~(address.setWidth 8))
        (command.setWidth 8) (~~~(command.setWidth 8)))
      have hmid := midLowByte_eq (longUnion (address.setWidth 8) (~~~(address.setWidth 8))
        (command.setWidth 8) (~~~(command.setWidth 8)))
      rw [h, lowByte_longUnion] at hlow
      rw [h, midLowByte_longUnion, hlow] at hmid
      exact absurd hmid (by decide)
    simp only [computeNECRawDataAndChecksum, h8, if_true, happle, if_false, lowByte_longUnion,
      midLowByte_longUnion, midHighByte_longUnion, highByte_longUnion, BitVec.not_not, false_or,
      setWidth_byte_iff, (and_ff00_iff address).mp h8, true_or, and_true, true_and]
  · have hlong : ¬address.toNat < 256 := fun h => h8 ((and_ff00_iff address).mpr h)
    simp only [computeNECRawDataAndChecksum, h8, if_false, lowWord_longUnion, lowByte_longUnion,
      midLowByte_longUnion, midHighByte_longUnion, highByte_longUnion, BitVec.not_not, or_true, if_true,
      setWidth_byte_iff, hlong, false_or]
    rw [and_comm]
    refine and_congr_right fun _ => ?_
    by_cases happle : address = appleAddress
    · have hbyte : (~~~(command.setWidth 8)).setWidth 16 ≠ appleAddress := by
        intro h
        have hnat : (~~~(command.setWidth 8)).toNat % 2 ^ 16 = 0x87EE := by
          rw [← BitVec.toNat_setWidth, h]
          rfl
        have := (~~~(command.setWidth 8)).isLt
        omega
      rw [if_pos happle, happle]
      exact iff_of_false hbyte (fun h => h.1 rfl)
    · simp only [happle, if_false, ne_eq, not_false_eq_true, true_and]
      split_ifs with hcomplement
      · rw [setWidth_byte_iff]
        exact iff_of_false hlong (fun h => h hcomplement)
      · exact iff_of_true rfl hcomplement

end MakerSpace.InfraRed
