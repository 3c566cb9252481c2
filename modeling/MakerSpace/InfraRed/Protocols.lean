import MakerSpace.InfraRed.PulseDistance

/-! The pulse distance and pulse width protocols of the library: the
`PulseDistanceWidthProtocolConstants` of its `ir_*.hpp` files. -/
namespace MakerSpace.InfraRed

def boseWaveProtocolConstants : PulseDistanceWidthProtocolConstants :=
  ⟨.boseWave, 38, ⟨1014, 1468, 520, 1468, 520, 468⟩, protocolIsLsbFirst, 75, none⟩

def denonUnit : Nat := 260

def denonProtocolConstants : PulseDistanceWidthProtocolConstants :=
  ⟨.denon, 38, ⟨denonUnit, 3 * denonUnit, denonUnit, 7 * denonUnit, denonUnit, 3 * denonUnit⟩,
    protocolIsLsbFirst, 110, none⟩

def fastUnit : Nat := 526

def fastProtocolConstants : PulseDistanceWidthProtocolConstants :=
  ⟨.fast, 38, ⟨4 * fastUnit, 2 * fastUnit, fastUnit, 3 * fastUnit, fastUnit, fastUnit⟩,
    protocolIsLsbFirst, 50, none⟩

def jvcUnit : Nat := 526

def jvcProtocolConstants : PulseDistanceWidthProtocolConstants :=
  ⟨.jvc, 38, ⟨16 * jvcUnit, 8 * jvcUnit, jvcUnit, 3 * jvcUnit, jvcUnit, jvcUnit⟩,
    protocolIsLsbFirst, 65, none⟩

def kaseikyoUnit : Nat := 432

def kaseikyoProtocolConstants : PulseDistanceWidthProtocolConstants :=
  ⟨.kaseikyo, 37,
    ⟨8 * kaseikyoUnit, 4 * kaseikyoUnit, kaseikyoUnit, 3 * kaseikyoUnit, kaseikyoUnit, kaseikyoUnit⟩,
    protocolIsLsbFirst, 130, none⟩

def legoProtocolConstants : PulseDistanceWidthProtocolConstants :=
  ⟨.legoPf, 38, ⟨158, 1026, 158, 553, 158, 263⟩, protocolIsLsbFirst, 110, none⟩

def magiQuestUnit : Nat := 1150 / 4

def magiQuestProtocolConstants : PulseDistanceWidthProtocolConstants :=
  ⟨.magiQuest, 38,
    ⟨magiQuestUnit, 3 * magiQuestUnit, 2 * magiQuestUnit, 2 * magiQuestUnit, magiQuestUnit,
      3 * magiQuestUnit⟩,
    protocolIsMsbFirst ||| suppressStopBit, 110, none⟩

def dishProtocolConstants : PulseDistanceWidthProtocolConstants :=
  ⟨.unknown, 56, ⟨400, 6100, 400, 1700, 400, 2800⟩, protocolIsMsbFirst, 40, none⟩

def whynterProtocolConstants : PulseDistanceWidthProtocolConstants :=
  ⟨.whynter, 38, ⟨2850, 2850, 750, 2150, 750, 750⟩, protocolIsMsbFirst, 110, none⟩

def sonyUnit : Nat := 600

def sonyProtocolConstants : PulseDistanceWidthProtocolConstants :=
  ⟨.sony, 40, ⟨4 * sonyUnit, sonyUnit, 2 * sonyUnit, sonyUnit, sonyUnit, sonyUnit⟩,
    protocolIsLsbFirst, 45, none⟩

/-! ### Protocols with a repeat frame of their own -/

def necUnit : Nat := 560
def necHeaderMark : Nat := 16 * necUnit
def necHeaderSpace : Nat := 8 * necUnit
def necBitMark : Nat := necUnit
def necOneSpace : Nat := 3 * necUnit
def necZeroSpace : Nat := necUnit
def necRepeatHeaderSpace : Nat := 4 * necUnit

def sendNECSpecialRepeat : List IrOut :=
  [.enableIROut 38, .mark necHeaderMark, .space necRepeatHeaderSpace, .mark necBitMark]

def necProtocolConstants : PulseDistanceWidthProtocolConstants :=
  ⟨.nec, 38, ⟨necHeaderMark, necHeaderSpace, necBitMark, necOneSpace, necBitMark, necZeroSpace⟩,
    protocolIsLsbFirst, 110, some sendNECSpecialRepeat⟩

def nec2ProtocolConstants : PulseDistanceWidthProtocolConstants :=
  ⟨.nec2, 38, ⟨necHeaderMark, necHeaderSpace, necBitMark, necOneSpace, necBitMark, necZeroSpace⟩,
    protocolIsLsbFirst, 110, none⟩

def lgUnit : Nat := 500
def lg2HeaderMark : Nat := 19 * lgUnit
def lgRepeatHeaderSpace : Nat := 4 * lgUnit

def sendLG2SpecialRepeat : List IrOut :=
  [.enableIROut 38, .mark lg2HeaderMark, .space lgRepeatHeaderSpace, .mark lgUnit]

def lgProtocolConstants : PulseDistanceWidthProtocolConstants :=
  ⟨.lg, 38, ⟨18 * lgUnit, 4200, lgUnit, 1580, lgUnit, 550⟩, protocolIsMsbFirst, 110,
    some sendNECSpecialRepeat⟩

def lg2ProtocolConstants : PulseDistanceWidthProtocolConstants :=
  ⟨.lg2, 38, ⟨lg2HeaderMark, 6 * lgUnit, lgUnit, 1580, lgUnit, 550⟩, protocolIsMsbFirst, 110,
    some sendLG2SpecialRepeat⟩

def samsungUnit : Nat := 560

def sendSamsungLGSpecialRepeat : List IrOut :=
  [.enableIROut 38, .mark (8 * samsungUnit), .space (8 * samsungUnit), .mark samsungUnit,
    .space samsungUnit, .mark samsungUnit]

def samsungTiming : DistanceWidthTimingInfo :=
  ⟨8 * samsungUnit, 8 * samsungUnit, samsungUnit, 3 * samsungUnit, samsungUnit, samsungUnit⟩

def samsungProtocolConstants : PulseDistanceWidthProtocolConstants :=
  ⟨.samsung, 38, samsungTiming, protocolIsLsbFirst, 110, none⟩

def samsungLGProtocolConstants : PulseDistanceWidthProtocolConstants :=
  ⟨.samsungLg, 38, samsungTiming, protocolIsLsbFirst, 110, some sendSamsungLGSpecialRepeat⟩

def protocols : List PulseDistanceWidthProtocolConstants :=
  [boseWaveProtocolConstants, denonProtocolConstants, fastProtocolConstants, jvcProtocolConstants,
    kaseikyoProtocolConstants, legoProtocolConstants, magiQuestProtocolConstants, dishProtocolConstants,
    whynterProtocolConstants, sonyProtocolConstants, necProtocolConstants, nec2ProtocolConstants,
    lgProtocolConstants, lg2ProtocolConstants, samsungProtocolConstants, samsungLGProtocolConstants]

end MakerSpace.InfraRed
