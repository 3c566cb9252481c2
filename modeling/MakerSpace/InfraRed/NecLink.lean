import MakerSpace.InfraRed.Nec
import MakerSpace.InfraRed.Link

/-! NEC frames as they are received.

`decode_data` and `decode_repeat` are what `decode()` makes of a captured frame whose
runs are near those of a data frame, or of the repeat frame: the one gives the word that
was sent, the other keeps the address, command and protocol of the frame before and
gives no data. `overrun_decoded`: nor does a frame that the buffer was too short for. -/
namespace MakerSpace.InfraRed
open Codec.Wave

variable {n : Nat}

/-- What a remote sends: the 32 bits of a key, or the frame of a key held down. -/
inductive Frame where
  | data (value : BitVec 32)
  | again
  deriving DecidableEq, Repr

def Frame.outs : Frame → List IrOut
  | .data value => sendFrame necProtocolConstants value necBits
  | .again => sendNECSpecialRepeat

/-- How far off an interval may be, in microseconds. -/
def Frame.tolerance : Frame → Nat
  | .data _ => 420
  | .again => 160

/-- The runs are those of the frame, as far as can be told. -/
def Frame.Received (f : Frame) (runs : List Nat) : Prop :=
  List.Forall₂ (Near f.tolerance) (durations f.outs) runs

theorem nec_legible : Legible 420 necProtocolConstants := by
  constructor <;> first | decide | (simp only [Clean, Accepts, Rejects]; decide)

/-! ### The shape of a frame -/

theorem durations_data_length (value : BitVec 32) :
    (durations (Frame.data value).outs).length = 2 * necBits + 3 := by
  rw [Frame.outs, sendFrame_eq necProtocolConstants value (by decide), durations_append,
    durations_append, durations_flatMap, List.length_append, List.length_append,
    durations_bits_length, frameBits, Codec.BitStream.bitsOf_length]
  rfl

theorem Frame.clean : (f : Frame) → Clean f.tolerance true (durations f.outs)
  | .data value => clean_frame nec_legible value (by decide)
  | .again => by
    show Clean 160 true [necHeaderMark, necRepeatHeaderSpace, necBitMark]
    simp only [Clean]
    decide

/-- The runs of a frame, its stop bit included. -/
def Frame.runCount : Frame → Nat
  | .data _ => 2 * necBits + 3
  | .again => 3

theorem Frame.Received.length {f : Frame} {runs : List Nat} (h : f.Received runs) :
    runs.length = f.runCount := by
  rw [← h.length_eq]
  cases f with
  | data value => exact durations_data_length value
  | again => rfl

theorem Frame.Received.odd {f : Frame} {runs : List Nat} (h : f.Received runs) :
    runs.length % 2 = 1 := by
  rw [h.length]
  cases f <;> simp [Frame.runCount, necBits]

theorem Frame.Received.framed {f : Frame} {runs : List Nat} (h : f.Received runs) :
    Framed true runs ∧ ∀ k ∈ runs, k < 256 := framed_of_clean f.clean h

theorem Frame.Received.snug {f : Frame} {runs : List Nat} (h : f.Received runs) : Snug true runs :=
  snug_of_clean f.clean h

/-! ### What is read of it -/

/-- Entries of the buffer are the recorded ones, one place on. -/
theorem IrParams.rawbuf_get (p : IrParams n) {i : Nat} (hi : i < p.recorded.length) :
    p.rawbuf[i + 1]? = p.recorded[i]? := by
  obtain ⟨first, more, hbuf⟩ := p.rawbuf_eq (by intro h; rw [h] at hi; simp at hi)
  have hget : p.rawbuf.toList[i + 1]? = p.recorded[i]? := by
    rw [hbuf, List.getElem?_cons_succ, List.getElem?_append_left hi]
  rw [← hget, Vector.getElem?_toList]

theorem Captured.rawlen {g : Nat} {s r : IrReceiver n} {runs : List Nat} (h : Captured g s runs r) :
    r.decodedIRData.rawlen = runs.length + 1 :=
  congrArg (fun x : IrReceiver n => x.decodedIRData.rawlen) h.decoder

theorem Captured.rawbuf {g : Nat} {s r : IrReceiver n} {runs : List Nat} (h : Captured g s runs r)
    {i k : Nat} (hk : runs[i]? = some k) : r.irparams.rawbuf[i + 1]? = some (ticksOf k) := by
  have hi : i < runs.length := (List.getElem?_eq_some_iff.mp hk).1
  rw [IrParams.rawbuf_get _ (by rw [h.recorded, List.length_map]; exact hi), h.recorded,
    List.getElem?_map, hk, Option.map_some]

/-- What `initDecodedIRData` leaves when there was no overflow. -/
def cleared (r : IrReceiver n) : IrReceiver n :=
  {r with
    decodedIRData := {r.decodedIRData with
      protocol := .unknown, command := 0, address := 0, decodedRawData := 0, numberOfBits := 0
      flags := irdataFlagsEmpty}
    lastDecodedProtocol := r.decodedIRData.protocol
    lastDecodedCommand := r.decodedIRData.command
    lastDecodedAddress := r.decodedIRData.address}

/-- A captured frame is decoded by NEC when NEC accepts it. -/
theorem decode_captured (others : IrReceiver n → IRData) {g : Nat} {s r : IrReceiver n}
    {runs : List Nat} (h : Captured g s runs r) {d : IRData}
    (hnec : decodeNEC (cleared r) = some (true, d)) :
    decode others r = some (true, {cleared r with decodedIRData := d}) := by
  have hinit : initDecodedIRData r = cleared r := by
    simp only [initDecodedIRData, h.overflow, Bool.false_eq_true, if_false, cleared]
  have hflags : ¬(cleared r).decodedIRData.flags &&& irdataFlagsWasOverflow ≠ 0 := by
    show ¬irdataFlagsEmpty &&& irdataFlagsWasOverflow ≠ 0
    decide
  rw [decode, if_neg (fun hne => hne h.state)]
  simp only [hinit, if_neg hflags, hnec, Option.map_some, if_true]

/-- **A data frame gives the word that was sent.** -/
theorem decode_data (others : IrReceiver n → IRData) {g : Nat} {s r : IrReceiver n} {runs : List Nat}
    (h : Captured g s runs r) {value : BitVec 32} (hruns : (Frame.data value).Received runs) :
    decode others r = some (true, {cleared r with
      decodedIRData := necFields {(cleared r).decodedIRData with decodedRawData := value}}) := by
  apply decode_captured others h
  have hlen := hruns.length
  have h256 := hruns.framed.2
  have hraw := @decode_near n 420 necProtocolConstants nec_legible value necBits (by decide) runs hruns
    (cleared r).irparams (h.recorded.trans (by rw [captureCount, if_pos hruns.odd, List.take_length]))
  rw [Frame.Received, Frame.outs, Frame.tolerance, sendFrame_eq necProtocolConstants value (by decide)]
    at hruns
  cases hruns with
  | @cons _ mark _ _ hmark hruns =>
    cases hruns with
    | @cons _ space _ rest hspace hruns =>
      have hmatch : matchMark (ticksOf mark).toNat necHeaderMark = true := by
        rw [ticksOf_toNat (h256 mark (by simp)), matchMark_iff]
        exact accepts_near ⟨by decide, by decide⟩ hmark
      have hmatch' : matchSpace (ticksOf space).toNat necHeaderSpace = true := by
        rw [ticksOf_toNat (h256 space (by simp)), matchSpace_iff]
        exact accepts_near ⟨by decide, by decide⟩ hspace
      have hrawlen : (cleared r).decodedIRData.rawlen = 2 * necBits + 4 := by
        show r.decodedIRData.rawlen = _
        rw [h.rawlen, hlen]
        rfl
      have hentry : (cleared r).irparams.rawbuf[1]? = some (ticksOf mark) := h.rawbuf rfl
      have hentry' : (cleared r).irparams.rawbuf[2]? = some (ticksOf space) := h.rawbuf rfl
      simp only [decodeNEC, hrawlen, hentry, hentry', Option.bind_some, hmatch, hmatch', hraw,
        Option.map_some]
      rfl

/-- **A repeat frame** keeps protocol, address and command, and gives no data. -/
theorem decode_repeat (others : IrReceiver n → IRData) {g : Nat} {s r : IrReceiver n}
    {runs : List Nat} (h : Captured g s runs r) (hruns : Frame.again.Received runs) :
    decode others r = some (true, {cleared r with decodedIRData := {r.decodedIRData with
      flags := irdataFlagsIsRepeat, decodedRawData := 0, numberOfBits := 0}}) := by
  apply decode_captured others h
  have h256 := hruns.framed.2
  have hrawlen : (cleared r).decodedIRData.rawlen = 4 := by
    show r.decodedIRData.rawlen = _
    rw [h.rawlen, hruns.length]
    rfl
  have hnear : List.Forall₂ (Near 160) [necHeaderMark, necRepeatHeaderSpace, necBitMark] runs := hruns
  cases hnear with
  | @cons _ mark _ _ hmark hnear =>
    cases hnear with
    | @cons _ space _ _ hspace hnear =>
      cases hnear with
      | @cons _ bit _ rest hbit hnear =>
        have hmatch : matchMark (ticksOf mark).toNat necHeaderMark = true := by
          rw [ticksOf_toNat (h256 mark (by simp)), matchMark_iff]
          exact accepts_near ⟨by decide, by decide⟩ hmark
        have hmatch' : matchSpace (ticksOf space).toNat necRepeatHeaderSpace = true := by
          rw [ticksOf_toNat (h256 space (by simp)), matchSpace_iff]
          exact accepts_near ⟨by decide, by decide⟩ hspace
        have hmatch'' : matchMark (ticksOf bit).toNat necBitMark = true := by
          rw [ticksOf_toNat (h256 bit (by simp)), matchMark_iff]
          exact accepts_near ⟨by decide, by decide⟩ hbit
        have hentry : (cleared r).irparams.rawbuf[1]? = some (ticksOf mark) := h.rawbuf rfl
        have hentry' : (cleared r).irparams.rawbuf[2]? = some (ticksOf space) := h.rawbuf rfl
        have hentry'' : (cleared r).irparams.rawbuf[3]? = some (ticksOf bit) := h.rawbuf rfl
        have hlen : ¬((cleared r).decodedIRData.rawlen ≠ 2 * necBits + 4 ∧
            (cleared r).decodedIRData.rawlen ≠ 4) := fun hne => hne.2 hrawlen
        simp only [decodeNEC, if_neg hlen, if_pos hrawlen, hentry, hentry', hentry'', Option.bind_some,
          hmatch, hmatch', hmatch'', Bool.not_true, Bool.false_eq_true, if_false, if_true]
        rfl

/-- A frame that was given up gives nothing but the flag that says so. -/
theorem decode_overrun (others : IrReceiver n → IRData) {s r : IrReceiver n} (h : Overrun s r) :
    ∃ r', decode others r = some (true, r') ∧ r'.decodedIRData = {s.decodedIRData with
      protocol := .unknown, address := 0, command := 0, decodedRawData := 0, numberOfBits := 0
      flags := irdataFlagsWasOverflow} := by
  have hdata : r.decodedIRData = s.decodedIRData :=
    (congrArg IrReceiver.decodedIRData h.decoder :)
  have hflags : irdataFlagsWasOverflow &&& irdataFlagsWasOverflow ≠ 0 := by decide
  rw [decode, if_neg (fun hne => hne h.state)]
  simp only [initDecodedIRData, h.overflow, if_true, if_pos hflags, ← hdata]
  exact ⟨_, rfl, rfl⟩

/-- **A frame that outgrows the buffer is given up whole**: after a gap, the receiver stops
with its overflow flag set, whatever follows, and `decode` gives no data. -/
theorem overrun_decoded (others : IrReceiver n → IRData) {r : IrReceiver n} {c : Nat}
    {runs : List Nat} (hn : n % 2 = 0) (hpos : 0 < n) (hstate : r.irparams.stateForISR = .idle)
    (hticks : r.irparams.tickCounterForISR = min c uint16Max) (hframed : Framed true runs)
    (hlong : n < runs.length) (g : Nat) (hgap : recordGapTicks ≤ c + g) (later : List Bool) :
    ∃ r' r'', listen (List.replicate g false ++ wave true runs ++ later) r = some r' ∧
      r'.irparams.stateForISR = .stop ∧ r'.irparams.overflowFlag = true ∧
      decode others r' = some (true, r'') ∧ r''.decodedIRData = {r.decodedIRData with
        protocol := .unknown, address := 0, command := 0, decodedRawData := 0, numberOfBits := 0
        flags := irdataFlagsWasOverflow} := by
  obtain ⟨r', hlisten, h⟩ := listen_overrun hn hpos hstate hticks hframed hlong g hgap later
  obtain ⟨r'', hdecode, hdata⟩ := decode_overrun others h
  exact ⟨r', r'', hlisten, h.state, h.overflow, hdecode, hdata⟩

/-- Three marks, for a buffer of four entries. -/
theorem overrun_decoded_short :
    ∃ r' r'', listen (List.replicate 160 false ++ wave true [3, 2, 1, 1, 4] ++ [false]) (powerUp 4) =
        some r' ∧ r'.irparams.stateForISR = .stop ∧ r'.irparams.overflowFlag = true ∧
      decode (fun r => r.decodedIRData) r' = some (true, r'') ∧
      r''.decodedIRData = {({} : IRData) with
        protocol := .unknown, address := 0, command := 0, decodedRawData := 0, numberOfBits := 0
        flags := irdataFlagsWasOverflow} :=
  overrun_decoded _ (by decide) (by decide) rfl (rfl : _ = min 0 uint16Max)
    (by simp [Framed]; decide) (by decide) 160 (by decide) [false]

theorem sendNEC_zero (address command : BitVec 16) :
    sendNEC address command 0 = .enableIROut necProtocolConstants.frequencyKHz ::
      (Frame.data (computeNECRawDataAndChecksum address command)).outs := by
  simp [sendNEC, sendNECRaw, sendPulseDistanceWidth, sendCommands, Frame.outs]

/-- **Which addresses and commands reach the sketch**: sent as one NEC frame, every
interval off by at most 420 µs, they are decoded as they were exactly when the 32 bits
keep them apart. -/
theorem nec_roundtrip_iff (others : IrReceiver n → IRData) (address command : BitVec 16)
    {received : List Nat}
    (hjitter : List.Forall₂ (fun us got => us ≤ got + 420 ∧ got ≤ us + 420)
      (durations (sendNEC address command 0)) received)
    {phase : Nat} (hphase : phase < microsPerTick) {r : IrReceiver n} {k : Nat}
    (hidle : r.irparams.stateForISR = .idle)
    (hticks : r.irparams.tickCounterForISR = min k uint16Max) (hgap : recordGapTicks ≤ k)
    (hfits : 2 * necBits + 3 < n) {quiet : Nat} (hquiet : recordGapTicks + 2 ≤ quiet) :
    ∃ r' r'', listen (samples microsPerTick phase true received ++ List.replicate quiet false) r =
        some r' ∧ decode others r' = some (true, r'') ∧
      (r''.decodedIRData.address = address ∧ r''.decodedIRData.command = command ↔
        command.toNat < 256 ∧ (address.toNat < 256 ∨
          address ≠ appleAddress ∧ address.setWidth 8 ≠ ~~~((address >>> 8).setWidth 8))) := by
  have houts : durations (sendNEC address command 0) =
      durations (Frame.data (computeNECRawDataAndChecksum address command)).outs := by
    rw [sendNEC_zero]
    rfl
  rw [houts] at hjitter
  have hreceived : (Frame.data (computeNECRawDataAndChecksum address command)).Received
      (counts microsPerTick phase received) := near_of_jitter hphase hjitter
  have hne : counts microsPerTick phase received ≠ [] := by
    intro h0
    have hodd := hreceived.odd
    rw [h0] at hodd
    simp at hodd
  obtain ⟨r', hlisten, hcaptured⟩ := listen_frame hidle hticks hgap hreceived.framed.1 hne
    (by rw [hreceived.length]; exact hfits) hquiet
  rw [captureCount, if_pos hreceived.odd, List.take_length] at hcaptured
  rw [samples_eq_wave hphase]
  exact ⟨r', _, hlisten, decode_data others hcaptured hreceived, necFields_compute_iff address command _⟩

/-- An address of sixteen bits, and every interval late. -/
theorem nec_roundtrip_iff_wide :
    ∃ r' r'', listen (samples microsPerTick 7 true ((durations (sendNEC 0x1234 0x46 0)).map (· + 60)) ++
        List.replicate 200 false) (rested 200) = some r' ∧
      decode (fun r => r.decodedIRData) r' = some (true, r'') ∧
      (r''.decodedIRData.address = 0x1234 ∧ r''.decodedIRData.command = 0x46 ↔
        (0x46 : BitVec 16).toNat < 256 ∧ ((0x1234 : BitVec 16).toNat < 256 ∨
          (0x1234 : BitVec 16) ≠ appleAddress ∧
            (0x1234 : BitVec 16).setWidth 8 ≠ ~~~(((0x1234 : BitVec 16) >>> 8).setWidth 8))) :=
  nec_roundtrip_iff _ 0x1234 0x46
    (List.forall₂_map_right_iff.mpr (List.forall₂_same.mpr fun us _ => by omega))
    (by decide) rfl rfl (Nat.le_refl _) (by decide) (by decide)

end MakerSpace.InfraRed
