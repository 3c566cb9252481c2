import MakerSpace.Ranging.RangeTx
import MakerSpace.Ranging.RangeRx
import MakerSpace.Reactive.Rollover
import Mathlib.Tactic.Ring

/-! Two-way ranging, from the responder's arithmetic to the initiator's.

Both radios count on 40 bits that wrap. The responder programs its response on 32
bits of its own counter and stamps it with 32 bits of two counters; the initiator
compares those with 32 bits of two of its own. `two_way_exact`: all of this is exact
wherever the counters stand, and what is left is twice the time of flight. -/
namespace MakerSpace.Ranging
open Codec LittleEndian Reactive Rollover

/-! ### The air -/

/-- The counter at which the radio sends a frame delayed to `starttime`: it ignores
bit 0, and the time counts in units of 256 ticks. -/
def sendTime (starttime : BitVec 32) : BitVec 40 :=
  (starttime &&& 0xFFFFFFFE#32).setWidth 40 <<< 8

/-- The counter at which the frame leaves the antenna. -/
def departure (starttime : BitVec 32) : BitVec 40 := sendTime starttime + BitVec.ofNat 40 txAntDly

/-- A message on the air: the radio puts its checksum in place of the last two bytes. -/
def onAir (msg : Message) (crc₁ crc₂ : BitVec 8) : Frame where
  bytes := msg.toList.take 18 ++ [crc₁, crc₂]
  fits := by simp

theorem onAir_get (msg : Message) (crc₁ crc₂ : BitVec 8) {k : Nat} (hk : k < 18) :
    (onAir msg crc₁ crc₂).bytes[k]? = some msg[k] := by
  rw [onAir, List.getElem?_append_left (by simpa using hk), List.getElem?_take_of_lt hk,
    Vector.getElem?_toList, Vector.getElem?_eq_getElem]

/-! ### The responder -/

/-- The delay of the response, in ticks. -/
def responseDelay : Nat := RangeTx.pollRxToRespTxDlyUus * uusToDwtTime

/-- From the reception of a poll to the departure of the response. -/
def interval (pollRxTs : Nat) : Nat :=
  responseDelay - (pollRxTs + responseDelay) % 512 + txAntDly

theorem responseDelay_bounds : 2 ^ 24 < responseDelay ∧ responseDelay + txAntDly < 2 ^ 25 := by
  decide

theorem interval_bounds (pollRxTs : Nat) : 0 < interval pollRxTs ∧ interval pollRxTs < 2 ^ 25 := by
  have hdelay := responseDelay_bounds
  unfold interval
  generalize responseDelay = delay at *
  generalize txAntDly = antenna at *
  omega

theorem toNat_and_even (x : BitVec 32) : (x &&& 0xFFFFFFFE#32).toNat = x.toNat / 2 * 2 := by
  have hmask : 0xFFFFFFFE#32 = BitVec.allOnes 32 <<< 1 := by decide
  have hx := x.isLt
  rw [hmask, ← BitVec.shiftLeft_ushiftRight, BitVec.toNat_shiftLeft, BitVec.toNat_ushiftRight, Nat.shiftLeft_eq,
    Nat.shiftRight_eq_div_pow]
  omega

theorem sendTime_toNat (time : BitVec 32) : (sendTime time).toNat = time.toNat / 2 * 512 := by
  have htime := time.isLt
  rw [sendTime, BitVec.toNat_shiftLeft, BitVec.toNat_setWidth, toNat_and_even, Nat.shiftLeft_eq]
  omega

theorem respTxTs_toNat (time : BitVec 32) :
    (RangeTx.respTxTs time).toNat = (sendTime time).toNat + txAntDly := by
  have htime := time.isLt
  rw [sendTime_toNat, RangeTx.respTxTs, BitVec.toNat_add, BitVec.toNat_shiftLeft,
    BitVec.toNat_setWidth, toNat_and_even, Nat.shiftLeft_eq, BitVec.toNat_ofNat]
  have hantenna : txAntDly < 2 ^ 25 := by decide
  generalize txAntDly = antenna at *
  omega

/-- The response is sent at the fixed delay after the poll, rounded down to 512 ticks. -/
theorem sendTime_respTxTime (pollRxTs : BitVec 40) :
    (sendTime (RangeTx.respTxTime (pollRxTs.setWidth 64))).toNat =
      (pollRxTs.toNat + responseDelay) / 512 * 512 % 2 ^ 40 := by
  have hP := pollRxTs.isLt
  have hdelay := responseDelay_bounds
  rw [sendTime_toNat, RangeTx.respTxTime, ← responseDelay, BitVec.toNat_setWidth,
    BitVec.toNat_ushiftRight, BitVec.toNat_add, BitVec.toNat_setWidth, BitVec.toNat_ofNat,
    Nat.shiftRight_eq_div_pow]
  generalize responseDelay = delay at *
  omega

/-- The timestamp the response carries is that of its departure, on 32 bits. -/
theorem respTxTs_departure (time : BitVec 32) :
    (RangeTx.respTxTs time).setWidth 32 = (departure time).setWidth 32 := by
  apply BitVec.eq_of_toNat_eq
  rw [BitVec.toNat_setWidth, BitVec.toNat_setWidth, respTxTs_toNat, departure, BitVec.toNat_add,
    BitVec.toNat_ofNat]
  generalize txAntDly = antenna
  omega

/-- The interval is the true one. -/
theorem departure_respTxTime (pollRxTs : BitVec 40) :
    departure (RangeTx.respTxTime (pollRxTs.setWidth 64)) =
      pollRxTs + BitVec.ofNat 40 (interval pollRxTs.toNat) := by
  have hdelay := responseDelay_bounds
  apply BitVec.eq_of_toNat_eq
  rw [departure, BitVec.toNat_add, sendTime_respTxTime, BitVec.toNat_add, BitVec.toNat_ofNat,
    BitVec.toNat_ofNat, interval]
  generalize responseDelay = delay at *
  generalize txAntDly = antenna at *
  omega

/-! ### The response -/

/-- What the initiator checks of a response. -/
def Headed (msg : Message) : Prop :=
  ∀ k < allMsgCommonLen, k ≠ allMsgSnIdx → msg[k]? = RangeRx.rxRespMsg[k]?

theorem respond_headed (i : RangeTx.Iteration) (s : RangeTx.State) (h : Headed s.txRespMsg) :
    Headed (RangeTx.respond i s).1.txRespMsg := by
  intro k hk hne
  have hk' : k < 20 := Nat.lt_trans hk (by decide)
  rw [allMsgCommonLen] at hk
  rw [Vector.getElem?_eq_getElem hk', RangeTx.respond_get i s hk' hne, if_neg, if_neg,
    ← Vector.getElem?_eq_getElem hk', h k hk hne]
  · rw [respMsgPollRxTsIdx]
    omega
  · rw [respMsgRespTxTsIdx]
    omega

theorem run_headed (history : List RangeTx.Iteration) :
    Headed (RangeTx.responder.run RangeTx.powerUp history).txRespMsg := by
  refine Machine.run_invariant _ (fun s : RangeTx.State => Headed s.txRespMsg) (fun i s h => ?_) _ ?_ history
  · show Headed (RangeTx.loop i s).1.txRespMsg
    rcases RangeTx.loop_cases i s with ⟨-, hs, -⟩ | ⟨bytes, hfits, -, ⟨-, hs, -⟩ | ⟨-, hs, -⟩⟩
    · rwa [hs]
    · rw [hs]
      exact respond_headed i _ h
    · rw [hs]
      exact h
  · unfold Headed
    decide

theorem headed_onAir {msg : Message} (h : Headed msg) (crc₁ crc₂ : BitVec 8) :
    ∀ j < allMsgCommonLen, j ≠ allMsgSnIdx →
      (onAir msg crc₁ crc₂).bytes[j]? = RangeRx.rxRespMsg[j]? := by
  intro j hj hne
  have hlt : j < 18 := Nat.lt_trans hj (by decide)
  have hk : j < 20 := Nat.lt_trans hj (by decide)
  rw [onAir_get _ _ _ hlt, ← Vector.getElem?_eq_getElem hk, h j hj hne]

section Decoding
variable (i : RangeTx.Iteration) (r : RangeTx.State) (rxBuffer : Message)
  (hget : ∀ k (hk : k < 18), k ≠ allMsgSnIdx → rxBuffer[k] = (RangeTx.respond i r).1.txRespMsg[k])

include hget

theorem decoded_pollRxTs :
    respMsgGetTs respMsgPollRxTsIdx pollRxTs_fits rxBuffer = i.rxTimestamp.setWidth 32 := by
  rw [← BitVec.setWidth_setWidth_of_le i.rxTimestamp (by decide : 32 ≤ 64)]
  refine respMsgGetTs_of_bytes _ _ _ _ fun k hk hlow hhigh => ?_
  have hbounds : 10 ≤ k ∧ k < 14 := ⟨hlow, hhigh⟩
  have hne : k ≠ allMsgSnIdx := ne_snIdx hbounds.1
  have hbefore : ¬(respMsgRespTxTsIdx ≤ k ∧ k < respMsgRespTxTsIdx + respMsgTsLen) := by
    rw [respMsgRespTxTsIdx]
    omega
  rw [hget k (by omega) hne, RangeTx.respond_get i r hk hne, if_neg hbefore, if_pos ⟨hlow, hhigh⟩]

theorem decoded_respTxTs :
    respMsgGetTs respMsgRespTxTsIdx respTxTs_fits rxBuffer =
      (departure (RangeTx.respTxTime (i.rxTimestamp.setWidth 64))).setWidth 32 := by
  rw [← respTxTs_departure]
  refine respMsgGetTs_of_bytes _ _ _ _ fun k hk hlow hhigh => ?_
  have hbounds : 14 ≤ k ∧ k < 18 := ⟨hlow, hhigh⟩
  have hne : k ≠ allMsgSnIdx := ne_snIdx (Nat.le_trans (by decide) hbounds.1)
  rw [hget k hbounds.2 hne, RangeTx.respond_get i r hk hne, if_pos ⟨hlow, hhigh⟩]

end Decoding

/-- The response on the air, received whatever was in the initiator's buffer, is used,
and its timestamps decode to what the responder stamped. -/
theorem exchange_onAir (i : RangeTx.Iteration) (r : RangeTx.State) (h : Headed r.txRespMsg)
    (crc₁ crc₂ : BitVec 8) (txTimestamp rxTimestamp : BitVec 40) (s : RangeRx.State) :
    (RangeRx.exchange
        ⟨.good (onAir (RangeTx.respond i r).1.txRespMsg crc₁ crc₂), txTimestamp, rxTimestamp⟩ s).2.2 =
      some
        { rtdInit := rxTimestamp.setWidth 32 - txTimestamp.setWidth 32
          rtdResp := (departure (RangeTx.respTxTime (i.rxTimestamp.setWidth 64))).setWidth 32 -
            i.rxTimestamp.setWidth 32 } := by
  let frame := onAir (RangeTx.respond i r).1.txRespMsg crc₁ crc₂
  obtain ⟨rxBuffer, hresult, hbuffer⟩ := RangeRx.exchange_response
    ⟨.good frame, txTimestamp, rxTimestamp⟩ s frame rfl (by simp [frame, onAir])
    (headed_onAir (respond_headed i r h) crc₁ crc₂)
  have hget : ∀ k (hk : k < 18), k ≠ allMsgSnIdx →
      rxBuffer[k] = (RangeTx.respond i r).1.txRespMsg[k] := by
    intro k hk hne
    have hb := hbuffer k (by omega) hne
    rwa [onAir_get _ _ _ hk, Option.some.injEq] at hb
  rw [hresult, RangeRx.roundTrips, decoded_pollRxTs i r rxBuffer hget,
    decoded_respTxTs i r rxBuffer hget]
  rfl

/-! ### Round trips -/

theorem toInt_ofNat_of_lt {d : Nat} (h : d < 2 ^ 31) : (BitVec.ofNat 32 d).toInt = d := by
  have hd : (BitVec.ofNat 32 d).toNat = d := by
    rw [BitVec.toNat_ofNat]
    omega
  rw [BitVec.toInt_eq_toNat_of_lt (by omega), hd]

/-- Round trips that fit 31 bits differ by twice the flight, as integers. -/
theorem roundTrips_toInt {span flight : Nat} (h : span + 2 * flight < 2 ^ 31) :
    (BitVec.ofNat 32 span).toInt = span ∧
      (BitVec.ofNat 32 (flight + span + flight)).toInt = span + 2 * flight ∧
      (BitVec.ofNat 32 (flight + span + flight) - BitVec.ofNat 32 span).toInt = 2 * flight := by
  have hsum : flight + span + flight = 2 * flight + span := by ring
  have hdiff : BitVec.ofNat 32 (2 * flight + span) - BitVec.ofNat 32 span =
      BitVec.ofNat 32 (2 * flight) := by
    rw [BitVec.ofNat_add, BitVec.add_sub_cancel]
  rw [hsum, hdiff, toInt_ofNat_of_lt (by omega), toInt_ofNat_of_lt (by omega),
    toInt_ofNat_of_lt (by omega)]
  push_cast
  exact ⟨rfl, by ring, rfl⟩

/-- **Two-way ranging is exact.** Let any responder that has answered any traffic answer
a poll that arrived at any count, and let the response fly as long as the poll did,
back to an initiator whose poll left at any count. The response is sent at the fixed
delay after the poll, rounded down to 512 ticks; `span`, the true time from the poll's
reception to the response's departure, is what the initiator decodes; and its own
round trip is longer by twice the flight, with no overflow on 32 bits. -/
theorem two_way_exact (history : List RangeTx.Iteration) (i : RangeTx.Iteration)
    (hresp : RangeTx.Responds
      (RangeTx.responder.out i (RangeTx.responder.run RangeTx.powerUp history)))
    (flight : Nat) (hflight : flight < 2 ^ 29) (txTimestamp : BitVec 40) (crc₁ crc₂ : BitVec 8)
    (s : RangeRx.State) :
    ∃ (time : BitVec 32) (msg : Message) (span : Nat) (trips : RangeRx.RoundTrips),
      [.rxenable, .writeSysStatus sysStatusRxfcg, .setdelayedtrxtime time,
          .writetxdata msg.toList, .writetxfctrl 20 0 1, .starttx .delayed] <+:
        RangeTx.responder.out i (RangeTx.responder.run RangeTx.powerUp history) ∧
      (sendTime time).toNat = (i.rxTimestamp.toNat + 450 * uusToDwtTime) / 512 * 512 % 2 ^ 40 ∧
      0 < span ∧ span < 2 ^ 31 ∧ departure time = i.rxTimestamp + BitVec.ofNat 40 span ∧
      (RangeRx.exchange
        { reception := .good (onAir msg crc₁ crc₂)
          txTimestamp := txTimestamp
          rxTimestamp := txTimestamp + BitVec.ofNat 40 (flight + span + flight) } s).2.2 =
        some trips ∧
      trips.rtdResp.toInt = span ∧ trips.rtdInit.toInt = span + 2 * flight ∧
      (trips.rtdInit - trips.rtdResp).toInt = 2 * flight := by
  obtain ⟨r, hmsg, hcalls⟩ := RangeTx.responds_calls hresp
  have hheaded : Headed r.txRespMsg := hmsg ▸ run_headed history
  obtain ⟨hpos, hlt⟩ := interval_bounds i.rxTimestamp.toNat
  refine ⟨RangeTx.respTxTime (i.rxTimestamp.setWidth 64), (RangeTx.respond i r).1.txRespMsg,
    interval i.rxTimestamp.toNat, _, ?_, sendTime_respTxTime i.rxTimestamp, hpos, by omega,
    departure_respTxTime i.rxTimestamp, exchange_onAir i r hheaded crc₁ crc₂ _ _ s, ?_⟩
  · show _ <+: (RangeTx.loop i (RangeTx.responder.run RangeTx.powerUp history)).2
    rw [hcalls]
    simp only [RangeTx.respond, getRxTimestampU64_counter]
    exact ⟨_, rfl⟩
  · simp only [departure_respTxTime, truncated_elapsed 32 (by decide : 32 ≤ 40)]
    exact roundTrips_toInt (by omega)

/-- A poll that arrives at the last count before the responder's counter wraps, from an
initiator about to wrap its low 32 bits, 100 ticks away. -/
theorem two_way_exact_wrapping : ∃ (msg : Message) (span : Nat) (trips : RangeRx.RoundTrips),
    0 < span ∧ span < 2 ^ 31 ∧
    (RangeRx.exchange
      { reception := .good (onAir msg 0 0)
        txTimestamp := 0xFFFFFFFF#40
        rxTimestamp := 0xFFFFFFFF#40 + BitVec.ofNat 40 (100 + span + 100) } RangeRx.powerUp).2.2 =
      some trips ∧
    trips.rtdResp.toInt = span ∧ (trips.rtdInit - trips.rtdResp).toInt = 200 := by
  have hresp : RangeTx.Responds (RangeTx.responder.out
      ⟨.good ⟨RangeTx.rxPollMsg, by decide⟩, 0xFFFFFFFFFF#40, true⟩
      (RangeTx.responder.run RangeTx.powerUp [])) :=
    ⟨⟨RangeTx.respTxTime ((0xFFFFFFFFFF#40).setWidth 64), by decide +kernel⟩, by decide +kernel⟩
  obtain ⟨-, msg, span, trips, -, -, hpos, hlt, -, hresult, hspan, -, hflight⟩ :=
    two_way_exact [] _ hresp 100 (by decide) 0xFFFFFFFF#40 0 0 RangeRx.powerUp
  exact ⟨msg, span, trips, hpos, hlt, hresult, hspan, hflight⟩

end MakerSpace.Ranging
