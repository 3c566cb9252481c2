import MakerSpace.Ranging.Dw3000

/-! The ranging initiator, `arduino/positioning/range_rx/range_rx.ino`.

The present `loop()` prints its status and returns; `exchange` is the code that
follows: a poll is sent, and a response that answers it yields the two round-trip
differences. The time of flight is then computed from them in floating point, which
is left out. -/
namespace MakerSpace.Ranging.RangeRx

def rxRespMsg : List (BitVec 8) :=
  [0x41, 0x88, 0, 0xCA, 0xDE, 0x56, 0x45, 0x57, 0x41, 0xE1, 0, 0, 0, 0, 0, 0, 0, 0, 0, 0]

/-- The frame and preamble timeout bits. -/
def sysStatusAllRxTo : BitVec 32 := 0x220000

structure State where
  txPollMsg : Vector (BitVec 8) 12 :=
    #v[0x41, 0x88, 0, 0xCA, 0xDE, 0x57, 0x41, 0x56, 0x45, 0xE0, 0, 0]
  frameSeqNb : BitVec 8 := 0
  rxBuffer : Message := Vector.replicate 20 0

def powerUp : State := {}

structure Exchange where
  reception : Reception
  /-- The counter the radio latched when the poll left. -/
  txTimestamp : BitVec 40
  /-- The counter the radio latched when the frame arrived. -/
  rxTimestamp : BitVec 40

/-- `rtd_init` and `rtd_resp`. -/
structure RoundTrips where
  rtdInit : BitVec 32
  rtdResp : BitVec 32

/-- `dwt_readtxtimestamplo32` and `dwt_readrxtimestamplo32`. -/
def timestampLo32 (counter : BitVec 40) : BitVec 32 := counter.setWidth 32

/-- The branch of the response. -/
def roundTrips (e : Exchange) (rxBuffer : Message) : RoundTrips :=
  let pollTxTs := timestampLo32 e.txTimestamp
  let respRxTs := timestampLo32 e.rxTimestamp
  let pollRxTs := respMsgGetTs respMsgPollRxTsIdx pollRxTs_fits rxBuffer
  let respTxTs := respMsgGetTs respMsgRespTxTsIdx respTxTs_fits rxBuffer
  { rtdInit := respRxTs - pollTxTs
    rtdResp := respTxTs - pollRxTs }

/-- What follows the wait: a frame that fits and starts like a response is used. -/
def receive (e : Exchange) (s : State) : State × List Call × Option RoundTrips :=
  match e.reception with
  | .good frame =>
    let calls := [.writeSysStatus sysStatusRxfcg]
    if h : frame.bytes.length ≤ 20 then
      let rxBuffer := (dwtReadrxdata frame.bytes h s.rxBuffer).set allMsgSnIdx 0 snIdx_lt
      let s := {s with rxBuffer := rxBuffer}
      if memcmp rxBuffer.toList rxRespMsg allMsgCommonLen = 0 then
        (s, calls, some (roundTrips e rxBuffer))
      else (s, calls, none)
    else (s, calls, none)
  | .error => (s, [.writeSysStatus (sysStatusAllRxTo ||| sysStatusAllRxErr)], none)

def exchange (e : Exchange) (s : State) : State × List Call × Option RoundTrips :=
  let txPollMsg := s.txPollMsg.set allMsgSnIdx s.frameSeqNb
  let (s, calls, result) := receive e
    {s with
      txPollMsg := txPollMsg
      frameSeqNb := s.frameSeqNb + 1}
  (s, [.writeSysStatus sysStatusTxfrs, .writetxdata txPollMsg.toList, .writetxfctrl 12 0 1,
    .starttx .immediateResponseExpected] ++ calls, result)

/-- The comparison reads the frame, and the buffer where the frame ends. -/
theorem receive_memcmp (bytes : List (BitVec 8)) (h : bytes.length ≤ 20) (rxBuffer : Message) :
    memcmp ((dwtReadrxdata bytes h rxBuffer).set allMsgSnIdx 0 snIdx_lt).toList rxRespMsg
        allMsgCommonLen = 0 ↔
      ∀ j < 10, j ≠ 2 → bytes[j]?.or rxBuffer[j]? = rxRespMsg[j]? := by
  rw [memcmp_eq_zero_iff _ _ _ (by simp [allMsgCommonLen]) (by decide)]
  refine forall_congr' fun j => forall_congr' fun hj => ?_
  have hk : j < 20 := Nat.lt_trans hj (by decide)
  rw [Vector.getElem?_toList, Vector.getElem?_set]
  split_ifs with hsn
  · simp [← hsn, allMsgSnIdx, rxRespMsg]
  · have hne : j ≠ 2 := fun h => hsn h.symm
    simp only [Vector.getElem?_eq_getElem hk, dwtReadrxdata_get, ne_eq, hne, not_false_eq_true,
      forall_const]
    cases bytes[j]? <;> rfl

/-- A frame of full length that starts like a response is used, whatever was in the
buffer before. -/
theorem exchange_response (e : Exchange) (s : State) (frame : Frame)
    (hgood : e.reception = .good frame) (hlen : frame.bytes.length = 20)
    (hhead : ∀ j < allMsgCommonLen, j ≠ allMsgSnIdx → frame.bytes[j]? = rxRespMsg[j]?) :
    ∃ rxBuffer : Message, (exchange e s).2.2 = some (roundTrips e rxBuffer) ∧
      ∀ k (hk : k < 20), k ≠ allMsgSnIdx → some rxBuffer[k] = frame.bytes[k]? := by
  have hfits : frame.bytes.length ≤ 20 := hlen.le
  let rxBuffer := (dwtReadrxdata frame.bytes hfits s.rxBuffer).set allMsgSnIdx 0 snIdx_lt
  have hget : ∀ k (hk : k < 20), k ≠ allMsgSnIdx → some rxBuffer[k] = frame.bytes[k]? := by
    intro k hk hne
    have hk' : k < frame.bytes.length := by omega
    simp only [rxBuffer, Vector.getElem_set, dwtReadrxdata_get, if_neg hne.symm,
      List.getElem?_eq_getElem hk', Option.getD_some]
  have hmatch : memcmp rxBuffer.toList rxRespMsg allMsgCommonLen = 0 := by
    refine (receive_memcmp frame.bytes hfits s.rxBuffer).mpr fun j hj hne => ?_
    rw [← hhead j hj hne, List.getElem?_eq_getElem (by omega), Option.some_or]
  refine ⟨rxBuffer, ?_, hget⟩
  simp only [exchange, receive, hgood, dif_pos hfits]
  rw [if_pos hmatch]

/-! ### Which frames are used -/

/-- The frame is a response, its sequence number aside. -/
def IsResponse (frame : Frame) : Prop :=
  10 ≤ frame.bytes.length ∧ frame.bytes.length ≤ 20 ∧
    ∀ j < 10, j ≠ 2 → frame.bytes[j]? = rxRespMsg[j]?

/-- The frame is shorter than the part compared, and with the bytes it lacks taken from
the buffer it reads as a response. -/
def Leftover (rxBuffer : Message) (frame : Frame) : Prop :=
  frame.bytes.length < 10 ∧
    ∀ j < 10, j ≠ 2 → frame.bytes[j]?.or rxBuffer[j]? = rxRespMsg[j]?

/-- Of a frame that fits, what is compared is its own or what the buffer adds. -/
theorem response_or_leftover_iff (frame : Frame) (rxBuffer : Message) (hfits : frame.bytes.length ≤ 20) :
    IsResponse frame ∨ Leftover rxBuffer frame ↔
      ∀ j < 10, j ≠ 2 → frame.bytes[j]?.or rxBuffer[j]? = rxRespMsg[j]? := by
  unfold IsResponse Leftover
  by_cases hlong : 10 ≤ frame.bytes.length
  · have howns : ∀ j < 10, frame.bytes[j]?.or rxBuffer[j]? = frame.bytes[j]? := by
      intro j hj
      rw [List.getElem?_eq_getElem (Nat.lt_of_lt_of_le hj hlong), Option.some_or]
    simp only [hlong, hfits, true_and, Nat.not_lt_of_le hlong, false_and, or_false]
    exact forall_congr' fun j => forall_congr' fun hj => by rw [howns j hj]
  · simp only [hlong, false_and, false_or, Nat.lt_of_not_le hlong, true_and]

/-- A good frame is used when it is a response, or when the buffer completes it to one. -/
theorem exchange_used_iff (frame : Frame) (txTimestamp rxTimestamp : BitVec 40) (s : State) :
    (exchange ⟨.good frame, txTimestamp, rxTimestamp⟩ s).2.2.isSome ↔
      IsResponse frame ∨ Leftover s.rxBuffer frame := by
  by_cases hfits : frame.bytes.length ≤ 20
  · rw [response_or_leftover_iff frame _ hfits, ← receive_memcmp _ hfits]
    simp only [exchange, receive, dif_pos hfits]
    split_ifs with hmatch
    · exact iff_of_true rfl hmatch
    · exact iff_of_false (by simp) hmatch
  · have hnotshort : ¬frame.bytes.length < 10 := by omega
    simp [exchange, receive, IsResponse, Leftover, hfits, hnotshort]

end MakerSpace.Ranging.RangeRx
