import MakerSpace.Ranging.Dw3000
import MakerSpace.Reactive.Machine

/-! The ranging responder, `arduino/positioning/range_tx/range_tx.ino`.

A pass waits for a frame or an error. A frame that fits is read over the start of
`rx_buffer`, and a buffer that starts like a poll is answered: the response leaves a
fixed delay after the poll arrived, and carries both times. -/
namespace MakerSpace.Ranging.RangeTx
open Reactive Codec LittleEndian

def pollRxToRespTxDlyUus : Nat := 450

def rxPollMsg : List (BitVec 8) :=
  [0x41, 0x88, 0, 0xCA, 0xDE, 0x57, 0x41, 0x56, 0x45, 0xE0, 0, 0]

structure State where
  txRespMsg : Message :=
    #v[0x41, 0x88, 0, 0xCA, 0xDE, 0x56, 0x45, 0x57, 0x41, 0xE1, 0, 0, 0, 0, 0, 0, 0, 0, 0, 0]
  frameSeqNb : BitVec 8 := 0
  rxBuffer : Message := Vector.replicate 20 0
  pollRxTs : BitVec 64 := 0
  respTxTs : BitVec 64 := 0

def powerUp : State := {}

structure Iteration where
  reception : Reception
  /-- The counter the radio latched when the frame arrived. -/
  rxTimestamp : BitVec 40
  /-- `dwt_starttx` returns `DWT_SUCCESS`. -/
  started : Bool

/-- `(poll_rx_ts + POLL_RX_TO_RESP_TX_DLY_UUS * UUS_TO_DWT_TIME) >> 8`, cut to 32 bits. -/
def respTxTime (pollRxTs : BitVec 64) : BitVec 32 :=
  ((pollRxTs + BitVec.ofNat 64 (pollRxToRespTxDlyUus * uusToDwtTime)) >>> 8).setWidth 32

/-- The transmission time programmed, which loses bit 0, plus the antenna delay. -/
def respTxTs (respTxTime : BitVec 32) : BitVec 64 :=
  (respTxTime &&& 0xFFFFFFFE#32).setWidth 64 <<< 8 + BitVec.ofNat 64 txAntDly

/-- The branch of the poll. -/
def respond (i : Iteration) (s : State) : State × List Call :=
  let pollRxTs := getRxTimestampU64 (dwtReadrxtimestamp i.rxTimestamp)
  let time := respTxTime pollRxTs
  let respTxTs := respTxTs time
  let stamped := respMsgSetTs respMsgPollRxTsIdx pollRxTs_fits pollRxTs s.txRespMsg
  let stamped := respMsgSetTs respMsgRespTxTsIdx respTxTs_fits respTxTs stamped
  let txRespMsg := stamped.set allMsgSnIdx s.frameSeqNb snIdx_lt
  let frameSeqNb := if i.started then s.frameSeqNb + 1 else s.frameSeqNb
  ({s with
      txRespMsg := txRespMsg
      frameSeqNb := frameSeqNb
      pollRxTs := pollRxTs
      respTxTs := respTxTs},
    [.setdelayedtrxtime time, .writetxdata txRespMsg.toList, .writetxfctrl 20 0 1,
      .starttx .delayed] ++ if i.started then [.writeSysStatus sysStatusTxfrs] else [])

/-- The frame in the buffer, its sequence number cleared. -/
def receive (bytes : List (BitVec 8)) (h : bytes.length ≤ 20) (s : State) : State :=
  {s with rxBuffer := (dwtReadrxdata bytes h s.rxBuffer).set allMsgSnIdx 0 snIdx_lt}

def loop (i : Iteration) (s : State) : State × List Call :=
  match i.reception with
  | .good frame =>
    let calls := [.rxenable, .writeSysStatus sysStatusRxfcg]
    if h : frame.bytes.length ≤ 20 then
      let s := receive frame.bytes h s
      if memcmp s.rxBuffer.toList rxPollMsg allMsgCommonLen = 0 then
        let (s, response) := respond i s
        (s, calls ++ response)
      else (s, calls)
    else (s, calls)
  | .error => (s, [.rxenable, .writeSysStatus sysStatusAllRxErr])

def responder : Machine Iteration State Call where
  pass := loop

/-! ### One pass -/

/-- A delayed response is programmed and started. -/
def Responds (calls : List Call) : Prop :=
  (∃ time, .setdelayedtrxtime time ∈ calls) ∧ .starttx .delayed ∈ calls

/-- No response is programmed, written or started. -/
def Silent (calls : List Call) : Prop :=
  ∀ call ∈ calls, call = .rxenable ∨ ∃ mask, call = .writeSysStatus mask

/-- The frame of a reception, if it is good and fits the buffer. -/
def fitting : Reception → Option (List (BitVec 8))
  | .good frame => if frame.bytes.length ≤ 20 then some frame.bytes else none
  | .error => none

/-- The response carries both timestamps, and is otherwise what it was. -/
theorem respond_get (i : Iteration) (s : State) {k : Nat} (hk : k < 20) (hne : k ≠ allMsgSnIdx) :
    (respond i s).1.txRespMsg[k] =
      if respMsgRespTxTsIdx ≤ k ∧ k < respMsgRespTxTsIdx + respMsgTsLen then
        byte (respTxTs (respTxTime (i.rxTimestamp.setWidth 64))) (k - respMsgRespTxTsIdx)
      else if respMsgPollRxTsIdx ≤ k ∧ k < respMsgPollRxTsIdx + respMsgTsLen then
        byte (i.rxTimestamp.setWidth 64) (k - respMsgPollRxTsIdx)
      else s.txRespMsg[k] := by
  simp only [respond, getRxTimestampU64_counter]
  rw [Vector.getElem_set_ne _ _ hne.symm, respMsgSetTs_get, respMsgSetTs_get]

theorem respond_responds (i : Iteration) (s : State) : Responds (respond i s).2 :=
  ⟨⟨_, List.mem_cons_self⟩, by simp [respond]⟩

/-- What a pass does: it leaves the state alone on what it does not take, and answers
a frame that leaves the buffer looking like a poll. -/
theorem loop_cases (i : Iteration) (s : State) :
    (fitting i.reception = none ∧ (loop i s).1 = s ∧ Silent (loop i s).2) ∨
    ∃ bytes, ∃ h : bytes.length ≤ 20, fitting i.reception = some bytes ∧
      (((∀ j < allMsgCommonLen, (receive bytes h s).rxBuffer[j]? = rxPollMsg[j]?) ∧
          (loop i s).1 = (respond i (receive bytes h s)).1 ∧
          (loop i s).2 = [.rxenable, .writeSysStatus sysStatusRxfcg] ++
            (respond i (receive bytes h s)).2) ∨
        (¬(∀ j < allMsgCommonLen, (receive bytes h s).rxBuffer[j]? = rxPollMsg[j]?) ∧
          (loop i s).1 = receive bytes h s ∧ Silent (loop i s).2)) := by
  unfold loop
  cases i.reception with
  | error => exact .inl ⟨rfl, rfl, by simp [Silent]⟩
  | good frame =>
    by_cases h : frame.bytes.length ≤ 20
    · refine .inr ⟨frame.bytes, h, if_pos h, ?_⟩
      have hmatch := memcmp_eq_zero_iff (receive frame.bytes h s).rxBuffer.toList rxPollMsg
        allMsgCommonLen (by simp [allMsgCommonLen]) (by decide)
      simp only [Vector.getElem?_toList] at hmatch
      rw [← hmatch]
      by_cases hpoll : memcmp (receive frame.bytes h s).rxBuffer.toList rxPollMsg allMsgCommonLen = 0
      · exact .inl ⟨hpoll, by simp [h, hpoll], by simp [h, hpoll]⟩
      · exact .inr ⟨hpoll, by simp [h, hpoll], by simp [h, hpoll, Silent]⟩
    · exact .inl ⟨if_neg h, by simp [h], by simp [h, Silent]⟩

theorem silent_not_responds {calls : List Call} (h : Silent calls) : ¬Responds calls := by
  intro hresponds
  obtain ⟨-, hstart⟩ := hresponds
  rcases h _ hstart with hcall | ⟨mask, hcall⟩ <;> cases hcall

theorem responds_calls {i : Iteration} {s : State} (h : Responds (loop i s).2) :
    ∃ s', s'.txRespMsg = s.txRespMsg ∧
      (loop i s).2 = [.rxenable, .writeSysStatus sysStatusRxfcg] ++ (respond i s').2 := by
  rcases loop_cases i s with ⟨-, -, hsilent⟩ | ⟨bytes, hfits, -, ⟨-, -, hcalls⟩ | ⟨-, -, hsilent⟩⟩
  · exact absurd h (silent_not_responds hsilent)
  · exact ⟨receive bytes hfits s, rfl, hcalls⟩
  · exact absurd h (silent_not_responds hsilent)

/-- A pass answers in full or not at all. -/
theorem responds_or_silent (i : Iteration) (s : State) :
    Responds (loop i s).2 ∨ Silent (loop i s).2 := by
  rcases loop_cases i s with ⟨-, -, hsilent⟩ | ⟨bytes, h, -, ⟨-, -, hcalls⟩ | ⟨-, -, hsilent⟩⟩
  · exact .inr hsilent
  · obtain ⟨⟨time, htime⟩, hstart⟩ := respond_responds i (receive bytes h s)
    rw [hcalls]
    exact .inl ⟨⟨time, List.mem_append_right _ htime⟩, List.mem_append_right _ hstart⟩
  · exact .inr hsilent

end MakerSpace.Ranging.RangeTx
