import MakerSpace.Ranging.Polls
import MakerSpace.Ranging.TwoWay

/-! Ranging rounds, initiator and responder over an air that loses frames.

In a round the initiator polls and waits. Before it the responder has heard whatever was
on the air; the poll may be lost or damaged, the radio may refuse to send the response,
and the response may be lost, damaged, or drowned by a frame from somewhere else. The two
counters stand anywhere, in every round.

A foreign frame shorter than the part compared can be completed to a response by what the
initiator's buffer still holds, and is then measured. `rounds_exact`: where that never
happens, and only there, a measurement is made in exactly the rounds in which both frames
got through, and it is that of the round: nothing that went wrong in a round, and nothing
the responder heard, shows in another. -/
namespace MakerSpace.Ranging
open Reactive Rollover

/-- A frame from somewhere else: any frame that is no response. -/
structure Foreign where
  frame : Frame
  other : ¬RangeRx.IsResponse frame

/-- What becomes of a poll. -/
inductive PollFate where
  | lost
  | damaged
  | arrives (crc₁ crc₂ : BitVec 8)

/-- What the initiator hears after its poll, if a response is sent. -/
inductive ResponseFate where
  | lost
  | arrives (crc₁ crc₂ : BitVec 8)
  | drowned (foreign : Foreign) (rxTimestamp : BitVec 40)

structure Round where
  /-- What the responder heard since the last round. -/
  traffic : List RangeTx.Iteration
  /-- The initiator's counter as the poll leaves. -/
  txTimestamp : BitVec 40
  /-- How far the responder's counter is ahead. -/
  offset : BitVec 40
  flight : Nat
  poll : PollFate
  /-- `dwt_starttx` returns `DWT_SUCCESS`. -/
  started : Bool
  response : ResponseFate

structure Radios where
  initiator : RangeRx.State := RangeRx.powerUp
  responder : RangeTx.State := RangeTx.powerUp

theorem pollSnIdx_lt : allMsgSnIdx < 12 := by decide

/-- The poll the initiator writes. -/
def pollMsg (s : RangeRx.State) : Vector (BitVec 8) 12 :=
  s.txPollMsg.set allMsgSnIdx s.frameSeqNb pollSnIdx_lt

def pollOnAir (msg : Vector (BitVec 8) 12) (crc₁ crc₂ : BitVec 8) : Frame where
  bytes := msg.toList.take 10 ++ [crc₁, crc₂]
  fits := by simp

/-- The counter of the responder as the poll arrives. -/
def Round.pollRx (r : Round) : BitVec 40 := r.txTimestamp + r.offset + BitVec.ofNat 40 r.flight

def Call.starttime : Call → Option (BitVec 32)
  | .setdelayedtrxtime starttime => some starttime
  | _ => none

def Call.data : Call → Option (List (BitVec 8))
  | .writetxdata data => some data
  | _ => none

/-- The delayed transmission among the calls: when, and what is in the buffer. -/
def transmission (calls : List Call) : Option (BitVec 32 × List (BitVec 8)) := do
  let starttime ← calls.findSome? Call.starttime
  let data ← calls.findSome? Call.data
  if .starttx .delayed ∈ calls then some (starttime, data) else none

/-- The responder's part of the round: what it sends. -/
def Round.answer (r : Round) (s : Radios) : RangeTx.State × Option (BitVec 32 × List (BitVec 8)) :=
  let responder := RangeTx.responder.run s.responder r.traffic
  match r.poll with
  | .lost => (responder, none)
  | .damaged => (RangeTx.responder.next ⟨.error, r.pollRx, r.started⟩ responder, none)
  | .arrives crc₁ crc₂ =>
    let i : RangeTx.Iteration := ⟨.good (pollOnAir (pollMsg s.initiator) crc₁ crc₂), r.pollRx, r.started⟩
    (RangeTx.responder.next i responder,
      if r.started then transmission (RangeTx.responder.out i responder) else none)

/-- What the initiator hears. -/
def Round.exchange (r : Round) (sent : Option (BitVec 32 × List (BitVec 8))) : RangeRx.Exchange :=
  match sent, r.response with
  | some (starttime, data), .arrives crc₁ crc₂ =>
    if h : data.length = 20 then
      ⟨.good (onAir ⟨data.toArray, h⟩ crc₁ crc₂), r.txTimestamp,
        departure starttime - r.offset + BitVec.ofNat 40 r.flight⟩
    else ⟨.error, r.txTimestamp, r.txTimestamp⟩
  | _, .drowned foreign rxTimestamp => ⟨.good foreign.frame, r.txTimestamp, rxTimestamp⟩
  | _, _ => ⟨.error, r.txTimestamp, r.txTimestamp⟩

def ranging : Machine Round Radios RangeRx.RoundTrips where
  pass := fun r s =>
    let (responder, sent) := r.answer s
    let (initiator, _, trips) := RangeRx.exchange (r.exchange sent) s.initiator
    (⟨initiator, responder⟩, trips.toList)

/-- Both frames get through. -/
def Round.complete (r : Round) : Bool :=
  match r.poll, r.response with
  | .arrives _ _, .arrives _ _ => r.started
  | _, _ => false

/-- From the poll's arrival at the responder to the departure of the response. -/
def Round.span (r : Round) : Nat := interval r.pollRx.toNat

/-- What a complete round measures: the responder's delay, and the round trip longer by
twice the flight. -/
def Round.exact (r : Round) : Int × Int := ((r.span : Int), (r.span : Int) + 2 * r.flight)

/-- A foreign frame drowns the response, and the initiator's buffer completes it to one. -/
def Round.Misread (r : Round) (s : Radios) : Prop :=
  ∃ foreign rxTimestamp, r.response = .drowned foreign rxTimestamp ∧
    RangeRx.Leftover s.initiator.rxBuffer foreign.frame

/-! ### The poll -/

/-- What the responder checks of a poll. -/
def Polling (s : RangeRx.State) : Prop :=
  ∀ k < allMsgCommonLen, k ≠ allMsgSnIdx → s.txPollMsg[k]? = RangeTx.rxPollMsg[k]?

theorem exchange_polling (e : RangeRx.Exchange) (s : RangeRx.State) (h : Polling s) :
    Polling (RangeRx.exchange e s).1 := by
  have hmsg : (RangeRx.exchange e s).1.txPollMsg = pollMsg s := by
    simp only [RangeRx.exchange, RangeRx.receive, pollMsg]
    cases e.reception with
    | error => rfl
    | good frame =>
      dsimp only
      split
      · split <;> rfl
      · rfl
  intro k hk hne
  rw [hmsg, pollMsg, Vector.getElem?_set, if_neg hne.symm, h k hk hne]

theorem pollOnAir_isPoll {s : RangeRx.State} (h : Polling s) (crc₁ crc₂ : BitVec 8) :
    RangeTx.IsPoll (.good (pollOnAir (pollMsg s) crc₁ crc₂)) := by
  refine ⟨_, rfl, by simp [pollOnAir], by simp [pollOnAir], fun j hj hne => ?_⟩
  rw [pollOnAir, List.getElem?_append_left (by simpa using by omega), List.getElem?_take_of_lt hj,
    Vector.getElem?_toList, pollMsg, Vector.getElem?_set, if_neg (show allMsgSnIdx ≠ j from Ne.symm hne),
    h j hj hne]

/-- A poll of full length is answered whatever the responder has heard. -/
theorem poll_answered (history : List RangeTx.Iteration) {s : RangeRx.State} (h : Polling s)
    (crc₁ crc₂ : BitVec 8) (rxTimestamp : BitVec 40) (started : Bool) :
    RangeTx.Responds (RangeTx.responder.out
      ⟨.good (pollOnAir (pollMsg s) crc₁ crc₂), rxTimestamp, started⟩
      (RangeTx.responder.run RangeTx.powerUp history)) := by
  refine ((RangeTx.responds_iff_isPoll history _).mpr fun hshort => ?_).mpr (pollOnAir_isPoll h crc₁ crc₂)
  obtain ⟨frame, hframe, hlen, -⟩ := hshort
  obtain rfl := Reception.good.inj hframe
  simp [pollOnAir] at hlen

/-! ### The response -/

/-- An answer sends the stamped message at the delayed time. -/
theorem transmission_responds {i : RangeTx.Iteration} {s : RangeTx.State}
    (h : RangeTx.Responds (RangeTx.responder.out i s)) :
    ∃ s', s'.txRespMsg = s.txRespMsg ∧ transmission (RangeTx.responder.out i s) =
      some (RangeTx.respTxTime (i.rxTimestamp.setWidth 64), (RangeTx.respond i s').1.txRespMsg.toList) := by
  obtain ⟨s', hmsg, hcalls⟩ := RangeTx.responds_calls h
  refine ⟨s', hmsg, ?_⟩
  show transmission (RangeTx.loop i s).2 = _
  rw [hcalls]
  simp [transmission, RangeTx.respond, getRxTimestampU64_counter, Call.starttime, Call.data,
    List.findSome?_cons]

theorem elapsed (tx offset : BitVec 40) (flight span : Nat) :
    tx + offset + BitVec.ofNat 40 flight + BitVec.ofNat 40 span - offset + BitVec.ofNat 40 flight =
      tx + BitVec.ofNat 40 (flight + span + flight) := by
  rw [BitVec.ofNat_add, BitVec.ofNat_add]
  grind

/-! ### Rounds -/

/-- What was measured, as the two round trips. -/
def Measured (trips : List RangeRx.RoundTrips) : List (Int × Int) :=
  trips.map fun t => (t.rtdResp.toInt, t.rtdInit.toInt)

/-- Both frames get through: the round is measured. -/
theorem complete_measured (r : Round) (s : RangeRx.State) {i : RangeTx.Iteration} {t : RangeTx.State}
    (hheaded : Headed t.txRespMsg) (hi : i.rxTimestamp = r.pollRx) {crc₁ crc₂ : BitVec 8}
    (hresponse : r.response = .arrives crc₁ crc₂) (hflight : r.flight < 2 ^ 29) :
    Measured (RangeRx.exchange (r.exchange (some (RangeTx.respTxTime (i.rxTimestamp.setWidth 64),
      (RangeTx.respond i t).1.txRespMsg.toList))) s).2.2.toList =
        [r.exact] := by
  have hlength : (RangeTx.respond i t).1.txRespMsg.toList.length = 20 := Vector.length_toList
  have hheard : r.exchange (some (RangeTx.respTxTime (i.rxTimestamp.setWidth 64),
      (RangeTx.respond i t).1.txRespMsg.toList)) =
      ⟨.good (onAir (RangeTx.respond i t).1.txRespMsg crc₁ crc₂), r.txTimestamp,
        r.txTimestamp + BitVec.ofNat 40 (r.flight + r.span + r.flight)⟩ := by
    simp only [Round.exchange, hresponse, dif_pos hlength]
    rw [departure_respTxTime, hi, Round.pollRx, elapsed]
    rfl
  obtain ⟨-, hlt⟩ := interval_bounds r.pollRx.toNat
  rw [hheard, exchange_onAir i t hheaded, departure_respTxTime, truncated_elapsed 32 (by decide : 32 ≤ 40),
    truncated_elapsed 32 (by decide : 32 ≤ 40), hi]
  have hspan : r.span + 2 * r.flight < 2 ^ 31 := by
    rw [Round.span]
    omega
  obtain ⟨hresp, hinit, -⟩ := roundTrips_toInt hspan
  exact congrArg₂ (fun a b => [(a, b)]) hresp hinit

theorem complete_not_misread {r : Round} (h : r.complete = true) (s : Radios) : ¬r.Misread s := by
  intro hmisread
  obtain ⟨foreign, rxTimestamp, hresponse, -⟩ := hmisread
  cases hpoll : r.poll <;> simp [Round.complete, hpoll, hresponse] at h

theorem exchange_error (txTimestamp rxTimestamp : BitVec 40) (s : RangeRx.State) :
    (RangeRx.exchange ⟨.error, txTimestamp, rxTimestamp⟩ s).2.2 = none := rfl

/-- A frame is missing: the initiator uses what it hears when it misreads it. -/
theorem incomplete_used_iff (r : Round) (s : Radios) (h : r.complete = false) :
    (RangeRx.exchange (r.exchange (r.answer s).2) s.initiator).2.2.isSome ↔ r.Misread s := by
  cases hresponse : r.response with
  | lost =>
    have herror : r.exchange (r.answer s).2 = ⟨.error, r.txTimestamp, r.txTimestamp⟩ := by
      simp [Round.exchange, hresponse]
    rw [herror, exchange_error]
    exact iff_of_false Bool.false_ne_true (by simp [Round.Misread, hresponse])
  | drowned foreign rxTimestamp =>
    have hother : r.exchange (r.answer s).2 = ⟨.good foreign.frame, r.txTimestamp, rxTimestamp⟩ := by
      simp [Round.exchange, hresponse]
    rw [hother, RangeRx.exchange_used_iff, or_iff_right foreign.other]
    simp [Round.Misread, hresponse]
  | arrives crc₁ crc₂ =>
    have hsilent : (r.answer s).2 = none := by
      cases hpoll : r.poll with
      | lost => simp only [Round.answer, hpoll]
      | damaged => simp only [Round.answer, hpoll]
      | arrives crc₁ crc₂ =>
        simp only [Round.complete, hpoll, hresponse] at h
        simp only [Round.answer, hpoll, h, Bool.false_eq_true, if_false]
    have herror : r.exchange none = ⟨.error, r.txTimestamp, r.txTimestamp⟩ := by
      simp [Round.exchange, hresponse]
    rw [hsilent, herror, exchange_error]
    exact iff_of_false Bool.false_ne_true (by simp [Round.Misread, hresponse])

/-- The responder has heard some traffic from power-up on. -/
def Reached (t : RangeTx.State) : Prop :=
  ∃ history, t = RangeTx.responder.run RangeTx.powerUp history

theorem Reached.run {t : RangeTx.State} (h : Reached t) (traffic : List RangeTx.Iteration) :
    Reached (RangeTx.responder.run t traffic) := by
  obtain ⟨history, rfl⟩ := h
  exact ⟨history ++ traffic, (Machine.run_append _ _ _ _).symm⟩

theorem Reached.next {t : RangeTx.State} (h : Reached t) (i : RangeTx.Iteration) :
    Reached (RangeTx.responder.next i t) := h.run [i]

theorem answer_reached (r : Round) {s : Radios} (h : Reached s.responder) : Reached (r.answer s).1 := by
  unfold Round.answer
  cases r.poll with
  | lost => exact h.run _
  | damaged => exact (h.run _).next _
  | arrives crc₁ crc₂ => exact (h.run _).next _

/-- **One round**: both radios stay as the next one needs them, and the round measures
what it should, or one thing more when a frame is misread. -/
theorem round_step (r : Round) (s : Radios) (hpolling : Polling s.initiator)
    (hreached : Reached s.responder) (hflight : r.flight < 2 ^ 29) :
    Polling (ranging.next r s).initiator ∧ Reached (ranging.next r s).responder ∧
      (¬r.Misread s → Measured (ranging.out r s) = if r.complete then [r.exact] else []) ∧
      (r.Misread s → r.complete = false ∧ (Measured (ranging.out r s)).length = 1) := by
  refine ⟨exchange_polling _ _ hpolling, answer_reached r hreached, ?_⟩
  have hout : ranging.out r s = (RangeRx.exchange (r.exchange (r.answer s).2) s.initiator).2.2.toList := rfl
  rw [hout]
  cases hcomplete : r.complete with
  | false =>
    have hused := incomplete_used_iff r s hcomplete
    constructor
    · intro hread
      have hnone := Option.not_isSome_iff_eq_none.mp (mt hused.mp hread)
      rw [hnone]
      rfl
    · intro hmisread
      obtain ⟨trips, hsome⟩ := Option.isSome_iff_exists.mp (hused.mpr hmisread)
      rw [hsome]
      exact ⟨rfl, rfl⟩
  | true =>
    refine ⟨fun _ => ?_, fun hmisread => absurd hmisread (complete_not_misread hcomplete s)⟩
    cases hpoll : r.poll with
    | lost => simp [Round.complete, hpoll] at hcomplete
    | damaged => simp [Round.complete, hpoll] at hcomplete
    | arrives crc₁ crc₂ =>
      cases hresponse : r.response with
      | lost => simp [Round.complete, hpoll, hresponse] at hcomplete
      | drowned foreign rxTimestamp => simp [Round.complete, hpoll, hresponse] at hcomplete
      | arrives crc₁' crc₂' =>
        have hstarted : r.started = true := by simpa [Round.complete, hpoll, hresponse] using hcomplete
        obtain ⟨history, hrun⟩ := hreached.run r.traffic
        obtain ⟨t, hmsg, hsent⟩ := transmission_responds
          (poll_answered history hpolling crc₁ crc₂ r.pollRx r.started)
        have hheaded : Headed t.txRespMsg := hmsg ▸ run_headed history
        have hanswer : (r.answer s).2 = transmission (RangeTx.responder.out
            ⟨.good (pollOnAir (pollMsg s.initiator) crc₁ crc₂), r.pollRx, r.started⟩
            (RangeTx.responder.run RangeTx.powerUp history)) := by
          simp only [Round.answer, hpoll, hstarted, if_true, hrun]
        rw [hanswer, hsent]
        exact complete_measured r s.initiator hheaded rfl hresponse hflight

/-- What a run should measure, round by round. -/
theorem exact_cons (r : Round) (rest : List Round) :
    ((r :: rest).filter Round.complete).map Round.exact =
      (if r.complete then [r.exact] else []) ++ (rest.filter Round.complete).map Round.exact := by
  rw [List.filter_cons]
  cases r.complete <;> rfl

/-- No complete round goes unmeasured. -/
theorem complete_le_measured (rounds : List Round) (s : Radios) (hpolling : Polling s.initiator)
    (hreached : Reached s.responder) (hflight : ∀ r ∈ rounds, r.flight < 2 ^ 29) :
    ((rounds.filter Round.complete).map Round.exact).length ≤ (Measured (ranging.log s rounds)).length := by
  induction rounds generalizing s with
  | nil => exact Nat.le_refl 0
  | cons r rest ih =>
    obtain ⟨hpolling', hreached', hread, hmisread⟩ := round_step r s hpolling hreached
      (hflight r List.mem_cons_self)
    have hrest := ih _ hpolling' hreached' fun r hr => hflight r (List.mem_cons_of_mem _ hr)
    rw [exact_cons, Machine.log_cons, Measured, List.map_append, ← Measured, ← Measured,
      List.length_append, List.length_append]
    refine Nat.add_le_add ?_ hrest
    by_cases h : r.Misread s
    · simp [(hmisread h).1]
    · rw [hread h]

/-- **Rounds are measured one by one**: over any run, the measurements are those of the
rounds in which both frames got through, in order and each exact, if and only if no round
of the run misreads a short foreign frame. -/
theorem rounds_exact (rounds : List Round) (hflight : ∀ r ∈ rounds, r.flight < 2 ^ 29) :
    Measured (ranging.log {} rounds) = (rounds.filter Round.complete).map Round.exact ↔
      ranging.Along (fun r s => ¬r.Misread s) {} rounds := by
  have hrun : ∀ (s : Radios), Polling s.initiator → Reached s.responder →
      (Measured (ranging.log s rounds) = (rounds.filter Round.complete).map Round.exact ↔
        ranging.Along (fun r s => ¬r.Misread s) s rounds) := by
    induction rounds with
    | nil => exact fun _ _ _ => iff_of_true rfl trivial
    | cons r rest ih =>
      intro s hpolling hreached
      obtain ⟨hpolling', hreached', hread, hmisread⟩ := round_step r s hpolling hreached
        (hflight r List.mem_cons_self)
      have hflight' : ∀ r ∈ rest, r.flight < 2 ^ 29 := fun r hr => hflight r (List.mem_cons_of_mem _ hr)
      rw [exact_cons, Machine.log_cons, Measured, List.map_append, ← Measured, ← Measured, Machine.Along]
      by_cases h : r.Misread s
      · refine iff_of_false ?_ fun hall => hall.1 h
        intro hsame
        -- one measurement too many, and no later round makes up for it
        have hlength := congrArg List.length hsame
        obtain ⟨hincomplete, hone⟩ := hmisread h
        have hrest := complete_le_measured rest _ hpolling' hreached' hflight'
        simp only [List.length_append, hone, hincomplete, Bool.false_eq_true, if_false,
          List.length_nil] at hlength
        omega
      · rw [hread h, List.append_cancel_left_eq, ih hflight' _ hpolling' hreached']
        exact (and_iff_right h).symm
  exact hrun {} (by unfold Polling; decide) ⟨[], rfl⟩

theorem noBytes_fits : ([] : List (BitVec 8)).length ≤ 127 := Nat.zero_le 127

def noBytes : Frame := ⟨[], noBytes_fits⟩

theorem noBytes_other : ¬RangeRx.IsResponse noBytes := by
  unfold RangeRx.IsResponse
  decide

/-- A round in which both frames get through. -/
def measuredRound : Round :=
  ⟨[⟨.good noBytes, 9, true⟩], 0xFFFFFFFFFF#40, 3, 120, .arrives 1 2, true, .arrives 3 4⟩

/-- A round whose response is drowned by a frame of no bytes. -/
def drownedRound : Round :=
  ⟨[⟨.error, 5, true⟩], 12, 0xFFFFFFFFFF#40, 120, .arrives 1 2, true,
    .drowned ⟨noBytes, noBytes_other⟩ 900⟩

/-- The frame of no bytes is harmless before the first response, and is misread after it. -/
theorem rounds_exact_drowned :
    Measured (ranging.log {} [⟨[], 0xFFFFFFFFF0#40, 77, 120, .lost, true, .arrives 0 0⟩,
        drownedRound, measuredRound]) =
      [(((interval 122 : Nat) : Int), ((interval 122 : Nat) : Int) + 2 * (120 : Nat))] ∧
    Measured (ranging.log {} [measuredRound, drownedRound]) ≠
      [(((interval 122 : Nat) : Int), ((interval 122 : Nat) : Int) + 2 * (120 : Nat))] := by
  constructor
  · refine (rounds_exact _ (by simp [measuredRound, drownedRound])).mpr ⟨?_, ?_, ?_, trivial⟩
    · simp [Round.Misread]
    · rintro ⟨foreign, rxTimestamp, hresponse, -, hread⟩
      obtain ⟨rfl, -⟩ := ResponseFate.drowned.inj hresponse
      exact absurd (hread 0 (by decide) (by decide)) (by decide)
    · simp [Round.Misread, measuredRound]
  · intro hsame
    obtain ⟨-, hread, -⟩ := (rounds_exact [measuredRound, drownedRound]
      (by simp [measuredRound, drownedRound])).mp hsame
    refine hread ⟨_, _, rfl, by decide, by decide⟩

end MakerSpace.Ranging
