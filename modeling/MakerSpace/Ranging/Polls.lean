import MakerSpace.Ranging.RangeTx

/-! Which frames the responder answers.

The comparison with the poll runs over ten bytes of a buffer that a short frame only
partly overwrites, so the rest is decided by earlier traffic: `empty_frame_answered`
is an empty frame answered because a poll came before it.

`rxBuffer_run` says what the buffer holds after any traffic: each byte is that of the
last frame that reached it. `answers_polls_iff`: every pass of a run answers exactly
the polls when no frame shorter than ten bytes is completed to a poll by what earlier
frames left. -/
namespace MakerSpace.Ranging.RangeTx
open Reactive

/-- The frame is a poll, its sequence number aside. -/
def IsPoll (reception : Reception) : Prop :=
  ∃ frame, reception = .good frame ∧ 10 ≤ frame.bytes.length ∧ frame.bytes.length ≤ 20 ∧
    ∀ j < 10, j ≠ 2 → frame.bytes[j]? = rxPollMsg[j]?

/-- Byte `j` of the last frame that fitted and reached it; 0 if there was none. -/
def heard (history : List Iteration) (j : Nat) : BitVec 8 :=
  ((history.filterMap fun i => (fitting i.reception).bind (·[j]?)).getLast?).getD 0

/-- The frame is shorter than the part compared, and with the bytes it lacks taken from
earlier frames it reads as a poll. -/
def Leftover (history : List Iteration) (i : Iteration) : Prop :=
  ∃ frame, i.reception = .good frame ∧ frame.bytes.length < 10 ∧
    ∀ j < 10, j ≠ 2 → some (heard (history ++ [i]) j) = rxPollMsg[j]?

/-! ### What the buffer holds -/

theorem heard_concat (history : List Iteration) (i : Iteration) (j : Nat) :
    heard (history ++ [i]) j = ((fitting i.reception).bind (·[j]?)).getD (heard history j) := by
  rw [heard, List.filterMap_append, List.getLast?_append, List.filterMap_cons]
  cases (fitting i.reception).bind (·[j]?) with
  | none => rfl
  | some b => rfl

theorem receive_get (bytes : List (BitVec 8)) (h : bytes.length ≤ 20) (s : State) {k : Nat}
    (hk : k < 20) :
    (receive bytes h s).rxBuffer[k] = if k = 2 then 0 else bytes[k]?.getD s.rxBuffer[k] := by
  simp only [receive, allMsgSnIdx, Vector.getElem_set, dwtReadrxdata_get, eq_comm]

theorem next_rxBuffer (i : Iteration) (s : State) {k : Nat} (hk : k < 20) (hne : k ≠ 2) :
    (responder.next i s).rxBuffer[k] =
      ((fitting i.reception).bind (·[k]?)).getD s.rxBuffer[k] := by
  show (loop i s).1.rxBuffer[k] = _
  rcases loop_cases i s with ⟨hnone, hs, -⟩ | ⟨bytes, h, hsome, ⟨-, hs, -⟩ | ⟨-, hs, -⟩⟩
  · simp only [hs, hnone]
    rfl
  · simp only [hs, hsome]
    show (receive bytes h s).rxBuffer[k] = _
    rw [receive_get bytes h s hk, if_neg hne, Option.bind_some]
  · simp only [hs, hsome, receive_get bytes h s hk, if_neg hne, Option.bind_some]

/-- **The buffer is what was last heard**: after any traffic each byte but the sequence
number is the one of the last frame that reached it. -/
theorem rxBuffer_run (history : List Iteration) {k : Nat} (hk : k < 20) (hne : k ≠ 2) :
    (responder.run powerUp history).rxBuffer[k] = heard history k := by
  induction history using List.reverseRecOn with
  | nil => simp [powerUp, heard]
  | append_singleton history i ih =>
    simp only [Machine.run_concat, next_rxBuffer i _ hk hne, ih, heard_concat]

/-! ### The decision -/

/-- The buffer a fitting frame leaves reads as a poll when what was heard does. -/
theorem receive_poll_iff (history : List Iteration) (i : Iteration) {bytes : List (BitVec 8)}
    (h : bytes.length ≤ 20) (hfit : fitting i.reception = some bytes) :
    (∀ j < allMsgCommonLen,
        (receive bytes h (responder.run powerUp history)).rxBuffer[j]? = rxPollMsg[j]?) ↔
      ∀ j < 10, j ≠ 2 → some (heard (history ++ [i]) j) = rxPollMsg[j]? := by
  refine forall_congr' fun j => forall_congr' fun hj => ?_
  have hk : j < 20 := Nat.lt_trans hj (by decide)
  rw [Vector.getElem?_eq_getElem hk, receive_get bytes h _ hk]
  split_ifs with hsn
  · simp [hsn, rxPollMsg]
  · simp only [rxBuffer_run history hk hsn, heard_concat, hfit, Option.bind_some, ne_eq, hsn,
      not_false_eq_true, forall_const]

/-- A pass answers when its frame fits and what was heard, the frame included, reads as
a poll. -/
theorem responds_iff (history : List Iteration) (i : Iteration) :
    Responds (responder.out i (responder.run powerUp history)) ↔
      (∃ bytes, fitting i.reception = some bytes) ∧
        ∀ j < 10, j ≠ 2 → some (heard (history ++ [i]) j) = rxPollMsg[j]? := by
  show Responds (loop i (responder.run powerUp history)).2 ↔ _
  rcases loop_cases i (responder.run powerUp history) with
    ⟨hnone, -, hsilent⟩ | ⟨bytes, h, hfit, ⟨hpoll, -, hcalls⟩ | ⟨hpoll, -, hsilent⟩⟩
  · refine iff_of_false (silent_not_responds hsilent) ?_
    intro hpoll
    obtain ⟨⟨bytes, hfit⟩, -⟩ := hpoll
    rw [hnone] at hfit
    cases hfit
  · obtain ⟨⟨time, htime⟩, hstart⟩ := respond_responds i (receive bytes h _)
    rw [hcalls]
    refine iff_of_true ⟨⟨time, ?_⟩, ?_⟩ ⟨⟨bytes, hfit⟩, (receive_poll_iff history i h hfit).mp hpoll⟩
    · exact List.mem_append_right _ htime
    · exact List.mem_append_right _ hstart
  · refine iff_of_false (silent_not_responds hsilent) ?_
    intro hread
    exact hpoll ((receive_poll_iff history i h hfit).mpr hread.2)

/-- One pass decides by its own frame exactly when it is not completed by leftovers. -/
theorem responds_iff_isPoll (history : List Iteration) (i : Iteration) :
    (Responds (responder.out i (responder.run powerUp history)) ↔ IsPoll i.reception) ↔
      ¬Leftover history i := by
  rw [responds_iff]
  unfold IsPoll Leftover
  cases hreception : i.reception with
  | error => simp [fitting]
  | good frame =>
    simp only [fitting, Reception.good.injEq, exists_eq_left']
    by_cases hfits : frame.bytes.length ≤ 20
    · simp only [if_pos hfits, Option.some.injEq, exists_eq', true_and]
      by_cases hlong : 10 ≤ frame.bytes.length
      · have howns : ∀ j < 10, some (heard (history ++ [i]) j) = frame.bytes[j]? := by
          intro j hj
          have hlt : j < frame.bytes.length := by omega
          simp [heard_concat, hreception, fitting, hfits, hlt]
        have hsame : (∀ j < 10, j ≠ 2 → some (heard (history ++ [i]) j) = rxPollMsg[j]?) ↔
            ∀ j < 10, j ≠ 2 → frame.bytes[j]? = rxPollMsg[j]? :=
          forall_congr' fun j => forall_congr' fun hj => by rw [howns j hj]
        simp [hsame, hlong, hfits]
      · simp [hlong, Nat.lt_of_not_le hlong]
    · have hnotshort : ¬frame.bytes.length < 10 := by omega
      simp [hfits, hnotshort]

/-- **Which runs answer exactly the polls**: those in which no frame shorter than the
part compared is completed to a poll by what earlier frames left in the buffer. -/
theorem answers_polls_iff (inputs : List Iteration) :
    responder.Along (fun i s => Responds (responder.out i s) ↔ IsPoll i.reception) powerUp inputs ↔
      ∀ n (hn : n < inputs.length), ¬Leftover (inputs.take n) inputs[n] := by
  rw [Machine.along_iff]
  exact forall_congr' fun n => forall_congr' fun _ => responds_iff_isPoll (inputs.take n) _

/-- A poll, and a frame of no bytes. -/
def pollThenEmpty : List Iteration :=
  [⟨.good ⟨rxPollMsg, by decide⟩, 0, true⟩, ⟨.good ⟨[], by decide⟩, 0, true⟩]

theorem empty_frame_answered :
    ¬responder.Along (fun i s => Responds (responder.out i s) ↔ IsPoll i.reception) powerUp
      pollThenEmpty := by
  rw [Machine.along_iff]
  intro h
  refine (responds_iff_isPoll (pollThenEmpty.take 1) _).mp (h 1 (by decide)) ?_
  exact ⟨⟨[], by decide⟩, rfl, by decide, by decide⟩

end MakerSpace.Ranging.RangeTx
