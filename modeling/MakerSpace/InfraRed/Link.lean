import MakerSpace.InfraRed.Protocols
import MakerSpace.InfraRed.Capture
import Mathlib.Data.List.Forall2

/-! From the sender to the decoder, through the air and the sampling interrupt.

What is sent is a list of intervals; each reaches the receiver longer or shorter by at
most `δ` microseconds, and the interrupt samples the result every 50 µs from any phase.
A protocol is `Legible δ` when no interval can then be taken for another one.

`link_roundtrip`: the decoder finds the word that was sent, in every legible protocol,
in either bit order, with or without a stop bit. `protocols_legible`: every protocol of
the library is legible at 37 µs. -/
namespace MakerSpace.InfraRed
open Codec.Wave Codec.BitStream

/-! ### Intervals -/

def IrOut.micros : IrOut → Option Nat
  | .mark us => some us
  | .space us => some us
  | _ => none

def durations (outs : List IrOut) : List Nat := outs.filterMap IrOut.micros

/-- The outputs are marks and spaces in turn. -/
def Alternating (mark : Bool) : List IrOut → Prop
  | [] => True
  | .mark _ :: rest => mark = true ∧ Alternating false rest
  | .space _ :: rest => mark = false ∧ Alternating true rest
  | _ :: _ => False

/-- An interval of `us` microseconds, received up to `δ` off, is sampled `ticks` times. -/
def Near (δ us ticks : Nat) : Prop :=
  us < ticks * microsPerTick + microsPerTick + δ ∧ ticks * microsPerTick < us + microsPerTick + δ

/-- Every interval is sampled at least once and fits a buffer entry, and no space is
taken for a gap. -/
def Clean (δ : Nat) (mark : Bool) : List Nat → Prop
  | [] => True
  | us :: rest => microsPerTick + δ ≤ us ∧
    us + microsPerTick + δ ≤ (if mark then 256 else recordGapTicks) * microsPerTick ∧
    Clean δ (!mark) rest

theorem near_of_jitter {δ phase : Nat} (hphase : phase < microsPerTick) {sent received : List Nat}
    (h : List.Forall₂ (fun us got => us ≤ got + δ ∧ got ≤ us + δ) sent received) :
    List.Forall₂ (Near δ) sent (counts microsPerTick phase received) := by
  induction h generalizing phase with
  | nil => exact .nil
  | @cons us got sent received hgot _ ih =>
    have hnear := counts_near hphase (got :: received)
    rw [counts] at hnear ⊢
    obtain ⟨hcount, -⟩ := List.forall₂_cons.mp hnear
    refine .cons ⟨?_, ?_⟩ (ih (next_phase_lt hphase got))
    · omega
    · omega

theorem near_lt {δ us ticks bound : Nat} (h : Near δ us ticks)
    (hbound : us + microsPerTick + δ ≤ bound * microsPerTick) : ticks < bound := by
  have := h.2
  exact Nat.lt_of_mul_lt_mul_right (Nat.lt_of_lt_of_le this hbound)

theorem near_pos {δ us ticks : Nat} (h : Near δ us ticks) (hlong : microsPerTick + δ ≤ us) :
    0 < ticks := by
  have := h.1
  by_contra h0
  have : ticks = 0 := by omega
  subst this
  omega

/-- Every space is shorter than the record gap. -/
def Snug (mark : Bool) : List Nat → Prop
  | [] => True
  | k :: rest => (mark = false → k < recordGapTicks) ∧ Snug (!mark) rest

theorem snug_of_clean {δ : Nat} {mark : Bool} {sent runs : List Nat} (hclean : Clean δ mark sent)
    (h : List.Forall₂ (Near δ) sent runs) : Snug mark runs := by
  induction h generalizing mark with
  | nil => trivial
  | cons hnear _ ih =>
    obtain ⟨-, hshort, hrest⟩ := hclean
    refine ⟨fun hmark => ?_, ih hrest⟩
    rw [hmark] at hshort
    exact near_lt hnear hshort

/-- Clean intervals are seen as a frame, each run within a buffer entry. -/
theorem framed_of_clean {δ : Nat} {mark : Bool} {sent runs : List Nat} (hclean : Clean δ mark sent)
    (h : List.Forall₂ (Near δ) sent runs) : Framed mark runs ∧ ∀ k ∈ runs, k < 256 := by
  induction h generalizing mark with
  | nil => exact ⟨trivial, by simp⟩
  | @cons us k sent runs hnear _ ih =>
    obtain ⟨hlong, hshort, hrest⟩ := hclean
    obtain ⟨hframed, hfits⟩ := ih hrest
    have hk : mark = false → k < recordGapTicks := by
      intro hmark
      rw [hmark] at hshort
      exact near_lt hnear hshort
    have hk256 : k < 256 := by
      cases mark with
      | true => exact near_lt hnear hshort
      | false => exact Nat.lt_trans (hk rfl) (by decide)
    refine ⟨⟨near_pos hnear hlong, fun hmark => ?_, hframed⟩, ?_⟩
    · have := hk hmark
      omega
    · intro j hj
      rcases List.mem_cons.mp hj with rfl | hj
      · exact hk256
      · exact hfits j hj

/-! ### Legible protocols -/

/-- However it is received, the interval lies between the bounds. -/
def Accepts (δ us lo hi : Nat) : Prop := lo * microsPerTick + δ ≤ us ∧ us + δ ≤ hi * microsPerTick

/-- However it is received, the interval lies outside the bounds. -/
def Rejects (δ us lo hi : Nat) : Prop :=
  us + microsPerTick + δ ≤ lo * microsPerTick ∨ hi * microsPerTick + microsPerTick + δ ≤ us

theorem accepts_near {δ us lo hi ticks : Nat} (h : Accepts δ us lo hi) (hnear : Near δ us ticks) :
    lo ≤ ticks ∧ ticks ≤ hi := by
  simp only [Accepts, Near, microsPerTick] at h hnear
  omega

theorem rejects_near {δ us lo hi ticks : Nat} (h : Rejects δ us lo hi) (hnear : Near δ us ticks) :
    ¬(lo ≤ ticks ∧ ticks ≤ hi) := by
  simp only [Rejects, Near, microsPerTick] at h hnear
  omega

/-- The value both matching functions compare with. -/
def markValue (us : Nat) : Nat := (us + markExcessMicros) % 0x10000
def spaceValue (us : Nat) : Nat := (us + 0x10000 - markExcessMicros) % 0x10000

theorem matchMark_iff (ticks us : Nat) : matchMark ticks us = true ↔
    ticksLow (markValue us) ≤ ticks ∧ ticks ≤ ticksHigh (markValue us) := by
  rw [matchMark, Bool.and_eq_true, decide_eq_true_eq, decide_eq_true_eq, markValue]

theorem matchSpace_iff (ticks us : Nat) : matchSpace ticks us = true ↔
    ticksLow (spaceValue us) ≤ ticks ∧ ticks ≤ ticksHigh (spaceValue us) := by
  rw [matchSpace, Bool.and_eq_true, decide_eq_true_eq, decide_eq_true_eq, spaceValue]

structure Legible (δ : Nat) (c : PulseDistanceWidthProtocolConstants) : Prop where
  header : Clean δ true
    [c.distanceWidthTimingInfo.headerMarkMicros, c.distanceWidthTimingInfo.headerSpaceMicros]
  one : Clean δ true
    [c.distanceWidthTimingInfo.oneMarkMicros, c.distanceWidthTimingInfo.oneSpaceMicros]
  zero : Clean δ true
    [c.distanceWidthTimingInfo.zeroMarkMicros, c.distanceWidthTimingInfo.zeroSpaceMicros]
  /-- Pulse distance: the spaces tell the bits apart, and a stop bit ends the last one. -/
  distance : c.distanceWidthTimingInfo.oneMarkMicros = c.distanceWidthTimingInfo.zeroMarkMicros →
    hasStopBit c.distanceWidthTimingInfo c.flags = true ∧
    Accepts δ c.distanceWidthTimingInfo.oneSpaceMicros
      (ticksLow (spaceValue c.distanceWidthTimingInfo.oneSpaceMicros))
      (ticksHigh (spaceValue c.distanceWidthTimingInfo.oneSpaceMicros)) ∧
    Rejects δ c.distanceWidthTimingInfo.zeroSpaceMicros
      (ticksLow (spaceValue c.distanceWidthTimingInfo.oneSpaceMicros))
      (ticksHigh (spaceValue c.distanceWidthTimingInfo.oneSpaceMicros))
  /-- Pulse width: the marks do. -/
  width : c.distanceWidthTimingInfo.oneMarkMicros ≠ c.distanceWidthTimingInfo.zeroMarkMicros →
    Accepts δ c.distanceWidthTimingInfo.oneMarkMicros
      (ticksLow (markValue c.distanceWidthTimingInfo.oneMarkMicros))
      (ticksHigh (markValue c.distanceWidthTimingInfo.oneMarkMicros)) ∧
    Rejects δ c.distanceWidthTimingInfo.zeroMarkMicros
      (ticksLow (markValue c.distanceWidthTimingInfo.oneMarkMicros))
      (ticksHigh (markValue c.distanceWidthTimingInfo.oneMarkMicros))
  /-- Sender and decoder take the same bit order from the flags. -/
  order : (c.flags &&& protocolIsMsbFirst != 0) = (c.flags != 0)

/-- **Every protocol of the library is legible** at 37 µs. -/
theorem protocols_legible : ∀ c ∈ protocols, Legible 37 c := by
  intro c hc
  simp only [protocols, List.mem_cons, List.not_mem_nil, or_false] at hc
  rcases hc with rfl | rfl | rfl | rfl | rfl | rfl | rfl | rfl | rfl | rfl | rfl | rfl | rfl | rfl |
    rfl | rfl
  all_goals
    constructor <;> first | decide | (simp only [Clean, Accepts, Rejects]; decide)

/-! ### The frame on the line -/

theorem durations_append (a b : List IrOut) : durations (a ++ b) = durations a ++ durations b :=
  List.filterMap_append

theorem durations_flatMap (t : DistanceWidthTimingInfo) (bits : List Bool) :
    durations (bits.flatMap t.bit) = bits.flatMap fun bit => durations (t.bit bit) := by
  induction bits with
  | nil => rfl
  | cons bit rest ih => rw [List.flatMap_cons, List.flatMap_cons, durations_append, ih]

/-- The bits a frame carries, in the order they are sent. -/
def frameBits (c : PulseDistanceWidthProtocolConstants) (data : BitVec 32) (numberOfBits : Nat) :
    List Bool :=
  bitsOf (c.flags &&& protocolIsMsbFirst != 0) numberOfBits data

def stopBit (c : PulseDistanceWidthProtocolConstants) : List IrOut :=
  if hasStopBit c.distanceWidthTimingInfo c.flags then [.mark c.distanceWidthTimingInfo.oneMarkMicros]
  else []

theorem sendFrame_eq (c : PulseDistanceWidthProtocolConstants) (data : BitVec 32) {numberOfBits : Nat}
    (h : numberOfBits ≤ 32) :
    sendFrame c data numberOfBits =
      [.mark c.distanceWidthTimingInfo.headerMarkMicros,
        .space c.distanceWidthTimingInfo.headerSpaceMicros] ++
      ((frameBits c data numberOfBits).flatMap c.distanceWidthTimingInfo.bit ++ stopBit c) := by
  rw [sendFrame, sendPulseDistanceWidthData_eq c data h]
  rfl

/-- A frame is marks and spaces in turn, so its durations are all there is to it. -/
theorem sendFrame_alternating (c : PulseDistanceWidthProtocolConstants) (data : BitVec 32)
    {numberOfBits : Nat} (h : numberOfBits ≤ 32) :
    Alternating true (sendFrame c data numberOfBits) := by
  have hbits : ∀ bits : List Bool,
      Alternating true (bits.flatMap c.distanceWidthTimingInfo.bit ++ stopBit c) := by
    intro bits
    induction bits with
    | nil =>
      rw [List.flatMap_nil, List.nil_append, stopBit]
      split
      · exact ⟨rfl, trivial⟩
      · trivial
    | cons bit rest ih => cases bit <;> exact ⟨rfl, rfl, ih⟩
  rw [sendFrame_eq c data h]
  exact ⟨rfl, rfl, hbits _⟩

theorem durations_bit_clean {δ : Nat} {c : PulseDistanceWidthProtocolConstants} (h : Legible δ c)
    (bit : Bool) {rest : List Nat} (hrest : Clean δ true rest) :
    Clean δ true (durations (c.distanceWidthTimingInfo.bit bit) ++ rest) := by
  cases bit with
  | false =>
    obtain ⟨hlong, hshort, hlong', hshort', -⟩ := h.zero
    exact ⟨hlong, hshort, hlong', hshort', hrest⟩
  | true =>
    obtain ⟨hlong, hshort, hlong', hshort', -⟩ := h.one
    exact ⟨hlong, hshort, hlong', hshort', hrest⟩

theorem clean_bits {δ : Nat} {c : PulseDistanceWidthProtocolConstants} (h : Legible δ c)
    (bits : List Bool) :
    Clean δ true (durations (bits.flatMap c.distanceWidthTimingInfo.bit ++ stopBit c)) := by
  induction bits with
  | nil =>
    rw [List.flatMap_nil, List.nil_append, stopBit]
    split
    · obtain ⟨hlong, hshort, -⟩ := h.one
      exact ⟨hlong, hshort, trivial⟩
    · trivial
  | cons bit rest ih =>
    rw [List.flatMap_cons, List.append_assoc, durations_append]
    exact durations_bit_clean h bit ih

theorem clean_frame {δ : Nat} {c : PulseDistanceWidthProtocolConstants} (h : Legible δ c)
    (data : BitVec 32) {numberOfBits : Nat} (hbits : numberOfBits ≤ 32) :
    Clean δ true (durations (sendFrame c data numberOfBits)) := by
  obtain ⟨hlong, hshort, hlong', hshort', -⟩ := h.header
  rw [sendFrame_eq c data hbits]
  exact ⟨hlong, hshort, hlong', hshort', clean_bits h _⟩

/-! ### The frame in the buffer -/

/-- The entries of a received pair are read as the bit that was sent. -/
theorem readBit_near {δ : Nat} {c : PulseDistanceWidthProtocolConstants} (h : Legible δ c) (bit : Bool)
    {m s : Nat} {ptr : List (BitVec 8)}
    (hpair : List.Forall₂ (Near δ) (durations (c.distanceWidthTimingInfo.bit bit)) [m, s])
    (hm : m < 256) (hs : s < 256) (hmark : ptr[0]? = some (ticksOf m))
    (hspace : c.distanceWidthTimingInfo.oneMarkMicros = c.distanceWidthTimingInfo.zeroMarkMicros →
      ptr[1]? = some (ticksOf s)) :
    readBit c.distanceWidthTimingInfo.oneMarkMicros c.distanceWidthTimingInfo.oneSpaceMicros
      c.distanceWidthTimingInfo.zeroMarkMicros ptr = some bit := by
  rw [readBit]
  split
  · next heq =>
    obtain ⟨-, haccepts, hrejects⟩ := h.distance heq
    rw [hspace heq, Option.map_some, ticksOf_toNat hs, Option.some_inj]
    cases bit with
    | false =>
      obtain ⟨-, hpair⟩ := List.forall₂_cons.mp hpair
      rw [← Bool.not_eq_true, matchSpace_iff]
      exact rejects_near hrejects (List.forall₂_cons.mp hpair).1
    | true =>
      obtain ⟨-, hpair⟩ := List.forall₂_cons.mp hpair
      rw [matchSpace_iff]
      exact accepts_near haccepts (List.forall₂_cons.mp hpair).1
  · next hne =>
    obtain ⟨haccepts, hrejects⟩ := h.width hne
    rw [hmark, Option.map_some, ticksOf_toNat hm, Option.some_inj]
    cases bit with
    | false =>
      rw [← Bool.not_eq_true, matchMark_iff]
      exact rejects_near hrejects (List.forall₂_cons.mp hpair).1
    | true =>
      rw [matchMark_iff]
      exact accepts_near haccepts (List.forall₂_cons.mp hpair).1

/-- The last space of a pulse width code may be missing. -/
def needed (c : PulseDistanceWidthProtocolConstants) (numberOfBits : Nat) : Nat :=
  if c.distanceWidthTimingInfo.oneMarkMicros = c.distanceWidthTimingInfo.zeroMarkMicros then
    2 * numberOfBits
  else 2 * numberOfBits - 1

/-- What is received of the bits is read as them, whatever else the buffer holds. -/
theorem reads_near {δ : Nat} {c : PulseDistanceWidthProtocolConstants} (h : Legible δ c)
    (bits : List Bool) {tail runs : List Nat} {count : Nat} (more : List (BitVec 8))
    (hnear : List.Forall₂ (Near δ)
      ((bits.flatMap fun bit => durations (c.distanceWidthTimingInfo.bit bit)) ++ tail) runs)
    (hfits : ∀ k ∈ runs, k < 256) (hcount : needed c bits.length ≤ count) :
    Reads c.distanceWidthTimingInfo.oneMarkMicros c.distanceWidthTimingInfo.oneSpaceMicros
      c.distanceWidthTimingInfo.zeroMarkMicros bits ((runs.take count).map ticksOf ++ more) := by
  induction bits generalizing runs count with
  | nil => trivial
  | cons bit rest ih =>
    obtain ⟨a, b, hab⟩ : ∃ a b, durations (c.distanceWidthTimingInfo.bit bit) = [a, b] := by
      cases bit <;> exact ⟨_, _, rfl⟩
    rw [List.flatMap_cons, hab, List.append_assoc] at hnear
    cases hnear with
    | @cons _ m _ _ hm hnear =>
      cases hnear with
      | @cons _ s _ runs hs hnear =>
        have hpair : List.Forall₂ (Near δ) (durations (c.distanceWidthTimingInfo.bit bit)) [m, s] := by
          rw [hab]
          exact .cons hm (.cons hs .nil)
        have hm256 := hfits m (by simp)
        have hs256 := hfits s (by simp)
        rw [needed, List.length_cons] at hcount
        cases count with
        | zero => split at hcount <;> omega
        | succ count =>
          cases count with
          | zero =>
            -- only the mark is there: the last bit of a pulse width code
            have hne : c.distanceWidthTimingInfo.oneMarkMicros ≠
                c.distanceWidthTimingInfo.zeroMarkMicros := by
              intro heq
              rw [if_pos heq] at hcount
              omega
            rw [if_neg hne] at hcount
            obtain rfl : rest = [] := List.eq_nil_of_length_eq_zero (by omega)
            exact ⟨readBit_near h bit hpair hm256 hs256 rfl fun heq => absurd heq hne, trivial⟩
          | succ count =>
            refine ⟨readBit_near h bit hpair hm256 hs256 rfl fun _ => rfl, ?_⟩
            refine ih hnear (fun k hk => hfits k (by simp [hk])) ?_
            rw [needed]
            split at hcount <;> simp_all <;> omega

theorem durations_bits_length (t : DistanceWidthTimingInfo) (bits : List Bool) :
    (bits.flatMap fun bit => durations (t.bit bit)).length = 2 * bits.length := by
  induction bits with
  | nil => rfl
  | cons bit rest ih =>
    have hbit : (durations (t.bit bit)).length = 2 := by cases bit <;> rfl
    rw [List.flatMap_cons, List.length_append, ih, hbit, List.length_cons]
    omega

/-- The bits of a frame lie within what is captured of it. -/
theorem needed_le {δ : Nat} {c : PulseDistanceWidthProtocolConstants} (h : Legible δ c)
    (numberOfBits : Nat) {runs : List Nat}
    (hlen : runs.length = 2 + (2 * numberOfBits + (durations (stopBit c)).length)) :
    needed c numberOfBits ≤ captureCount runs - 2 := by
  rw [needed, captureCount, hlen, stopBit]
  split
  · next heq =>
    rw [if_pos (h.distance heq).1]
    show 2 * numberOfBits ≤ (if (2 + (2 * numberOfBits + 1)) % 2 = 1 then _ else _) - 2
    rw [if_pos (by omega)]
    omega
  · split
    · show _ ≤ (if (2 + (2 * numberOfBits + 1)) % 2 = 1 then _ else _) - 2
      rw [if_pos (by omega)]
      omega
    · show _ ≤ (if (2 + (2 * numberOfBits + 0)) % 2 = 1 then _ else _) - 2
      rw [if_neg (by omega)]
      omega

/-- The decoder reads the captured runs of a frame as the word it carries. -/
theorem decode_near {n δ : Nat} {c : PulseDistanceWidthProtocolConstants} (hleg : Legible δ c)
    (data : BitVec 32) {numberOfBits : Nat} (hbits : numberOfBits ≤ 32) {runs : List Nat}
    (hnear : List.Forall₂ (Near δ) (durations (sendFrame c data numberOfBits)) runs)
    {p : IrParams n} (hrecorded : p.recorded = (runs.take (captureCount runs)).map ticksOf) :
    decodePulseDistanceWidthData c p.rawbuf.toList numberOfBits 3 =
      some ((data.setWidth numberOfBits).setWidth 32) := by
  obtain ⟨-, h256⟩ := framed_of_clean (clean_frame hleg data hbits) hnear
  have hlen := hnear.length_eq
  rw [sendFrame_eq c data hbits, durations_append, durations_append, durations_flatMap] at hnear hlen
  have hbitsLen : (frameBits c data numberOfBits).length = numberOfBits := bitsOf_length _ _ _
  rw [List.length_append, List.length_append, durations_bits_length, hbitsLen] at hlen
  have hneeded := needed_le hleg numberOfBits hlen.symm
  have hreads : Reads c.distanceWidthTimingInfo.oneMarkMicros c.distanceWidthTimingInfo.oneSpaceMicros
      c.distanceWidthTimingInfo.zeroMarkMicros (frameBits c data numberOfBits)
      (p.rawbuf.toList.drop 3) := by
    cases hnear with
    | @cons _ m _ _ hm hnear =>
      cases hnear with
      | @cons _ s _ runs hs hnear =>
        cases hcount : captureCount (m :: s :: runs) - 2 with
        | zero =>
          have hnone : numberOfBits = 0 := by
            rw [hcount, needed] at hneeded
            split at hneeded <;> omega
          rw [List.eq_nil_of_length_eq_zero (hbitsLen.trans hnone)]
          trivial
        | succ count =>
          have htake : p.recorded = ticksOf m :: ticksOf s :: (runs.take (count + 1)).map ticksOf := by
            rw [hrecorded, show captureCount (m :: s :: runs) = count + 1 + 2 by omega]
            rfl
          obtain ⟨first, more, hbuf⟩ := p.rawbuf_eq (by rw [htake]; exact List.cons_ne_nil _ _)
          rw [hbuf, htake]
          refine reads_near hleg _ more hnear (fun k hk => h256 k (by simp [hk])) ?_
          rwa [hbitsLen, ← hcount]
  rw [decodePulseDistanceWidthData, ← hbitsLen]
  show decodeBits _ _ _ (c.flags != 0) _ _ _ _ = _
  rw [decodeBits_reads hreads, ← hleg.order, frameBits, gather_bitsOf, bitsOf_length]

/-- **From sender to decoder.** A frame of a legible protocol, every interval off by at
most `δ` and sampled from any phase, reaches an idle receiver after a gap; once the gap
after it is long enough the decoder finds the low bits of the word that was sent. -/
theorem link_roundtrip {n δ : Nat} {c : PulseDistanceWidthProtocolConstants} (hleg : Legible δ c)
    (data : BitVec 32) {numberOfBits : Nat} (hbits : numberOfBits ≤ 32) {received : List Nat}
    (hjitter : List.Forall₂ (fun us got => us ≤ got + δ ∧ got ≤ us + δ)
      (durations (sendFrame c data numberOfBits)) received)
    {phase : Nat} (hphase : phase < microsPerTick) {r : IrReceiver n} {k : Nat}
    (hidle : r.irparams.stateForISR = .idle)
    (hticks : r.irparams.tickCounterForISR = min k uint16Max) (hgap : recordGapTicks ≤ k)
    (hfits : received.length < n) {quiet : Nat} (hquiet : recordGapTicks + 2 ≤ quiet) :
    ∃ r', listen (samples microsPerTick phase true received ++ List.replicate quiet false) r = some r' ∧
      r'.irparams.stateForISR = .stop ∧ r'.irparams.overflowFlag = false ∧
      decodePulseDistanceWidthData c r'.irparams.rawbuf.toList numberOfBits 3 =
        some ((data.setWidth numberOfBits).setWidth 32) := by
  have hnear := near_of_jitter hphase hjitter
  obtain ⟨hframed, -⟩ := framed_of_clean (clean_frame hleg data hbits) hnear
  have hne : counts microsPerTick phase received ≠ [] := by
    intro h0
    rw [h0, List.forall₂_nil_right_iff] at hnear
    cases hnear
  obtain ⟨r', hlisten, hcaptured⟩ := listen_frame hidle hticks hgap hframed hne
    (by rwa [counts_length]) hquiet
  rw [samples_eq_wave hphase]
  exact ⟨r', hlisten, hcaptured.state, hcaptured.overflow, decode_near hleg data hbits hnear
    hcaptured.recorded⟩

/-- An idle receiver after a gap. -/
def rested (n : Nat) : IrReceiver n := {irparams := {tickCounterForISR := recordGapTicks}}

/-- **Every protocol of the library reaches the decoder**, with every interval off by at
most 37 µs. -/
theorem protocols_roundtrip {n : Nat} {c : PulseDistanceWidthProtocolConstants} (hc : c ∈ protocols)
    (data : BitVec 32) {numberOfBits : Nat} (hbits : numberOfBits ≤ 32) {received : List Nat}
    (hjitter : List.Forall₂ (fun us got => us ≤ got + 37 ∧ got ≤ us + 37)
      (durations (sendFrame c data numberOfBits)) received)
    {phase : Nat} (hphase : phase < microsPerTick) {r : IrReceiver n} {k : Nat}
    (hidle : r.irparams.stateForISR = .idle)
    (hticks : r.irparams.tickCounterForISR = min k uint16Max) (hgap : recordGapTicks ≤ k)
    (hfits : received.length < n) {quiet : Nat} (hquiet : recordGapTicks + 2 ≤ quiet) :
    ∃ r', listen (samples microsPerTick phase true received ++ List.replicate quiet false) r = some r' ∧
      r'.irparams.stateForISR = .stop ∧ r'.irparams.overflowFlag = false ∧
      decodePulseDistanceWidthData c r'.irparams.rawbuf.toList numberOfBits 3 =
        some ((data.setWidth numberOfBits).setWidth 32) :=
  link_roundtrip (protocols_legible c hc) data hbits hjitter hphase hidle hticks hgap hfits hquiet

theorem protocols_roundtrip_sony :
    ∃ r', listen (samples microsPerTick 7 true (durations (sendFrame sonyProtocolConstants 0x3A95 15)) ++
        List.replicate 200 false) (rested 200) = some r' ∧
      r'.irparams.stateForISR = .stop ∧ r'.irparams.overflowFlag = false ∧
      decodePulseDistanceWidthData sonyProtocolConstants r'.irparams.rawbuf.toList 15 3 =
        some (((0x3A95 : BitVec 32).setWidth 15).setWidth 32) :=
  protocols_roundtrip (by simp [protocols]) 0x3A95 (by decide)
    (List.forall₂_same.mpr fun us _ => ⟨Nat.le_add_right us _, Nat.le_add_right us _⟩)
    (by decide) rfl rfl (Nat.le_refl _) (by decide) (by decide)

end MakerSpace.InfraRed
