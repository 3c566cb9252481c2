import MakerSpace.Codec.Wave
import MakerSpace.Reactive.Machine

/-! The sampling interrupt of the infrared receiver, `IRReceive.hpp` of the IRremote
library.

Every 50 µs the interrupt looks at the receiver pin and times how long it stays at
each level, in a buffer of `n` entries (`RAW_BUFFER_LENGTH`). A space longer than the
record gap ends the frame; the interrupt then waits for `resume`.

`interrupt_*` are its steps while a frame is recorded, in terms of the runs heard so
far; `capture` and `overrun` are what becomes of a whole frame. -/
namespace MakerSpace.InfraRed
open Codec.Wave

def microsPerTick : Nat := 50
def recordGapMicros : Nat := 8000
def recordGapTicks : Nat := recordGapMicros / microsPerTick
def uint16Max : Nat := 0xFFFF

inductive RecState where
  | idle
  | mark
  | space
  | stop
  deriving DecidableEq, Repr

/-- `irparams_struct`, less the pin it samples. -/
structure IrParams (n : Nat) where
  stateForISR : RecState := .idle
  tickCounterForISR : Nat := 0
  overflowFlag : Bool := false
  rawlen : Nat := 0
  initialGapTicks : Nat := 0
  rawbuf : Vector (BitVec 8) n := Vector.replicate n 0

inductive DecodeType where
  | unknown | pulseWidth | pulseDistance | apple | denon | jvc | lg | lg2 | nec | nec2 | onkyo
  | panasonic | kaseikyo | kaseikyoDenon | kaseikyoSharp | kaseikyoJvc | kaseikyoMitsubishi
  | rc5 | rc6 | rc6a | samsung | samsungLg | samsung48 | sharp | sony
  | bangOlufsen | boseWave | legoPf | magiQuest | whynter | fast
  deriving DecidableEq, Repr

/-- What the decoders fill in for the sketch. -/
structure IRData where
  protocol : DecodeType := .unknown
  address : BitVec 16 := 0
  command : BitVec 16 := 0
  decodedRawData : BitVec 32 := 0
  numberOfBits : Nat := 0
  flags : BitVec 8 := 0
  rawlen : Nat := 0
  initialGapTicks : Nat := 0
  deriving DecidableEq, Repr

/-- The interrupt's state and the decoder's. -/
structure IrReceiver (n : Nat) where
  irparams : IrParams n := {}
  decodedIRData : IRData := {}
  lastDecodedProtocol : DecodeType := .unknown
  lastDecodedAddress : BitVec 16 := 0
  lastDecodedCommand : BitVec 16 := 0

variable {n : Nat}

def powerUp (n : Nat) : IrReceiver n := {}

/-- One more tick, clipped at the counter's maximum. -/
def IrParams.count (p : IrParams n) : IrParams n :=
  if p.tickCounterForISR < uint16Max then {p with tickCounterForISR := p.tickCounterForISR + 1} else p

/-- `rawbuf[rawlen++] = TickCounterForISR`. A write past the buffer has no defined
outcome. -/
def IrParams.record (p : IrParams n) : Option (IrParams n) :=
  if h : p.rawlen < n then
    some {p with
      rawbuf := p.rawbuf.set p.rawlen (BitVec.ofNat 8 p.tickCounterForISR) h
      rawlen := p.rawlen + 1}
  else none

/-- One interrupt; `mark` when the pin reads `INPUT_MARK`. -/
def irReceiveTimerInterruptHandler (mark : Bool) (r : IrReceiver n) : Option (IrReceiver n) :=
  let p := r.irparams.count
  match p.stateForISR with
  | .idle =>
    if mark then
      -- a gap that is long enough just ended, else we are in the middle of a transmission
      if p.tickCounterForISR > recordGapTicks then
        some {r with irparams := {p with
          overflowFlag := false, initialGapTicks := p.tickCounterForISR, rawlen := 1
          stateForISR := .mark, tickCounterForISR := 0}}
      else some {r with irparams := {p with tickCounterForISR := 0}}
    else some {r with irparams := p}
  | .mark =>
    if mark then some {r with irparams := p}
    else p.record.map fun q =>
      {r with irparams := {q with stateForISR := .space, tickCounterForISR := 0}}
  | .space =>
    if mark then
      if n ≤ p.rawlen then
        some {r with irparams := {p with
          overflowFlag := true, stateForISR := .stop, tickCounterForISR := 0}}
      else p.record.map fun q =>
        {r with irparams := {q with stateForISR := .mark, tickCounterForISR := 0}}
    else if p.tickCounterForISR > recordGapTicks then
      -- the counter runs on, for the width of the next leading space
      some {r with
        decodedIRData := {r.decodedIRData with
          initialGapTicks := p.initialGapTicks, rawlen := p.rawlen}
        irparams := {p with stateForISR := .stop}}
    else some {r with irparams := p}
  | .stop =>
    if mark then some {r with irparams := {p with tickCounterForISR := 0}}
    else some {r with irparams := p}

def resume (r : IrReceiver n) : IrReceiver n :=
  if r.irparams.stateForISR = .stop then {r with irparams := {r.irparams with stateForISR := .idle}}
  else r

/-! ### The buffer -/

/-- The entries recorded so far. The first entry of the buffer is never written. -/
def IrParams.recorded (p : IrParams n) : List (BitVec 8) := (p.rawbuf.toList.take p.rawlen).tail

/-- The buffer holds the recorded entries from its second entry on. -/
theorem IrParams.rawbuf_eq (p : IrParams n) (h : p.recorded ≠ []) :
    ∃ first more, p.rawbuf.toList = first :: (p.recorded ++ more) := by
  have hsplit := (List.take_append_drop p.rawlen p.rawbuf.toList).symm
  rw [recorded] at h ⊢
  cases htake : p.rawbuf.toList.take p.rawlen with
  | nil => simp [htake] at h
  | cons first rest =>
    rw [htake] at hsplit
    exact ⟨first, p.rawbuf.toList.drop p.rawlen, hsplit⟩

/-- What a run of `k` samples is recorded as. -/
def ticksOf (k : Nat) : BitVec 8 := BitVec.ofNat 8 (min k uint16Max)

theorem ticksOf_toNat {k : Nat} (h : k < 256) : (ticksOf k).toNat = k := by
  have : min k uint16Max = k := Nat.min_eq_left (by rw [uint16Max]; omega)
  rw [ticksOf, this, BitVec.toNat_ofNat, Nat.mod_eq_of_lt h]

theorem IrParams.count_eq (p : IrParams n) :
    p.count = {p with tickCounterForISR := p.count.tickCounterForISR} := by
  unfold count
  split <;> rfl

@[simp] theorem IrParams.count_stateForISR (p : IrParams n) : p.count.stateForISR = p.stateForISR := by
  rw [count_eq]

@[simp] theorem IrParams.count_rawlen (p : IrParams n) : p.count.rawlen = p.rawlen := by
  rw [count_eq]

@[simp] theorem IrParams.count_overflowFlag (p : IrParams n) :
    p.count.overflowFlag = p.overflowFlag := by
  rw [count_eq]

@[simp] theorem IrParams.count_initialGapTicks (p : IrParams n) :
    p.count.initialGapTicks = p.initialGapTicks := by
  rw [count_eq]

@[simp] theorem IrParams.count_recorded (p : IrParams n) : p.count.recorded = p.recorded := by
  rw [count_eq, recorded, recorded]

/-- The counter counts samples, up to its maximum. -/
theorem IrParams.count_ticks {p : IrParams n} {k : Nat} (h : p.tickCounterForISR = min k uint16Max) :
    p.count.tickCounterForISR = min (k + 1) uint16Max := by
  unfold count
  split
  · show p.tickCounterForISR + 1 = _
    omega
  · omega

/-- A recorded entry joins the ones before it. -/
theorem IrParams.record_recorded {p : IrParams n} (h : p.rawlen < n) (hpos : 0 < p.rawlen) :
    ∃ buf, p.record = some {p with rawbuf := buf, rawlen := p.rawlen + 1} ∧
      (buf.toList.take (p.rawlen + 1)).tail =
        p.recorded ++ [BitVec.ofNat 8 p.tickCounterForISR] := by
  refine ⟨_, by rw [record, dif_pos h], ?_⟩
  rw [Vector.toList_set, List.take_succ_eq_append_getElem (by simpa using h),
    List.take_set_of_le (Nat.le_refl _), List.getElem_set_self, recorded,
    List.tail_append_of_ne_nil (by simp; omega)]

/-! ### While a frame is recorded

`Recording g s runs k r`: after a gap of `g` ticks the receiver has taken down `runs`
and is `k` samples past the first of another run, whose level follows the number of
runs. The decoder's part of the state is that of `s`. -/

structure Recording (g : Nat) (s : IrReceiver n) (runs : List Nat) (k : Nat) (r : IrReceiver n) :
    Prop where
  state : r.irparams.stateForISR = if runs.length % 2 = 0 then .mark else .space
  ticks : r.irparams.tickCounterForISR = min k uint16Max
  rawlen : r.irparams.rawlen = runs.length + 1
  fits : runs.length < n
  recorded : r.irparams.recorded = runs.map ticksOf
  overflow : r.irparams.overflowFlag = false
  gap : r.irparams.initialGapTicks = g
  decoder : {r with irparams := s.irparams} = s

/-- A complete frame: what it left in the buffer, and the two copies made for `decode`. -/
structure Captured (g : Nat) (s : IrReceiver n) (runs : List Nat) (r : IrReceiver n) : Prop where
  state : r.irparams.stateForISR = .stop
  overflow : r.irparams.overflowFlag = false
  recorded : r.irparams.recorded = runs.map ticksOf
  decoder : {r with irparams := s.irparams} =
    {s with decodedIRData := {s.decodedIRData with initialGapTicks := g, rawlen := runs.length + 1}}

/-- A frame that outgrew the buffer. -/
structure Overrun (s r : IrReceiver n) : Prop where
  state : r.irparams.stateForISR = .stop
  overflow : r.irparams.overflowFlag = true
  decoder : {r with irparams := s.irparams} = s

section Steps
variable {g : Nat} {s r : IrReceiver n} {runs : List Nat} {k : Nat}

theorem Recording.state_mark (h : Recording g s runs k r) (heven : runs.length % 2 = 0) :
    r.irparams.stateForISR = .mark := by
  rw [h.state, if_pos heven]

theorem Recording.state_space (h : Recording g s runs k r) (hodd : runs.length % 2 = 1) :
    r.irparams.stateForISR = .space := by
  rw [h.state, if_neg (by omega)]

/-- The first mark after a long enough gap starts a frame. -/
theorem interrupt_start (hn : 0 < n) (hstate : r.irparams.stateForISR = .idle)
    (hticks : r.irparams.tickCounterForISR = min k uint16Max) (hk : recordGapTicks ≤ k) :
    ∃ r', irReceiveTimerInterruptHandler true r = some r' ∧
      Recording (min (k + 1) uint16Max) r [] 0 r' := by
  have hticks' := IrParams.count_ticks hticks
  have hlong : r.irparams.count.tickCounterForISR > recordGapTicks := by
    rw [hticks']
    exact Nat.lt_min.mpr ⟨by omega, by decide⟩
  simp only [irReceiveTimerInterruptHandler, IrParams.count_stateForISR, hstate, if_true,
    if_pos hlong]
  refine ⟨_, rfl, rfl, by simp, rfl, hn, ?_, rfl, hticks', rfl⟩
  exact List.eq_nil_of_length_eq_zero (by
    simp only [IrParams.recorded, List.length_tail, List.length_take, Vector.length_toList]
    omega)

/-- A sample at the level of the open run lengthens it; a space has to stay within the
record gap. -/
theorem interrupt_same (h : Recording g s runs k r)
    (hk : runs.length % 2 = 1 → k < recordGapTicks) :
    ∃ r', irReceiveTimerInterruptHandler (after true runs) r = some r' ∧
      Recording g s runs (k + 1) r' := by
  refine ⟨{r with irparams := r.irparams.count}, ?_, ?_⟩
  · rcases Nat.mod_two_eq_zero_or_one runs.length with heven | hodd
    · simp only [irReceiveTimerInterruptHandler, IrParams.count_stateForISR, h.state_mark heven,
        after_even true heven, if_true]
    · have hshort : ¬r.irparams.count.tickCounterForISR > recordGapTicks := by
        have := hk hodd
        rw [IrParams.count_ticks h.ticks]
        omega
      simp only [irReceiveTimerInterruptHandler, IrParams.count_stateForISR, h.state_space hodd,
        after_odd true hodd, Bool.not_true, Bool.false_eq_true, if_false, if_neg hshort]
  · exact {
      state := by simp [h.state]
      ticks := IrParams.count_ticks h.ticks
      rawlen := by simp [h.rawlen]
      fits := h.fits
      recorded := by simp [h.recorded]
      overflow := by simp [h.overflow]
      gap := by simp [h.gap]
      decoder := h.decoder }

/-- A sample at the other level takes the run down, if there is room for it. -/
theorem interrupt_other (h : Recording g s runs k r) (hfits : runs.length + 1 < n) :
    ∃ r', irReceiveTimerInterruptHandler (!after true runs) r = some r' ∧
      Recording g s (runs ++ [k + 1]) 0 r' := by
  obtain ⟨buf, hrecord, hentries⟩ := @IrParams.record_recorded _ r.irparams.count
    (by simpa [h.rawlen] using hfits) (by simp [h.rawlen])
  have hrec : (buf.toList.take (r.irparams.rawlen + 1)).tail = (runs ++ [k + 1]).map ticksOf := by
    rw [IrParams.count_rawlen, IrParams.count_recorded, IrParams.count_ticks h.ticks, h.recorded]
      at hentries
    rw [hentries, List.map_append]
    rfl
  refine ⟨{r with irparams := {r.irparams.count with
    rawbuf := buf, rawlen := r.irparams.rawlen + 1, tickCounterForISR := 0
    stateForISR := if (runs ++ [k + 1]).length % 2 = 0 then .mark else .space}}, ?_, ?_⟩
  · rw [List.length_append, List.length_singleton]
    rcases Nat.mod_two_eq_zero_or_one runs.length with heven | hodd
    · simp only [irReceiveTimerInterruptHandler, IrParams.count_stateForISR, h.state_mark heven,
        after_even true heven, Bool.not_true, Bool.false_eq_true, if_false, hrecord, Option.map_some,
        IrParams.count_rawlen, if_neg (show ¬(runs.length + 1) % 2 = 0 by omega)]
    · have hroom : ¬n ≤ r.irparams.rawlen := by
        rw [h.rawlen]
        omega
      simp only [irReceiveTimerInterruptHandler, IrParams.count_stateForISR, h.state_space hodd,
        after_odd true hodd, Bool.not_true, Bool.not_false, if_true, IrParams.count_rawlen,
        if_neg hroom, hrecord, Option.map_some, if_pos (show (runs.length + 1) % 2 = 0 by omega)]
  · exact {
      state := rfl
      ticks := by simp
      rawlen := by simp [h.rawlen]
      fits := by simpa using hfits
      recorded := hrec
      overflow := by simp [h.overflow]
      gap := by simp [h.gap]
      decoder := h.decoder }

/-- A space as long as the record gap ends the frame. -/
theorem interrupt_stop (h : Recording g s runs k r) (hodd : runs.length % 2 = 1)
    (hk : recordGapTicks ≤ k) :
    ∃ r', irReceiveTimerInterruptHandler false r = some r' ∧ Captured g s runs r' ∧
      r'.irparams.tickCounterForISR = min (k + 1) uint16Max := by
  have hticks := IrParams.count_ticks h.ticks
  have hlong : r.irparams.count.tickCounterForISR > recordGapTicks := by
    rw [hticks]
    exact Nat.lt_min.mpr ⟨by omega, by decide⟩
  simp only [irReceiveTimerInterruptHandler, IrParams.count_stateForISR, h.state_space hodd,
    Bool.false_eq_true, if_false, if_pos hlong]
  refine ⟨_, rfl, ⟨rfl, by simp [h.overflow], ?_, ?_⟩, hticks⟩
  · exact (IrParams.count_recorded _).trans h.recorded
  · rw [← h.decoder]
    simp only [IrParams.count_initialGapTicks, IrParams.count_rawlen, h.gap, h.rawlen]

/-- A mark with no room left for the space before it gives the frame up. -/
theorem interrupt_overrun (h : Recording g s runs k r) (hodd : runs.length % 2 = 1)
    (hfull : n ≤ runs.length + 1) :
    ∃ r', irReceiveTimerInterruptHandler true r = some r' ∧ Overrun s r' ∧
      r'.irparams.tickCounterForISR = 0 := by
  have hroom : n ≤ r.irparams.count.rawlen := by
    rw [IrParams.count_rawlen, h.rawlen]
    exact hfull
  simp only [irReceiveTimerInterruptHandler, IrParams.count_stateForISR, h.state_space hodd, if_true,
    if_pos hroom]
  exact ⟨_, rfl, ⟨rfl, rfl, h.decoder⟩, rfl⟩

end Steps

end MakerSpace.InfraRed
