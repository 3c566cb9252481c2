import MakerSpace.Arduino
import Mathlib.Tactic.SplitIfs

/-! The UWB serial sniffer, `arduino/positioning/base_listen/base_listen.ino`.

Each pass drains `Serial1` into a 256-byte buffer and then, if the line has been
quiet for longer than `messageTimeout`, prints the buffer as one line of hex and
empties it. An access outside the buffer is a fault: the functions that index it
return `none` there. -/
namespace MakerSpace.BaseListen
open Arduino Reactive

def bufferSize : Nat := 256

def messageTimeout : BitVec 32 := 10

structure State where
  buffer : Vector (BitVec 8) 256 := Vector.replicate 256 0
  bufferIndex : Nat := 0
  lastByteTime : BitVec 32 := 0

def powerUp : State := {}

/-- What one pass reads: what the drain loop takes until `available()` is 0, and the
`millis()` of the timeout test. -/
structure Pass (A : Type) where
  arrivals : List A
  now : BitVec 32

/-- A byte, and the `millis()` read after it. -/
abbrev Arrival := BitVec 8 × BitVec 32

/-- `buffer[i] = b`. -/
def store (buffer : Vector (BitVec 8) 256) (i : Nat) (b : BitVec 8) :
    Option (Vector (BitVec 8) 256) :=
  if h : i < 256 then some (buffer.set i b h) else none

/-- The body of the drain loop. -/
def takeByte (incomingByte : BitVec 8) (millis : BitVec 32) (s : State) : Option State :=
  if s.bufferIndex < bufferSize then
    (store s.buffer s.bufferIndex incomingByte).map fun buffer =>
      {s with buffer := buffer, bufferIndex := s.bufferIndex + 1, lastByteTime := millis}
  else
    some {s with lastByteTime := millis}

def drain : List Arrival → State → Option State
  | [], s => some s
  | (b, millis) :: rest, s => (takeByte b millis s).bind (drain rest)

def printByte (b : BitVec 8) : List Effect :=
  [.print "0x"] ++ (if b.toNat < 16 then [.print "0"] else []) ++ [.printHex b.toNat, .print " "]

/-- The printing loop from index `i` on, `count` bytes still to go. -/
def printBytes (buffer : Vector (BitVec 8) 256) (i : Nat) : Nat → Option (List Effect)
  | 0 => some []
  | count + 1 => buffer[i]?.bind fun b =>
      (printBytes buffer (i + 1) count).map fun effects => printByte b ++ effects

def checkTimeout (now : BitVec 32) (s : State) : Option (State × List Effect) :=
  if s.bufferIndex > 0 ∧ now - s.lastByteTime > messageTimeout then
    (printBytes s.buffer 0 s.bufferIndex).map fun effects =>
      ({s with bufferIndex := 0}, effects ++ [.println])
  else
    some (s, [])

def loop (p : Pass Arrival) (s : State) : Option (State × List Effect) :=
  (drain p.arrivals s).bind (checkTimeout p.now)

def listener : Machine (Pass Arrival) (Option State) Effect := .ofFallible loop

/-! ### The buffer as a list -/

/-- `buffer[0..bufferIndex)`. -/
def State.contents (s : State) : List (BitVec 8) := s.buffer.toList.take s.bufferIndex

theorem contents_length (s : State) (h : s.bufferIndex ≤ 256) :
    s.contents.length = s.bufferIndex := by
  simp [State.contents, h]

theorem store_some (buffer : Vector (BitVec 8) 256) {i : Nat} (h : i < 256) (b : BitVec 8) :
    store buffer i b = some (buffer.set i b h) := dif_pos h

/-- Storing at the end appends. -/
theorem take_set (buffer : Vector (BitVec 8) 256) {i : Nat} (h : i < 256) (b : BitVec 8) :
    (buffer.set i b h).toList.take (i + 1) = buffer.toList.take i ++ [b] := by
  rw [Vector.toList_set, List.take_add_one, List.take_set_of_le (Nat.le_refl i)]
  simp [h]

/-- A byte is appended while there is room, dropped once there is none, and moves
the clock either way. -/
theorem takeByte_spec (b : BitVec 8) (millis : BitVec 32) (s : State) (h : s.bufferIndex ≤ 256) :
    ∃ s', takeByte b millis s = some s' ∧ s'.contents = (s.contents ++ [b]).take 256 ∧
      s'.bufferIndex = min 256 (s.bufferIndex + 1) ∧ s'.lastByteTime = millis := by
  by_cases hroom : s.bufferIndex < 256
  · refine ⟨{s with
      buffer := s.buffer.set s.bufferIndex b hroom
      bufferIndex := s.bufferIndex + 1
      lastByteTime := millis}, ?_, ?_, ?_, rfl⟩
    · rw [takeByte, if_pos (show s.bufferIndex < bufferSize from hroom), store_some _ hroom]
      rfl
    · have hlen : (s.contents ++ [b]).length ≤ 256 := by
        rw [List.length_append, contents_length s h, List.length_singleton]
        omega
      rw [List.take_of_length_le hlen]
      exact take_set s.buffer hroom b
    · exact (Nat.min_eq_right hroom).symm
  · have hfull : s.bufferIndex = 256 := by omega
    refine ⟨{s with lastByteTime := millis}, if_neg hroom, ?_, ?_, rfl⟩
    · have hlen : s.contents.length = 256 := (contents_length s h).trans hfull
      rw [List.take_append_of_le_length (by omega), List.take_of_length_le (by omega)]
      rfl
    · dsimp only
      omega

/-- The printing loop prints the bytes it runs over, and faults on none of them. -/
theorem printBytes_spec (buffer : Vector (BitVec 8) 256) (count i : Nat) (h : i + count ≤ 256) :
    printBytes buffer i count =
      some (((buffer.toList.drop i).take count).flatMap printByte) := by
  induction count generalizing i with
  | zero => rfl
  | succ count ih =>
    have hi : i < buffer.toList.length := by simp; omega
    rw [printBytes, ih (i + 1) (by omega), List.drop_eq_getElem_cons hi, List.take_succ_cons,
      List.flatMap_cons, Vector.getElem?_eq_getElem (by omega)]
    rfl

theorem checkTimeout_spec (now : BitVec 32) (s : State) (h : s.bufferIndex ≤ 256) :
    checkTimeout now s =
      some (if s.bufferIndex > 0 ∧ now - s.lastByteTime > messageTimeout then
        ({s with bufferIndex := 0}, s.contents.flatMap printByte ++ [.println])
      else (s, [])) := by
  unfold checkTimeout
  split_ifs
  · rw [printBytes_spec s.buffer _ 0 (by omega), List.drop_zero]
    rfl
  · rfl

end MakerSpace.BaseListen
