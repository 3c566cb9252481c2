import MakerSpace.Codec.Search
import Mathlib.Data.List.TakeWhile

/-! The ring buffer of the WiFiEsp library, `RingBuffer.cpp`.

It keeps the last characters read from the module so that the driver can look for tags at
their end. `reset` only puts the cursor back: what the cells hold from before stays there,
and a tag may be found half in it (`endsWith_written`). `cells_take` is what stands in the
cells once a text has gone round and round. -/
namespace MakerSpace.WiFiEsp
open Codec Search

/-- `ringBuf`, with one more cell for the terminating NUL, and `ringBufP` as an index. -/
structure RingBuffer (size : Nat) where
  ringBuf : Vector (BitVec 8) (size + 1)
  ringBufP : Fin size

namespace RingBuffer
variable {size m : Nat}

def reset (rb : RingBuffer size) : RingBuffer size := {rb with ringBufP := ⟨0, rb.ringBufP.pos⟩}

def init (rb : RingBuffer size) : RingBuffer size := ⟨.replicate (size + 1) 0, ⟨0, rb.ringBufP.pos⟩⟩

def push (c : BitVec 8) (rb : RingBuffer size) : RingBuffer size :=
  let ringBuf := rb.ringBuf.set rb.ringBufP c (Nat.lt_succ_of_lt rb.ringBufP.isLt)
  if h : rb.ringBufP + 1 < size then ⟨ringBuf, ⟨rb.ringBufP + 1, h⟩⟩
  else ⟨ringBuf, ⟨0, rb.ringBufP.pos⟩⟩

/-- The comparing loop of `endsWith`, from the cell `b` on. -/
def endsWithLoop (ringBuf : Vector (BitVec 8) (size + 1)) : List (BitVec 8) → Nat → Bool
  | [], _ => true
  | c :: str, b =>
    if ringBuf[b]? ≠ some c then false
    else endsWithLoop ringBuf str (if b + 1 = size then 0 else b + 1)

/-- A string longer than the buffer would be looked for outside of it. -/
def endsWith (str : List (BitVec 8)) (_ : str.length ≤ size) (rb : RingBuffer size) : Bool :=
  endsWithLoop rb.ringBuf str
    (if rb.ringBufP < str.length then rb.ringBufP + size - str.length
      else rb.ringBufP - str.length)

/-- The C function: up to `len` characters, and NULs if there are fewer. -/
def strncpy (destination : Vector (BitVec 8) m) (source : List (BitVec 8)) (len : Nat) :
    Vector (BitVec 8) m :=
  let chars := (source.takeWhile (· ≠ 0)).take len
  Vector.ofFn fun i => if i.val < len then chars[i.val]?.getD 0 else destination.get i

/-- The length is computed as an `int` and compared as an `unsigned int`, of 16 bits. -/
def getStrN (destination : Vector (BitVec 8) m) (skipChars num : Nat) (rb : RingBuffer size) :
    Vector (BitVec 8) m :=
  let len := (BitVec.ofNat 16 rb.ringBufP - BitVec.ofNat 16 skipChars).toNat
  strncpy destination rb.ringBuf.toList (if len > num then num else len)

/-! ### The window -/

def cells (rb : RingBuffer size) : List (BitVec 8) := rb.ringBuf.toList.take size

@[simp] theorem cells_length (rb : RingBuffer size) : (cells rb).length = size := by
  simp [cells]

/-- The last characters pushed, oldest first. -/
def window (rb : RingBuffer size) : List (BitVec 8) := (cells rb).rotate rb.ringBufP

theorem window_reset (rb : RingBuffer size) : window (reset rb) = cells rb := List.rotate_zero _

theorem window_push (c : BitVec 8) (rb : RingBuffer size) :
    window (push c rb) = (window rb).tail ++ [c] := by
  have hset : (rb.ringBuf.set rb.ringBufP c (Nat.lt_succ_of_lt rb.ringBufP.isLt)).toList.take size =
      (cells rb).set rb.ringBufP c := by
    rw [cells, Vector.toList_set, List.take_set]
  rw [window, window, ← rotate_set (by simp)]
  by_cases h : rb.ringBufP + 1 < size
  · simp only [push, dif_pos h, cells, hset]
  · have hround : rb.ringBufP.val + 1 = ((cells rb).set rb.ringBufP c).length := by
      rw [List.length_set, cells_length]
      have := rb.ringBufP.isLt
      omega
    rw [hround, List.rotate_length]
    simp only [push, dif_neg h, cells, hset, List.rotate_zero]

/-- The buffer once it has been reset and a text pushed into it. -/
def written (text : List (BitVec 8)) (rb : RingBuffer size) : RingBuffer size :=
  text.foldl (fun rb c => push c rb) (reset rb)

theorem written_concat (text : List (BitVec 8)) (c : BitVec 8) (rb : RingBuffer size) :
    written (text ++ [c]) rb = push c (written text rb) := List.foldl_concat _ _ _ _

theorem window_written (text : List (BitVec 8)) (rb : RingBuffer size) :
    window (written text rb) = (cells rb ++ text).drop text.length := by
  induction text using List.reverseRecOn with
  | nil => rw [List.append_nil, List.length_nil, List.drop_zero]; exact window_reset rb
  | append_singleton text c ih =>
    have hlength : text.length + 1 ≤ (cells rb ++ text).length := by
      have := rb.ringBufP.pos
      simp only [List.length_append, cells_length]
      omega
    rw [written_concat, window_push, ih, List.tail_drop, List.length_append, List.length_singleton,
      ← List.append_assoc, List.drop_append_of_le_length hlength]

/-- The next cell, round the end of the ring. -/
theorem next_cell {k : Nat} (hk : k < size) : (if k + 1 < size then k + 1 else 0) = (k + 1) % size := by
  by_cases h : k + 1 < size
  · rw [if_pos h, Nat.mod_eq_of_lt h]
  · have hround : k + 1 = size := by omega
    rw [if_neg h, hround, Nat.mod_self]

theorem ringBufP_written (text : List (BitVec 8)) (rb : RingBuffer size) :
    (written text rb).ringBufP.val = text.length % size := by
  induction text using List.reverseRecOn with
  | nil => exact (Nat.zero_mod _).symm
  | append_singleton text c ih =>
    have hnext : (push c (written text rb)).ringBufP.val =
        if (written text rb).ringBufP.val + 1 < size then (written text rb).ringBufP.val + 1 else 0 := by
      rw [push]
      split <;> rfl
    rw [written_concat, hnext, next_cell (written text rb).ringBufP.isLt, ih, Nat.mod_add_mod,
      List.length_append, List.length_singleton]

theorem cells_get (rb : RingBuffer size) {b : Nat} (hb : b < size) :
    (cells rb)[b]? = rb.ringBuf[b]? := by
  rw [cells, List.getElem?_take_of_lt hb, Vector.getElem?_toList]

/-! ### Looking for a string -/

theorem endsWithLoop_iff (rb : RingBuffer size) (str : List (BitVec 8)) {b : Nat} (hb : b < size) :
    endsWithLoop rb.ringBuf str b = true ↔
      ∀ i (h : i < str.length), (cells rb)[(i + b) % size]? = some str[i] := by
  induction str generalizing b with
  | nil => exact ⟨fun _ i h => absurd h (Nat.not_lt_zero i), fun _ => rfl⟩
  | cons c str ih =>
    have hnext : (if b + 1 = size then 0 else b + 1) = (b + 1) % size := by
      rw [← next_cell hb]
      by_cases h : b + 1 = size
      · rw [if_pos h, if_neg (by omega)]
      · rw [if_neg h, if_pos (by omega)]
    have hlt : (b + 1) % size < size := Nat.mod_lt _ (by omega)
    have hshift : ∀ i, (i + (b + 1) % size) % size = (i + 1 + b) % size := fun i => by
      rw [Nat.add_mod_mod]
      congr 1
      omega
    rw [endsWithLoop, hnext]
    by_cases hc : rb.ringBuf[b]? = some c
    · rw [if_neg (not_not_intro hc), ih hlt]
      constructor
      · intro h i hi
        cases i with
        | zero => rw [Nat.zero_add, Nat.mod_eq_of_lt hb, cells_get rb hb, hc]; rfl
        | succ i =>
          rw [← hshift]
          exact h i (Nat.lt_of_succ_lt_succ hi)
      · intro h i hi
        rw [hshift]
        exact h (i + 1) (Nat.succ_lt_succ hi)
    · rw [if_pos hc]
      refine ⟨nofun, fun h => absurd ?_ hc⟩
      have hfirst := h 0 (Nat.succ_pos _)
      rwa [Nat.zero_add, Nat.mod_eq_of_lt hb, cells_get rb hb] at hfirst

theorem endsWith_iff {str : List (BitVec 8)} (h : str.length ≤ size) (rb : RingBuffer size) :
    endsWith str h rb = true ↔ str <:+ window rb := by
  have hp := rb.ringBufP.isLt
  have hlength : (window rb).length = size := by rw [window, List.length_rotate, cells_length]
  rw [endsWith, List.suffix_iff_getElem?, hlength]
  have hstart : ∀ i < str.length, (window rb)[i + size - str.length]? =
      (cells rb)[(i + (if rb.ringBufP < str.length then rb.ringBufP + size - str.length
        else rb.ringBufP - str.length)) % size]? := by
    intro i hi
    rw [window, List.getElem?_rotate (by rw [cells_length]; omega), cells_length]
    by_cases hlow : rb.ringBufP.val < str.length
    · rw [if_pos hlow]
      exact congrArg (fun k => (cells rb)[k % size]?) (by omega)
    · rw [if_neg hlow, ← Nat.add_mod_right (i + _) size]
      exact congrArg (fun k => (cells rb)[k % size]?) (by omega)
  rw [endsWithLoop_iff rb str (by split <;> omega)]
  constructor
  · exact fun hcells => ⟨h, fun i hi => (hstart i hi).trans (hcells i hi)⟩
  · exact fun hwindow i hi => (hstart i hi).symm.trans (hwindow.2 i hi)

/-- **A tag is found at the end of the text, or half before it**, in what the cells held
when the buffer was reset. -/
theorem endsWith_written {str : List (BitVec 8)} (h : str.length ≤ size) (text : List (BitVec 8))
    (rb : RingBuffer size) : endsWith str h (written text rb) = true ↔ str <:+ cells rb ++ text := by
  rw [endsWith_iff, window_written, suffix_window]
  rwa [cells_length]

/-! ### Before the first round -/

/-- The last cell is still as `init` left it. -/
def Fresh (rb : RingBuffer size) : Prop := rb.cells.getLast? = some 0

theorem fresh_init (rb : RingBuffer size) : Fresh (init rb) := by
  have hcells : (init rb).cells = List.replicate size 0 := by simp [cells, init]
  rw [Fresh, hcells, List.getLast?_replicate, if_neg (Nat.ne_of_gt rb.ringBufP.pos)]

/-- A text shorter than the buffer does not get to the last cell. -/
theorem Fresh.written {rb : RingBuffer size} (h : Fresh rb) {text : List (BitVec 8)}
    (hshort : text.length < size) : Fresh (rb.written text) := by
  have hwindow := window_written text rb
  rw [window, ringBufP_written, Nat.mod_eq_of_lt hshort,
    List.rotate_eq_drop_append_take (by rw [cells_length]; omega),
    List.drop_append_of_le_length (by rw [cells_length]; omega)] at hwindow
  have hkept := (List.append_inj hwindow (by simp)).1
  have hlast := congrArg List.getLast? hkept
  rw [List.getLast?_drop, List.getLast?_drop, cells_length, cells_length,
    if_neg (Nat.not_le_of_lt hshort), if_neg (Nat.not_le_of_lt hshort)] at hlast
  exact hlast.trans h

/-- A string without a NUL does not begin before the text. -/
theorem Fresh.suffix_iff {rb : RingBuffer size} (h : Fresh rb) {str text : List (BitVec 8)}
    (hplain : 0 ∉ str) : str <:+ rb.cells ++ text ↔ str <:+ text := by
  refine ⟨fun hstr => ?_, fun hstr => hstr.trans (List.suffix_append _ _)⟩
  rcases List.suffix_or_suffix_of_suffix hstr (List.suffix_append rb.cells text) with hin | hout
  · exact hin
  · obtain ⟨old, rfl⟩ := hout
    obtain ⟨before, hcells⟩ := hstr
    rw [← List.append_assoc] at hcells
    have hcells := List.append_cancel_right hcells
    rcases List.eq_nil_or_concat' old with rfl | ⟨init, c, rfl⟩
    · exact List.suffix_refl _
    · rw [Fresh, ← hcells, ← List.append_assoc, List.getLast?_concat] at h
      obtain rfl := Option.some.inj h
      exact absurd (by simp) hplain

/-! ### Taking the text out -/

/-- How much of a text went into the ring before its last round, which may be a whole one. -/
def earlier (size length : Nat) : Nat := size * ((length - 1) / size)

theorem earlier_spec {length : Nat} (hlength : 0 < length) (hsize : 0 < size) :
    ∃ r, length = earlier size length + r ∧ 0 < r ∧ r ≤ size ∧ length % size = r % size := by
  have hdiv : earlier size length + (length - 1) % size = length - 1 := Nat.div_add_mod _ size
  have hlast := Nat.mod_lt (length - 1) hsize
  refine ⟨(length - 1) % size + 1, by omega, Nat.succ_pos _, hlast, ?_⟩
  conv_lhs => rw [show length = earlier size length + ((length - 1) % size + 1) by omega, earlier]
  exact Nat.mul_add_mod _ _ _

/-- The last round of a text stands at the start of the ring. -/
theorem cells_take {text : List (BitVec 8)} (htext : text ≠ []) (rb : RingBuffer size) :
    (written text rb).cells.take (text.length - earlier size text.length) =
      text.drop (earlier size text.length) := by
  obtain ⟨r, hr, -, hle, hturn⟩ := earlier_spec (List.length_pos_iff.mpr htext) rb.ringBufP.pos
  have hrotate := List.rotate_mod (written text rb).cells r
  have hwindow := window_written text rb
  rw [cells_length] at hrotate
  rw [window, ringBufP_written, hturn, hrotate,
    List.rotate_eq_drop_append_take (by rw [cells_length]; omega)] at hwindow
  have hdrop := congrArg (List.drop (size - r)) hwindow
  rw [List.drop_left' (by rw [List.length_drop, cells_length]), List.drop_drop,
    List.drop_append, List.drop_eq_nil_of_le (by rw [cells_length]; omega), List.nil_append,
    cells_length] at hdrop
  rw [show text.length - earlier size text.length = r by omega, hdrop]
  congr 1
  omega

theorem strncpy_toList (destination : Vector (BitVec 8) m) {source : List (BitVec 8)} {len : Nat}
    (hlen : len ≤ m) (hchars : len ≤ source.length) (hplain : 0 ∉ source.take len) :
    (strncpy destination source len).toList = source.take len ++ destination.toList.drop len := by
  have hcopied : (source.takeWhile (· ≠ 0)).take len = source.take len := by
    rw [List.take_takeWhile, List.takeWhile_eq_self_iff]
    intro c hc
    exact decide_eq_true fun h => hplain (h ▸ hc)
  have hlength : (source.take len).length = len := by rw [List.length_take, Nat.min_eq_left hchars]
  refine List.ext_getElem? fun i => ?_
  rw [strncpy, hcopied, Vector.getElem?_toList]
  by_cases hi : i < len
  · rw [List.getElem?_append_left (by rw [hlength]; exact hi), Vector.getElem?_ofFn, dif_pos (by omega)]
    simp [hi, List.getElem?_eq_getElem (Nat.lt_of_lt_of_le hi hchars)]
  · rw [List.getElem?_append_right (by rw [hlength]; omega), hlength, List.getElem?_drop,
      Vector.getElem?_ofFn, Vector.getElem?_toList, show len + (i - len) = i by omega]
    split
    · next hm =>
      rw [Vector.getElem?_eq_getElem hm]
      rfl
    · next hm => rw [Vector.getElem?_eq_none (by omega)]

/-- The part of a text before a tag that its last round leaves in the ring. -/
def lastPart (size : Nat) (text endTag : List (BitVec 8)) : List (BitVec 8) :=
  text.drop (earlier size (text.length + endTag.length))

/-- Behind the cursor, less the tag: or all that is asked for, when the cursor is back at
the start and the length below zero. -/
theorem copied_count {num : Nat} {text endTag : List (BitVec 8)} (rb : RingBuffer size)
    (hsize : size < 65536) (hend : endTag ≠ []) (hnum : num + endTag.length ≤ size)
    (hsplit : earlier size (text.length + endTag.length) ≤ text.length) :
    (if (BitVec.ofNat 16 (written (text ++ endTag) rb).ringBufP -
        BitVec.ofNat 16 endTag.length).toNat > num then num
      else (BitVec.ofNat 16 (written (text ++ endTag) rb).ringBufP -
        BitVec.ofNat 16 endTag.length).toNat) = min (lastPart size text endTag).length num := by
  have hpos : 0 < endTag.length := List.length_pos_iff.mpr hend
  obtain ⟨r, hr, -, hle, hturn⟩ :=
    @earlier_spec size (text.length + endTag.length) (by omega) rb.ringBufP.pos
  rw [ringBufP_written, List.length_append, hturn, BitVec.toNat_sub, BitVec.toNat_ofNat,
    BitVec.toNat_ofNat, lastPart, List.length_drop]
  rcases Nat.lt_or_eq_of_le hle with hpart | hfull
  · rw [Nat.mod_eq_of_lt hpart]
    split <;> omega
  · rw [hfull, Nat.mod_self]
    split <;> omega

/-- **What is taken out** of a text and the tag that ends it, when the tag is not split by
the end of the ring. -/
theorem getStrN_written {num : Nat} (destination : Vector (BitVec 8) m)
    {text endTag : List (BitVec 8)} (rb : RingBuffer size) (hsize : size < 65536)
    (hend : endTag ≠ []) (hnum : num + endTag.length ≤ size) (hm : num ≤ m)
    (hsplit : earlier size (text.length + endTag.length) ≤ text.length) (hplain : 0 ∉ text) :
    (getStrN destination endTag.length num (written (text ++ endTag) rb)).toList =
      (lastPart size text endTag).take num ++
        destination.toList.drop ((lastPart size text endTag).take num).length := by
  have hpos : 0 < endTag.length := List.length_pos_iff.mpr hend
  obtain ⟨r, hr, -, hle, -⟩ :=
    @earlier_spec size (text.length + endTag.length) (by omega) rb.ringBufP.pos
  have hlength : (lastPart size text endTag).length = text.length -
      earlier size (text.length + endTag.length) := List.length_drop
  have hsource : (written (text ++ endTag) rb).ringBuf.toList.take
      (min (lastPart size text endTag).length num) = (lastPart size text endTag).take num := by
    have htake := cells_take (List.append_ne_nil_of_right_ne_nil text hend) rb
    rw [List.length_append, List.drop_append_of_le_length hsplit, ← lastPart] at htake
    have hstart := congrArg (List.take (min (lastPart size text endTag).length num)) htake
    rw [List.take_append_of_le_length (Nat.min_le_left _ _), cells, List.take_take,
      List.take_take] at hstart
    have hcut : (lastPart size text endTag).take num =
        (lastPart size text endTag).take (min (lastPart size text endTag).length num) := by
      rw [List.take_eq_take_iff]
      omega
    rw [hcut, ← hstart]
    congr 1
    omega
  rw [getStrN, copied_count rb hsize hend hnum hsplit, strncpy_toList, hsource, List.length_take,
    Nat.min_comm]
  · omega
  · rw [Vector.length_toList]
    omega
  · rw [hsource]
    exact fun h => hplain (List.mem_of_mem_drop (List.mem_of_mem_take h))

end RingBuffer

end MakerSpace.WiFiEsp
