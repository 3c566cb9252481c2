import Mathlib.Data.List.Basic

/-! Words sent and received one bit at a time.

`shiftOut` is the loop of a sender, which tests one bit of the word and moves on;
`gather` is the loop of a receiver, which adds one bit to what it has. Both take the
order of the bits as a flag. `shiftOut_lsb` and `shiftOut_msb`: the sender sends the low
bits of its word. `gather_bitsOf`: gathered in the same order, they are those bits again. -/
namespace MakerSpace.Codec.BitStream
variable {w : Nat}

/-- The low `count` bits of a word in the order they are sent. -/
def bitsOf (msbFirst : Bool) (count : Nat) (data : BitVec w) : List Bool :=
  (List.range count).map fun i => data.getLsbD (if msbFirst then count - 1 - i else i)

/-- The sender: `mask` walks down the word, or the word moves past its lowest bit. -/
def shiftOut (msbFirst : Bool) : Nat → BitVec w → BitVec w → List Bool
  | 0, _, _ => []
  | i + 1, data, mask =>
    ((msbFirst && data &&& mask != 0) || (!msbFirst && data &&& 1 != 0)) ::
      shiftOut msbFirst i (if msbFirst then data else data >>> 1) (if msbFirst then mask >>> 1 else mask)

/-- The receiver: the word moves up for a new lowest bit, or `mask` walks up the word. -/
def gather (msbFirst : Bool) : List Bool → BitVec w → BitVec w → BitVec w
  | [], data, _ => data
  | bit :: rest, data, mask =>
    let data := if msbFirst then data <<< 1 else data
    let data := if bit then (if msbFirst then data ||| 1 else data ||| mask) else data
    gather msbFirst rest data (mask <<< 1)

@[simp] theorem bitsOf_length (msbFirst : Bool) (count : Nat) (data : BitVec w) :
    (bitsOf msbFirst count data).length = count := by
  simp [bitsOf]

theorem bitsOf_get (msbFirst : Bool) {count i : Nat} (hi : i < count) (data : BitVec w) :
    (bitsOf msbFirst count data)[i]? = some (data.getLsbD (if msbFirst then count - 1 - i else i)) := by
  simp [bitsOf, hi]

/-! ### Sending -/

theorem and_twoPow_ne_zero (data : BitVec w) (i : Nat) :
    (data &&& BitVec.twoPow w i != 0) = data.getLsbD i := by
  rw [BitVec.and_twoPow]
  cases h : data.getLsbD i with
  | false => simp
  | true =>
    have hi : i < w := BitVec.lt_of_getLsbD h
    have hne : BitVec.twoPow w i ≠ 0 := by
      intro h0
      have := congrArg (·.getLsbD i) h0
      simp [hi] at this
    simpa using hne

theorem shiftOut_lsb (count : Nat) (data mask : BitVec w) :
    shiftOut false count data mask = bitsOf false count data := by
  induction count generalizing data with
  | zero => rfl
  | succ count ih =>
    have hbit : (data &&& 1 != 0) = data.getLsbD 0 := by
      rw [← and_twoPow_ne_zero]
      simp [BitVec.twoPow]
    simp only [shiftOut, Bool.false_and, Bool.not_false, Bool.true_and, Bool.false_or, hbit,
      Bool.false_eq_true, if_false, ih, bitsOf, List.range_succ_eq_map, List.map_cons, List.map_map]
    congr 1
    refine List.map_congr_left fun i _ => ?_
    simp [Nat.add_comm]

theorem shiftOut_msb {count : Nat} (h : count ≤ w) (data : BitVec w) :
    shiftOut true count data (BitVec.twoPow w (count - 1)) = bitsOf true count data := by
  induction count with
  | zero => rfl
  | succ count ih =>
    have hmask : 0 < count → BitVec.twoPow w count >>> 1 = BitVec.twoPow w (count - 1) := by
      intro hpos
      apply BitVec.eq_of_getLsbD_eq
      intro i hi
      simp only [BitVec.getLsbD_ushiftRight, BitVec.getLsbD_twoPow]
      grind
    have hrest : shiftOut true count data (BitVec.twoPow w count >>> 1) = bitsOf true count data := by
      rcases Nat.eq_zero_or_pos count with rfl | hpos
      · rfl
      · rw [hmask hpos, ih (by omega)]
    simp only [shiftOut, Bool.true_and, Bool.not_true, Bool.false_and, Bool.or_false,
      Nat.add_sub_cancel, and_twoPow_ne_zero, if_true, hrest, bitsOf, List.range_succ_eq_map,
      List.map_cons, List.map_map]
    congr 1
    refine List.map_congr_left fun i _ => ?_
    simp only [Function.comp_apply]
    congr 1
    omega

/-! ### Receiving -/

/-- Bit by bit, lowest first: those there already, and the new ones from the mask up. -/
theorem gather_lsb_bit (bits : List Bool) (data : BitVec w) (k j : Nat) (hj : j < w) :
    (gather false bits data (BitVec.twoPow w k)).getLsbD j =
      (data.getLsbD j || (decide (k ≤ j) && bits[j - k]?.getD false)) := by
  induction bits generalizing data k with
  | nil => simp [gather]
  | cons bit rest ih =>
    have hmask : BitVec.twoPow w k <<< 1 = BitVec.twoPow w (k + 1) := by
      apply BitVec.eq_of_getLsbD_eq
      intro i hi
      simp only [BitVec.getLsbD_shiftLeft, BitVec.getLsbD_twoPow]
      grind
    have hbit : (if bit then data ||| BitVec.twoPow w k else data).getLsbD j =
        (data.getLsbD j || (bit && decide (k = j))) := by
      cases bit
      · simp
      · by_cases hk : k = j
        · simp [hk, hj]
        · simp [hk]
    simp only [gather, Bool.false_eq_true, if_false, hmask, ih, hbit]
    rcases Nat.lt_trichotomy k j with hlt | rfl | hgt
    · have hsub : j - k = (j - (k + 1)) + 1 := by omega
      rw [hsub, List.getElem?_cons_succ]
      simp [show k ≠ j by omega, show k + 1 ≤ j by omega, show k ≤ j by omega]
    · simp [show ¬k + 1 ≤ k by omega]
    · simp [show k ≠ j by omega, show ¬k + 1 ≤ j by omega, show ¬k ≤ j by omega]

/-- Bit by bit, highest first: the new ones lowest, in reverse, and those there already
moved up past them. -/
theorem gather_msb_bit (bits : List Bool) (data mask : BitVec w) (j : Nat) (hj : j < w) :
    (gather true bits data mask).getLsbD j =
      if j < bits.length then bits[bits.length - 1 - j]?.getD false
      else data.getLsbD (j - bits.length) := by
  induction bits generalizing data mask with
  | nil => simp [gather]
  | cons bit rest ih =>
    simp only [gather, if_true, ih, List.length_cons, Nat.add_sub_cancel]
    rcases Nat.lt_trichotomy j rest.length with hlt | rfl | hgt
    · have hsub : rest.length - j = (rest.length - 1 - j) + 1 := by omega
      rw [if_pos hlt, if_pos (by omega), hsub, List.getElem?_cons_succ]
    · rw [if_neg (Nat.lt_irrefl _), if_pos (Nat.lt_succ_self _), Nat.sub_self,
        List.getElem?_cons_zero, Option.getD_some]
      cases bit <;> simp [show 0 < w by omega]
    · have hpos : j - rest.length = (j - (rest.length + 1)) + 1 := by omega
      rw [if_neg (show ¬j < rest.length by omega), if_neg (show ¬j < rest.length + 1 by omega), hpos]
      cases bit <;> simp <;> omega

/-- **Round trip**: gathering the bits of a word gives its low bits back. -/
theorem gather_bitsOf (msbFirst : Bool) (count : Nat) (data : BitVec w) :
    gather msbFirst (bitsOf msbFirst count data) 0 1 = (data.setWidth count).setWidth w := by
  apply BitVec.eq_of_getLsbD_eq
  intro j hj
  simp only [BitVec.getLsbD_setWidth, hj, decide_true, Bool.true_and]
  cases msbFirst with
  | false =>
    have h1 : (1 : BitVec w) = BitVec.twoPow w 0 := by simp [BitVec.twoPow]
    rw [h1, gather_lsb_bit _ _ _ _ hj]
    by_cases hc : j < count
    · rw [Nat.sub_zero, bitsOf_get false hc]
      simp [hc]
    · simp [bitsOf, hc]
  | true =>
    rw [gather_msb_bit _ _ _ _ hj, bitsOf_length]
    by_cases hc : j < count
    · rw [if_pos hc, bitsOf_get true (by omega)]
      have : count - 1 - (count - 1 - j) = j := by omega
      simp [this, hc]
    · simp [hc]

end MakerSpace.Codec.BitStream
