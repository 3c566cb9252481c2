import Mathlib.Data.List.Basic

/-! Text and decimal numerals as bytes.

A numeral is its digits, most significant first; a reader that takes one digit at a time
and multiplies by ten gets the number back (`readDigits_numeral`). -/
namespace MakerSpace.Codec.Decimal

def byteOf (c : Char) : BitVec 8 := BitVec.ofNat 8 c.toNat

/-- The bytes of a string literal. -/
def ascii (s : String) : List (BitVec 8) := s.toList.map byteOf

def numeral (n : Nat) : List (BitVec 8) := (Nat.toDigits 10 n).map byteOf

def isDigit (c : BitVec 8) : Bool := 48 ≤ c.toNat && c.toNat ≤ 57

/-- A reader that has read `value` so far. -/
def readDigits (value : Nat) (digits : List (BitVec 8)) : Nat :=
  digits.foldl (fun value c => value * 10 + (c.toNat - 48)) value

theorem byteOf_toNat {c : Char} (h : c.isDigit) : (byteOf c).toNat = c.toNat := by
  have hrange : 48 ≤ c.toNat ∧ c.toNat ≤ 57 := by simpa [Char.isDigit_iff_toNat] using h
  rw [byteOf, BitVec.toNat_ofNat]
  omega

theorem numeral_ne_nil (n : Nat) : numeral n ≠ [] := by
  simp [numeral, Nat.toDigits_ne_nil]

theorem numeral_digit {n : Nat} {c : BitVec 8} (h : c ∈ numeral n) : isDigit c = true := by
  obtain ⟨d, hd, rfl⟩ := List.mem_map.mp h
  have hdigit := Nat.isDigit_of_mem_toDigits (by decide) (by decide) hd
  have hrange : 48 ≤ d.toNat ∧ d.toNat ≤ 57 := by simpa [Char.isDigit_iff_toNat] using hdigit
  simp [isDigit, byteOf_toNat hdigit, hrange]

/-- **Round trip.** -/
theorem readDigits_numeral (n : Nat) : readDigits 0 (numeral n) = n := by
  have hread : ∀ (cs : List Char) (value : Nat), (∀ c ∈ cs, c.isDigit) →
      readDigits value (cs.map byteOf) = Nat.ofDigitChars 10 cs value := by
    intro cs
    induction cs with
    | nil => exact fun value _ => Nat.ofDigitChars_nil.symm
    | cons c cs ih =>
      intro value hdigits
      rw [Nat.ofDigitChars_cons, ← ih _ fun d hd => hdigits d (List.mem_cons_of_mem c hd), readDigits,
        readDigits, List.map_cons, List.foldl_cons, byteOf_toNat (hdigits c List.mem_cons_self),
        Nat.mul_comm]
      rfl
  rw [numeral, hread _ _ fun c hc => Nat.isDigit_of_mem_toDigits (by decide) (by decide) hc,
    Nat.ofDigitChars_toDigits (by decide) (by decide)]

end MakerSpace.Codec.Decimal
