import Mathlib.Data.Nat.Basic
import Mathlib.Tactic.Linarith

/-! Clocks that roll over.

A clock of `w` bits shows true time modulo `2 ^ w`. The difference of two readings
taken in the clock's own width is the true difference modulo `2 ^ w`; taken after
widening, it is the true difference within one epoch of the clock and short by at
least `2 ^ w` across epochs. Read as signed values, two times less than an epoch
apart compare as they should unless the sign rolls over between them. -/
namespace MakerSpace.Reactive.Rollover

/-- What a `w`-bit clock shows at true time `t`. -/
def reading (w t : Nat) : BitVec w := BitVec.ofNat w t

theorem reading_toNat (w t : Nat) : (reading w t).toNat = t % 2 ^ w := by simp [reading]

/-- In the clock's own width the elapsed time is exact up to rollover. -/
theorem elapsed (w : Nat) {t₀ t : Nat} (h : t₀ ≤ t) :
    (reading w t - reading w t₀).toNat = (t - t₀) % 2 ^ w := by
  obtain ⟨d, rfl⟩ := Nat.exists_eq_add_of_le h
  have hsub : reading w (t₀ + d) - reading w t₀ = reading w d := by
    simp only [reading, BitVec.ofNat_add]
    rw [BitVec.add_comm, BitVec.add_sub_cancel]
  rw [hsub, reading_toNat, Nat.add_sub_cancel_left]

/-- The elapsed time a clock shows never exceeds the true one. -/
theorem elapsed_le (w : Nat) {t₀ t : Nat} (h : t₀ ≤ t) :
    (reading w t - reading w t₀).toNat ≤ t - t₀ := by
  rw [elapsed w h]
  exact Nat.mod_le _ _

/-- Widened readings of one epoch differ by the true difference. -/
theorem widened_same_epoch (w : Nat) {t₀ t : Nat} (h : t / 2 ^ w = t₀ / 2 ^ w) :
    ((reading w t).toNat : Int) - (reading w t₀).toNat = t - t₀ := by
  have ht := Nat.div_add_mod t (2 ^ w)
  have ht₀ := Nat.div_add_mod t₀ (2 ^ w)
  rw [h] at ht
  simp only [reading_toNat]
  omega

/-- Across epochs the widened difference falls short by a whole epoch or more. -/
theorem widened_later_epoch (w : Nat) {t₀ t : Nat} (h : t₀ / 2 ^ w < t / 2 ^ w) :
    ((reading w t).toNat : Int) - (reading w t₀).toNat ≤ t - t₀ - (2 ^ w : Nat) := by
  have ht := Nat.div_add_mod t (2 ^ w)
  have ht₀ := Nat.div_add_mod t₀ (2 ^ w)
  have hmul : 2 ^ w * (t₀ / 2 ^ w + 1) ≤ 2 ^ w * (t / 2 ^ w) := Nat.mul_le_mul_left _ h
  rw [Nat.mul_add, Nat.mul_one] at hmul
  simp only [reading_toNat]
  omega

/-- A clock read through a narrower window still shows how long it ran, up to the
window's own rollover. -/
theorem truncated_elapsed {w : Nat} (v : Nat) (hv : v ≤ w) (x : BitVec w) (d : Nat) :
    (x + BitVec.ofNat w d).setWidth v - x.setWidth v = BitVec.ofNat v d := by
  rw [BitVec.setWidth_add _ _ hv, BitVec.add_comm, BitVec.add_sub_cancel, BitVec.setWidth_ofNat_of_le hv]

/-! ### Signed readings -/

/-- A difference read as a signed value is the true one for half an epoch. -/
theorem signed_elapsed (w : Nat) {t₀ t : Nat} (h : t₀ ≤ t) (h' : t < t₀ + 2 ^ w) :
    (reading (w + 1) t - reading (w + 1) t₀).toInt = t - t₀ := by
  have hnat := elapsed (w + 1) h
  have hdouble : 2 ^ (w + 1) = 2 * 2 ^ w := Nat.pow_succ'
  rw [Nat.mod_eq_of_lt (by omega)] at hnat
  rw [BitVec.toInt_eq_toNat_of_lt (by omega), hnat]
  omega

/-- How often a signed clock of `w + 1` bits has gone from its greatest value to its
least by time `t`. -/
def signedEpoch (w t : Nat) : Nat := (t + 2 ^ w) / 2 ^ (w + 1)

theorem signedEpoch_mono (w : Nat) {t₀ t : Nat} (h : t₀ ≤ t) : signedEpoch w t₀ ≤ signedEpoch w t :=
  Nat.div_le_div_right (Nat.add_le_add_right h _)

theorem reading_toInt (w t : Nat) :
    (reading (w + 1) t).toInt = t - (2 ^ (w + 1) * signedEpoch w t : Nat) := by
  have hdiv := Nat.div_add_mod (t + 2 ^ w) (2 ^ (w + 1))
  have hlt := Nat.mod_lt (t + 2 ^ w) (Nat.two_pow_pos (w + 1))
  have hhalf : 2 ^ (w + 1) = 2 * 2 ^ w := Nat.pow_succ'
  rw [reading, BitVec.toInt_ofNat', Int.bmod_eq_iff (Nat.two_pow_pos (w + 1)), signedEpoch]
  refine ⟨by omega, by omega, -((t + 2 ^ w) / 2 ^ (w + 1) : Nat), ?_⟩
  rw [Nat.cast_mul, Int.mul_neg]
  omega

/-- Less than an epoch apart, signed readings compare as the true times do exactly when
the sign has not rolled over between them. -/
theorem signed_lt_iff (w : Nat) {t₀ t : Nat} (h : t₀ < t + 2 ^ (w + 1)) (h' : t < t₀ + 2 ^ (w + 1)) :
    ((reading (w + 1) t₀).toInt < (reading (w + 1) t).toInt ↔ t₀ < t) ↔
      signedEpoch w t₀ = signedEpoch w t := by
  rw [reading_toInt, reading_toInt]
  rcases lt_trichotomy (signedEpoch w t₀) (signedEpoch w t) with hlt | heq | hgt
  · have hle : t₀ < t := lt_of_not_ge fun hge => absurd (signedEpoch_mono w hge) (by omega)
    have hmul : 2 ^ (w + 1) * (signedEpoch w t₀ + 1) ≤ 2 ^ (w + 1) * signedEpoch w t :=
      Nat.mul_le_mul_left _ hlt
    rw [Nat.mul_add, Nat.mul_one] at hmul
    omega
  · rw [heq]
    omega
  · have hle : t < t₀ := lt_of_not_ge fun hge => absurd (signedEpoch_mono w hge) (by omega)
    have hmul : 2 ^ (w + 1) * (signedEpoch w t + 1) ≤ 2 ^ (w + 1) * signedEpoch w t₀ :=
      Nat.mul_le_mul_left _ hgt
    rw [Nat.mul_add, Nat.mul_one] at hmul
    omega

end MakerSpace.Reactive.Rollover
