import MakerSpace.Numeric.Rounding
import MakerSpace.RobotCar.Model
import Mathlib.Data.Int.ConditionallyCompleteOrder
import Mathlib.Data.Int.Interval

/-! The wheel mix in single precision.

The sketch computes a duty in `float`, and every operation rounds: the two conversions,
the quotient, and its product with 155. The values lie far from both ends of the
exponent's range, so a rounding is one to 24 significant bits. `le_duty_iff` says which
speeds get a given duty, with nothing rounded but the two speeds; for the 16 bits of the
board's `int` those are exact, and `duty_eq` says that the duty is the exact one but for
eight quotients that come out a hair short of a whole number. -/
namespace MakerSpace.RobotCar.Single
open Numeric

/-- An integer as a `float`, or the `float` an operation's exact result gives. -/
def single (q : ℚ) : ℚ := round 24 q

/-- The operand of `int()`. -/
def share (maxSpeed x : Int) : ℚ :=
  single (single (single (|x| : Int) / single maxSpeed) * single (255 - minSpeed : Int))

def duty (maxSpeed x : Int) : Int :=
  (if x ≠ 0 then minSpeed else 0) + truncate (share maxSpeed x)

def updateSpeeds2 (maxSpeed speed turn : Int) : MotorsState :=
  mixSpeeds (duty maxSpeed) maxSpeed speed turn

/-! ### What the mix asks of the duty -/

theorem single_one : single 1 = 1 := by decide +kernel

theorem single_span : single (255 - minSpeed : Int) = 155 := by decide +kernel

theorem single_mono {q r : ℚ} (hq : 0 ≤ q) (h : q ≤ r) : single q ≤ single r :=
  round_mono (by decide) hq h

theorem single_pos {q : ℚ} (hq : 0 < q) : 0 < single q := round_pos (by decide) hq

theorem single_abs_nonneg (x : Int) : 0 ≤ single (|x| : Int) :=
  round_nonneg (by exact_mod_cast abs_nonneg x)

theorem duty_zero (maxSpeed : Int) : duty maxSpeed 0 = 0 := by
  simp [duty, share, single, truncate]

section
variable {maxSpeed : Int} (hM : 1 ≤ maxSpeed)
include hM

theorem single_maxSpeed_pos : 0 < single maxSpeed :=
  single_pos (by exact_mod_cast (by omega : 0 < maxSpeed))

theorem quotient_nonneg (x : Int) : 0 ≤ single (|x| : Int) / single maxSpeed :=
  div_nonneg (single_abs_nonneg x) (single_maxSpeed_pos hM).le

theorem share_mono {x y : Int} (h : |x| ≤ |y|) : share maxSpeed x ≤ share maxSpeed y := by
  have hspeed : single (|x| : Int) ≤ single (|y| : Int) :=
    single_mono (by exact_mod_cast abs_nonneg x) (by exact_mod_cast h)
  have hquot := single_mono (quotient_nonneg hM x)
    (div_le_div_of_nonneg_right hspeed (single_maxSpeed_pos hM).le)
  rw [share, share, single_span]
  refine single_mono (mul_nonneg (round_nonneg (quotient_nonneg hM x)) (by decide)) ?_
  exact mul_le_mul_of_nonneg_right hquot (by decide)

theorem share_nonneg (x : Int) : 0 ≤ share maxSpeed x := by
  rw [share, single_span]
  exact round_nonneg (mul_nonneg (round_nonneg (quotient_nonneg hM x)) (by decide))

theorem share_maxSpeed : share maxSpeed maxSpeed = 155 := by
  rw [share, single_span, abs_of_nonneg (by omega), div_self (single_maxSpeed_pos hM).ne',
    single_one]
  decide +kernel

theorem duty_eq_floor {x : Int} (hx : x ≠ 0) : duty maxSpeed x = 100 + ⌊share maxSpeed x⌋ := by
  rw [duty, if_pos hx, truncate, if_pos (share_nonneg hM x), minSpeed]

theorem dutyLaw : DutyLaw maxSpeed (duty maxSpeed) where
  zero := duty_zero maxSpeed
  neg x := by simp only [duty, share, abs_neg, ne_eq, neg_eq_zero]
  ge {x} hx := by
    have := Int.floor_nonneg.mpr (share_nonneg hM x)
    rw [duty_eq_floor hM hx]
    omega
  le {x} hx := by
    by_cases h0 : x = 0
    · rw [h0, duty_zero maxSpeed]
      decide
    · have hfloor := Int.floor_mono (share_mono hM (hx.trans (le_abs_self maxSpeed)))
      rw [share_maxSpeed hM, Int.floor_ofNat] at hfloor
      rw [duty_eq_floor hM h0]
      omega
  mono {x y} h := by
    have hfloor := Int.floor_mono (share_mono hM h)
    by_cases hx : x = 0
    · have hnonneg := Int.floor_nonneg.mpr (share_nonneg hM y)
      by_cases hy : y = 0
      · rw [hx, hy]
      · rw [hx, duty_zero maxSpeed, duty_eq_floor hM hy]
        omega
    · have hy : y ≠ 0 := fun hy => hx (abs_nonpos_iff.mp (by rw [hy, abs_zero] at h; exact h))
      rw [duty_eq_floor hM hx, duty_eq_floor hM hy]
      omega

end

/-! ### Which speeds get a duty -/

/-- The speed's ratio to the greatest one is at least halfway up to the least `float`
whose product with 155 is at least halfway up to `k`. -/
def Attains (maxSpeed x k : Int) : Prop :=
  Reaches 24 (boundary 24 (k : ℚ) / 155) (single x / single maxSpeed)

theorem steps_even : ∀ k ∈ Finset.Icc (1 : Int) 155, Even ⌈(k : ℚ) / grid 24 (k : ℚ)⌉ := by
  decide +kernel

theorem le_duty_iff {maxSpeed : Int} (hM : 1 ≤ maxSpeed) {x k : Int} (hx : 0 < x)
    (hk : 1 ≤ k ∧ k ≤ 155) : 100 + k ≤ duty maxSpeed x ↔ Attains maxSpeed x k := by
  have hx' : (0 : ℚ) < x := by exact_mod_cast hx
  have hk' : (0 : ℚ) < k := by exact_mod_cast hk.1
  have hquot : 0 < single x / single maxSpeed :=
    div_pos (single_pos hx') (single_maxSpeed_pos hM)
  have hboundary : 0 < boundary 24 (k : ℚ) / 155 := div_pos (boundary_pos hk') (by decide)
  calc 100 + k ≤ duty maxSpeed x ↔ k ≤ ⌊share maxSpeed x⌋ := by
        rw [duty_eq_floor hM hx.ne']
        omega
    _ ↔ (k : ℚ) ≤ single (single (single x / single maxSpeed) * 155) := by
        rw [Int.le_floor, share, single_span, abs_of_pos hx]
    _ ↔ boundary 24 (k : ℚ) ≤ single (single x / single maxSpeed) * 155 := by
        rw [single, le_round_iff (by decide) hk' (mul_pos (single_pos hquot) (by decide)),
          reaches_iff_of_even (steps_even k (Finset.mem_Icc.mpr hk))]
    _ ↔ Attains maxSpeed x k := by
        rw [← div_le_iff₀ (by decide), Attains, ← le_round_iff (by decide) hboundary hquot]
        rfl

/-! ### The ints of the board -/

/-- The quotients by 155 whose product with it comes out short. -/
def roundedShort : List Int := [23, 41, 46, 82, 92, 101, 111, 121]

/-- The speed's share of 155 is more than `k`, or is `k` and does not come out short. -/
def Passes (maxSpeed x k : Int) : Prop :=
  k * maxSpeed < 155 * x ∨ (k * maxSpeed = 155 * x ∧ k ∉ roundedShort)

instance (maxSpeed x k : Int) : Decidable (Passes maxSpeed x k) := by
  unfold Passes
  infer_instance

/-- No two different ratios of 16 bit integers are as close as the boundaries are to the
155ths. -/
theorem boundary_close : ∀ k ∈ Finset.Icc (1 : Int) 155,
    ¬Reaches 24 (boundary 24 (k : ℚ) / 155) ((k - 1 / 32767) / 155) ∧
      Reaches 24 (boundary 24 (k : ℚ) / 155) ((k + 1 / 32767) / 155) ∧
      (Reaches 24 (boundary 24 (k : ℚ) / 155) (k / 155) ↔ k ∉ roundedShort) := by
  decide +kernel

theorem single_int {x : Int} (hx : 0 ≤ x) (hint : x ≤ 32767) : single x = x := by
  obtain ⟨n, rfl⟩ := Int.eq_ofNat_of_zero_le hx
  have := round_natCast (K := ℚ) (p := 24) (n := n) (by omega)
  exact_mod_cast this

theorem attains_iff {maxSpeed : Int} (hM : 1 ≤ maxSpeed ∧ maxSpeed ≤ 32767) {x k : Int}
    (hx : 0 ≤ x ∧ x ≤ maxSpeed) (hk : 1 ≤ k ∧ k ≤ 155) :
    Attains maxSpeed x k ↔ Passes maxSpeed x k := by
  obtain ⟨hbelow, habove, hat⟩ := boundary_close k (Finset.mem_Icc.mpr hk)
  have hM' : (0 : ℚ) < maxSpeed := by exact_mod_cast (by omega : 0 < maxSpeed)
  have hint : (maxSpeed : ℚ) ≤ 32767 := by exact_mod_cast hM.2
  have hstep : (1 : ℚ) / 32767 ≤ 1 / maxSpeed := one_div_le_one_div_of_le hM' hint
  have hratio : (x : ℚ) / maxSpeed = (155 * x / maxSpeed) / 155 := by ring
  rw [Attains, single_int hx.1 (by omega), single_int (by omega) hM.2, hratio]
  rcases lt_trichotomy (k * maxSpeed) (155 * x) with hlt | heq | hgt
  · refine iff_of_true (habove.mono ?_) (.inl hlt)
    have hcast : (k : ℚ) * maxSpeed + 1 ≤ 155 * x := by exact_mod_cast hlt
    have hq : (k : ℚ) + 1 / maxSpeed ≤ 155 * x / maxSpeed := by
      rw [le_div_iff₀ hM', add_mul, one_div_mul_cancel hM'.ne']
      exact hcast
    exact div_le_div_of_nonneg_right (by linarith) (by decide)
  · have hq : (155 * x / maxSpeed : ℚ) = k := by
      rw [div_eq_iff hM'.ne']
      exact_mod_cast heq.symm
    rw [hq, hat, Passes, or_iff_right (by omega), and_iff_right heq]
  · refine iff_of_false (fun h => hbelow (h.mono ?_)) (by unfold Passes; omega)
    have hcast : (155 : ℚ) * x + 1 ≤ k * maxSpeed := by exact_mod_cast hgt
    have hq : (155 * x / maxSpeed : ℚ) ≤ k - 1 / maxSpeed := by
      rw [div_le_iff₀ hM', sub_mul, one_div_mul_cancel hM'.ne']
      linarith
    exact div_le_div_of_nonneg_right (by linarith) (by decide)

theorem le_duty_iff_passes {maxSpeed : Int} (hM : 1 ≤ maxSpeed ∧ maxSpeed ≤ 32767) {x k : Int}
    (hx : 0 < x ∧ x ≤ maxSpeed) (hk : 1 ≤ k ∧ k ≤ 155) :
    100 + k ≤ duty maxSpeed x ↔ Passes maxSpeed x k := by
  rw [le_duty_iff hM.1 hx.1 hk, attains_iff hM ⟨hx.1.le, hx.2⟩ hk]

/-- The exact share is a whole number that single precision falls short of. -/
def FallsShort (maxSpeed x : Int) : Prop :=
  maxSpeed ∣ 155 * x ∧ 155 * x / maxSpeed ∈ roundedShort

instance (maxSpeed x : Int) : Decidable (FallsShort maxSpeed x) := by
  unfold FallsShort
  infer_instance

theorem FallsShort.ge {maxSpeed x : Int} (h : FallsShort maxSpeed x) : 23 ≤ 155 * x / maxSpeed :=
  (by decide : ∀ k ∈ roundedShort, 23 ≤ k) _ h.2

/-- The steps passed are those of the exact share, less one where it falls short. -/
theorem passes_iff {maxSpeed : Int} (hM : 1 ≤ maxSpeed) (x k : Int) :
    Passes maxSpeed x k ↔ k ≤ 155 * x / maxSpeed - (if FallsShort maxSpeed x then 1 else 0) := by
  have hfloor : k ≤ 155 * x / maxSpeed ↔ k * maxSpeed ≤ 155 * x := Int.le_ediv_iff_mul_le (by omega)
  split_ifs with hshort
  · obtain ⟨hdvd, hmem⟩ := hshort
    rw [Passes, Int.le_sub_one_iff, Int.lt_ediv_iff_mul_lt (by omega) hdvd]
    refine or_iff_left fun hsame => ?_
    obtain ⟨heq, hout⟩ := hsame
    rw [← heq, Int.mul_ediv_cancel k (by omega)] at hmem
    exact hout hmem
  · rw [Int.sub_zero, hfloor, le_iff_lt_or_eq, Passes]
    refine or_congr_right (and_iff_left_of_imp fun heq hmem => hshort ?_)
    have hquot : 155 * x / maxSpeed = k := by
      rw [← heq]
      exact Int.mul_ediv_cancel k (by omega)
    exact ⟨⟨k, by rw [← heq, mul_comm]⟩, hquot ▸ hmem⟩

/-- **The duty is the exact one**, less one where it falls short. -/
theorem duty_eq {maxSpeed : Int} (hM : 1 ≤ maxSpeed ∧ maxSpeed ≤ 32767) {x : Int}
    (hx : 0 < x ∧ x ≤ maxSpeed) :
    duty maxSpeed x = RobotCar.duty maxSpeed x - (if FallsShort maxSpeed x then 1 else 0) := by
  have hleast := (dutyLaw hM.1).ge hx.1.ne'
  have hmost := (dutyLaw hM.1).le (abs_le.mpr ⟨by omega, hx.2⟩)
  have hexact : RobotCar.duty maxSpeed x = 100 + 155 * x / maxSpeed := by
    rw [RobotCar.duty_eq hM.1, if_pos hx.1.ne', abs_of_pos hx.1]
  have hnonneg : 0 ≤ 155 * x / maxSpeed := Int.ediv_nonneg (by omega) (by omega)
  have hspan : 155 * x / maxSpeed ≤ 155 := Int.ediv_le_of_le_mul (by omega) (by omega)
  have hstep : 0 ≤ 155 * x / maxSpeed - (if FallsShort maxSpeed x then 1 else 0) ∧
      155 * x / maxSpeed - (if FallsShort maxSpeed x then 1 else 0) ≤ 155 := by
    split_ifs with hshort
    · have := hshort.ge
      omega
    · omega
  -- both are between 100 and 255, and in between they reach the same steps
  refine eq_of_forall_le_iff fun d => ?_
  by_cases hd : 1 ≤ d - 100 ∧ d - 100 ≤ 155
  · have hpassed := (le_duty_iff_passes hM hx hd).trans (passes_iff hM.1 x (d - 100))
    omega
  · omega

/-- The 23rd of 155 speeds. -/
example : duty 155 23 = 122 ∧ RobotCar.duty 155 23 = 123 := by decide +kernel

end MakerSpace.RobotCar.Single
