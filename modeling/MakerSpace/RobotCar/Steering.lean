import MakerSpace.RobotCar.SinglePrecision

/-! The side the car steers to.

The comments in `updateSpeeds2` name, in each branch, the wheel that goes slower,
so that the left wheel gains on the right one exactly in a turn to the right,
whether the car drives forward or backward. Forward the code does that, down to
the resolution of the duties, here the ones single precision gives. Backward it
assigns the two wheels the other way round, and never does. -/
namespace MakerSpace.RobotCar

/-- Of the two wheels, the one the branch comments name, and the other. -/
def namedWheel (speed turn : Int) (m : MotorsState) : MotorState × MotorState :=
  if turn > 0 then
    if speed > 0 then (m.right, m.left) else (m.left, m.right)
  else
    if speed > 0 then (m.left, m.right) else (m.right, m.left)

/-- The wheel the comments name is the slower one in the direction of travel, and
left minus right has the sign of the turn. -/
def SteersAsNamed (speed turn : Int) (m : MotorsState) : Prop :=
  ((namedWheel speed turn m).1.velocity * speed.sign <
      (namedWheel speed turn m).2.velocity * speed.sign) ∧
    (m.left.velocity - m.right.velocity).sign = turn.sign

section
variable {maxSpeed speed turn : Int} {duty : Int → Int} (law : DutyLaw maxSpeed duty)
include law

/-- Forward the wheels are as named, so it is for the duties to differ. -/
theorem steers_iff_forward (hs : 0 < speed) (hle : |speed| ≤ maxSpeed) (h0 : turn ≠ 0)
    (h2 : |turn| ≤ 2) :
    SteersAsNamed speed turn (mixSpeeds duty maxSpeed speed turn) ↔
      signedDuty duty (speed - |turn|) < signedDuty duty speed := by
  have hslower : slowerSpeed speed turn = speed - |turn| := by rw [slowerSpeed, if_pos hs]
  have houter := wheel_velocity law hle
  have hinner := wheel_velocity law ((abs_slowerSpeed (by omega) h2).trans hle)
  rw [hslower] at hinner
  rw [mixSpeeds_ne_zero duty maxSpeed turn (by omega), clampSpeed_of_le hle]
  simp only [SteersAsNamed, namedWheel, hs, gt_iff_lt, if_true, hslower,
    Int.sign_eq_one_of_pos hs, mul_one]
  rcases lt_or_gt_of_ne h0 with hneg | hpos
  · rw [if_neg (by omega), if_neg (by omega), Int.sign_eq_neg_one_of_neg hneg,
      Int.sign_eq_neg_one_iff_neg]
    simp only [hinner, houter]
    omega
  · rw [if_pos hpos, if_pos hpos, Int.sign_eq_one_of_pos hpos, Int.sign_eq_one_iff_pos]
    simp only [hinner, houter]
    omega

/-- Backward the assignment is the wrong way round. -/
theorem not_steers_backward (hs : speed < 0) (hle : |speed| ≤ maxSpeed) (h0 : turn ≠ 0)
    (h2 : |turn| ≤ 2) : ¬SteersAsNamed speed turn (mixSpeeds duty maxSpeed speed turn) := by
  have hslower : slowerSpeed speed turn = speed + |turn| := by
    rw [slowerSpeed, if_neg (by omega)]
    ring
  have habs := abs_nonneg turn
  have houter := wheel_velocity law hle
  have hinner := wheel_velocity law ((abs_slowerSpeed (by omega) h2).trans hle)
  have hmono := signedDuty_mono law (by omega : speed ≤ speed + |turn|)
  rw [hslower] at hinner
  rw [mixSpeeds_ne_zero duty maxSpeed turn (by omega), clampSpeed_of_le hle]
  intro hsteers
  obtain ⟨-, hsign⟩ := hsteers
  simp only [hslower] at hsign
  rcases lt_or_gt_of_ne h0 with hneg | hpos
  · rw [if_neg (by omega), Int.sign_eq_neg_one_of_neg hneg, Int.sign_eq_neg_one_iff_neg] at hsign
    simp only [hinner, houter] at hsign
    omega
  · rw [if_pos hpos, Int.sign_eq_one_of_pos hpos, Int.sign_eq_one_iff_pos] at hsign
    simp only [hinner, houter] at hsign
    omega

end

namespace Single

/-- Some duty is within reach of the full speed and not of the slower one. -/
def Resolved (maxSpeed speed turn : Int) : Prop :=
  ∃ k, 1 ≤ k ∧ k ≤ 155 ∧ ¬Attains maxSpeed (speed - |turn|) k ∧ Attains maxSpeed speed k

variable {maxSpeed speed turn : Int}

/-- Forward, the slower speed's duty is lower exactly when it is no speed at all, or
when the duties resolve the two. -/
theorem signedDuty_lt_iff (hM : 1 ≤ maxSpeed) (hs : 0 < speed ∧ speed ≤ maxSpeed)
    (ht : turn ≠ 0) :
    signedDuty (duty maxSpeed) (speed - |turn|) < signedDuty (duty maxSpeed) speed ↔
      speed ≤ |turn| ∨ Resolved maxSpeed speed turn := by
  have hpos := abs_pos.mpr ht
  have hleast := (dutyLaw hM).ge (by omega : speed ≠ 0)
  rw [signedDuty.eq_1 _ speed, if_pos hs.1]
  by_cases hcross : speed ≤ |turn|
  · refine iff_of_true ((signedDuty_nonpos (dutyLaw hM) (by omega)).trans_lt ?_) (.inl hcross)
    omega
  · have hslower := (dutyLaw hM).ge (by omega : speed - |turn| ≠ 0)
    have hmost := (dutyLaw hM).le (abs_le.mpr ⟨by omega, hs.2⟩)
    rw [signedDuty, if_pos (by omega), or_iff_right hcross]
    constructor
    · intro hlt
      refine ⟨duty maxSpeed speed - 100, by omega, by omega, fun h => ?_, ?_⟩
      · have := (le_duty_iff hM (by omega) ⟨by omega, by omega⟩).mpr h
        omega
      · exact (le_duty_iff hM hs.1 ⟨by omega, by omega⟩).mp (by omega)
    · intro h
      obtain ⟨k, hk1, hk155, hshort, hreach⟩ := h
      have hfull := (le_duty_iff hM hs.1 ⟨hk1, hk155⟩).mpr hreach
      have hslow := mt (le_duty_iff hM (by omega) ⟨hk1, hk155⟩).mp hshort
      omega

/-- For the ints of the board, some whole number of steps separates the two speeds. -/
theorem resolved_iff (hM : 1 ≤ maxSpeed ∧ maxSpeed ≤ 32767) (hs : speed ≤ maxSpeed)
    (ht : |turn| < speed) :
    Resolved maxSpeed speed turn ↔
      ∃ k, ¬Passes maxSpeed (speed - |turn|) k ∧ Passes maxSpeed speed k := by
  have habs := abs_nonneg turn
  constructor
  · intro h
    obtain ⟨k, hk1, hk155, hshort, hreach⟩ := h
    have hk := And.intro hk1 hk155
    exact ⟨k, mt (attains_iff hM ⟨by omega, by omega⟩ hk).mpr hshort,
      (attains_iff hM ⟨by omega, hs⟩ hk).mp hreach⟩
  · intro h
    obtain ⟨k, hshort, hreach⟩ := h
    have hk : 1 ≤ k ∧ k ≤ 155 := by
      constructor
      · by_contra hlow
        refine hshort (.inl ?_)
        have := Int.mul_nonpos_of_nonpos_of_nonneg (by omega : k ≤ 0) (by omega : 0 ≤ maxSpeed)
        omega
      · by_contra hhigh
        have := Int.mul_le_mul_of_nonneg_right (by omega : 156 ≤ k) (by omega : 0 ≤ maxSpeed)
        unfold Passes at hreach
        omega
    exact ⟨k, hk.1, hk.2, mt (attains_iff hM ⟨by omega, by omega⟩ hk).mp hshort,
      (attains_iff hM ⟨by omega, hs⟩ hk).mpr hreach⟩

/-- **The car steers as the comments name exactly when it drives forward** and the turn
either takes all of the speed or shows in the duties; for the 16 bit ints of the board, it
shows when a whole number of duty steps separates the two speeds. -/
theorem steers_iff {maxTurn : Int} (hM : 1 ≤ maxSpeed) (hT : 0 ≤ maxTurn ∧ maxTurn ≤ 2)
    (hs : 0 < |speed| ∧ |speed| ≤ maxSpeed) (ht : 0 < |turn| ∧ |turn| ≤ maxTurn) :
    (SteersAsNamed speed turn (updateSpeeds2 maxSpeed speed turn) ↔
      0 < speed ∧ (speed ≤ |turn| ∨ Resolved maxSpeed speed turn)) ∧
    (maxSpeed ≤ 32767 → |turn| < speed → (Resolved maxSpeed speed turn ↔
      ∃ k, ¬Passes maxSpeed (speed - |turn|) k ∧ Passes maxSpeed speed k)) := by
  have h0 : turn ≠ 0 := abs_pos.mp ht.1
  have h2 : |turn| ≤ 2 := ht.2.trans hT.2
  have hle := (le_abs_self speed).trans hs.2
  refine ⟨?_, fun hint hturn => resolved_iff ⟨hM, hint⟩ hle hturn⟩
  rcases lt_or_gt_of_ne (abs_pos.mp hs.1) with hneg | hpos
  · exact iff_of_false (not_steers_backward (dutyLaw hM) hneg hs.2 h0 h2) fun h => by omega
  · rw [updateSpeeds2, steers_iff_forward (dutyLaw hM) hpos hs.2 h0 h2,
      signedDuty_lt_iff hM ⟨hpos, hle⟩ h0, and_iff_right hpos]

/-- A speed above its 23rd step of 155, which the quotient of the slower speed falls short of. -/
theorem steers_above_short : SteersAsNamed 47 1 (updateSpeeds2 310 47 1) := by
  obtain ⟨hsteers, hresolved⟩ :=
    @steers_iff 310 47 1 2 (by decide) (by decide) (by decide) (by decide)
  exact hsteers.mpr ⟨by decide, .inr ((hresolved (by decide) (by decide)).mpr ⟨23, by decide⟩)⟩

/-- Half speed back at the default tuning, with a turn to the right: the comment in
that branch names the left wheel, and the right one goes slower. -/
theorem backward_steers_wrong :
    ¬SteersAsNamed (-3) 1 (updateSpeeds2 6 (-3) 1) ∧
      (updateSpeeds2 6 (-3) 1).left.velocity = -177 ∧
      (updateSpeeds2 6 (-3) 1).right.velocity = -151 := by
  refine ⟨?_, by decide +kernel, by decide +kernel⟩
  intro hsteers
  obtain ⟨hnamed, -⟩ := hsteers
  exact absurd hnamed (by decide +kernel)

end Single

end MakerSpace.RobotCar
