import MakerSpace.RobotCar.Model

/-! The two reflections of the wheel mix.

`updateSpeeds2` writes its four branches out by hand, counts a turn of 0 with the
turns to the left, and gives a wheel at rest a forward flag that does not flip with
the direction. Read as velocities the four are one rule all the same: `mix_symmetry`
says that mirroring the turn exchanges the wheels and that mirroring the speed
reverses both. -/
namespace MakerSpace.RobotCar

/-- The velocities of the left and the right wheel. -/
def MotorsState.velocities (m : MotorsState) : Int × Int := (m.left.velocity, m.right.velocity)

section
variable {maxSpeed : Int} {duty : Int → Int} (law : DutyLaw maxSpeed duty)
include law

/-- A wheel at rest is at rest whatever its flag. -/
theorem velocity_zero : (wheel duty 0).velocity = 0 := by
  simp [MotorState.velocity, wheel, law.zero, pwmOf]

theorem wheel_neg (x : Int) : (wheel duty (-x)).velocity = -(wheel duty x).velocity := by
  rcases lt_trichotomy x 0 with hx | rfl | hx
  · have hforward : ¬0 < x := not_lt.mpr hx.le
    simp [MotorState.velocity, wheel, law.neg, hx, hforward]
  · rw [neg_zero, velocity_zero law, neg_zero]
  · have hbackward : ¬x < 0 := not_lt.mpr hx.le
    simp [MotorState.velocity, wheel, law.neg, hx, hbackward]

end

theorem clampSpeed_neg {maxSpeed : Int} (hM : 1 ≤ maxSpeed) (speed : Int) :
    clampSpeed maxSpeed (-speed) = -clampSpeed maxSpeed speed := by
  unfold clampSpeed
  split_ifs <;> omega

theorem clampSpeed_ne_zero {maxSpeed speed : Int} (hM : 1 ≤ maxSpeed) (h : speed ≠ 0) :
    clampSpeed maxSpeed speed ≠ 0 := by
  unfold clampSpeed
  split_ifs <;> omega

theorem slowerSpeed_neg_turn (speed turn : Int) :
    slowerSpeed speed (-turn) = slowerSpeed speed turn := by
  rw [slowerSpeed, slowerSpeed, abs_neg]

theorem slowerSpeed_neg {speed : Int} (turn : Int) (h : speed ≠ 0) :
    slowerSpeed (-speed) turn = -slowerSpeed speed turn := by
  unfold slowerSpeed
  split_ifs <;> omega

section
variable (duty : Int → Int) (maxSpeed speed turn : Int)

theorem velocities_zero : (mixSpeeds duty maxSpeed 0 turn).velocities = (0, 0) := by
  rw [mixSpeeds_zero]
  rfl

theorem velocities_ne_zero {speed : Int} (h : speed ≠ 0) :
    (mixSpeeds duty maxSpeed speed turn).velocities =
      let outer := (wheel duty (clampSpeed maxSpeed speed)).velocity
      let inner := (wheel duty (slowerSpeed (clampSpeed maxSpeed speed) turn)).velocity
      if turn > 0 then (outer, inner) else (inner, outer) := by
  rw [mixSpeeds_ne_zero duty maxSpeed turn h]
  dsimp only
  split_ifs <;> rfl

/-- Mirroring the turn exchanges the wheels. -/
theorem velocities_neg_turn :
    (mixSpeeds duty maxSpeed speed (-turn)).velocities =
      (mixSpeeds duty maxSpeed speed turn).velocities.swap := by
  by_cases h0 : speed = 0
  · subst h0
    rw [velocities_zero, velocities_zero]
    rfl
  · simp only [velocities_ne_zero duty maxSpeed _ h0, slowerSpeed_neg_turn]
    rcases lt_trichotomy turn 0 with hneg | rfl | hpos
    · rw [if_pos (by omega), if_neg (by omega)]
      rfl
    · simp [slowerSpeed]
    · rw [if_neg (by omega), if_pos hpos]
      rfl

variable {duty maxSpeed}

/-- Mirroring the speed reverses both wheels. -/
theorem velocities_neg_speed (hM : 1 ≤ maxSpeed) (law : DutyLaw maxSpeed duty) :
    (mixSpeeds duty maxSpeed (-speed) turn).velocities =
      (-(mixSpeeds duty maxSpeed speed turn).velocities.1,
        -(mixSpeeds duty maxSpeed speed turn).velocities.2) := by
  by_cases h0 : speed = 0
  · subst h0
    rw [neg_zero, velocities_zero]
    rfl
  · simp only [velocities_ne_zero duty maxSpeed turn h0,
      velocities_ne_zero duty maxSpeed turn (neg_ne_zero.mpr h0), clampSpeed_neg hM,
      slowerSpeed_neg turn (clampSpeed_ne_zero hM h0), wheel_neg law]
    split_ifs <;> rfl

end

/-- **The wheel mix is symmetric**: the opposite turn exchanges the two velocities, and
the opposite speed reverses both, for every speed inside or outside the clamp. -/
theorem mix_symmetry {maxSpeed : Int} (hM : 1 ≤ maxSpeed) (speed turn : Int) :
    (updateSpeeds2 maxSpeed speed (-turn)).velocities =
        (updateSpeeds2 maxSpeed speed turn).velocities.swap ∧
      (updateSpeeds2 maxSpeed (-speed) turn).velocities =
        (-(updateSpeeds2 maxSpeed speed turn).velocities.1,
          -(updateSpeeds2 maxSpeed speed turn).velocities.2) :=
  ⟨velocities_neg_turn (duty maxSpeed) maxSpeed speed turn,
    velocities_neg_speed speed turn hM (dutyLaw hM)⟩

/-- At the default tuning, a speed that leaves the wheel inside the turn at rest. -/
theorem mix_symmetry_rest :
    (updateSpeeds2 6 2 (-2)).velocities = (updateSpeeds2 6 2 2).velocities.swap ∧
      (updateSpeeds2 6 (-2) 2).velocities =
        (-(updateSpeeds2 6 2 2).velocities.1, -(updateSpeeds2 6 2 2).velocities.2) :=
  @mix_symmetry 6 (by decide) 2 2

end MakerSpace.RobotCar
