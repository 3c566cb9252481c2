import MakerSpace.RobotCar.SafeActuation
import MakerSpace.RobotCar.Symmetry

/-! The throttle is monotone.

A single wheel is not: in a sharp turn at low speed the wheel inside the turn runs
backward, and every wheel stops at speed 0. The sum of the two is, by a margin that a
turn of two just uses up: `netDrive_nonneg` is where it is spent. `throttle_mono` goes
from the mix to the keys that step the speed. -/
namespace MakerSpace.RobotCar
open Arduino Reactive

/-- The net forward drive: both wheels' velocities together. -/
def MotorsState.netDrive (m : MotorsState) : Int := m.left.velocity + m.right.velocity

/-! ### The drive of a speed -/

theorem abs_clampSpeed {maxSpeed : Int} (hM : 1 ≤ maxSpeed) (speed : Int) :
    |clampSpeed maxSpeed speed| ≤ maxSpeed := by
  rw [abs_le]
  unfold clampSpeed
  split_ifs <;> omega

theorem clampSpeed_mono {maxSpeed s₁ s₂ : Int} (hM : 1 ≤ maxSpeed) (h : s₁ ≤ s₂) :
    clampSpeed maxSpeed s₁ ≤ clampSpeed maxSpeed s₂ := by
  unfold clampSpeed
  split_ifs <;> omega

theorem clampSpeed_pos {maxSpeed speed : Int} (hM : 1 ≤ maxSpeed) (h : 0 < speed) :
    0 < clampSpeed maxSpeed speed := by
  unfold clampSpeed
  split_ifs <;> omega

theorem netDrive_zero (duty : Int → Int) (maxSpeed turn : Int) :
    (mixSpeeds duty maxSpeed 0 turn).netDrive = 0 := by
  rw [mixSpeeds_zero]
  rfl

section
variable {maxSpeed turn : Int} {duty : Int → Int} (hM : 1 ≤ maxSpeed) (law : DutyLaw maxSpeed duty)
include hM law

theorem netDrive_neg (speed turn : Int) :
    (mixSpeeds duty maxSpeed (-speed) turn).netDrive =
      -(mixSpeeds duty maxSpeed speed turn).netDrive := by
  have hleft := congrArg Prod.fst (velocities_neg_speed speed turn hM law)
  have hright := congrArg Prod.snd (velocities_neg_speed speed turn hM law)
  simp only [MotorsState.velocities] at hleft hright
  simp only [MotorsState.netDrive, hleft, hright]
  ring

/-- Forward, the full duty and the duty of the speed less the turn. -/
theorem netDrive_pos {speed : Int} (ht : |turn| ≤ 2) (h : 0 < speed) :
    (mixSpeeds duty maxSpeed speed turn).netDrive =
      signedDuty duty (clampSpeed maxSpeed speed) +
        signedDuty duty (clampSpeed maxSpeed speed - |turn|) := by
  have hclamp := clampSpeed_pos hM h
  have hle := abs_clampSpeed hM speed
  have hslower : slowerSpeed (clampSpeed maxSpeed speed) turn =
      clampSpeed maxSpeed speed - |turn| := by rw [slowerSpeed, if_pos hclamp]
  have houter := wheel_velocity law hle
  have hinner := wheel_velocity law ((abs_slowerSpeed hclamp.ne' ht).trans hle)
  rw [hslower] at hinner
  rw [mixSpeeds_ne_zero duty maxSpeed turn h.ne']
  simp only [hslower]
  split_ifs
  · rw [MotorsState.netDrive, houter, hinner]
  · rw [MotorsState.netDrive, houter, hinner, add_comm]

/-- However sharp a turn of at most two, the wheel inside it takes back no more than
the other gives. -/
theorem netDrive_nonneg {speed : Int} (ht : |turn| ≤ 2) (h : 0 ≤ speed) :
    0 ≤ (mixSpeeds duty maxSpeed speed turn).netDrive := by
  rcases h.eq_or_lt with rfl | hpos
  · rw [netDrive_zero]
  · have hclamp := clampSpeed_pos hM hpos
    rw [netDrive_pos hM law ht hpos]
    have hback : signedDuty duty (|turn| - clampSpeed maxSpeed speed) ≤
        signedDuty duty (clampSpeed maxSpeed speed) := signedDuty_mono law (by omega)
    have hneg := signedDuty_neg law (clampSpeed maxSpeed speed - |turn|)
    rw [neg_sub] at hneg
    omega

theorem netDrive_mono_pos {s₁ s₂ : Int} (ht : |turn| ≤ 2) (h₁ : 0 < s₁) (h : s₁ ≤ s₂) :
    (mixSpeeds duty maxSpeed s₁ turn).netDrive ≤ (mixSpeeds duty maxSpeed s₂ turn).netDrive := by
  have hclamp := clampSpeed_mono hM h
  rw [netDrive_pos hM law ht h₁, netDrive_pos hM law ht (h₁.trans_le h)]
  exact add_le_add (signedDuty_mono law hclamp) (signedDuty_mono law (by omega))

theorem netDrive_mono {s₁ s₂ : Int} (ht : |turn| ≤ 2) (h : s₁ ≤ s₂) :
    (mixSpeeds duty maxSpeed s₁ turn).netDrive ≤ (mixSpeeds duty maxSpeed s₂ turn).netDrive := by
  have hmirror₁ := netDrive_neg hM law s₁ turn
  have hmirror₂ := netDrive_neg hM law s₂ turn
  rcases lt_or_ge 0 s₁ with h₁ | h₁
  · exact netDrive_mono_pos hM law ht h₁ h
  · rcases lt_or_ge s₂ 0 with h₂ | h₂
    · have hmono := netDrive_mono_pos hM law ht (by omega : 0 < -s₂) (by omega : -s₂ ≤ -s₁)
      omega
    · have hbackward := netDrive_nonneg hM law ht (by omega : 0 ≤ -s₁)
      have hforward := netDrive_nonneg hM law ht h₂
      omega

end

/-! ### The keys -/

/-- Whatever the bound on the turn, as long as it is at most two. -/
theorem abs_turn_run (g : Tuning) (hT : g.maxTurn ≤ 2) (keys : List (Option (BitVec 32))) :
    |((car g).run powerUp keys).turn| ≤ 2 := by
  refine (car g).run_invariant (fun s => |s.turn| ≤ 2) (fun decoded s h => ?_) powerUp (by decide) keys
  cases decoded with
  | none => exact h
  | some key =>
    show |(handleKey g key s).1.turn| ≤ 2
    rw [abs_le] at h ⊢
    unfold handleKey
    split_ifs <;> dsimp only <;> omega

theorem handleKey_go (g : Tuning) (s : State) :
    (handleKey g irGo s).1.turn = s.turn ∧ s.speed ≤ (handleKey g irGo s).1.speed := by
  unfold handleKey
  rw [if_pos rfl]
  split_ifs <;> simp

theorem handleKey_back (g : Tuning) (s : State) :
    (handleKey g irBack s).1.turn = s.turn ∧ (handleKey g irBack s).1.speed ≤ s.speed := by
  have hne : irBack ≠ irGo := by decide
  unfold handleKey
  rw [if_neg hne, if_pos rfl]
  split_ifs <;> simp

/-- **The throttle is monotone**: at a turn of at most two a greater speed never gives
less net drive, inside or outside the clamp, and so from any state the keys reach
`IR_Go` never reduces and `IR_Back` never increases it. -/
theorem throttle_mono (g : Tuning) (hM : 1 ≤ g.maxSpeed) :
    (∀ turn s₁ s₂ : Int, |turn| ≤ 2 → s₁ ≤ s₂ →
      (updateSpeeds2 g.maxSpeed s₁ turn).netDrive ≤ (updateSpeeds2 g.maxSpeed s₂ turn).netDrive) ∧
    (g.maxTurn ≤ 2 → ∀ keys : List (Option (BitVec 32)),
      (mix g ((car g).run powerUp keys)).netDrive ≤
          (mix g ((car g).run powerUp (keys ++ [some irGo]))).netDrive ∧
        (mix g ((car g).run powerUp (keys ++ [some irBack]))).netDrive ≤
          (mix g ((car g).run powerUp keys)).netDrive) := by
  refine ⟨fun turn s₁ s₂ ht h => netDrive_mono hM (dutyLaw hM) ht h, fun hT keys => ?_⟩
  have hturn := abs_turn_run g hT keys
  rw [Machine.run_concat, Machine.run_concat]
  constructor
  · obtain ⟨hsame, hle⟩ := handleKey_go g ((car g).run powerUp keys)
    show _ ≤ (mix g (handleKey g irGo ((car g).run powerUp keys)).1).netDrive
    rw [mix, mix, hsame]
    exact netDrive_mono hM (dutyLaw hM) hturn hle
  · obtain ⟨hsame, hle⟩ := handleKey_back g ((car g).run powerUp keys)
    show (mix g (handleKey g irBack ((car g).run powerUp keys)).1).netDrive ≤ _
    rw [mix, mix, hsame]
    exact netDrive_mono hM (dutyLaw hM) hturn hle

/-- At the default tuning, in the sharpest turn: the first step on the throttle, with
the wheel inside the turn running backward, gains nothing, and loses nothing. -/
theorem throttle_mono_sharp :
    (updateSpeeds2 6 0 2).netDrive ≤ (updateSpeeds2 6 1 2).netDrive ∧
      (mix {} ((car {}).run powerUp [some irRight])).netDrive ≤
        (mix {} ((car {}).run powerUp ([some irRight] ++ [some irGo]))).netDrive :=
  ⟨(throttle_mono {} (by decide)).1 2 0 1 (by decide) (by decide),
    ((throttle_mono {} (by decide)).2 (by decide) [some irRight]).1⟩

end MakerSpace.RobotCar
