import MakerSpace.RobotCar.Model

/-! Safe actuation over whole runs of the remote.

The saturating key counters keep speed and turn within the tuning bounds, and a
turn of at most two keeps the inside wheel no faster than the outside one. So
every duty the mix computes fits the byte it is stored in. `safe_actuation` puts
the two together for every sequence of keys. -/
namespace MakerSpace.RobotCar
open Arduino Reactive

structure InBounds (g : Tuning) (s : State) : Prop where
  speed : -g.maxSpeed ≤ s.speed ∧ s.speed ≤ g.maxSpeed
  turn : -g.maxTurn ≤ s.turn ∧ s.turn ≤ g.maxTurn

/-- Off, or from the minimum duty up to a full byte. -/
def InDutyRange (d : Int) : Prop := d = 0 ∨ (100 ≤ d ∧ d ≤ 255)

/-! ### The counters -/

theorem inBounds_powerUp (g : Tuning) (hS : 1 ≤ g.maxSpeed) (hT : 0 ≤ g.maxTurn) :
    InBounds g powerUp :=
  ⟨by simp only [powerUp]; omega, by simp only [powerUp]; omega⟩

/-- No key steps a counter past its bound. -/
theorem inBounds_handleKey (g : Tuning) (hS : 1 ≤ g.maxSpeed) (hT : 0 ≤ g.maxTurn)
    (key : BitVec 32) (s : State) (h : InBounds g s) : InBounds g (handleKey g key s).1 := by
  obtain ⟨hs, ht⟩ := h
  unfold handleKey
  split_ifs <;> constructor <;> dsimp only <;> omega

theorem inBounds_next (g : Tuning) (hS : 1 ≤ g.maxSpeed) (hT : 0 ≤ g.maxTurn)
    (decoded : Option (BitVec 32)) (s : State) (h : InBounds g s) :
    InBounds g ((car g).next decoded s) := by
  cases decoded with
  | none => exact h
  | some key => exact inBounds_handleKey g hS hT key s h

theorem inBounds_run (g : Tuning) (hS : 1 ≤ g.maxSpeed) (hT : 0 ≤ g.maxTurn)
    (keys : List (Option (BitVec 32))) : InBounds g ((car g).run powerUp keys) :=
  (car g).run_invariant (InBounds g) (inBounds_next g hS hT) powerUp
    (inBounds_powerUp g hS hT) keys

/-! ### The duties -/

theorem duty_inDutyRange {maxSpeed : Int} (hM : 1 ≤ maxSpeed) {x : Int} (hx : |x| ≤ maxSpeed) :
    InDutyRange (duty maxSpeed x) := by
  by_cases h0 : x = 0
  · exact .inl (by rw [h0, duty_zero hM])
  · exact .inr ⟨duty_ge hM h0, duty_le hM hx⟩

/-- The two duties of the mix, as computed and as stored: one wheel runs at the
full speed's duty in the direction of travel, and the other at the slower one. -/
structure SafeMix (maxSpeed speed turn : Int) : Prop where
  rangeMax : InDutyRange (duty maxSpeed speed)
  rangeSlower : InDutyRange (duty maxSpeed (slowerSpeed speed turn))
  stored : ∃ outer inner : MotorState,
    (updateSpeeds2 maxSpeed speed turn = ⟨outer, inner⟩ ∨
      updateSpeeds2 maxSpeed speed turn = ⟨inner, outer⟩) ∧
    (outer.pwm.toNat : Int) = duty maxSpeed speed ∧
    (inner.pwm.toNat : Int) = duty maxSpeed (slowerSpeed speed turn) ∧
    outer.forward = decide (speed > 0) ∧
    (outer.pwm.toNat : Int) = 100 + 155 * |speed| / maxSpeed ∧
    inner.pwm.toNat ≤ outer.pwm.toNat

theorem safeMix {maxSpeed speed turn : Int} (hM : 1 ≤ maxSpeed) (hs : |speed| ≤ maxSpeed)
    (h0 : speed ≠ 0) (ht : |turn| ≤ 2) : SafeMix maxSpeed speed turn := by
  have hslower := abs_slowerSpeed h0 ht
  have houter := pwmOf_duty (dutyLaw hM) hs
  have hinner := pwmOf_duty (dutyLaw hM) (hslower.trans hs)
  have hmono := duty_mono hM hslower
  refine ⟨duty_inDutyRange hM hs, duty_inDutyRange hM (hslower.trans hs),
    wheel (duty maxSpeed) speed, wheel (duty maxSpeed) (slowerSpeed speed turn), ?_, houter, hinner, rfl, ?_, ?_⟩
  · rw [updateSpeeds2, mixSpeeds_ne_zero (duty maxSpeed) maxSpeed turn h0, clampSpeed_of_le hs]
    dsimp only
    split_ifs
    · exact .inl rfl
    · exact .inr rfl
  · exact houter.trans (by rw [duty_eq hM, if_pos h0])
  · have : ((pwmOf (duty maxSpeed (slowerSpeed speed turn))).toNat : Int) ≤
        (pwmOf (duty maxSpeed speed)).toNat := by omega
    exact_mod_cast this

/-! ### What is written -/

theorem driveDuty_handleKey (pin : Nat) (d : BitVec 8) (g : Tuning) (key : BitVec 32) (s : State) :
    (handleKey g key s).2.foldl (driveDuty pin) d = d := by
  unfold handleKey
  split_ifs <;> rfl

theorem drive_handleKey (pin : Nat) (l : Level) (g : Tuning) (key : BitVec 32) (s : State) :
    (handleKey g key s).2.foldl (drive pin) l = l := by
  unfold handleKey
  split_ifs <;> rfl

/-- One side of the motor driver: the pin that is HIGH forward, the one that is HIGH
backward, and the one that carries the duty. -/
structure Side where
  forwardPin : Nat
  backwardPin : Nat
  enablePin : Nat
  deriving DecidableEq, Repr

def leftSide : Side := ⟨in1, in2, enA⟩
def rightSide : Side := ⟨in3, in4, enB⟩

/-- The pins of a side drive its wheel as a motor state says. -/
structure Drives (effects : List Effect) (side : Side) (w : MotorState) : Prop where
  forwardPin : pinLevel side.forwardPin effects = if w.forward then .high else .low
  backwardPin : pinLevel side.backwardPin effects = if w.forward then .low else .high
  enablePin : pinDuty side.enablePin effects = w.pwm

/-- The mix of a state's speed and turn. -/
def mix (g : Tuning) (s : State) : MotorsState := updateSpeeds2 g.maxSpeed s.speed s.turn

/-- A handled key writes all six pins, whatever they were left at. -/
theorem drives_out (g : Tuning) (key : BitVec 32) (s : State) (before : List Effect) :
    Drives (before ++ (car g).out (some key) s) leftSide (mix g ((car g).next (some key) s)).left ∧
      Drives (before ++ (car g).out (some key) s) rightSide
        (mix g ((car g).next (some key) s)).right := by
  have hnext : (car g).next (some key) s = (handleKey g key s).1 := rfl
  rw [hnext, mix]
  simp only [Machine.out, car, irControl, updateSpeeds]
  generalize updateSpeeds2 g.maxSpeed (handleKey g key s).1.speed (handleKey g key s).1.turn = m
  constructor <;> constructor <;>
    simp only [pinLevel_append, pinDuty_append, List.foldl_append, drive_handleKey,
      driveDuty_handleKey] <;>
    cases m.left.forward <;> cases m.right.forward <;> rfl

theorem drives_run (g : Tuning) (keys : List (Option (BitVec 32))) (key : BitVec 32) :
    let s := (car g).run powerUp (keys ++ [some key])
    let effects := (car g).log powerUp (keys ++ [some key])
    Drives effects leftSide (mix g s).left ∧ Drives effects rightSide (mix g s).right := by
  simp only [Machine.run_concat, Machine.log_concat]
  exact drives_out g key _ _

/-- The pins of the outer side drive its wheel in the direction of the speed, at 100 plus
its share of 155, and those of the inner side drive the other no faster. -/
structure Leads (effects : List Effect) (maxSpeed speed : Int) (outer inner : Side) : Prop where
  forwardPin : pinLevel outer.forwardPin effects = if speed > 0 then .high else .low
  backwardPin : pinLevel outer.backwardPin effects = if speed > 0 then .low else .high
  enablePin : ((pinDuty outer.enablePin effects).toNat : Int) = 100 + 155 * |speed| / maxSpeed
  slower : (pinDuty inner.enablePin effects).toNat ≤ (pinDuty outer.enablePin effects).toNat

theorem Drives.leads {effects : List Effect} {maxSpeed speed : Int} {outer inner : Side}
    {w v : MotorState} (hw : Drives effects outer w) (hv : Drives effects inner v)
    (hforward : w.forward = decide (speed > 0))
    (hduty : (w.pwm.toNat : Int) = 100 + 155 * |speed| / maxSpeed)
    (hslower : v.pwm.toNat ≤ w.pwm.toNat) : Leads effects maxSpeed speed outer inner where
  forwardPin := by simpa only [hforward, decide_eq_true_eq] using hw.forwardPin
  backwardPin := by simpa only [hforward, decide_eq_true_eq] using hw.backwardPin
  enablePin := by rw [hw.enablePin, hduty]
  slower := by rw [hw.enablePin, hv.enablePin]; exact hslower

/-- **Safe actuation.** After every handled key speed and turn are within the tuning
bounds, and the pins of both sides carry the directions and duties of the mix; stopped,
both duties are 0; moving, the two duties computed fit their byte and are 0 or at least
100, and at the pins one side leads in the direction of the speed. -/
theorem safe_actuation (g : Tuning) (hS : 1 ≤ g.maxSpeed) (hT : 0 ≤ g.maxTurn ∧ g.maxTurn ≤ 2)
    (keys : List (Option (BitVec 32))) (key : BitVec 32) :
    let s := (car g).run powerUp (keys ++ [some key])
    let effects := (car g).log powerUp (keys ++ [some key])
    InBounds g s ∧
    (Drives effects leftSide (mix g s).left ∧ Drives effects rightSide (mix g s).right) ∧
    (s.speed = 0 → pinDuty enA effects = 0 ∧ pinDuty enB effects = 0) ∧
    (s.speed ≠ 0 → SafeMix g.maxSpeed s.speed s.turn ∧
      (Leads effects g.maxSpeed s.speed leftSide rightSide ∨
        Leads effects g.maxSpeed s.speed rightSide leftSide)) := by
  intro s effects
  have hbounds : InBounds g s := inBounds_run g hS hT.1 _
  obtain ⟨hleft, hright⟩ : Drives effects leftSide (mix g s).left ∧
    Drives effects rightSide (mix g s).right := drives_run g keys key
  refine ⟨hbounds, ⟨hleft, hright⟩, fun h0 => ?_, fun h0 => ?_⟩
  · have hzero : mix g s = ⟨⟨true, 0⟩, ⟨true, 0⟩⟩ := by rw [mix, h0, updateSpeeds2, mixSpeeds_zero]
    exact ⟨hleft.enablePin.trans (by rw [hzero]), hright.enablePin.trans (by rw [hzero])⟩
  · have hturn : |s.turn| ≤ 2 := abs_le.mpr ⟨by have := hbounds.turn; omega, by
      have := hbounds.turn; omega⟩
    have hsafe := safeMix hS (abs_le.mpr hbounds.speed) h0 hturn
    obtain ⟨outer, inner, hsides, -, -, hforward, hduty, hslower⟩ := hsafe.stored
    refine ⟨hsafe, ?_⟩
    rcases hsides with hmix | hmix
    · rw [mix, hmix] at hleft hright
      exact .inl (hleft.leads hright hforward hduty hslower)
    · rw [mix, hmix] at hleft hright
      exact .inr (hright.leads hleft hforward hduty hslower)

/-- Forward and then right, at the default tuning. -/
theorem safe_actuation_default :
    let s := (car {}).run powerUp ([some irGo] ++ [some irRight])
    let effects := (car {}).log powerUp ([some irGo] ++ [some irRight])
    SafeMix 6 s.speed s.turn ∧
      (Leads effects 6 s.speed leftSide rightSide ∨ Leads effects 6 s.speed rightSide leftSide) :=
  (safe_actuation {} (by decide) (by decide) [some irGo] irRight).2.2.2 (by decide)

end MakerSpace.RobotCar
