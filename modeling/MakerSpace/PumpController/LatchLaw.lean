import MakerSpace.PumpController.Model
import MakerSpace.Reactive.Latch

/-! The latch law of the irrigation controller.

Each channel is a set/reset latch over the history of its own three sensors: all
three inactive sets it, an active high or kill sensor resets it, and everything
else holds. `latch_law` says so of every history of passes from power-up, for the
pump state and for the relay alike. -/
namespace MakerSpace.PumpController
open Arduino Reactive

inductive Channel where
  | one
  | two
  deriving DecidableEq, Repr

namespace Channel

def lowPin : Channel → Nat
  | .one => sensorLow1
  | .two => sensorLow2

def highPin : Channel → Nat
  | .one => sensorHigh1
  | .two => sensorHigh2

def killPin : Channel → Nat
  | .one => sensorKill1
  | .two => sensorKill2

def relayPin : Channel → Nat
  | .one => relayCtrl1
  | .two => relayCtrl2

/-- What a channel's three sensors show: low, high, kill. -/
def readings (c : Channel) (digitalRead : Nat → Level) : Level × Level × Level :=
  (digitalRead c.lowPin, digitalRead c.highPin, digitalRead c.killPin)

end Channel

def State.pump (s : State) : Channel → Int
  | .one => s.pumpState1
  | .two => s.pumpState2

/-- All three sensors inactive: their pins HIGH. -/
def Clear (r : Level × Level × Level) : Prop := r.1 = .high ∧ r.2.1 = .high ∧ r.2.2 = .high

/-- The high or the kill sensor active: its pin LOW. -/
def Stopping (r : Level × Level × Level) : Prop := r.2.1 = .low ∨ r.2.2 = .low

/-! ### One pass -/

theorem switchPump1_eq_one (low high kill pump : Int) :
    switchPump1 low high kill pump = 1 ↔ kill = 0 ∧ high = 0 ∧ (low = 0 ∨ pump = 1) := by
  unfold switchPump1
  split_ifs <;> grind

theorem switchPump2_eq_one (low high kill pump : Int) :
    switchPump2 low high kill pump = 1 ↔ kill = 0 ∧ high = 0 ∧ (low = 0 ∨ pump = 1) := by
  unfold switchPump2
  split_ifs <;> grind

theorem switchPump1_bit (low high kill pump : Int) (h : pump = 0 ∨ pump = 1) :
    switchPump1 low high kill pump = 0 ∨ switchPump1 low high kill pump = 1 := by
  unfold switchPump1
  split_ifs <;> simp [h]

theorem switchPump2_bit (low high kill pump : Int) (h : pump = 0 ∨ pump = 1) :
    switchPump2 low high kill pump = 0 ∨ switchPump2 low high kill pump = 1 := by
  unfold switchPump2
  split_ifs <;> simp [h]

theorem sensed_eq_zero (digitalRead : Nat → Level) (pin : Nat) :
    sensed digitalRead pin = 0 ↔ digitalRead pin = .high := by
  rcases sensed_cases digitalRead pin with ⟨h, hs⟩ | ⟨h, hs⟩ <;> simp [h, hs]

/-- Written differently, the two channels run on the same condition. -/
theorem pump_readSensors (c : Channel) (digitalRead : Nat → Level) (s : State) :
    (readSensors digitalRead s).1.pump c = 1 ↔
      ¬Stopping (c.readings digitalRead) ∧ (Clear (c.readings digitalRead) ∨ s.pump c = 1) := by
  rw [readSensors_fst]
  cases c
  case one =>
    simp only [State.pump, switchPump1_eq_one, sensed_eq_zero, Clear, Stopping, Channel.readings,
      Channel.lowPin, Channel.highPin, Channel.killPin, not_or, Level.ne_low]
    tauto
  case two =>
    simp only [State.pump, switchPump2_eq_one, sensed_eq_zero, Clear, Stopping, Channel.readings,
      Channel.lowPin, Channel.highPin, Channel.killPin, not_or, Level.ne_low]
    tauto

/-- The pump states are 0 or 1. -/
def Bits (s : State) : Prop := ∀ c, s.pump c = 0 ∨ s.pump c = 1

theorem bits_readSensors (digitalRead : Nat → Level) (s : State) (h : Bits s) :
    Bits (readSensors digitalRead s).1 := by
  rw [readSensors_fst]
  intro c
  cases c
  · exact switchPump1_bit _ _ _ _ (h .one)
  · exact switchPump2_bit _ _ _ _ (h .two)

theorem bits_powerUp : Bits powerUp := fun c => by cases c <;> exact .inl rfl

/-- Every pass drives a relay to its pump state. -/
theorem relay_readSensors (c : Channel) (digitalRead : Nat → Level) (s : State) (level : Level) :
    (readSensors digitalRead s).2.foldl (drive c.relayPin) level =
      .ofInt ((readSensors digitalRead s).1.pump c) := by
  rw [drive_readSensors, drive_writeLed _ (by cases c <;> decide)]
  cases c <;> rfl

/-- Blinking and displaying leave the pumps alone. -/
theorem pump_handleBlink (c : Channel) (t : Int) (s : State) :
    (handleBlink t s).1.pump c = s.pump c := by
  rcases handleBlink_cases t s with ⟨-, h⟩ | ⟨-, h⟩ | ⟨-, h⟩ | h <;> rw [h] <;> cases c <;> rfl

theorem pump_handleDisplay (c : Channel) (t : BitVec 32) (s : State) :
    (handleDisplay t s).1.pump c = s.pump c := by
  obtain ⟨d, h⟩ := handleDisplay_fst t s
  rw [h]
  cases c <;> rfl

theorem relay_handleBlink (c : Channel) (t : Int) (s : State) (level : Level) :
    (handleBlink t s).2.foldl (drive c.relayPin) level = level := by
  rcases handleBlink_cases t s with ⟨-, h⟩ | ⟨-, h⟩ | ⟨-, h⟩ | h <;> rw [h] <;> cases c <;> rfl

theorem drive_handleDisplay (pin : Nat) (t : BitVec 32) (s : State) (level : Level) :
    (handleDisplay t s).2.foldl (drive pin) level = level := by
  unfold handleDisplay
  split_ifs <;> rfl

theorem pump_next (c : Channel) (i : Inputs) (s : State) :
    (controller.next i s).pump c = (readSensors i.digitalRead s).1.pump c := by
  show ((loop i s).1).pump c = _
  simp only [loop, pump_handleDisplay, pump_handleBlink]

theorem relay_next (c : Channel) (i : Inputs) (s : State) (level : Level) :
    (controller.out i s).foldl (drive c.relayPin) level = .ofInt ((controller.next i s).pump c) := by
  rw [pump_next]
  show ((loop i s).2).foldl (drive c.relayPin) level = _
  simp only [loop, List.foldl_append, drive_handleDisplay, relay_handleBlink, relay_readSensors]

theorem bits_next (i : Inputs) (s : State) (h : Bits s) : Bits (controller.next i s) := fun c => by
  rw [pump_next]
  exact bits_readSensors i.digitalRead s h c

/-! ### Whole histories -/

/-- What channel `c`'s sensors showed, pass by pass. -/
def samples (c : Channel) (calls : List Inputs) : List (Level × Level × Level) :=
  calls.map fun i => c.readings i.digitalRead

/-- The pump runs exactly when its channel's history latched. -/
theorem pump_run (c : Channel) (calls : List Inputs) :
    (controller.run powerUp calls).pump c = 1 ↔ Latched Clear Stopping (samples c calls) := by
  rw [samples, latched_map]
  refine controller.latched (fun s => s.pump c = 1) _ _ Bits bits_next (fun i s _ => ?_)
    powerUp bits_powerUp (by cases c <;> decide) calls
  rw [pump_next]
  exact pump_readSensors c i.digitalRead s

/-- The relay shows the pump state, from power-up on. -/
theorem relay_run (c : Channel) (calls : List Inputs) :
    pinLevel c.relayPin (controller.log powerUp calls) =
      .ofInt ((controller.run powerUp calls).pump c) := by
  induction calls using List.reverseRecOn with
  | nil => cases c <;> rfl
  | append_singleton history i _ =>
    rw [controller.log_concat, controller.run_concat, pinLevel_append, relay_next]

theorem relay_run_high (c : Channel) (calls : List Inputs) :
    pinLevel c.relayPin (controller.log powerUp calls) = .high ↔
      Latched Clear Stopping (samples c calls) := by
  rw [relay_run, ← pump_run]
  rcases controller.run_invariant Bits bits_next powerUp bits_powerUp calls c with h | h <;> simp [h]

/-- **The latch law.** After any history of passes from power-up, a channel's pump
state is 1 and its relay HIGH exactly when some sample of that channel was clear
and neither its high nor its kill sensor has been active since. So one function
of a channel's own samples gives both relays, and no relay is HIGH after a sample
in which its high or kill sensor is active. -/
theorem latch_law :
    (∀ (c : Channel) (calls : List Inputs),
      ((controller.run powerUp calls).pump c = 1 ↔ Latched Clear Stopping (samples c calls)) ∧
      (pinLevel c.relayPin (controller.log powerUp calls) = .high ↔
        Latched Clear Stopping (samples c calls))) ∧
    (∃ relay : List (Level × Level × Level) → Level, ∀ (c : Channel) (calls : List Inputs),
      pinLevel c.relayPin (controller.log powerUp calls) = relay (samples c calls)) ∧
    (∀ (c : Channel) (calls : List Inputs) (i : Inputs), Stopping (c.readings i.digitalRead) →
      pinLevel c.relayPin (controller.log powerUp (calls ++ [i])) = .low) := by
  classical
  refine ⟨fun c calls => ⟨pump_run c calls, relay_run_high c calls⟩,
    ⟨fun history => if Latched Clear Stopping history then .high else .low, fun c calls => ?_⟩,
    fun c calls i hstop => ?_⟩
  · have h := relay_run_high c calls
    by_cases hl : Latched Clear Stopping (samples c calls)
    · simp only [hl, if_true]
      exact h.mpr hl
    · simp only [hl, if_false]
      exact Level.ne_high.mp (h.not.mpr hl)
  · refine Level.ne_high.mp ((relay_run_high c (calls ++ [i])).not.mpr ?_)
    rw [samples, List.map_append, List.map_singleton, latched_concat]
    exact fun hl => hl.1 hstop

end MakerSpace.PumpController
