import MakerSpace.LowHighSensor.Overfill
import MakerSpace.PumpController.LatchLaw

/-! The prototype and the production controller, on the same tank.

Both boards are shown the same low and high sensors, the production board with its
kill sensor inactive, and a tank whose high sensor is covered has its low sensor
covered too. The two may disagree at first. A sample that shows both sensors
alike, once the prototype has had its first pass, brings them together whatever
they held (`agree_sync`), and every later sample keeps them so (`agree_next`). -/
namespace MakerSpace.LowHighSensor
open Arduino Reactive

/-- One sample of the tank, as each board's pins show it. -/
structure Shown (p : (Nat → Level) × (Nat → Level)) : Prop where
  low : p.1 lowSensor = p.2 PumpController.sensorLow1
  high : p.1 highSensor = p.2 PumpController.sensorHigh1
  kill : p.2 PumpController.sensorKill1 = .high
  consistent : Signals p.1 highSensor → Signals p.1 lowSensor

/-- Both sensors inactive, or both active. -/
def Synchronising (digitalRead : Nat → Level) : Prop := Clear digitalRead ∨ Full digitalRead

/-- The prototype's flag is the production controller's pump state. -/
def Agree (s : State) (t : PumpController.State) : Prop :=
  Started s ∧ PumpController.Bits t ∧ s.pumping = t.pumpState1

theorem Shown.clear {p : (Nat → Level) × (Nat → Level)} (h : Shown p) :
    PumpController.Clear (PumpController.Channel.one.readings p.2) ↔ Clear p.1 := by
  show (p.2 PumpController.sensorLow1 = .high ∧ p.2 PumpController.sensorHigh1 = .high ∧
    p.2 PumpController.sensorKill1 = .high) ↔ _
  rw [← h.low, ← h.high, h.kill, Clear, Signals, Signals, Level.ne_low, Level.ne_low]
  simp

theorem Shown.stopping {p : (Nat → Level) × (Nat → Level)} (h : Shown p) :
    PumpController.Stopping (PumpController.Channel.one.readings p.2) ↔ Signals p.1 highSensor := by
  show (p.2 PumpController.sensorHigh1 = .low ∨ p.2 PumpController.sensorKill1 = .low) ↔ _
  rw [← h.high, h.kill, Signals]
  simp

/-- With the kill sensor inactive, channel 1 is set by a clear sample, reset by a
high sensor, and kept otherwise. -/
theorem sensing_pump {p : (Nat → Level) × (Nat → Level)} (h : Shown p) (t : PumpController.State)
    (ht : PumpController.Bits t) :
    (PumpController.sensing.next p.2 t).pumpState1 =
      if Clear p.1 then 1 else if Signals p.1 highSensor then 0 else t.pumpState1 := by
  have hone : (PumpController.sensing.next p.2 t).pumpState1 = 1 ↔
      ¬Signals p.1 highSensor ∧ (Clear p.1 ∨ t.pumpState1 = 1) := by
    rw [← h.clear, ← h.stopping]
    exact PumpController.pump_readSensors .one p.2 t
  have hbit : (PumpController.sensing.next p.2 t).pumpState1 = 0 ∨
      (PumpController.sensing.next p.2 t).pumpState1 = 1 :=
    PumpController.bits_readSensors p.2 t ht .one
  have hold : t.pumpState1 = 0 ∨ t.pumpState1 = 1 := ht .one
  split_ifs with hclear hhigh
  · exact hone.mpr ⟨hclear.2, .inl hclear⟩
  · exact hbit.resolve_right fun h1 => (hone.mp h1).1 hhigh
  · rw [or_iff_right hclear] at hone
    rcases hold with h0 | h1
    · rw [h0] at hone ⊢
      exact hbit.resolve_right fun h1 => absurd (hone.mp h1).2 (by decide)
    · rw [h1] at hone ⊢
      exact hone.mpr ⟨hhigh, rfl⟩

theorem monitor_pump {p : (Nat → Level) × (Nat → Level)} (h : Shown p) (s : State) (hs : Started s) :
    (monitor.next p.1 s).pumping =
      if Clear p.1 then 1 else if Signals p.1 highSensor then 0 else s.pumping := by
  have hfull : Full p.1 ↔ Signals p.1 highSensor := ⟨And.right, fun hh => ⟨h.consistent hh, hh⟩⟩
  rw [next_started p.1 s hs]
  simp only [hfull]

/-- A sample that shows both sensors alike settles both boards. -/
theorem agree_sync {p : (Nat → Level) × (Nat → Level)} (h : Shown p) (hsync : Synchronising p.1)
    (s : State) (t : PumpController.State) (hs : Started s) (ht : PumpController.Bits t) :
    Agree (monitor.next p.1 s) (PumpController.sensing.next p.2 t) := by
  refine ⟨started_next p.1 s hs, PumpController.bits_readSensors p.2 t ht, ?_⟩
  rw [monitor_pump h s hs, sensing_pump h t ht]
  rcases hsync with hclear | hfull
  · simp [hclear]
  · simp [hfull.2]

/-- Agreeing boards agree after any sample. -/
theorem agree_next {p : (Nat → Level) × (Nat → Level)} (h : Shown p) (s : State)
    (t : PumpController.State) (ha : Agree s t) :
    Agree (monitor.next p.1 s) (PumpController.sensing.next p.2 t) := by
  obtain ⟨hs, ht, heq⟩ := ha
  refine ⟨started_next p.1 s hs, PumpController.bits_readSensors p.2 t ht, ?_⟩
  rw [monitor_pump h s hs, sensing_pump h t ht, heq]

theorem agree_run (samples : List ((Nat → Level) × (Nat → Level))) (h : ∀ p ∈ samples, Shown p)
    (s : State) (t : PumpController.State) (ha : Agree s t) :
    Agree (monitor.run s (samples.map Prod.fst))
      (PumpController.sensing.run t (samples.map Prod.snd)) := by
  induction samples generalizing s t with
  | nil => exact ha
  | cons p rest ih =>
    exact ih (fun q hq => h q (List.mem_cons_of_mem p hq)) _ _
      (agree_next (h p (List.mem_cons_self ..)) s t ha)

/-! ### The outputs -/

theorem led_run (samples : List (Nat → Level)) :
    pinLevel led (monitor.log powerUp samples) = .high ↔
      samples ≠ [] ∧ (monitor.run powerUp samples).pumping ≠ 0 := by
  induction samples using List.reverseRecOn with
  | nil => simp [pinLevel]
  | append_singleton history i _ =>
    rw [monitor.log_concat, monitor.run_concat, pinLevel_append, led_next]
    split_ifs <;> simp [*]

theorem relay_sensing (samples : List (Nat → Level)) :
    pinLevel PumpController.relayCtrl1 (PumpController.sensing.log PumpController.powerUp samples) =
      .ofInt (PumpController.sensing.run PumpController.powerUp samples).pumpState1 := by
  induction samples using List.reverseRecOn with
  | nil => rfl
  | append_singleton history i _ =>
    rw [PumpController.sensing.log_concat, PumpController.sensing.run_concat, pinLevel_append]
    exact PumpController.relay_readSensors .one i _ _

theorem bits_sensing (samples : List (Nat → Level)) :
    PumpController.Bits (PumpController.sensing.run PumpController.powerUp samples) :=
  PumpController.sensing.run_invariant _ PumpController.bits_readSensors _
    PumpController.bits_powerUp samples

/-- **From the first synchronising sample after its first pass on, the prototype and
the production controller agree**: the flag is the pump state, and the LED the
relay. -/
theorem prototype_agrees (before after : List ((Nat → Level) × (Nat → Level)))
    (p : (Nat → Level) × (Nat → Level)) (hbefore : before ≠ [])
    (hsync : Synchronising p.1) (h : ∀ q ∈ before ++ p :: after, Shown q) :
    let samples := before ++ p :: after
    (monitor.run powerUp (samples.map Prod.fst)).pumping =
        (PumpController.sensing.run PumpController.powerUp (samples.map Prod.snd)).pumpState1 ∧
      pinLevel led (monitor.log powerUp (samples.map Prod.fst)) =
        pinLevel PumpController.relayCtrl1
          (PumpController.sensing.log PumpController.powerUp (samples.map Prod.snd)) := by
  intro samples
  have hp : Shown p := h p (by simp)
  have hstarted : Started (monitor.run powerUp (before.map Prod.fst)) := by
    obtain ⟨first, rest, rfl⟩ := List.exists_cons_of_ne_nil hbefore
    exact started_run first.1 (rest.map Prod.fst)
  have hagree : Agree (monitor.run powerUp (samples.map Prod.fst))
      (PumpController.sensing.run PumpController.powerUp (samples.map Prod.snd)) := by
    simp only [samples, List.map_append, List.map_cons, Machine.run_append, Machine.run_cons]
    exact agree_run after (fun q hq => h q (by simp [hq])) _ _
      (agree_sync hp hsync _ _ hstarted (bits_sensing _))
  obtain ⟨hs, -, heq⟩ := hagree
  refine ⟨heq, ?_⟩
  have hled := led_run (samples.map Prod.fst)
  have hne : samples.map Prod.fst ≠ [] := by simp [samples]
  rw [relay_sensing, ← heq]
  rcases hs with hs | hs
  · rw [hs, Level.ofInt_zero, ← Level.ne_high, hled]
    simp [hs]
  · rw [hs, Level.ofInt_one, hled]
    exact ⟨hne, by rw [hs]; decide⟩

/-- What both boards are shown of a tank. -/
def tank (lowPin highPin : Level) : (Nat → Level) × (Nat → Level) :=
  (fun pin => if pin = lowSensor then lowPin else if pin = highSensor then highPin else .high,
    fun pin =>
      if pin = PumpController.sensorLow1 then lowPin
      else if pin = PumpController.sensorHigh1 then highPin else .high)

theorem shown_tank {lowPin highPin : Level} (h : highPin = .low → lowPin = .low) :
    Shown (tank lowPin highPin) where
  low := rfl
  high := rfl
  kill := rfl
  consistent := h

/-- The tank fills, drains, and is empty again. -/
def fillAndDrain : List ((Nat → Level) × (Nat → Level)) :=
  [tank .low .high, tank .low .low, tank .low .high, tank .high .high]

/-- A tank half full at power-up, then empty, which synchronises, and then a full cycle. -/
theorem prototype_agrees_cycle :
    let samples := [tank .low .high] ++ tank .high .high :: fillAndDrain
    (monitor.run powerUp (samples.map Prod.fst)).pumping =
        (PumpController.sensing.run PumpController.powerUp (samples.map Prod.snd)).pumpState1 ∧
      pinLevel led (monitor.log powerUp (samples.map Prod.fst)) =
        pinLevel PumpController.relayCtrl1
          (PumpController.sensing.log PumpController.powerUp (samples.map Prod.snd)) := by
  refine prototype_agrees [tank .low .high] fillAndDrain (tank .high .high) (by simp)
    (.inl (by decide)) ?_
  simp only [fillAndDrain, List.cons_append, List.nil_append, List.forall_mem_cons]
  exact ⟨shown_tank (by decide), shown_tank (by decide), shown_tank (by decide),
    shown_tank (by decide), shown_tank (by decide), shown_tank (by decide), nofun⟩

end MakerSpace.LowHighSensor
