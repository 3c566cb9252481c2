import MakerSpace.LowHighSensor.Model

/-! When the prototype overfills.

From its second sample on the prototype is a latch that a clear sample sets and
a full one resets. A high sensor that signals alone does not reset it, so a low
sensor that drops out while the pump runs leaves the pump on at the high mark.
`overfill_iff` says exactly which histories do that. -/
namespace MakerSpace.LowHighSensor
open Arduino Reactive

/-- A pass in which the high sensor signals ends with the pump off: `pumping` is 0
and the last thing written is the LED, LOW. -/
def OffAtHigh (digitalRead : Nat → Level) (s : State) : Prop :=
  Signals digitalRead highSensor →
    (monitor.next digitalRead s).pumping = 0 ∧
      (monitor.out digitalRead s).getLast? = some (.digitalWrite led .low)

/-- A clear sample, the first apart, with no full one since, up to a sample in which the
high sensor signals. -/
def Overfilling (samples : List (Nat → Level)) : Prop :=
  ∃ n, ∃ hn : n < samples.length, Signals samples[n] highSensor ∧
    Latched Clear Full (samples.take (n + 1)).tail

theorem offAtHigh_iff (digitalRead : Nat → Level) (s : State) :
    OffAtHigh digitalRead s ↔
      (Signals digitalRead highSensor → (monitor.next digitalRead s).pumping = 0) := by
  rw [OffAtHigh, out_getLast]
  exact forall_congr' fun _ => ⟨And.left, fun h => ⟨h, by simp [h]⟩⟩

/-- Once started, the pump runs exactly when the samples since then latched. -/
theorem pumping_started (samples : List (Nat → Level)) (s : State) (h : s.pumping = 0) :
    (monitor.run s samples).pumping = 1 ↔ Latched Clear Full samples := by
  refine monitor.latched (fun s => s.pumping = 1) Clear Full Started started_next
    (fun i s hs => ?_) s (.inl h) (by rw [h]; decide) samples
  have hdisjoint : Clear i → ¬Full i := fun hc hf => hc.1 hf.1
  rw [next_started i s hs]
  split_ifs <;> simp_all

theorem started_run (first : Nat → Level) (samples : List (Nat → Level)) :
    Started (monitor.run powerUp (first :: samples)) :=
  monitor.run_invariant Started started_next _ (.inl (next_powerUp first)) samples

/-- From power-up: the first sample does not count. -/
theorem pumping_run (samples : List (Nat → Level)) :
    (monitor.run powerUp samples).pumping = 1 ↔ Latched Clear Full samples.tail := by
  cases samples with
  | nil => exact iff_of_false (by decide) (not_latched_nil Clear Full)
  | cons first rest => exact pumping_started rest _ (next_powerUp first)

theorem pumping_off (samples : List (Nat → Level)) (hne : samples ≠ []) :
    (monitor.run powerUp samples).pumping = 0 ↔ ¬Latched Clear Full samples.tail := by
  obtain ⟨first, rest, rfl⟩ := List.exists_cons_of_ne_nil hne
  rw [← pumping_run]
  rcases started_run first rest with h | h <;> rw [h] <;> decide

/-- **The prototype keeps the pump off at the high mark exactly on the histories
that are never overfilling.** -/
theorem overfill_iff (samples : List (Nat → Level)) :
    monitor.Along OffAtHigh powerUp samples ↔ ¬Overfilling samples := by
  rw [monitor.along_iff]
  simp only [Overfilling, not_exists, not_and]
  refine forall_congr' fun n => forall_congr' fun hn => ?_
  have htake : samples.take (n + 1) = samples.take n ++ [samples[n]] :=
    (List.take_append_getElem hn).symm
  have hne : samples.take (n + 1) ≠ [] := htake ▸ List.concat_ne_nil _ _
  rw [offAtHigh_iff, ← monitor.run_concat, ← htake, pumping_off _ hne]

/-- The low sensor drops out once the pump runs, and the tank fills: the high
sensor signals alone and the pump stays on. -/
theorem dropout_overfills :
    let empty : Nat → Level := fun _ => .high
    let stuck : Nat → Level := fun pin => if pin = highSensor then .low else .high
    ¬monitor.Along OffAtHigh powerUp [empty, empty, stuck] ∧
      (monitor.run powerUp [empty, empty, stuck]).pumping = 1 ∧
      pinLevel led (monitor.log powerUp [empty, empty, stuck]) = .high := by
  refine ⟨?_, by decide, by decide⟩
  intro hall
  obtain ⟨-, -, hoff, -⟩ := hall
  exact absurd (hoff (by decide)).1 (by decide)

end MakerSpace.LowHighSensor
