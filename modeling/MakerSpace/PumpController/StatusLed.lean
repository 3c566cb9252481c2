import MakerSpace.PumpController.LatchLaw

/-! What the status LED shows.

Two functions write the one pin and know of each other only through `led_state` and
`blink_step`: `read_sensors` when the status changes, `handle_blink` when a phase of
the heartbeat begins. Whichever wrote last decides, and `led_law` reads that off the
steps of the run: the status once the heartbeat is over or the status has changed
since the phase began, and the heartbeat's own level until then. -/
namespace MakerSpace.PumpController
open Arduino Reactive

/-! ### Steps of a run -/

/-- A pass in which `led_state` changes. -/
def LedChanges (step : State × State) : Prop := step.1.ledState ≠ step.2.ledState

/-- A pass that restarts the heartbeat: only that moves `blink_t`. -/
def Restarts (step : State × State) : Prop := step.1.blinkT ≠ step.2.blinkT

/-- A pass that begins a phase: after the sensors are read. -/
def PhaseBegins (step : State × State) : Prop :=
  Restarts step ∨ step.1.blinkStep ≠ step.2.blinkStep

/-- The status has changed since the current phase began. -/
def ChangedSince (steps : List (State × State)) : Prop := Latched LedChanges PhaseBegins steps

/-- The heartbeat has been restarted. -/
def Restarted (steps : List (State × State)) : Prop := ∃ step ∈ steps, Restarts step

theorem changedSince_concat (steps : List (State × State)) (step : State × State) :
    ChangedSince (steps ++ [step]) ↔
      ¬PhaseBegins step ∧ (LedChanges step ∨ ChangedSince steps) := latched_concat _ _ _ _

theorem restarted_concat (steps : List (State × State)) (step : State × State) :
    Restarted (steps ++ [step]) ↔ Restarted steps ∨ Restarts step := by
  simp only [Restarted, List.mem_append, List.mem_singleton, or_and_right, exists_or, exists_eq_left]

/-- What the LED shows, given what has happened and the state that is left. -/
structure LedLaw (s : State) (changed restarted : Prop) (level : Level) : Prop where
  status : s.blinkStep = 2 ∨ changed → level = .ofInt (land s.pumpState1 s.pumpState2)
  heartbeat : ¬changed → s.blinkStep = 0 → restarted → level = .high
  pause : ¬changed → s.blinkStep = 1 → level = .low
  dark : ¬changed → s.blinkStep = 0 → ¬restarted → level = .low
  phase : s.blinkStep = 0 ∨ s.blinkStep = 1 ∨ s.blinkStep = 2

/-! ### One pass -/

/-- Reading the sensors writes the LED when its state changes, and only then. -/
theorem led_readSensors (digitalRead : Nat → Level) (s : State) (level : Level) :
    (readSensors digitalRead s).2.foldl (drive led) level =
      if s.ledState ≠ (readSensors digitalRead s).1.ledState then
        .ofInt (readSensors digitalRead s).1.ledState
      else level := by
  rw [drive_readSensors, writeLed]
  split_ifs with hboth hchange hchange
  · rfl
  · exact absurd hboth.2 hchange
  · exact absurd ⟨by decide, hchange⟩ hboth
  · rfl

theorem ledState_readSensors (digitalRead : Nat → Level) (s : State) :
    (readSensors digitalRead s).1.ledState =
      land (readSensors digitalRead s).1.pumpState1 (readSensors digitalRead s).1.pumpState2 := rfl

theorem led_next (i : Inputs) (s : State) (level : Level) :
    (controller.out i s).foldl (drive led) level =
      (handleBlink i.blinkMillis.toNat (readSensors i.digitalRead s).1).2.foldl (drive led)
        ((readSensors i.digitalRead s).2.foldl (drive led) level) := by
  show ((loop i s).2).foldl (drive led) level = _
  simp only [loop, List.foldl_append, drive_handleDisplay]

theorem next_handleBlink (i : Inputs) (s : State) :
    ∃ d, controller.next i s =
      {(handleBlink i.blinkMillis.toNat (readSensors i.digitalRead s).1).1 with displayT := d} :=
  handleDisplay_fst i.displayMillis _

/-- Between passes `led_state` is what the pumps say. -/
def LedInStep (s : State) : Prop := s.ledState = land s.pumpState1 s.pumpState2

theorem ledInStep_next (i : Inputs) (s : State) : LedInStep (controller.next i s) := by
  obtain ⟨d, hnext⟩ := next_handleBlink i s
  have hsensors := ledState_readSensors i.digitalRead s
  rw [hnext, LedInStep]
  rcases handleBlink_cases i.blinkMillis.toNat (readSensors i.digitalRead s).1 with
    ⟨-, h⟩ | ⟨-, h⟩ | ⟨-, h⟩ | h <;> rw [h] <;> exact hsensors

/-! ### The law after one more pass -/

/-- The law, with what the pass from `s` to `s'` did counted in. -/
def LawAfter (s s' : State) (changed restarted : Prop) (level : Level) : Prop :=
  LedLaw s' (¬PhaseBegins (s, s') ∧ (LedChanges (s, s') ∨ changed)) (restarted ∨ Restarts (s, s')) level

section Cases
variable {s s' : State} {changed restarted : Prop} {level : Level}

theorem lawAfter_restart (hrestart : Restarts (s, s')) (h0 : s'.blinkStep = 0) :
    LawAfter s s' changed restarted .high where
  status := fun hshow => hshow.elim (fun h2 => by rw [h0] at h2; cases h2) fun hc =>
    absurd (.inl hrestart) hc.1
  heartbeat := fun _ _ _ => rfl
  pause := fun _ h1 => by rw [h0] at h1; cases h1
  dark := fun _ _ hnever => absurd (.inr hrestart) hnever
  phase := .inl h0

theorem lawAfter_pause (hbegins : PhaseBegins (s, s')) (h1 : s'.blinkStep = 1) :
    LawAfter s s' changed restarted .low where
  status := fun hshow => hshow.elim (fun h2 => by rw [h1] at h2; cases h2) fun hc =>
    absurd hbegins hc.1
  heartbeat := fun _ h0 => by rw [h1] at h0; cases h0
  pause := fun _ _ => rfl
  dark := fun _ h0 => by rw [h1] at h0; cases h0
  phase := .inr (.inl h1)

theorem lawAfter_status (hs' : LedInStep s') (h2 : s'.blinkStep = 2) :
    LawAfter s s' changed restarted (.ofInt s'.ledState) where
  status := fun _ => congrArg Level.ofInt hs'
  heartbeat := fun _ h0 => by rw [h2] at h0; cases h0
  pause := fun _ h1 => by rw [h2] at h1; cases h1
  dark := fun _ h0 => by rw [h2] at h0; cases h0
  phase := .inr (.inr h2)

/-- No phase begins and the status changes: from now on the LED shows it. -/
theorem lawAfter_change (hs' : LedInStep s') (hquiet : ¬PhaseBegins (s, s'))
    (hchange : LedChanges (s, s')) (h : LedLaw s changed restarted level) :
    LawAfter s s' changed restarted (.ofInt s'.ledState) := by
  have hstep : s.blinkStep = s'.blinkStep := not_not.mp (not_or.mp hquiet).2
  exact {
    status := fun _ => congrArg Level.ofInt hs'
    heartbeat := fun hc => absurd ⟨hquiet, .inl hchange⟩ hc
    pause := fun hc => absurd ⟨hquiet, .inl hchange⟩ hc
    dark := fun hc => absurd ⟨hquiet, .inl hchange⟩ hc
    phase := hstep ▸ h.phase }

/-- Nothing the LED depends on changes. -/
theorem lawAfter_idle (hs : LedInStep s) (hs' : LedInStep s') (hquiet : ¬PhaseBegins (s, s'))
    (hsame : ¬LedChanges (s, s')) (h : LedLaw s changed restarted level) :
    LawAfter s s' changed restarted level := by
  have hstep : s.blinkStep = s'.blinkStep := not_not.mp (not_or.mp hquiet).2
  have hled : s.ledState = s'.ledState := not_not.mp hsame
  have hstatus : land s.pumpState1 s.pumpState2 = land s'.pumpState1 s'.pumpState2 :=
    hs.symm.trans (hled.trans hs')
  have hkept : ¬(¬PhaseBegins (s, s') ∧ (LedChanges (s, s') ∨ changed)) → ¬changed :=
    fun hc hold => hc ⟨hquiet, .inr hold⟩
  exact {
    status := fun hshow => hstatus ▸ h.status (hshow.imp hstep.trans fun hc => hc.2.resolve_left hsame)
    heartbeat := fun hc h0 hr =>
      h.heartbeat (hkept hc) (hstep.trans h0) (hr.resolve_right fun hnow => hquiet (.inl hnow))
    pause := fun hc h1 => h.pause (hkept hc) (hstep.trans h1)
    dark := fun hc h0 hr => h.dark (hkept hc) (hstep.trans h0) fun hold => hr (.inl hold)
    phase := hstep ▸ h.phase }

end Cases

/-- **One pass keeps the law**, whatever the sensors show and the clock says. -/
theorem ledLaw_next (i : Inputs) (s : State) (changed restarted : Prop) (level : Level)
    (hs : LedInStep s) (h : LedLaw s changed restarted level) :
    LawAfter s (controller.next i s) changed restarted
      ((controller.out i s).foldl (drive led) level) := by
  obtain ⟨d, hnext⟩ := next_handleBlink i s
  have hs' := ledInStep_next i s
  have hstep : (readSensors i.digitalRead s).1.blinkStep = s.blinkStep := rfl
  have hblinkT : (readSensors i.digitalRead s).1.blinkT = s.blinkT := rfl
  rw [led_next, led_readSensors]
  rw [hnext] at hs' ⊢
  generalize (readSensors i.digitalRead s).1 = a at *
  rcases handleBlink_cases i.blinkMillis.toNat a with ⟨hne, hb⟩ | ⟨hb0, hb⟩ | ⟨hb1, hb⟩ | hb
  · rw [hb]
    refine lawAfter_restart (fun heq => hne ?_) rfl
    exact (hblinkT.trans heq).symm
  · rw [hb]
    refine lawAfter_pause (.inr ?_) rfl
    show s.blinkStep ≠ 1
    rw [← hstep, hb0]
    decide
  · rw [hb] at hs' ⊢
    exact lawAfter_status hs' rfl
  · rw [hb] at hs' ⊢
    have hquiet : ¬PhaseBegins (s, {a with displayT := d}) := by
      simp [PhaseBegins, Restarts, hstep, hblinkT]
    by_cases hchange : s.ledState ≠ a.ledState
    · rw [if_pos hchange]
      exact lawAfter_change hs' hquiet hchange h
    · rw [if_neg hchange]
      exact lawAfter_idle hs hs' hquiet hchange h

/-! ### Whole runs -/

/-- **The status LED law.** After any passes from power-up the LED shows whether both
pumps run if the heartbeat is over or that has changed since the current phase began.
Otherwise it is HIGH in a phase 0 that a restart began, LOW in phase 1, and LOW in the
phase 0 that power-up began; and there is no other phase. -/
theorem led_law (calls : List Inputs) :
    LedLaw (controller.run powerUp calls) (ChangedSince (controller.steps powerUp calls))
      (Restarted (controller.steps powerUp calls)) (pinLevel led (controller.log powerUp calls)) := by
  induction calls using List.reverseRecOn with
  | nil =>
    have hchanged : ¬ChangedSince [] := not_latched_nil _ _
    exact {
      status := fun hshow => hshow.elim (fun h2 => by cases h2) fun hc => absurd hc hchanged
      heartbeat := fun _ _ hr => by obtain ⟨_, hmem, -⟩ := hr; cases hmem
      pause := fun _ h1 => by cases h1
      dark := fun _ _ _ => rfl
      phase := .inl rfl }
  | append_singleton history i ih =>
    have hs := controller.run_invariant LedInStep (fun i s _ => ledInStep_next i s) powerUp rfl history
    have hlaw := ledLaw_next i _ _ _ _ hs ih
    rw [LawAfter, ← changedSince_concat, ← restarted_concat] at hlaw
    rwa [controller.run_concat, controller.log_concat, controller.steps_concat, pinLevel_append]

end MakerSpace.PumpController
