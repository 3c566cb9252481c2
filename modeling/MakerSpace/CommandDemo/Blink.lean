import MakerSpace.CommandDemo.Model
import MakerSpace.Reactive.Rollover

/-! The terminal's blink timer across the sign of the clock.

`handle_blink` compares `last_blink_t + blink_interval` with `now`, both wrapped and
signed, where the other sketches subtract. Each pass of the terminal is given its true
uptime here, and the last toggle is remembered by it. `blink_iff` says exactly which
runs blink on time, and `blink_double_fires` is one that toggles a millisecond after
it toggled. -/
namespace MakerSpace.CommandDemo
open Arduino Reactive Rollover

/-- One pass of `loop` at a true uptime. -/
structure Call where
  uptime : Nat
  incoming : Option Char := none
  blinkLed : Level := .low

/-- What the pass reads: `millis()` is the uptime modulo 2^32. -/
def Call.inputs (c : Call) : Inputs := ⟨c.incoming, reading 32 c.uptime, c.blinkLed⟩

/-- The LED's pin is left at another level than `digitalRead` gave. -/
def Toggles (i : Inputs) (s : State) : Prop :=
  (terminal.out i s).foldl (drive blinkLedPin) i.blinkLed ≠ i.blinkLed

instance (i : Inputs) (s : State) : Decidable (Toggles i s) := inferInstanceAs (Decidable (_ ≠ _))

/-- The terminal, and the uptimes of the last toggle and the last call, counting
`init_blink` as both. -/
structure Timed where
  terminal : State
  lastToggle : Nat
  lastCall : Nat

def timed : Machine Call Timed Effect where
  pass := fun c t =>
    ({terminal := terminal.next c.inputs t.terminal
      lastToggle := if Toggles c.inputs t.terminal then c.uptime else t.lastToggle
      lastCall := c.uptime},
      terminal.out c.inputs t.terminal)

/-- After `setup`, with `init_blink` at uptime `start`. -/
def initialized (start : Nat) : Timed := ⟨(setup (reading 32 start) powerUp).1, start, start⟩

/-- Calls are in order and less than 2^30 ms apart. -/
def Close (c : Call) (t : Timed) : Prop := t.lastCall ≤ c.uptime ∧ c.uptime < t.lastCall + 2 ^ 30

instance (c : Call) (t : Timed) : Decidable (Close c t) := inferInstanceAs (Decidable (_ ∧ _))

/-- The call toggles exactly when more than the interval has passed since the last toggle. -/
def OnTime (c : Call) (t : Timed) : Prop :=
  Toggles c.inputs t.terminal ↔ t.lastToggle + 2000 < c.uptime

instance (c : Call) (t : Timed) : Decidable (OnTime c t) := inferInstanceAs (Decidable (_ ↔ _))

/-- The signed clock does not roll over between the end of the interval and the call. -/
def SameSign (c : Call) (t : Timed) : Prop :=
  signedEpoch 31 (t.lastToggle + 2000) = signedEpoch 31 c.uptime

instance (c : Call) (t : Timed) : Decidable (SameSign c t) := inferInstanceAs (Decidable (_ = _))

/-! ### One call -/

/-- Answering a command drives no pin. -/
theorem drive_processCommand (pin : Nat) (command : List Char) (level : Level) :
    (processCommand command).foldl (drive pin) level = level := by
  simp only [processCommand]
  split_ifs <;> rfl

theorem drive_receive (pin : Nat) (incoming : Option Char) (s : State) (level : Level) :
    (receive incoming s).2.foldl (drive pin) level = level := by
  unfold receive
  split
  · rfl
  · split_ifs
    · rw [List.foldl_append, drive_processCommand]
      rfl
    · rfl

theorem drive_toggle (level : Level) :
    drive blinkLedPin level (.digitalWrite blinkLedPin (.ofInt (lnot level.toInt))) ≠ level := by
  cases level <;> decide

theorem toggles_iff (i : Inputs) (s : State) :
    Toggles i s ↔ (s.lastBlinkT + blinkInterval).toInt < i.millis.toInt := by
  show ((loop i s).2).foldl _ _ ≠ _ ↔ _
  rw [loop, List.foldl_append, drive_receive, handleBlink, lastBlinkT_receive]
  split_ifs with hdue
  · exact iff_of_true (drive_toggle i.blinkLed) hdue
  · exact iff_of_false (not_not.mpr rfl) hdue

theorem lastBlinkT_next (i : Inputs) (s : State) :
    (terminal.next i s).lastBlinkT = if Toggles i s then i.millis else s.lastBlinkT := by
  show (handleBlink i.millis i.blinkLed (receive i.incoming s).1).1.lastBlinkT = _
  rw [handleBlink, lastBlinkT_receive]
  by_cases hdue : (s.lastBlinkT + blinkInterval).toInt < i.millis.toInt
  · rw [if_pos hdue, if_pos ((toggles_iff i s).mpr hdue)]
  · rw [if_neg hdue, if_neg ((toggles_iff i s).not.mpr hdue), lastBlinkT_receive]

/-- Between calls `last_blink_t` shows the last toggle, and no call since it was late. -/
structure Blinking (t : Timed) : Prop where
  shown : t.terminal.lastBlinkT = reading 32 t.lastToggle
  ordered : t.lastToggle ≤ t.lastCall
  recent : t.lastCall ≤ t.lastToggle + 2000

theorem blinking_initialized (start : Nat) : Blinking (initialized start) :=
  ⟨rfl, le_refl start, Nat.le_add_right start 2000⟩

theorem onTime_iff (c : Call) (t : Timed) (h : Blinking t) (hc : Close c t) :
    OnTime c t ↔ SameSign c t := by
  have hdue : t.terminal.lastBlinkT + blinkInterval = reading 32 (t.lastToggle + 2000) := by
    rw [h.shown, reading, reading, BitVec.ofNat_add]
    rfl
  have hordered := h.ordered
  have hrecent := h.recent
  rw [OnTime, toggles_iff, hdue]
  exact signed_lt_iff 31 (by simp only [Close] at hc; omega) (by simp only [Close] at hc; omega)

theorem blinking_next (c : Call) (t : Timed) (h : Blinking t) (hc : Close c t) (hon : OnTime c t) :
    Blinking (timed.next c t) := by
  have hshown := lastBlinkT_next c.inputs t.terminal
  by_cases htoggle : Toggles c.inputs t.terminal
  · have hlast : (timed.next c t).lastToggle = c.uptime := if_pos htoggle
    rw [if_pos htoggle] at hshown
    exact {
      shown := by rw [hlast]; exact hshown
      ordered := hlast.le
      recent := by rw [hlast]; exact Nat.le_add_right c.uptime 2000 }
  · have hlast : (timed.next c t).lastToggle = t.lastToggle := if_neg htoggle
    rw [if_neg htoggle] at hshown
    exact {
      shown := by rw [hlast]; exact hshown.trans h.shown
      ordered := by rw [hlast]; exact h.ordered.trans hc.1
      -- the call was on time, so it was not late
      recent := by rw [hlast]; exact not_lt.mp fun hlate => htoggle (hon.mpr hlate) }

/-! ### Whole runs -/

/-- **The timer blinks on time exactly while the sign holds still**: every call of a
run toggles when it should, and only then, if and only if at no call the signed clock
has rolled over since the interval ended or will before it ends. -/
theorem blink_iff (start : Nat) (calls : List Call)
    (hclose : timed.Along Close (initialized start) calls) :
    timed.Along OnTime (initialized start) calls ↔
      timed.Along SameSign (initialized start) calls :=
  timed.along_congr Blinking Close OnTime SameSign onTime_iff blinking_next (initialized start)
    (blinking_initialized start) calls hclose

/-- Just past the interval the LED is toggled, and a command typed meanwhile is no matter. -/
theorem blink_first :
    timed.Along OnTime (initialized 0) [⟨1999, some 'h', .low⟩, ⟨2001, none, .low⟩] :=
  (blink_iff 0 [⟨1999, some 'h', .low⟩, ⟨2001, none, .low⟩] ⟨by decide, by decide, trivial⟩).mpr
    ⟨by decide, by decide, trivial⟩

/-- A second before the sign changes the LED is toggled, and again a millisecond later. -/
theorem blink_double_fires :
    timed.Along Close (initialized 0) [⟨1073741823, none, .low⟩, ⟨2147482648, none, .high⟩,
      ⟨2147482649, none, .low⟩] ∧
    ¬timed.Along OnTime (initialized 0) [⟨1073741823, none, .low⟩, ⟨2147482648, none, .high⟩,
      ⟨2147482649, none, .low⟩] :=
  ⟨⟨by decide, by decide, by decide, trivial⟩, fun hall => absurd hall.2.2.1 (by decide)⟩

end MakerSpace.CommandDemo
