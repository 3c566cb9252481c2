import MakerSpace.PumpController.Model
import MakerSpace.Reactive.Rollover
import Mathlib.Data.List.Range

/-! The heartbeat across clock rollover.

`handle_blink` widens the 32-bit `millis()` to a signed 64-bit `time_t` before it
subtracts, so the elapsed time it sees is right within one epoch of the clock and
far negative after the clock has rolled over. Calls of `handle_blink` are run here
on two clocks, the one that rolls over every 2^32 ms and one that never does.
`heartbeat_iff` says exactly which runs cannot tell the two apart, and
`heartbeat_stops` is a run from power-up that can. -/
namespace MakerSpace.PumpController
open Arduino Reactive Rollover

/-- One call of `handle_blink`: the true uptime, and the LED state the sensors
have left. -/
structure BlinkCall where
  uptime : Nat
  ledState : Int

/-- `handle_blink` called over and over, `clock` giving the value of `millis()` as
a `time_t`. -/
def blinker (clock : Nat → Int) : Machine BlinkCall State Effect :=
  ⟨fun c s => handleBlink (clock c.uptime) {s with ledState := c.ledState}⟩

/-- The board's clock. -/
def millis (uptime : Nat) : Int := (reading 32 uptime).toNat

/-- A clock that never rolls over. -/
def trueTime (uptime : Nat) : Int := uptime

/-- Some phase of the heartbeat is over, `elapsed` ms after it began. -/
def Due (elapsed blinkStep : Int) : Prop :=
  elapsed > blinkInterval ∨ (blinkStep = 0 ∧ elapsed > blinkInterval / 10) ∨
    (blinkStep = 1 ∧ elapsed > blinkInterval / 5)

/-- The clock has not rolled over since the last restart, or nothing is due, or
the rolled-over reading is itself past the restart's by more than the interval. -/
def Punctual (c : BlinkCall) (s : State) : Prop :=
  (c.uptime : Int) / 2 ^ 32 = s.blinkT / 2 ^ 32 ∨ ¬Due (c.uptime - s.blinkT) s.blinkStep ∨
    s.blinkT % 2 ^ 32 + blinkInterval < (c.uptime : Int) % 2 ^ 32

/-! ### One call -/

/-- The step taken and the LED written depend on the clock through the elapsed
time only. -/
def blinkAction (elapsed blinkStep ledState : Int) : Int × List Effect :=
  if elapsed > blinkInterval then (0, [.digitalWrite led .high])
  else if blinkStep = 0 ∧ elapsed > blinkInterval / 10 then (1, [.digitalWrite led .low])
  else if blinkStep = 1 ∧ elapsed > blinkInterval / 5 then
    (2, [.digitalWrite led (.ofInt ledState)])
  else (blinkStep, [])

theorem blinker_action (clock : Nat → Int) (c : BlinkCall) (s : State) :
    (((blinker clock).next c s).blinkStep, (blinker clock).out c s) =
      blinkAction (clock c.uptime - s.blinkT) s.blinkStep c.ledState := by
  simp only [Machine.next, Machine.out, blinker, handleBlink, blinkAction]
  split_ifs <;> rfl

/-- Only a restart moves `blink_t`. -/
theorem blinker_blinkT (clock : Nat → Int) (c : BlinkCall) (s : State) :
    ((blinker clock).next c s).blinkT =
      if clock c.uptime - s.blinkT > blinkInterval then clock c.uptime else s.blinkT := by
  simp only [Machine.next, blinker, handleBlink]
  split_ifs <;> rfl

theorem blinkAction_restart (elapsed blinkStep ledState : Int) (h : elapsed > blinkInterval) :
    blinkAction elapsed blinkStep ledState = (0, [.digitalWrite led .high]) := if_pos h

theorem blinkAction_idle (elapsed blinkStep ledState : Int) (h : ¬Due elapsed blinkStep) :
    blinkAction elapsed blinkStep ledState = (blinkStep, []) := by
  simp only [Due, not_or] at h
  simp only [blinkAction, h, if_false]

theorem blinkAction_due (elapsed blinkStep ledState : Int) (h : Due elapsed blinkStep) :
    (blinkAction elapsed blinkStep ledState).2 ≠ [] := by
  simp only [blinkAction]
  split_ifs with h₁ h₂ h₃
  · simp
  · simp
  · simp
  · exact absurd h (by simp only [Due, h₁, h₂, h₃, or_self, not_false_eq_true])

/-- A call that does not restart the heartbeat does not act as one that does. -/
theorem blinkAction_ne_restart (elapsed blinkStep ledState : Int) (h : ¬elapsed > blinkInterval) :
    blinkAction elapsed blinkStep ledState ≠ (0, [.digitalWrite led .high]) := by
  simp only [blinkAction, h, if_false]
  split_ifs <;> simp

/-- An elapsed time short by an epoch gives the same action exactly when nothing
was due, or when even the short one is past the interval. -/
theorem blinkAction_short (elapsed short blinkStep ledState : Int)
    (hshort : short ≤ elapsed - 2 ^ 32) :
    blinkAction elapsed blinkStep ledState = blinkAction short blinkStep ledState ↔
      ¬Due elapsed blinkStep ∨ short > blinkInterval := by
  by_cases hs : short > blinkInterval
  · have he : elapsed > blinkInterval := by omega
    exact iff_of_true (by rw [blinkAction_restart _ _ _ he, blinkAction_restart _ _ _ hs]) (.inr hs)
  rw [or_iff_left hs]
  constructor
  · intro heq hdue
    by_cases he : elapsed > blinkInterval
    · rw [blinkAction_restart _ _ _ he] at heq
      exact blinkAction_ne_restart _ _ _ hs heq.symm
    · -- within the interval, the short time is negative
      have hidle : ¬Due short blinkStep := by
        simp only [Due, blinkInterval] at he ⊢
        omega
      rw [blinkAction_idle _ _ _ hidle] at heq
      exact blinkAction_due _ _ ledState hdue (by rw [heq])
  · intro hdue
    have hidle : ¬Due short blinkStep := by
      simp only [Due, blinkInterval] at hdue ⊢
      omega
    rw [blinkAction_idle _ _ _ hdue, blinkAction_idle _ _ _ hidle]

/-- The two clocks' states: the same step, and `blink_t` taken at the same uptime. -/
def SameRestart (s t : State) : Prop :=
  t.blinkStep = s.blinkStep ∧ ∃ restart : Nat, s.blinkT = restart ∧ t.blinkT = millis restart

theorem millis_same_epoch {t₀ t : Nat} (h : (t : Int) / 2 ^ 32 = (t₀ : Int) / 2 ^ 32) :
    millis t - millis t₀ = t - t₀ :=
  widened_same_epoch 32 (by omega)

theorem millis_later_epoch {t₀ t : Nat} (hle : t₀ ≤ t)
    (h : ¬(t : Int) / 2 ^ 32 = (t₀ : Int) / 2 ^ 32) :
    millis t - millis t₀ ≤ t - t₀ - 2 ^ 32 :=
  widened_later_epoch 32 (by omega)

theorem millis_past (t₀ t : Nat) :
    millis t - millis t₀ > blinkInterval ↔
      (t₀ : Int) % 2 ^ 32 + blinkInterval < (t : Int) % 2 ^ 32 := by
  simp only [millis, reading_toNat]
  omega

/-- On related states a call acts alike on both clocks exactly when it is punctual. -/
theorem blink_agree (c : BlinkCall) (s t : State) (h : SameRestart s t) (hle : s.blinkT ≤ c.uptime) :
    (((blinker trueTime).next c s).blinkStep = ((blinker millis).next c t).blinkStep ∧
      (blinker trueTime).out c s = (blinker millis).out c t) ↔ Punctual c s := by
  obtain ⟨hstep, t₀, hs, ht⟩ := h
  rw [← Prod.mk.injEq, blinker_action, blinker_action, hstep, hs, ht, Punctual, hs]
  by_cases hepoch : (c.uptime : Int) / 2 ^ 32 = (t₀ : Int) / 2 ^ 32
  · rw [millis_same_epoch hepoch]
    exact iff_of_true rfl (.inl hepoch)
  · have hshort := millis_later_epoch (by omega) hepoch
    rw [trueTime, blinkAction_short _ _ _ _ hshort, millis_past, or_iff_right hepoch]

/-- A punctual call restarts the heartbeat on both clocks or on neither. -/
theorem blink_keep (c : BlinkCall) (s t : State) (h : SameRestart s t) (hle : s.blinkT ≤ c.uptime)
    (hp : Punctual c s) :
    SameRestart ((blinker trueTime).next c s) ((blinker millis).next c t) := by
  have hagree := (blink_agree c s t h hle).mpr hp
  obtain ⟨hstep, t₀, hs, ht⟩ := h
  refine ⟨hagree.1.symm, ?_⟩
  have hrestart : millis c.uptime - millis t₀ > blinkInterval ↔
      trueTime c.uptime - (t₀ : Int) > blinkInterval := by
    by_cases hepoch : (c.uptime : Int) / 2 ^ 32 = (t₀ : Int) / 2 ^ 32
    · rw [millis_same_epoch hepoch, trueTime]
    · have hshort := millis_later_epoch (by omega) hepoch
      rw [Punctual, hs, ← millis_past] at hp
      simp only [hepoch, false_or, Due] at hp
      simp only [trueTime]
      omega
  simp only [blinker_blinkT, hs, ht, hrestart]
  split_ifs
  · exact ⟨c.uptime, rfl, rfl⟩
  · exact ⟨t₀, rfl, rfl⟩

/-! ### Whole runs -/

/-- Uptimes in order never precede the last restart. -/
theorem along_restart (calls : List BlinkCall) (s : State)
    (hs : ∀ c ∈ calls, s.blinkT ≤ c.uptime)
    (hsorted : calls.Pairwise (fun a b => a.uptime ≤ b.uptime)) :
    (blinker trueTime).Along (fun c s => s.blinkT ≤ c.uptime) s calls := by
  induction calls generalizing s with
  | nil => trivial
  | cons c rest ih =>
    obtain ⟨hc, hrest⟩ := List.pairwise_cons.mp hsorted
    refine ⟨hs c (List.mem_cons_self ..), ih _ (fun d hd => ?_) hrest⟩
    rw [blinker_blinkT]
    split_ifs
    · exact Int.ofNat_le.mpr (hc d hd)
    · exact hs d (List.mem_cons_of_mem c hd)

/-- Exactly the runs whose calls are all punctual look the same on both clocks. -/
theorem trace_iff_punctual (calls : List BlinkCall)
    (hsorted : calls.Pairwise (fun a b => a.uptime ≤ b.uptime)) :
    (blinker trueTime).trace State.blinkStep powerUp calls =
        (blinker millis).trace State.blinkStep powerUp calls ↔
      (blinker trueTime).Along Punctual powerUp calls :=
  Machine.trace_eq_iff _ _ _ _ SameRestart (fun c s => s.blinkT ≤ c.uptime) Punctual
    blink_agree blink_keep powerUp powerUp ⟨rfl, 0, rfl, rfl⟩ calls
    (along_restart calls powerUp (fun c _ => Int.natCast_nonneg c.uptime) hsorted)

/-- **The heartbeat survives rollover exactly while every call is punctual**: no
call finds a phase over whose end the clock has rolled past. -/
theorem heartbeat_iff (calls : List BlinkCall)
    (hsorted : calls.Pairwise (fun a b => a.uptime ≤ b.uptime)) :
    (blinker millis).trace State.blinkStep powerUp calls =
        (blinker trueTime).trace State.blinkStep powerUp calls ↔
      (blinker trueTime).Along Punctual powerUp calls :=
  eq_comm.trans (trace_iff_punctual calls hsorted)

/-- Calls across two rollovers: at the first the reading is again past the last restart's by
more than the interval, at the second nothing is due. -/
def rolloverCalls : List BlinkCall :=
  [⟨10000, 0⟩, ⟨2 ^ 32 + 20000, 0⟩, ⟨2 * 2 ^ 32 - 3000, 0⟩, ⟨2 * 2 ^ 32 - 2400, 1⟩,
    ⟨2 * 2 ^ 32 - 1800, 1⟩, ⟨2 * 2 ^ 32 + 1000, 1⟩]

theorem heartbeat_rollover :
    (blinker millis).trace State.blinkStep powerUp rolloverCalls =
      (blinker trueTime).trace State.blinkStep powerUp rolloverCalls :=
  (heartbeat_iff rolloverCalls (by simp [rolloverCalls])).mpr
    ⟨.inl (by decide), .inr (.inr (by decide)), .inl (by decide), .inl (by decide),
      .inl (by decide), .inr (.inl (by unfold Due; decide)), trivial⟩

/-! ### The run that loses it

A call every three seconds: the first of each pair ends the lit phase, the second
restarts the heartbeat. -/

def threeSecondCall (k : Nat) : BlinkCall := ⟨3000 * (k + 1), 0⟩

def threeSecondCalls (n : Nat) : List BlinkCall := (List.range n).map threeSecondCall

theorem threeSecondCalls_succ (n : Nat) :
    threeSecondCalls (n + 1) = threeSecondCalls n ++ [threeSecondCall n] := by
  simp [threeSecondCalls, List.range_succ]

theorem threeSecondCalls_sorted (n : Nat) :
    (threeSecondCalls n).Pairwise (fun a b => a.uptime ≤ b.uptime) :=
  List.pairwise_map.mpr (List.pairwise_le_range.imp (by simp only [threeSecondCall]; omega))

theorem threeSecondCalls_gap (n : Nat) :
    (threeSecondCalls n).IsChain (fun a b => b.uptime < a.uptime + 5000) := by
  refine (List.isChain_map threeSecondCall).mpr ((List.isChain_range _ n).mpr fun k _ => ?_)
  simp only [threeSecondCall]
  omega

/-- The call that ends the lit phase. -/
theorem threeSecond_dark (k : Nat) :
    (blinker trueTime).next (threeSecondCall (2 * k)) {powerUp with blinkT := 6000 * k} =
      {powerUp with blinkT := 6000 * k, blinkStep := 1} := by
  have helapsed : trueTime (threeSecondCall (2 * k)).uptime - 6000 * k = 3000 := by
    simp only [trueTime, threeSecondCall]
    omega
  simp only [Machine.next, blinker, handleBlink, helapsed]
  rfl

/-- The call that restarts the heartbeat. -/
theorem threeSecond_restart (k : Nat) :
    (blinker trueTime).next (threeSecondCall (2 * k + 1))
        {powerUp with blinkT := 6000 * k, blinkStep := 1} =
      {powerUp with blinkT := 6000 * (k + 1 : Nat)} := by
  have htime : trueTime (threeSecondCall (2 * k + 1)).uptime = 6000 * (k + 1 : Nat) := by
    simp only [trueTime, threeSecondCall]
    omega
  have helapsed : (6000 * (k + 1 : Nat) : Int) - 6000 * k > blinkInterval := by
    simp only [blinkInterval]
    omega
  simp only [Machine.next, blinker, handleBlink, htime, helapsed, if_true]
  rfl

theorem threeSecond_run (k : Nat) :
    (blinker trueTime).run powerUp (threeSecondCalls (2 * k)) = {powerUp with blinkT := 6000 * k} := by
  induction k with
  | zero => rfl
  | succ k ih =>
    rw [Nat.mul_succ, threeSecondCalls_succ, threeSecondCalls_succ, Machine.run_concat,
      Machine.run_concat, ih, threeSecond_dark, threeSecond_restart]

/-- The restart that falls just past a rollover is not punctual. -/
theorem threeSecond_late (k : Nat) (hbefore : 6000 * k + 5000 < 2 ^ 32)
    (hafter : 2 ^ 32 ≤ 6000 * (k + 1)) :
    ¬(blinker trueTime).Along Punctual powerUp (threeSecondCalls (2 * k + 2)) := by
  rw [threeSecondCalls_succ, Machine.along_concat, threeSecondCalls_succ, Machine.run_concat,
    threeSecond_run, threeSecond_dark]
  intro hall
  obtain ⟨-, hp⟩ := hall
  simp only [Punctual, Due, threeSecondCall, blinkInterval] at hp
  omega

theorem threeSecond_differs (k : Nat) (hbefore : 6000 * k + 5000 < 2 ^ 32)
    (hafter : 2 ^ 32 ≤ 6000 * (k + 1)) :
    (blinker millis).trace State.blinkStep powerUp (threeSecondCalls (2 * k + 2)) ≠
      (blinker trueTime).trace State.blinkStep powerUp (threeSecondCalls (2 * k + 2)) := fun heq =>
  threeSecond_late k hbefore hafter
    ((trace_iff_punctual _ (threeSecondCalls_sorted _)).mp heq.symm)

/-- After 49.7 days of such calls from power-up, the one that should restart the
heartbeat past the rollover, at uptime 4294968000, does nothing. -/
theorem heartbeat_stops :
    (threeSecondCalls (2 * 715827 + 2)).Pairwise (fun a b => a.uptime ≤ b.uptime) ∧
    (threeSecondCalls (2 * 715827 + 2)).IsChain (fun a b => b.uptime < a.uptime + 5000) ∧
    (blinker millis).trace State.blinkStep powerUp (threeSecondCalls (2 * 715827 + 2)) ≠
      (blinker trueTime).trace State.blinkStep powerUp (threeSecondCalls (2 * 715827 + 2)) :=
  ⟨threeSecondCalls_sorted (2 * 715827 + 2), threeSecondCalls_gap (2 * 715827 + 2),
    threeSecond_differs 715827 (by norm_num) (by norm_num)⟩

end MakerSpace.PumpController
