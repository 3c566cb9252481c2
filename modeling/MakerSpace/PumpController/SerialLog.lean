import MakerSpace.PumpController.StatusLed
import MakerSpace.Reactive.ChangeLog
import MakerSpace.Codec.Lines

/-! The serial log of the irrigation controller.

Two functions print: `read_pin` a line whenever a sensor has changed, and
`handle_display` a line with all six sensors every four seconds. `reports` reads
both back from what a run has put out, leaving nothing out (`prints_log`), and
`serial_log` says that they agree. -/
namespace MakerSpace.PumpController
open Arduino Reactive Codec

inductive Sensor where
  | low1
  | high1
  | kill1
  | low2
  | high2
  | kill2
  deriving DecidableEq, Repr

namespace Sensor

def pin : Sensor → Nat
  | .low1 => sensorLow1
  | .high1 => sensorHigh1
  | .kill1 => sensorKill1
  | .low2 => sensorLow2
  | .high2 => sensorHigh2
  | .kill2 => sensorKill2

/-- The name it is reported under. -/
def desc : Sensor → String
  | .low1 => "low1"
  | .high1 => "high1"
  | .kill1 => "kill1"
  | .low2 => "low2"
  | .high2 => "high2"
  | .kill2 => "kill2"

/-- In the order they are read. -/
def all : List Sensor := [.low1, .high1, .kill1, .low2, .high2, .kill2]

theorem desc_inj : ∀ x y : Sensor, x.desc = y.desc ↔ x = y := by
  intro x y
  cases x <;> cases y <;> decide

end Sensor

def State.last (s : State) : Sensor → Int
  | .low1 => s.lastLow1
  | .high1 => s.lastHigh1
  | .kill1 => s.lastKill1
  | .low2 => s.lastLow2
  | .high2 => s.lastHigh2
  | .kill2 => s.lastKill2

/-! ### Reading the log -/

/-- One line of the log. -/
inductive Report where
  | change (desc : String) (value : Int)
  | status (digit : Sensor → Int) (pump1 pump2 : Int)

/-- What is printed on its line. -/
def Report.line : Report → List Effect
  | .change desc value => [.print desc, .print " change detected: ", .printInt value]
  | .status digit pump1 pump2 =>
    [.print "1:[", .printInt (digit .low1), .printInt (digit .high1), .printInt (digit .kill1),
      .print "]->", .printInt pump1,
      .print "  2:[", .printInt (digit .low2), .printInt (digit .high2), .printInt (digit .kill2),
      .print "]->", .printInt pump2]

def Report.print (r : Report) : List Effect := r.line ++ [.println]

/-- What is printed on one line, read back. -/
def report? : List Effect → Option Report
  | [.print desc, .print text, .printInt value] =>
    if text = " change detected: " then some (.change desc value) else none
  | [.print one, .printInt low1, .printInt high1, .printInt kill1, .print arrow1, .printInt pump1,
      .print two, .printInt low2, .printInt high2, .printInt kill2, .print arrow2, .printInt pump2] =>
    if one = "1:[" ∧ arrow1 = "]->" ∧ two = "  2:[" ∧ arrow2 = "]->" then
      let digit : Sensor → Int
        | .low1 => low1
        | .high1 => high1
        | .kill1 => kill1
        | .low2 => low2
        | .high2 => high2
        | .kill2 => kill2
      some (.status digit pump1 pump2)
    else none
  | _ => none

/-- Writing a pin prints nothing. -/
def isPrinted : Effect → Bool
  | .digitalWrite _ _ => false
  | .analogWrite _ _ => false
  | _ => true

def endsLine : Effect → Bool
  | .println => true
  | _ => false

def reports (effects : List Effect) : List Report :=
  (Lines.lines endsLine [] (effects.filter isPrinted)).filterMap report?

/-- The values of a sensor's change lines. -/
def changes (x : Sensor) (rs : List Report) : List Int :=
  rs.filterMap fun
    | .change desc value => if desc = x.desc then some value else none
    | .status _ _ _ => none

theorem changes_append (x : Sensor) (a b : List Report) :
    changes x (a ++ b) = changes x a ++ changes x b := List.filterMap_append

/-- A line reads back as the report it was printed from. -/
theorem report?_line (r : Report) : report? r.line = some r := by
  cases r with
  | change desc value => rw [Report.line, report?, if_pos rfl]
  | status digit pump1 pump2 =>
    rw [Report.line, report?, if_pos ⟨rfl, rfl, rfl, rfl⟩]
    refine congrArg (fun digit => some (Report.status digit pump1 pump2)) ?_
    funext x
    cases x <;> rfl

theorem line_open (r : Report) : ∀ e ∈ r.line, endsLine e = false := by
  cases r <;> simp [Report.line, endsLine]

theorem line_printed (r : Report) : r.line.filter isPrinted = r.line := by
  cases r <;> simp [Report.line, isPrinted]

/-! ### What each function prints -/

/-- What the effects print are just these reports, each on a line of its own. -/
def Prints (effects : List Effect) (rs : List Report) : Prop :=
  effects.filter isPrinted = rs.flatMap Report.print

theorem prints_append {a b : List Effect} {rs rs' : List Report} (ha : Prints a rs)
    (hb : Prints b rs') : Prints (a ++ b) (rs ++ rs') := by
  rw [Prints, List.filter_append, List.flatMap_append, ha, hb]

theorem prints_flatMap {A : Type} {f : A → List Effect} {g : A → List Report}
    (h : ∀ a, Prints (f a) (g a)) (as : List A) : Prints (as.flatMap f) (as.flatMap g) := by
  induction as with
  | nil => rfl
  | cons a rest ih => exact prints_append (h a) ih

theorem prints_one (r : Report) : Prints r.print [r] := by
  rw [Prints, Report.print, List.filter_append, line_printed, List.flatMap_singleton]
  rfl

/-- The log reads back as the reports printed. -/
theorem reports_of_prints {effects : List Effect} {rs : List Report} (h : Prints effects rs) :
    reports effects = rs := by
  rw [reports, h]
  clear h
  induction rs with
  | nil => rfl
  | cons r rest ih =>
    rw [List.flatMap_cons, Report.print, List.append_assoc, List.singleton_append,
      Lines.lines_line (line_open r) rfl, List.nil_append, List.filterMap_cons, report?_line]
    exact congrArg (r :: ·) ih

/-- A sensor's change line, if there is one. -/
def changeReport (x : Sensor) (last value : Int) : List Report :=
  (record last value).map (.change x.desc)

theorem prints_readPin (digitalRead : Nat → Level) (x : Sensor) (last : Int) :
    Prints (readPin digitalRead x.pin last x.desc).2
      (changeReport x last (sensed digitalRead x.pin)) := by
  unfold changeReport record
  by_cases hchange : sensed digitalRead x.pin ≠ last
  · have hprint : (readPin digitalRead x.pin last x.desc).2 =
        (Report.change x.desc (sensed digitalRead x.pin)).print := congrArg Prod.snd (if_pos hchange)
    rw [if_pos hchange, hprint]
    exact prints_one _
  · have hsilent : (readPin digitalRead x.pin last x.desc).2 = [] :=
      congrArg Prod.snd (if_neg hchange)
    rw [if_neg hchange, hsilent]
    rfl

/-- The change lines of a pass, in the order the sensors are read. -/
def changeReports (digitalRead : Nat → Level) (s : State) : List Report :=
  Sensor.all.flatMap fun x => changeReport x (s.last x) (sensed digitalRead x.pin)

theorem prints_readSensors (digitalRead : Nat → Level) (s : State) :
    Prints (readSensors digitalRead s).2 (changeReports digitalRead s) := by
  have hled : ∀ prev now, Prints (writeLed prev now) [] := by
    intro prev now
    unfold writeLed
    split_ifs <;> rfl
  have hreads : (readSensors digitalRead s).2 =
      (Sensor.all.flatMap fun x => (readPin digitalRead x.pin (s.last x) x.desc).2) ++
        (writeLed s.ledState (readSensors digitalRead s).1.ledState ++
          [.digitalWrite relayCtrl1 (.ofInt (readSensors digitalRead s).1.pumpState1),
            .digitalWrite relayCtrl2 (.ofInt (readSensors digitalRead s).1.pumpState2)]) := by
    simp only [readSensors, Sensor.all, List.flatMap_cons, List.flatMap_nil, List.append_assoc,
      List.nil_append]
    rfl
  rw [hreads, ← List.append_nil (changeReports digitalRead s)]
  refine prints_append ?_ (prints_append (hled _ _) rfl)
  exact prints_flatMap (fun x => prints_readPin digitalRead x (s.last x)) Sensor.all

theorem prints_handleBlink (t : Int) (s : State) : Prints (handleBlink t s).2 [] := by
  rcases handleBlink_cases t s with ⟨-, h⟩ | ⟨-, h⟩ | ⟨-, h⟩ | h <;> rw [h] <;> rfl

/-- The status line of a pass, if there is one. -/
def statusReport (t : BitVec 32) (s : State) : List Report :=
  if (t - s.displayT).toInt > 4000 then [.status s.last s.pumpState1 s.pumpState2] else []

theorem prints_handleDisplay (t : BitVec 32) (s : State) :
    Prints (handleDisplay t s).2 (statusReport t s) := by
  unfold handleDisplay statusReport
  split_ifs
  · exact prints_one (.status s.last s.pumpState1 s.pumpState2)
  · rfl

/-- The state `handle_display` finds. -/
def displayed (i : Inputs) (s : State) : State :=
  (handleBlink i.blinkMillis.toNat (readSensors i.digitalRead s).1).1

theorem prints_out (i : Inputs) (s : State) :
    Prints (controller.out i s)
      (changeReports i.digitalRead s ++ statusReport i.displayMillis (displayed i s)) := by
  have hblink := prints_append (prints_readSensors i.digitalRead s)
    (prints_handleBlink i.blinkMillis.toNat (readSensors i.digitalRead s).1)
  rw [List.append_nil] at hblink
  exact prints_append hblink (prints_handleDisplay i.displayMillis (displayed i s))

/-! ### One pass -/

theorem last_readSensors (x : Sensor) (digitalRead : Nat → Level) (s : State) :
    (readSensors digitalRead s).1.last x = sensed digitalRead x.pin := by
  rw [readSensors_fst]
  cases x <;> rfl

theorem last_handleBlink (t : Int) (s : State) : (handleBlink t s).1.last = s.last := by
  rcases handleBlink_cases t s with ⟨-, h⟩ | ⟨-, h⟩ | ⟨-, h⟩ | h <;> rw [h] <;> rfl

theorem last_displayed (x : Sensor) (i : Inputs) (s : State) :
    (displayed i s).last x = sensed i.digitalRead x.pin := by
  rw [displayed, last_handleBlink, last_readSensors]

theorem last_next (x : Sensor) (i : Inputs) (s : State) :
    (controller.next i s).last x = sensed i.digitalRead x.pin := by
  obtain ⟨d, hnext⟩ := next_handleBlink i s
  rw [hnext]
  exact last_displayed x i s

theorem changes_changeReport (x y : Sensor) (last value : Int) :
    changes x (changeReport y last value) = if y = x then record last value else [] := by
  unfold changeReport record
  split_ifs <;> simp_all [changes, Sensor.desc_inj]

/-- Each sensor's changes are logged under its own name and no other. -/
theorem changes_changeReports (x : Sensor) (digitalRead : Nat → Level) (s : State) :
    changes x (changeReports digitalRead s) = record (s.last x) (sensed digitalRead x.pin) := by
  simp only [changeReports, Sensor.all, List.flatMap_cons, List.flatMap_nil, changes_append,
    changes_changeReport]
  cases x <;> simp [changes]

theorem changes_statusReport (x : Sensor) (t : BitVec 32) (s : State) :
    changes x (statusReport t s) = [] := by
  unfold statusReport
  split_ifs <;> rfl

theorem status_notMem_changeReports (digitalRead : Nat → Level) (s : State) (digit : Sensor → Int)
    (pump1 pump2 : Int) : .status digit pump1 pump2 ∉ changeReports digitalRead s := by
  simp [changeReports, changeReport]

theorem statusReport_eq {t : BitVec 32} {s : State} {before after : List Report}
    {digit : Sensor → Int} {pump1 pump2 : Int}
    (h : statusReport t s = before ++ .status digit pump1 pump2 :: after) :
    before = [] ∧ digit = s.last := by
  unfold statusReport at h
  split_ifs at h
  · cases before with
    | nil => exact ⟨rfl, (Report.status.inj (List.cons.inj h).1).1.symm⟩
    | cons r rest => simp at h
  · simp at h

/-- A status line comes after the change lines of its pass. -/
theorem status_in_pass {digitalRead : Nat → Level} {s s' : State} {t : BitVec 32}
    {before after : List Report} {digit : Sensor → Int} {pump1 pump2 : Int}
    (h : changeReports digitalRead s ++ statusReport t s' =
      before ++ .status digit pump1 pump2 :: after) :
    before = changeReports digitalRead s ∧ digit = s'.last := by
  rcases List.append_eq_append_iff.mp h with ⟨c, hbefore, hstatus⟩ | ⟨c, hchanges, hstatus⟩
  · obtain ⟨rfl, hdigit⟩ := statusReport_eq hstatus
    exact ⟨by rw [hbefore, List.append_nil], hdigit⟩
  · cases c with
    | nil =>
      have hstatus' : statusReport t s' = [] ++ .status digit pump1 pump2 :: after := hstatus.symm
      rw [List.append_nil] at hchanges
      exact ⟨hchanges.symm, (statusReport_eq hstatus').2⟩
    | cons r rest =>
      obtain rfl := (List.cons.inj hstatus).1
      exact absurd (hchanges ▸ by simp) (status_notMem_changeReports digitalRead s digit pump1 pump2)

/-! ### Whole runs -/

/-- Nothing is printed but reports. -/
theorem prints_log (calls : List Inputs) :
    Prints (controller.log powerUp calls) (reports (controller.log powerUp calls)) := by
  induction calls using List.reverseRecOn with
  | nil => rfl
  | append_singleton history i ih =>
    rw [controller.log_concat]
    have h := prints_append ih (prints_out i (controller.run powerUp history))
    rwa [reports_of_prints h]

theorem reports_concat (history : List Inputs) (i : Inputs) :
    reports (controller.log powerUp (history ++ [i])) =
      reports (controller.log powerUp history) ++
        (changeReports i.digitalRead (controller.run powerUp history) ++
          statusReport i.displayMillis (displayed i (controller.run powerUp history))) := by
  rw [controller.log_concat]
  exact reports_of_prints (prints_append (prints_log history) (prints_out i _))

/-- The changes logged alternate, and the last of them is the value the sensor has. -/
theorem logged (x : Sensor) (calls : List Inputs) :
    Alternates 1 0 (changes x (reports (controller.log powerUp calls))) ∧
      latest 0 (changes x (reports (controller.log powerUp calls))) =
        (controller.run powerUp calls).last x := by
  induction calls using List.reverseRecOn with
  | nil => exact ⟨alternates_nil 1 0, by cases x <;> rfl⟩
  | append_singleton history i ih =>
    obtain ⟨halternates, hlatest⟩ := ih
    have hbit : sensed i.digitalRead x.pin = 1 ∨ sensed i.digitalRead x.pin = 0 :=
      (sensed_cases i.digitalRead x.pin).imp And.right And.right
    rw [reports_concat, changes_append, changes_append, changes_statusReport, List.append_nil,
      changes_changeReports, ← hlatest, controller.run_concat, last_next]
    exact ⟨alternates_record hbit halternates, latest_record 0 _ _⟩

/-- **The serial log.** After any passes from power-up: what has been printed is a list
of reports, one to a line; a sensor's change lines say 1, 0, 1, 0, … in turn; and in a
status line of the next pass, whatever that pass reads, a sensor's digit is the value of
its last change line so far, 0 if there is none, and the inverse of the level of its pin. -/
theorem serial_log (x : Sensor) (calls : List Inputs) :
    (controller.log powerUp calls).filter isPrinted =
        (reports (controller.log powerUp calls)).flatMap Report.print ∧
      Alternates 1 0 (changes x (reports (controller.log powerUp calls))) ∧
      ∀ (i : Inputs) (before after : List Report) (digit : Sensor → Int) (pump1 pump2 : Int),
        reports (controller.out i (controller.run powerUp calls)) =
            before ++ .status digit pump1 pump2 :: after →
          digit x = latest 0 (changes x (reports (controller.log powerUp calls) ++ before)) ∧
            digit x = lnot (i.digitalRead x.pin).toInt := by
  refine ⟨prints_log calls, (logged x calls).1, fun i before after digit pump1 pump2 h => ?_⟩
  rw [reports_of_prints (prints_out i _)] at h
  obtain ⟨rfl, rfl⟩ := status_in_pass h
  rw [last_displayed, changes_append, changes_changeReports, ← (logged x calls).2, latest_record]
  exact ⟨rfl, rfl⟩

end MakerSpace.PumpController
