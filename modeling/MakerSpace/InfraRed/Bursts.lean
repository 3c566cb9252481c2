import MakerSpace.InfraRed.Capture

/-! What is in the buffer, whatever the order of samples and `resume` calls.

`Hears` ties the receiver's state to the samples it has seen: it waits, or is `k`
samples into a run of a burst that a gap preceded, or holds a burst with a gap on
both sides, or has given one up. Every interrupt keeps it (`hears_tick`) and so does
a `resume` at any time.

`stopped_burst`: what the receiver holds when it stops is a whole burst of the signal,
run for run. `never_wild_iff`: the interrupt never writes outside the buffer exactly
when the buffer's length is even. -/
namespace MakerSpace.InfraRed
open Reactive Codec.Wave

variable {n : Nat}

inductive Event where
  | tick (mark : Bool)
  | resume

/-- The samples among the events. -/
def samplesOf (events : List Event) : List Bool :=
  events.filterMap fun
    | .tick mark => some mark
    | .resume => none

def step (e : Event) (r : IrReceiver n) : Option (IrReceiver n × List Empty) :=
  match e with
  | .tick mark => (irReceiveTimerInterruptHandler mark r).map fun r' => (r', [])
  | .resume => some (resume r, [])

def receiver (n : Nat) : Machine Event (Option (IrReceiver n)) Empty := Machine.ofFallible step

/-- The samples end in `c` spaces. -/
def Trailing (history : List Bool) (c : Nat) : Prop :=
  ∃ before, history = before ++ List.replicate c false

/-- The samples end in the runs, with a gap before them. -/
def Burst (history : List Bool) (runs : List Nat) : Prop :=
  ∃ before, history = before ++ List.replicate recordGapTicks false ++ wave true runs

/-- Somewhere in the samples the runs stand between two gaps. -/
def Complete (history : List Bool) (runs : List Nat) : Prop :=
  ∃ before later, history = before ++ List.replicate recordGapTicks false ++ wave true runs ++
    List.replicate (recordGapTicks + 2) false ++ later

/-- Somewhere in the samples the runs follow a gap. -/
def Begun (history : List Bool) (runs : List Nat) : Prop :=
  ∃ before later,
    history = before ++ List.replicate recordGapTicks false ++ wave true runs ++ later

inductive Hears (history : List Bool) (r : IrReceiver n) : Prop where
  | waiting (c : Nat) (state : r.irparams.stateForISR = .idle)
      (ticks : r.irparams.tickCounterForISR = min c uint16Max) (trailing : Trailing history c)
  | recording (g : Nat) (s : IrReceiver n) (runs : List Nat) (k : Nat)
      (recording : Recording g s runs k r) (framed : Framed true (runs ++ [k + 1]))
      (burst : Burst history (runs ++ [k + 1]))
  | captured (g : Nat) (s : IrReceiver n) (runs : List Nat) (c : Nat)
      (captured : Captured g s runs r) (framed : Framed true runs) (odd : runs.length % 2 = 1)
      (fits : runs.length < n) (complete : Complete history runs)
      (ticks : r.irparams.tickCounterForISR = min c uint16Max) (trailing : Trailing history c)
  | overrun (s : IrReceiver n) (runs : List Nat) (c : Nat)
      (overrun : Overrun s r) (framed : Framed true runs) (long : n < runs.length)
      (begun : Begun history runs)
      (ticks : r.irparams.tickCounterForISR = min c uint16Max) (trailing : Trailing history c)

/-! ### Samples at the end -/

theorem Trailing.zero (history : List Bool) : Trailing history 0 := ⟨history, by simp⟩

theorem Trailing.space {history : List Bool} {c : Nat} (h : Trailing history c) :
    Trailing (history ++ [false]) (c + 1) := by
  obtain ⟨before, rfl⟩ := h
  exact ⟨before, by rw [List.append_assoc, List.replicate_succ']⟩

theorem Trailing.burst {history : List Bool} {c : Nat} (h : Trailing history c)
    (hc : recordGapTicks ≤ c) : Burst (history ++ [true]) [1] := by
  obtain ⟨before, rfl⟩ := h
  refine ⟨before ++ List.replicate (c - recordGapTicks) false, ?_⟩
  rw [List.append_assoc before (List.replicate _ _) (List.replicate _ _),
    List.replicate_append_replicate, Nat.sub_add_cancel hc]
  rfl

theorem Burst.same {history : List Bool} {runs : List Nat} {k : Nat}
    (h : Burst history (runs ++ [k])) :
    Burst (history ++ [after true runs]) (runs ++ [k + 1]) := by
  obtain ⟨before, rfl⟩ := h
  exact ⟨before, by rw [List.append_assoc, ← wave_concat_succ]⟩

theorem Burst.other {history : List Bool} {runs : List Nat} (h : Burst history runs) :
    Burst (history ++ [after true runs]) (runs ++ [1]) := by
  obtain ⟨before, rfl⟩ := h
  exact ⟨before, by rw [List.append_assoc, ← wave_concat_one]⟩

theorem Complete.later {history : List Bool} {runs : List Nat} (h : Complete history runs)
    (more : List Bool) : Complete (history ++ more) runs := by
  obtain ⟨before, later, rfl⟩ := h
  exact ⟨before, later ++ more, by simp only [List.append_assoc]⟩

theorem Begun.later {history : List Bool} {runs : List Nat} (h : Begun history runs)
    (more : List Bool) : Begun (history ++ more) runs := by
  obtain ⟨before, later, rfl⟩ := h
  exact ⟨before, later ++ more, by simp only [List.append_assoc]⟩

theorem Burst.begun {history : List Bool} {runs : List Nat} (h : Burst history runs) :
    Begun history runs := by
  obtain ⟨before, rfl⟩ := h
  exact ⟨before, [], by simp⟩

/-- A burst whose last run is a space as long as a gap is complete without it. -/
theorem Burst.complete {history : List Bool} {runs : List Nat} (hodd : runs.length % 2 = 1)
    (h : Burst history (runs ++ [recordGapTicks + 1])) :
    Complete (history ++ [false]) runs ∧ Trailing (history ++ [false]) (recordGapTicks + 2) := by
  obtain ⟨before, rfl⟩ := h
  have hsplit : wave true (runs ++ [recordGapTicks + 1]) ++ [false] =
      wave true runs ++ List.replicate (recordGapTicks + 2) false := by
    rw [wave_append, after_odd true hodd, wave_cons, wave_nil, List.append_nil, List.append_assoc,
      Bool.not_true, ← List.replicate_succ']
  rw [List.append_assoc, hsplit]
  refine ⟨⟨before, [], by simp⟩, ⟨_, (List.append_assoc _ _ _).symm⟩⟩

/-! ### One event -/

/-- The counter of a stopped receiver follows the spaces. -/
theorem stopped_ticks {history : List Bool} {r : IrReceiver n} {c : Nat} (mark : Bool)
    (hticks : r.irparams.tickCounterForISR = min c uint16Max) (htrailing : Trailing history c) :
    ∃ c', (if mark then 0 else r.irparams.count.tickCounterForISR) = min c' uint16Max ∧
      Trailing (history ++ [mark]) c' := by
  cases mark with
  | false => exact ⟨c + 1, IrParams.count_ticks hticks, htrailing.space⟩
  | true => exact ⟨0, rfl, Trailing.zero _⟩

/-- The run goes on; if it is a space as long as a gap, the receiver stops. -/
theorem hears_same {history : List Bool} {r s : IrReceiver n} {g : Nat} {runs : List Nat} {k : Nat}
    (h : Recording g s runs k r) (hframed : Framed true (runs ++ [k + 1]))
    (hburst : Burst history (runs ++ [k + 1])) :
    ∃ r', irReceiveTimerInterruptHandler (after true runs) r = some r' ∧
      Hears (history ++ [after true runs]) r' := by
  obtain ⟨hruns, hk, hspace, -⟩ := Framed.append.mp hframed
  have hbound : runs.length % 2 = 1 → k ≤ recordGapTicks := by
    intro hodd
    have := hspace (by rw [after_odd true hodd]; rfl)
    omega
  by_cases hend : runs.length % 2 = 1 ∧ k = recordGapTicks
  · obtain ⟨hodd, rfl⟩ := hend
    obtain ⟨r', hstop, h', hticks⟩ := interrupt_stop h hodd (Nat.le_refl _)
    obtain ⟨hcomplete, htrailing⟩ := hburst.complete hodd
    rw [after_odd true hodd, Bool.not_true]
    obtain ⟨before, hbefore⟩ := htrailing
    refine ⟨r', hstop, .captured g s runs (recordGapTicks + 1) h' hruns hodd h.fits hcomplete
      hticks ⟨before ++ [false], ?_⟩⟩
    rw [hbefore, List.append_assoc, List.singleton_append, ← List.replicate_succ]
  · obtain ⟨r', hstep, h'⟩ := interrupt_same h (fun hodd => by
      have := hbound hodd
      omega)
    refine ⟨r', hstep, .recording g s runs (k + 1) h' ?_ hburst.same⟩
    refine Framed.append.mpr ⟨hruns, by omega, fun hlevel => ?_, trivial⟩
    have hodd : runs.length % 2 = 1 := by
      by_contra heven
      rw [after_even true (by omega)] at hlevel
      cases hlevel
    have := hbound hodd
    omega

/-- The next run begins. If the buffer is full, its length even, the run that ends is a space,
and the receiver gives up. -/
theorem hears_other (hn : n % 2 = 0) {history : List Bool} {r s : IrReceiver n} {g : Nat}
    {runs : List Nat} {k : Nat} (h : Recording g s runs k r)
    (hframed : Framed true (runs ++ [k + 1])) (hburst : Burst history (runs ++ [k + 1])) :
    ∃ r', irReceiveTimerInterruptHandler (!after true runs) r = some r' ∧
      Hears (history ++ [!after true runs]) r' := by
  have hafter : after true (runs ++ [k + 1]) = !after true runs := by
    rw [after_append]
    rfl
  have hburst' := hburst.other
  rw [hafter] at hburst'
  have hframed' : Framed true (runs ++ [k + 1] ++ [0 + 1]) :=
    Framed.append.mpr ⟨hframed, by omega, fun _ => by omega, trivial⟩
  by_cases hfits : runs.length + 1 < n
  · obtain ⟨r', hstep, h'⟩ := interrupt_other h hfits
    exact ⟨r', hstep, .recording g s (runs ++ [k + 1]) 0 h' hframed' hburst'⟩
  · have hfull := h.fits
    have hodd : runs.length % 2 = 1 := by omega
    rw [after_odd true hodd] at hburst' ⊢
    obtain ⟨r', hover, h', hticks⟩ := interrupt_overrun h hodd (by omega)
    exact ⟨r', hover, .overrun s _ 0 h' hframed' (by simp; omega) hburst'.begun
      (by rw [hticks]; rfl) (Trailing.zero _)⟩

/-- **An interrupt keeps what the receiver has heard**, and writes inside the buffer. -/
theorem hears_tick (hn : n % 2 = 0) (hpos : 0 < n) {history : List Bool} {r : IrReceiver n}
    (h : Hears history r) (mark : Bool) :
    ∃ r', irReceiveTimerInterruptHandler mark r = some r' ∧ Hears (history ++ [mark]) r' := by
  cases h with
  | waiting c hstate hticks htrailing =>
    have hcount := IrParams.count_ticks hticks
    cases mark with
    | false =>
      simp only [irReceiveTimerInterruptHandler, IrParams.count_stateForISR, hstate,
        Bool.false_eq_true, if_false]
      exact ⟨_, rfl, .waiting (c + 1) (by simp [hstate]) hcount htrailing.space⟩
    | true =>
      by_cases hc : recordGapTicks ≤ c
      · obtain ⟨r', hstart, h'⟩ := interrupt_start hpos hstate hticks hc
        exact ⟨r', hstart, .recording _ r [] 0 h' ⟨by decide, by simp, trivial⟩ (htrailing.burst hc)⟩
      · have hshort : ¬r.irparams.count.tickCounterForISR > recordGapTicks := by
          rw [hcount]
          omega
        simp only [irReceiveTimerInterruptHandler, IrParams.count_stateForISR, hstate, if_true,
          if_neg hshort]
        exact ⟨_, rfl, .waiting 0 rfl rfl (Trailing.zero _)⟩
  | recording g s runs k h hframed hburst =>
    by_cases hsame : mark = after true runs
    · subst hsame
      exact hears_same h hframed hburst
    · have hother : mark = !after true runs := by
        cases mark <;> cases hlevel : after true runs <;> simp_all
      subst hother
      exact hears_other hn h hframed hburst
  | captured g s runs c h hframed hodd hfits hcomplete hticks htrailing =>
    obtain ⟨c', hticks', htrailing'⟩ := stopped_ticks mark hticks htrailing
    exact ⟨_, interrupt_stopped h.state mark,
      .captured g s runs c' ⟨h.state, h.overflow, h.recorded, h.decoder⟩ hframed hodd hfits
        (hcomplete.later _) hticks' htrailing'⟩
  | overrun s runs c h hframed hlong hbegun hticks htrailing =>
    obtain ⟨c', hticks', htrailing'⟩ := stopped_ticks mark hticks htrailing
    exact ⟨_, interrupt_stopped h.state mark,
      .overrun s runs c' ⟨h.state, h.overflow, h.decoder⟩ hframed hlong (hbegun.later _) hticks'
        htrailing'⟩

/-- A `resume` keeps it, whenever it comes. -/
theorem hears_resume {history : List Bool} {r : IrReceiver n} (h : Hears history r) :
    Hears history (resume r) := by
  by_cases hstop : r.irparams.stateForISR = .stop
  · rw [resume, if_pos hstop]
    cases h with
    | waiting c hstate => simp [hstate] at hstop
    | recording g s runs k h => rw [h.state] at hstop; split at hstop <;> cases hstop
    | captured g s runs c _ _ _ _ _ hticks htrailing => exact .waiting c rfl hticks htrailing
    | overrun s runs c _ _ _ _ hticks htrailing => exact .waiting c rfl hticks htrailing
  · rw [resume, if_neg hstop]
    exact h

/-! ### Whole runs -/

theorem run_step {events : List Event} {e : Event} {s r r' : IrReceiver n} {out : List Empty}
    (hrun : (receiver n).run (some s) events = some r) (hstep : step e r = some (r', out)) :
    (receiver n).run (some s) (events ++ [e]) = some r' := by
  rw [Machine.run_concat, hrun]
  exact Machine.ofFallible_next hstep

theorem hears_run (hn : n % 2 = 0) (hpos : 0 < n) (events : List Event) :
    ∃ r, (receiver n).run (some (powerUp n)) events = some r ∧ Hears (samplesOf events) r := by
  induction events using List.reverseRecOn with
  | nil => exact ⟨powerUp n, rfl, .waiting 0 rfl rfl (Trailing.zero _)⟩
  | append_singleton events e ih =>
    obtain ⟨r, hrun, hears⟩ := ih
    rw [samplesOf, List.filterMap_append]
    cases e with
    | tick mark =>
      obtain ⟨r', hstep, hears'⟩ := hears_tick hn hpos hears mark
      exact ⟨r', run_step hrun (by rw [step, hstep, Option.map_some]), hears'⟩
    | resume =>
      refine ⟨resume r, run_step hrun rfl, ?_⟩
      rw [show List.filterMap _ [Event.resume] = ([] : List Bool) from rfl, List.append_nil]
      exact hears_resume hears

/-- **Whatever the order of samples and `resume` calls**, a stopped receiver holds a whole
burst of the signal, run for run in the buffer's bytes, or has met one too long for it. -/
theorem stopped_burst (hn : n % 2 = 0) (hpos : 0 < n) (events : List Event) :
    ∃ r, (receiver n).run (some (powerUp n)) events = some r ∧
      (r.irparams.stateForISR = .stop →
        (r.irparams.overflowFlag = false ∧ ∃ runs, Complete (samplesOf events) runs ∧
          Framed true runs ∧ runs.length % 2 = 1 ∧ r.irparams.recorded = runs.map ticksOf ∧
          r.decodedIRData.rawlen = runs.length + 1) ∨
        (r.irparams.overflowFlag = true ∧ ∃ runs, Begun (samplesOf events) runs ∧
          Framed true runs ∧ n < runs.length)) := by
  obtain ⟨r, hrun, hears⟩ := hears_run hn hpos events
  refine ⟨r, hrun, fun hstop => ?_⟩
  cases hears with
  | waiting c hstate => rw [hstate] at hstop; cases hstop
  | recording g s runs k h => rw [h.state] at hstop; split at hstop <;> cases hstop
  | captured g s runs c h hframed hodd hfits hcomplete =>
    have hlen := congrArg (fun x : IrReceiver n => x.decodedIRData.rawlen) h.decoder
    exact .inl ⟨h.overflow, runs, hcomplete, hframed, hodd, h.recorded, hlen⟩
  | overrun s runs c h hframed hlong hbegun => exact .inr ⟨h.overflow, runs, hbegun, hframed, hlong⟩

/-- A gap with a call in it, a mark of three samples, and a gap. -/
theorem stopped_burst_mark :
    let events := List.replicate 90 (.tick false) ++ [.resume] ++ List.replicate 80 (.tick false) ++
      List.replicate 3 (.tick true) ++ List.replicate 170 (.tick false)
    ∃ r, (receiver 200).run (some (powerUp 200)) events = some r ∧
      (r.irparams.stateForISR = .stop →
        (r.irparams.overflowFlag = false ∧ ∃ runs, Complete (samplesOf events) runs ∧
          Framed true runs ∧ runs.length % 2 = 1 ∧ r.irparams.recorded = runs.map ticksOf ∧
          r.decodedIRData.rawlen = runs.length + 1) ∨
        (r.irparams.overflowFlag = true ∧ ∃ runs, Begun (samplesOf events) runs ∧
          Framed true runs ∧ 200 < runs.length)) :=
  stopped_burst (by decide : 200 % 2 = 0) (by decide) _

/-! ### The length of the buffer -/

theorem run_ticks (samples : List Bool) (r : IrReceiver n) :
    (receiver n).run (some r) (samples.map .tick) = listen samples r := by
  rw [receiver, Machine.ofFallible_run, List.foldlM_map, listen]
  congr 1
  funext r mark
  rw [step, Option.map_map]
  exact Option.map_id'

theorem framed_ones (mark : Bool) (k : Nat) : Framed mark (List.replicate k 1) := by
  induction k generalizing mark with
  | zero => trivial
  | succ k ih => exact ⟨by decide, fun _ => by omega, ih _⟩

/-- With the last entry written, the end of a mark writes past the buffer. -/
theorem interrupt_wild {g k : Nat} {s r : IrReceiver n} {runs : List Nat} (h : Recording g s runs k r)
    (heven : runs.length % 2 = 0) (hfull : runs.length + 1 = n) :
    irReceiveTimerInterruptHandler false r = none := by
  have hwild : r.irparams.count.record = none := by
    rw [IrParams.record, dif_neg]
    rw [IrParams.count_rawlen, h.rawlen, hfull]
    exact Nat.lt_irrefl n
  simp only [irReceiveTimerInterruptHandler, IrParams.count_stateForISR, h.state_mark heven,
    Bool.false_eq_true, if_false, hwild, Option.map_none]

/-- **The interrupt never writes outside the buffer exactly when its length is even**,
which is what the header's `#error` asks of `RAW_BUFFER_LENGTH`. -/
theorem never_wild_iff (hpos : 0 < n) :
    (∀ events, (receiver n).run (some (powerUp n)) events ≠ none) ↔ n % 2 = 0 := by
  constructor
  · intro hsafe
    by_contra hodd
    -- a burst of one-sample runs that fills an odd buffer up to its last entry, and one run more
    obtain ⟨r₁, hfirst, h₁⟩ := listen_first hpos (rfl : (powerUp n).irparams.stateForISR = .idle)
      (rfl : _ = min 0 uint16Max) Nat.one_pos recordGapTicks (by omega)
    obtain ⟨r₂, done, k, hlisten, hdone, h₂⟩ :=
      listen_runs (List.replicate (n - 1) 1) h₁ (framed_ones _ _) (by simp; omega)
    have hlen := congrArg List.length hdone
    simp only [List.length_append, List.length_cons, List.length_nil, List.length_replicate] at hlen
    have hwild := interrupt_wild h₂ (by omega) (by omega)
    apply hsafe ((List.replicate recordGapTicks false ++ List.replicate 1 true ++
      wave (!after true []) (List.replicate (n - 1) 1) ++ [false]).map .tick)
    rw [run_ticks, List.append_assoc, listen_append hfirst, listen_append hlisten, listen,
      List.foldlM_cons, hwild]
    rfl
  · intro heven events
    obtain ⟨r, hrun, -⟩ := hears_run heven hpos events
    rw [hrun]
    exact Option.some_ne_none r

/-- The library's own length, and one it refuses. -/
theorem never_wild_iff_lengths :
    (∀ events, (receiver 200).run (some (powerUp 200)) events ≠ none) ∧
      ¬∀ events, (receiver 101).run (some (powerUp 101)) events ≠ none :=
  ⟨(never_wild_iff (by decide)).mpr (by decide),
    fun h => absurd ((never_wild_iff (by decide)).mp h) (by decide)⟩

end MakerSpace.InfraRed
