import MakerSpace.InfraRed.Session

/-! Sessions in time.

A session is a list of frames as they reach the receiver, with the time between them; the
interrupt's clock sees it from some phase. `session_sublist`: however late the polls come,
and whenever we look, the keys the sketch has read are those of some of the frames, in
order, none twice and none made up. `session_all`: if the sketch polls in every gap once
the frame before it is over, they are those of all of them.

`sendNEC_read`: so is what `sendNEC` puts on the air, with its repeats. -/
namespace MakerSpace.InfraRed
open Reactive Codec.Wave

variable {n : Nat} (others : IrReceiver n → IRData)

/-- A frame as it reaches the receiver, and the time until the next one, in microseconds. -/
structure Sent where
  frame : Frame
  received : List Nat
  gap : Nat
  near : List.Forall₂ (fun us got => us ≤ got + frame.tolerance ∧ got ≤ us + frame.tolerance)
    (durations frame.outs) received
  quiet : recordGapMicros + 2 * microsPerTick ≤ gap

def Sent.signal (t : Sent) : List Nat := t.received ++ [t.gap]

theorem gap_counts {phase us : Nat} (hphase : phase < microsPerTick)
    (hquiet : recordGapMicros + 2 * microsPerTick ≤ us) :
    recordGapTicks + 2 ≤ below microsPerTick phase us := by
  have hle := le_below_mul hphase us
  rw [show microsPerTick = 50 from rfl] at *
  rw [show recordGapMicros = 8000 from rfl] at hquiet
  rw [show recordGapTicks = 160 from rfl]
  omega

/-- What a clock of any phase sees of the signal is frames with gaps after them. -/
theorem heard_signal (sent : List Sent) {phase : Nat} (hphase : phase < microsPerTick)
    {inputs : List Input}
    (hinputs : samplesIn inputs = wave true (counts microsPerTick phase (sent.flatMap Sent.signal))) :
    Heard Gap (sent.map Sent.frame) inputs := by
  induction sent generalizing phase inputs with
  | nil => exact .nil hinputs
  | cons t rest ih =>
    obtain ⟨phase', hphase', hcounts⟩ := counts_append hphase t.received
    have hreceived : t.frame.Received (counts microsPerTick phase t.received) :=
      near_of_jitter hphase t.near
    rw [List.flatMap_cons, Sent.signal, List.append_assoc, hcounts, wave_append,
      after_odd true hreceived.odd] at hinputs
    obtain ⟨body, later, rfl, hbody, hlater⟩ := samplesIn_append hinputs
    obtain ⟨quiet, more, rfl, hgap, hmore⟩ := samplesIn_append hlater
    exact .cons hreceived hbody ⟨_, gap_counts hphase' t.quiet, hgap⟩
      (ih (next_phase_lt hphase' t.gap) hmore)

/-- The stretch before the first frame. -/
theorem powerUp_spaces (others : IrReceiver n → IRData) {first : List Input} {quiet : Nat}
    (hfirst : samplesIn first = List.replicate quiet false) :
    ∃ r, Gives others first (powerUp n) [] r ∧ Holds [] quiet r := by
  have hwaiting : Waiting 0 (powerUp n) := ⟨rfl, rfl⟩
  obtain ⟨left, r, ⟨read, out, hsplit, hgives, hreads⟩, h⟩ :=
    (Holds.nothing hwaiting).spaces others hfirst
  obtain ⟨rfl, rfl⟩ := List.append_eq_nil_iff.mp hsplit.symm
  obtain rfl := List.forall₂_nil_left_iff.mp hreads
  rw [Nat.zero_add] at h
  exact ⟨r, hgives, h⟩

/-- **However late the polls, and whenever we look**, what the sketch has read are the
keys of some of the frames, in order: none twice, none made up. -/
theorem session_sublist (hn : 2 * necBits + 3 < n) (sent : List Sent) {first phase : Nat}
    (hfirst : recordGapMicros + 2 * microsPerTick ≤ first) (hphase : phase < microsPerTick)
    {inputs later : List Input}
    (hsamples : samplesIn (inputs ++ later) =
      samples microsPerTick phase false (first :: sent.flatMap Sent.signal)) :
    ∃ out r, Gives others inputs (powerUp n) out r ∧
      (keysOf out).Sublist (sent.map fun t => t.frame.key) := by
  rw [samples_eq_wave hphase] at hsamples
  obtain ⟨quiet, rest, hsplit, hgap, hrest⟩ := samplesIn_append hsamples
  obtain ⟨r₁, hgives, h₁⟩ := powerUp_spaces others hgap
  have hheard := heard_signal sent (next_phase_lt hphase first) hrest
  obtain ⟨read, out₂, r₂, hgives', hreads, hsub⟩ := hheard.sublist others hn h₁ (by
    have := gap_counts hphase hfirst
    omega)
  have hwhole := hgives.append hgives'
  rw [← hsplit] at hwhole
  obtain ⟨r, early, late, hearly, hout⟩ := hwhole.earlier
  refine ⟨early, r, hearly, ?_⟩
  have hstart : (keysOf early).Sublist (keysOf out₂) := by
    rw [← List.nil_append out₂, hout, keysOf_append]
    exact List.sublist_append_left _ _
  have hmap : (([] ++ sent.map Sent.frame).map Frame.key) = sent.map fun t => t.frame.key :=
    List.map_map
  rw [keysOf_reads hreads] at hstart
  rw [← hmap]
  exact hstart.trans (hsub.map Frame.key)

theorem samplesIn_ticks (marks : List Bool) : samplesIn (marks.map .tick) = marks := by
  induction marks with
  | nil => rfl
  | cons mark rest ih => exact congrArg (mark :: ·) ih

theorem samplesIn_ticks_poll (marks : List Bool) :
    samplesIn (marks.map .tick ++ [.poll] ++ []) = marks := by
  rw [samplesIn, List.filterMap_append, List.filterMap_append]
  exact (List.append_nil _).trans ((List.append_nil _).trans (samplesIn_ticks marks))

/-- A frame received as it was sent. -/
def onTime (f : Frame) : Sent where
  frame := f
  received := durations f.outs
  gap := 40000
  near := List.forall₂_same.mpr fun us _ => ⟨Nat.le_add_right us _, Nat.le_add_right us _⟩
  quiet := by decide

/-- A key held down, and a sketch that looks once, when all is over. -/
theorem session_sublist_held :
    ∃ out r, Gives (fun r => r.decodedIRData) ((samples microsPerTick 7 false
        (9000 :: [onTime (.data 0xB946FF00), onTime .again].flatMap Sent.signal)).map .tick ++ [.poll])
        (powerUp 200) out r ∧
      (keysOf out).Sublist [0xB946FF00, 0] := by
  apply session_sublist _ (by decide) [onTime (.data 0xB946FF00), onTime .again]
    (by decide : recordGapMicros + 2 * microsPerTick ≤ 9000) (by decide : 7 < microsPerTick)
  exact samplesIn_ticks_poll _

/-! ### Polling in time -/

/-- The spaces since the last mark, and whether the sketch has polled after the frame
before them was over. -/
structure Watch where
  spaces : Nat := 0
  polled : Bool := false

def Watch.Ok (w : Watch) : Prop := recordGapTicks + 2 ≤ w.spaces → w.polled = true

def watch : Machine Input Watch Empty where
  pass := fun i w => match i with
    | .tick true => ({}, [])
    | .tick false => ({w with spaces := w.spaces + 1}, [])
    | .poll => ({w with polled := w.polled || recordGapTicks + 2 ≤ w.spaces}, [])

/-- Before the first frame there is nothing to poll for. -/
def watchStart : Watch := {polled := true}

/-- Whenever the gap after a frame ends, the sketch has polled in it. -/
def Attentive (inputs : List Input) : Prop :=
  watch.Along (fun i w => i = .tick true → w.Ok) watchStart inputs ∧ (watch.run watchStart inputs).Ok

theorem watch_polls {inputs : List Input} (h : samplesIn inputs = []) :
    watch.run {} inputs = {} := by
  induction inputs with
  | nil => rfl
  | cons i rest ih =>
    cases i with
    | tick mark => cases h
    | poll => exact ih h

/-- A mark starts the count again. -/
theorem watch_mark {inputs : List Input} {a : List Bool} (h : samplesIn inputs = a ++ [true]) (w : Watch) :
    watch.run w inputs = {} := by
  obtain ⟨before, after, rfl, -, hafter⟩ := samplesIn_split h
  rw [Machine.run_append, Machine.run_cons]
  exact watch_polls hafter

/-- Over spaces, the sketch has polled if it has polled after enough of them. -/
theorem watch_spaces {inputs : List Input} {g : Nat} (h : samplesIn inputs = List.replicate g false)
    (w : Watch) :
    (watch.run w inputs).spaces = w.spaces + g ∧ ((watch.run w inputs).polled = true →
      w.polled = true ∨ ∃ before after, inputs = before ++ .poll :: after ∧
        recordGapTicks + 2 ≤ w.spaces + (samplesIn before).length) := by
  induction inputs generalizing g w with
  | nil =>
    cases g with
    | zero => exact ⟨rfl, .inl⟩
    | succ g => cases h
  | cons i rest ih =>
    cases i with
    | tick mark =>
      cases g with
      | zero => cases h
      | succ g =>
        obtain ⟨rfl, hrest⟩ : mark = false ∧ samplesIn rest = List.replicate g false := List.cons.inj h
        obtain ⟨hspaces, hpolled⟩ := ih hrest {w with spaces := w.spaces + 1}
        refine ⟨hspaces.trans (by show w.spaces + 1 + g = _; omega), fun h => ?_⟩
        rcases hpolled h with hw | ⟨before, after, rfl, hlong⟩
        · exact .inl hw
        · refine .inr ⟨.tick false :: before, after, rfl, ?_⟩
          show _ ≤ w.spaces + ((samplesIn before).length + 1)
          have : recordGapTicks + 2 ≤ w.spaces + 1 + (samplesIn before).length := hlong
          omega
    | poll =>
      obtain ⟨hspaces, hpolled⟩ :=
        ih h {w with polled := w.polled || recordGapTicks + 2 ≤ w.spaces}
      refine ⟨hspaces, fun h => ?_⟩
      rcases hpolled h with hw | ⟨before, after, rfl, hlong⟩
      · rcases Bool.or_eq_true_iff.mp hw with hw | hnow
        · exact .inl hw
        · exact .inr ⟨[], rest, rfl, of_decide_eq_true hnow⟩
      · exact .inr ⟨.poll :: before, after, rfl, hlong⟩

/-- A gap that is watched to its end is polled in. -/
theorem polled_of_watch {inputs : List Input} {g : Nat} (hg : recordGapTicks + 2 ≤ g)
    (h : samplesIn inputs = List.replicate g false) (hok : (watch.run {} inputs).Ok) :
    Polled inputs := by
  obtain ⟨hspaces, hpolled⟩ := watch_spaces h {}
  rcases hpolled (hok (by rw [hspaces]; exact Nat.le_trans hg (Nat.le_add_left _ _))) with hw | hpoll
  · cases hw
  · obtain ⟨before, after, rfl, hlong⟩ := hpoll
    have hsplit : samplesIn before ++ samplesIn after = List.replicate g false := by
      rw [← h, samplesIn, samplesIn, samplesIn, List.filterMap_append]
      rfl
    obtain ⟨-, hbefore, hafter⟩ := List.append_eq_replicate_iff.mp hsplit
    exact ⟨before, after, _, rfl, ⟨_, by rwa [Nat.zero_add] at hlong, hbefore⟩, hafter⟩

/-- A split that leaves the polls in between to the first part. -/
theorem samplesIn_append_late {inputs : List Input} {a b : List Bool} (h : samplesIn inputs = a ++ b) :
    ∃ before after, inputs = before ++ after ∧ samplesIn before = a ∧ samplesIn after = b ∧
      (after = [] ∨ ∃ mark more rest, b = mark :: more ∧ after = .tick mark :: rest) := by
  cases b with
  | nil =>
    refine ⟨inputs, [], (List.append_nil _).symm, ?_, rfl, .inl rfl⟩
    rw [h, List.append_nil]
  | cons mark more =>
    obtain ⟨before, after, rfl, hbefore, hafter⟩ := samplesIn_split h
    exact ⟨before, .tick mark :: after, rfl, hbefore, congrArg (mark :: ·) hafter,
      .inr ⟨mark, more, after, rfl, rfl⟩⟩

/-- A frame ends in a mark. -/
theorem Frame.Received.marks_last {f : Frame} {runs : List Nat} (h : f.Received runs) :
    ∃ a, wave true runs = a ++ [true] := by
  have hodd := h.odd
  have hframed := h.framed.1
  cases runs using List.reverseRecOn with
  | nil => simp at hodd
  | append_singleton runs k =>
    obtain ⟨-, hpos, -⟩ := Framed.append.mp hframed
    obtain ⟨k, rfl⟩ := Nat.exists_eq_succ_of_ne_zero (Nat.ne_of_gt hpos)
    rw [List.length_append, List.length_singleton] at hodd
    refine ⟨wave true (runs ++ [k]), ?_⟩
    rw [Nat.succ_eq_add_one, wave_concat_succ, after_even true (by omega)]

/-- What is seen of a signal starts with a mark. -/
theorem signal_first (sent : List Sent) {phase : Nat} (hphase : phase < microsPerTick) {mark : Bool}
    {more : List Bool}
    (h : wave true (counts microsPerTick phase (sent.flatMap Sent.signal)) = mark :: more) :
    mark = true := by
  cases sent with
  | nil => cases h
  | cons t rest =>
    obtain ⟨phase', -, hcounts⟩ := counts_append hphase t.received
    have hreceived : t.frame.Received (counts microsPerTick phase t.received) :=
      near_of_jitter hphase t.near
    rw [List.flatMap_cons, Sent.signal, List.append_assoc, hcounts] at h
    generalize counts microsPerTick phase t.received = runs at hreceived h
    cases runs with
    | nil => exact absurd hreceived.odd (by simp)
    | cons k runs =>
      obtain ⟨k, rfl⟩ := Nat.exists_eq_succ_of_ne_zero (Nat.ne_of_gt hreceived.framed.1.1)
      rw [List.cons_append, wave_cons, List.replicate_succ, List.cons_append] at h
      exact (List.cons.inj h).1.symm

/-- With the sketch watching, the frames are heard and polled for. -/
theorem heard_watched (sent : List Sent) {phase : Nat} (hphase : phase < microsPerTick)
    {inputs : List Input} {w : Watch}
    (hinputs : samplesIn inputs = wave true (counts microsPerTick phase (sent.flatMap Sent.signal)))
    (halong : watch.Along (fun i w => i = .tick true → w.Ok) w inputs)
    (hend : (watch.run w inputs).Ok) :
    Heard Polled (sent.map Sent.frame) inputs := by
  induction sent generalizing phase inputs w with
  | nil => exact .nil hinputs
  | cons t rest ih =>
    obtain ⟨phase', hphase', hcounts⟩ := counts_append hphase t.received
    have hreceived : t.frame.Received (counts microsPerTick phase t.received) :=
      near_of_jitter hphase t.near
    rw [List.flatMap_cons, Sent.signal, List.append_assoc, hcounts, wave_append,
      after_odd true hreceived.odd] at hinputs
    obtain ⟨body, later, rfl, hbody, hlater⟩ := samplesIn_append hinputs
    obtain ⟨quiet, more, rfl, hgap, hmore, hfirst⟩ := samplesIn_append_late hlater
    obtain ⟨a, hlast⟩ := hreceived.marks_last
    have hbodyEnd : watch.run w body = {} := watch_mark (hbody.trans hlast) w
    rw [Machine.along_append, hbodyEnd, Machine.along_append] at halong
    rw [Machine.run_append, hbodyEnd, Machine.run_append] at hend
    obtain ⟨-, -, hrest⟩ := halong
    have hok : (watch.run {} quiet).Ok := by
      rcases hfirst with rfl | ⟨mark, samples, inputs, hmark, rfl⟩
      · exact hend
      · obtain rfl := signal_first rest (next_phase_lt hphase' t.gap) hmark
        exact hrest.1 rfl
    exact .cons hreceived hbody (polled_of_watch (gap_counts hphase' t.quiet) hgap hok)
      (ih (next_phase_lt hphase' t.gap) hmore hrest hend)

/-- A session is the stretch before the first frame, and frames polled for. -/
theorem Attentive.heard {inputs : List Input} (hattentive : Attentive inputs) (sent : List Sent)
    {first phase : Nat} (hfirst : recordGapMicros + 2 * microsPerTick ≤ first)
    (hphase : phase < microsPerTick)
    (hsamples : samplesIn inputs =
      samples microsPerTick phase false (first :: sent.flatMap Sent.signal)) :
    ∃ quiet rest g, inputs = quiet ++ rest ∧ samplesIn quiet = List.replicate g false ∧
      recordGapTicks ≤ g ∧ Heard Polled (sent.map Sent.frame) rest := by
  rw [samples_eq_wave hphase] at hsamples
  obtain ⟨quiet, rest, rfl, hgap, hrest⟩ := samplesIn_append hsamples
  obtain ⟨halong, hend⟩ := hattentive
  rw [Machine.along_append] at halong
  rw [Machine.run_append] at hend
  have hlong := gap_counts hphase hfirst
  exact ⟨quiet, rest, _, rfl, hgap, by omega,
    heard_watched sent (next_phase_lt hphase first) hrest halong.2 hend⟩

/-- **A sketch that polls in every gap once the frame before it is over** reads the keys
of all the frames. -/
theorem session_all (hn : 2 * necBits + 3 < n) (sent : List Sent) {first phase : Nat}
    (hfirst : recordGapMicros + 2 * microsPerTick ≤ first) (hphase : phase < microsPerTick)
    {inputs : List Input}
    (hsamples : samplesIn inputs =
      samples microsPerTick phase false (first :: sent.flatMap Sent.signal))
    (hattentive : Attentive inputs) :
    ∃ out r, Gives others inputs (powerUp n) out r ∧
      keysOf out = sent.map fun t => t.frame.key := by
  obtain ⟨quiet, rest, g, rfl, hgap, hlong, hheard⟩ :=
    hattentive.heard sent hfirst hphase hsamples
  obtain ⟨r₁, hgives, h₁⟩ := powerUp_spaces others hgap
  obtain ⟨out, r, hgives', hreads⟩ := hheard.all others hn h₁ hlong
  exact ⟨out, r, hgives.append hgives', (keysOf_reads hreads).trans List.map_map⟩

/-- A sketch that polls after every sample. -/
def eager (marks : List Bool) : List Input := marks.flatMap fun mark => [.tick mark, .poll]

theorem samplesIn_eager (marks : List Bool) : samplesIn (eager marks) = marks := by
  induction marks with
  | nil => rfl
  | cons mark rest ih => exact congrArg (mark :: ·) ih

theorem eager_attentive (marks : List Bool) : Attentive (eager marks) := by
  have hrun : ∀ w : Watch, w.Ok → watch.Along (fun i w => i = .tick true → w.Ok) w (eager marks) ∧
      (watch.run w (eager marks)).Ok := by
    induction marks with
    | nil => exact fun w hw => ⟨trivial, hw⟩
    | cons mark rest ih =>
      intro w hw
      have hpoll : (watch.next .poll (watch.next (.tick mark) w)).Ok := by
        intro hlong
        exact Bool.or_eq_true_iff.mpr (.inr (decide_eq_true hlong))
      obtain ⟨halong, hend⟩ := ih _ hpoll
      exact ⟨⟨fun _ => hw, nofun, halong⟩, hend⟩
  exact hrun watchStart fun _ => rfl

theorem session_all_held :
    ∃ out r, Gives (fun r => r.decodedIRData) (eager (samples microsPerTick 7 false
        (9000 :: [onTime (.data 0xB946FF00), onTime .again, onTime .again].flatMap Sent.signal)))
        (powerUp 200) out r ∧
      keysOf out = [0xB946FF00, 0, 0] :=
  session_all _ (by decide) [onTime (.data 0xB946FF00), onTime .again, onTime .again] (by decide)
    (by decide) (samplesIn_eager _) (eager_attentive _)

/-! ### What `sendNEC` puts on the air -/

/-- The intervals on the line from time `now` on, in microseconds, with the frame begun at
`start`. `millis()` counts whole milliseconds. -/
def onAir (now start : Nat) : List IrOut → List Nat
  | [] => []
  | .enableIROut _ :: rest => onAir now start rest
  | .mark us :: rest => us :: onAir (now + us) start rest
  | .space us :: rest => us :: onAir (now + us) start rest
  | .delayToPeriod repeatPeriodMillis :: rest =>
    let currentFrameDurationMillis := now / 1000 - start / 1000
    let us := (repeatPeriodMillis - currentFrameDurationMillis) * 1000
    us :: onAir (now + us) (now + us) rest

/-- No waiting for the end of a period. -/
def Steady (outs : List IrOut) : Prop := ∀ out ∈ outs, ∀ millis, out ≠ .delayToPeriod millis

theorem onAir_append {outs : List IrOut} (h : Steady outs) (now start : Nat) (rest : List IrOut) :
    onAir now start (outs ++ rest) =
      durations outs ++ onAir (now + (durations outs).sum) start rest := by
  induction outs generalizing now with
  | nil => rfl
  | cons out outs ih =>
    have hrest : Steady outs := fun o ho => h o (List.mem_cons_of_mem _ ho)
    cases out with
    | enableIROut frequencyKHz => exact ih hrest now
    | mark us =>
      show us :: onAir (now + us) start (outs ++ rest) =
        us :: (durations outs ++ onAir (now + (us + (durations outs).sum)) start rest)
      rw [ih hrest, Nat.add_assoc]
    | space us =>
      show us :: onAir (now + us) start (outs ++ rest) =
        us :: (durations outs ++ onAir (now + (us + (durations outs).sum)) start rest)
      rw [ih hrest, Nat.add_assoc]
    | delayToPeriod millis => exact absurd rfl (h _ List.mem_cons_self millis)

theorem steady_of_alternating {mark : Bool} {outs : List IrOut} (h : Alternating mark outs) :
    Steady outs := by
  induction outs generalizing mark with
  | nil => nofun
  | cons out outs ih =>
    intro o ho
    cases out with
    | mark us =>
      rcases List.mem_cons.mp ho with rfl | ho
      · nofun
      · exact ih h.2 o ho
    | space us =>
      rcases List.mem_cons.mp ho with rfl | ho
      · nofun
      · exact ih h.2 o ho
    | enableIROut => cases h
    | delayToPeriod => cases h

theorem Frame.steady : (f : Frame) → Steady f.outs
  | .data value => steady_of_alternating (sendFrame_alternating necProtocolConstants value (by decide))
  | .again => by
    intro out hout
    simp only [Frame.outs, sendNECSpecialRepeat, List.mem_cons, List.not_mem_nil, or_false] at hout
    rcases hout with rfl | rfl | rfl | rfl <;> simp

/-- No frame is longer than 87 ms. -/
theorem Frame.duration : (f : Frame) → (durations f.outs).sum ≤ 87000
  | .data value => by
    have hbits : ∀ bits : List Bool,
        (bits.flatMap fun bit => durations (necProtocolConstants.distanceWidthTimingInfo.bit bit)).sum ≤
          bits.length * 2250 := by
      intro bits
      induction bits with
      | nil => exact Nat.le_refl 0
      | cons bit rest ih =>
        have hbit : (durations (necProtocolConstants.distanceWidthTimingInfo.bit bit)).sum ≤ 2250 := by
          cases bit <;> decide
        rw [List.flatMap_cons, List.sum_append, List.length_cons]
        omega
    have hlen := hbits (frameBits necProtocolConstants value necBits)
    have hcount : (frameBits necProtocolConstants value necBits).length = necBits :=
      Codec.BitStream.bitsOf_length _ _ _
    rw [hcount] at hlen
    rw [Frame.outs, sendFrame_eq necProtocolConstants value (by decide), durations_append,
      durations_append, durations_flatMap, List.sum_append, List.sum_append]
    have hheader : (durations [.mark necProtocolConstants.distanceWidthTimingInfo.headerMarkMicros,
      .space necProtocolConstants.distanceWidthTimingInfo.headerSpaceMicros]).sum = 13440 := rfl
    have hstop : (durations (stopBit necProtocolConstants)).sum = 560 := rfl
    rw [hheader, hstop]
    have : necBits = 32 := rfl
    omega
  | .again => by decide

/-- Received within the narrower of the two frames' tolerances. -/
def Jitter (us got : Nat) : Prop :=
  us ≤ got + Frame.again.tolerance ∧ got ≤ us + Frame.again.tolerance

theorem jitter_append {a b got : List Nat} (h : List.Forall₂ Jitter (a ++ b) got) :
    ∃ early late, got = early ++ late ∧ List.Forall₂ Jitter a early ∧ List.Forall₂ Jitter b late :=
  ⟨got.take a.length, got.drop a.length, (List.take_append_drop _ _).symm,
    (List.forall₂_take_append got a b h.flip).flip, (List.forall₂_drop_append got a b h.flip).flip⟩

theorem near_of_jitter_again {f : Frame} {got : List Nat}
    (h : List.Forall₂ Jitter (durations f.outs) got) :
    List.Forall₂ (fun us got => us ≤ got + f.tolerance ∧ got ≤ us + f.tolerance)
      (durations f.outs) got := by
  have hle : Frame.again.tolerance ≤ f.tolerance := by cases f <;> simp [Frame.tolerance]
  exact h.imp fun us got hgot => ⟨by have := hgot.1; omega, by have := hgot.2; omega⟩

/-- The command with `left` more to follow. -/
def commandFrame (value : BitVec 32) (total left : Nat) : Frame :=
  if left + 1 < total then .again else .data value

theorem sendCommands_eq (value : BitVec 32) (total left : Nat) :
    sendCommands necProtocolConstants value necBits total (left + 1) =
      (commandFrame value total left).outs ++
        ((if 0 < left then [.delayToPeriod necProtocolConstants.repeatPeriodMillis] else []) ++
          sendCommands necProtocolConstants value necBits total left) := by
  rw [sendCommands, commandFrame, List.append_assoc]
  split <;> rfl

/-- What the loop sends is heard as a frame and its repeats, with gaps between them. -/
theorem onAir_commands (value : BitVec 32) {total : Nat} (left : Nat) (hleft : left < total)
    (now : Nat) {got : List Nat} {quiet : Nat}
    (hgot : List.Forall₂ Jitter
      (onAir now now (sendCommands necProtocolConstants value necBits total (left + 1))) got)
    (hquiet : recordGapMicros + 2 * microsPerTick ≤ quiet) :
    ∃ sent : List Sent, sent.map Sent.frame = commandFrame value total left :: List.replicate left .again ∧
      got ++ [quiet] = sent.flatMap Sent.signal := by
  induction left generalizing now got with
  | zero =>
    rw [sendCommands_eq, onAir_append (Frame.steady _)] at hgot
    simp only [Nat.lt_irrefl, if_false, sendCommands, onAir, List.append_nil] at hgot
    exact ⟨[⟨_, got, quiet, near_of_jitter_again hgot, hquiet⟩], rfl, by simp [Sent.signal]⟩
  | succ left ih =>
    rw [sendCommands_eq, onAir_append (Frame.steady _), if_pos (Nat.succ_pos left),
      List.singleton_append] at hgot
    obtain ⟨received, later, rfl, hreceived, hlater⟩ := jitter_append hgot
    have hduration := Frame.duration (commandFrame value total (left + 1))
    generalize (durations (commandFrame value total (left + 1)).outs).sum = d at hlater hduration
    cases hlater with
    | @cons us gap _ rest hgap hrest =>
      have hlong : recordGapMicros + 2 * microsPerTick ≤ gap := by
        have hus : 22000 ≤ (110 - ((now + d) / 1000 - now / 1000)) * 1000 := by omega
        have : 22000 ≤ gap + Frame.again.tolerance := Nat.le_trans hus hgap.1
        have htolerance : Frame.again.tolerance = 160 := rfl
        rw [recordGapMicros, microsPerTick]
        omega
      obtain ⟨sent, hframes, hsignal⟩ := ih (by omega) _ hrest
      refine ⟨⟨_, received, gap, near_of_jitter_again hreceived, hlong⟩ :: sent, ?_, ?_⟩
      · have hagain : commandFrame value total left = .again := if_pos (by omega)
        rw [List.map_cons, hframes, hagain]
        rfl
      · rw [List.flatMap_cons, ← hsignal, Sent.signal]
        simp

/-- **A key sent with its repeats is read so**: `sendNEC` puts out a frame and a repeat
frame for each of `numberOfRepeats`; each interval is off by at most 160 µs when it is
received. The repeats give no data and are marked as such. -/
theorem sendNEC_read (hn : 2 * necBits + 3 < n) (address command : BitVec 16)
    (numberOfRepeats : BitVec 8) (hrepeats : 0 ≤ numberOfRepeats.toInt) (now : Nat) {got : List Nat}
    {first quiet phase : Nat}
    (hgot : List.Forall₂ Jitter (onAir now now (sendNEC address command numberOfRepeats)) got)
    (hfirst : recordGapMicros + 2 * microsPerTick ≤ first)
    (hquiet : recordGapMicros + 2 * microsPerTick ≤ quiet) (hphase : phase < microsPerTick)
    {inputs : List Input}
    (hsamples : samplesIn inputs = samples microsPerTick phase false (first :: (got ++ [quiet])))
    (hattentive : Attentive inputs) :
    ∃ key repeats r, Gives others inputs (powerUp n) (key :: repeats) r ∧
      key.decodedRawData = computeNECRawDataAndChecksum address command ∧
      repeats.length = numberOfRepeats.toNat ∧
      ∀ d ∈ repeats, d.decodedRawData = 0 ∧ d.flags = irdataFlagsIsRepeat := by
  have hsend : sendNEC address command numberOfRepeats = .enableIROut 38 ::
      sendCommands necProtocolConstants (computeNECRawDataAndChecksum address command) necBits
        (numberOfRepeats.toNat + 1) (numberOfRepeats.toNat + 1) := by
    rw [sendNEC, sendNECRaw, sendPulseDistanceWidth, if_neg (by omega)]
    rfl
  rw [hsend] at hgot
  obtain ⟨sent, hframes, hsignal⟩ :=
    onAir_commands _ numberOfRepeats.toNat (Nat.lt_succ_self _) now hgot hquiet
  rw [hsignal] at hsamples
  obtain ⟨start, rest, g, rfl, hgap, hlong, hheard⟩ :=
    hattentive.heard sent hfirst hphase hsamples
  obtain ⟨r₁, hgives, h₁⟩ := powerUp_spaces others hgap
  obtain ⟨out, r, hgives', hreads⟩ := hheard.all others hn h₁ hlong
  rw [hframes, commandFrame, if_neg (Nat.lt_irrefl _)] at hreads
  cases hreads with
  | @cons _ key _ repeats hkey hrepeats =>
    obtain ⟨hlength, hagain⟩ := List.forall₂_iff_get.mp hrepeats
    refine ⟨key, repeats, r, hgives.append hgives', hkey.1, ?_, fun d hd => ?_⟩
    · rw [← hlength, List.length_replicate]
    · obtain ⟨i, hi, rfl⟩ := List.getElem_of_mem hd
      have hread := hagain i (by omega) hi
      rw [List.get_eq_getElem, List.getElem_replicate] at hread
      exact ⟨hread.1, hread.2 rfl⟩

/-- The first key of the car's remote, held down. -/
theorem sendNEC_read_held :
    ∃ key repeats r, Gives (fun r => r.decodedIRData) (eager (samples microsPerTick 7 false
        (9000 :: (onAir 0 0 (sendNEC 0x00 0x46 2) ++ [40000])))) (powerUp 200) (key :: repeats) r ∧
      key.decodedRawData = computeNECRawDataAndChecksum 0x00 0x46 ∧ repeats.length = 2 ∧
      ∀ d ∈ repeats, d.decodedRawData = 0 ∧ d.flags = irdataFlagsIsRepeat :=
  sendNEC_read _ (by decide) 0x00 0x46 2 (by decide) 0
    (List.forall₂_same.mpr fun us _ => ⟨Nat.le_add_right us _, Nat.le_add_right us _⟩)
    (by decide) (by decide) (by decide) (samplesIn_eager _) (eager_attentive _)

end MakerSpace.InfraRed
