import MakerSpace.InfraRed.NecLink

/-! A sketch that polls the receiver while a remote is sending.

The interrupt samples the pin; the sketch calls `decode()` whenever it comes round, and
`resume()` after a frame, as `if (IrReceiver.decode()) { …; IrReceiver.resume(); }`. A poll
stands where its `resume()` does: from the end of a frame until then an interrupt only
moves the counter. A session is gaps and NEC frames in turn, and polls anywhere among the
samples.

`Heard.sublist`: however late the polls come, the data the sketch reads is that of some
of the frames, in order. `Heard.all`: with a poll in every gap, once the frame before it
is over, it is that of all of them. -/
namespace MakerSpace.InfraRed
open Reactive Codec.Wave

variable {n : Nat} (others : IrReceiver n → IRData)

inductive Input where
  | tick (mark : Bool)
  | poll

def samplesIn (inputs : List Input) : List Bool :=
  inputs.filterMap fun
    | .tick mark => some mark
    | .poll => none

def pass (i : Input) (r : IrReceiver n) : Option (IrReceiver n × List IRData) :=
  match i with
  | .tick mark => (irReceiveTimerInterruptHandler mark r).map fun r' => (r', [])
  | .poll => (decode others r).map fun result =>
    if result.1 then (resume result.2, [result.2.decodedIRData]) else (result.2, [])

def polled : Machine Input (Option (IrReceiver n)) IRData := Machine.ofFallible (pass others)

/-- The key the sketch reads off a frame. -/
def Frame.key : Frame → BitVec 32
  | .data value => value
  | .again => 0

/-- The data are those of the frame: its key, and a repeat frame is marked as one. -/
def Frame.Reads (f : Frame) (d : IRData) : Prop :=
  d.decodedRawData = f.key ∧ (f = .again → d.flags = irdataFlagsIsRepeat)

/-- The inputs take the receiver from `r` to `r'`, and the sketch reads `out`. -/
def Gives (inputs : List Input) (r : IrReceiver n) (out : List IRData) (r' : IrReceiver n) : Prop :=
  (polled others).run (some r) inputs = some r' ∧ (polled others).log (some r) inputs = out

section Gives
variable {others}

theorem Gives.nil (r : IrReceiver n) : Gives others [] r [] r := ⟨rfl, rfl⟩

theorem Gives.append {a b : List Input} {r r' r'' : IrReceiver n} {out out' : List IRData}
    (ha : Gives others a r out r') (hb : Gives others b r' out' r'') :
    Gives others (a ++ b) r (out ++ out') r'' := by
  constructor
  · rw [Machine.run_append, ha.1, hb.1]
  · rw [Machine.log_append, ha.1, ha.2, hb.2]

theorem Gives.cons {i : Input} {rest : List Input} {r r' r'' : IrReceiver n} {out out' : List IRData}
    (hi : pass others i r = some (r', out)) (hrest : Gives others rest r' out' r'') :
    Gives others (i :: rest) r (out ++ out') r'' := by
  constructor
  · rw [Machine.run_cons, polled, Machine.ofFallible_next hi]
    exact hrest.1
  · rw [Machine.log_cons, polled, Machine.ofFallible_out hi, Machine.ofFallible_next hi]
    exact congrArg (out ++ ·) hrest.2

theorem pass_tick {mark : Bool} {r r' : IrReceiver n}
    (h : irReceiveTimerInterruptHandler mark r = some r') :
    pass others (.tick mark) r = some (r', []) := by
  rw [pass, h, Option.map_some]

/-- A poll while no frame is complete does nothing. -/
theorem pass_poll_busy {r : IrReceiver n} (h : r.irparams.stateForISR ≠ .stop) :
    pass others .poll r = some (r, []) := by
  simp only [pass, decode, if_pos h, Option.map_some]
  rfl

/-- A stretch that does not complete a frame is as if there were no polls in it. -/
theorem gives_listen {inputs : List Input} {r r' : IrReceiver n}
    (h : listen (samplesIn inputs) r = some r') (hbusy : r'.irparams.stateForISR ≠ .stop) :
    Gives others inputs r [] r' := by
  induction inputs generalizing r with
  | nil =>
    obtain rfl := Option.some.inj h
    exact Gives.nil r
  | cons i rest ih =>
    cases i with
    | tick mark =>
      have h : listen (mark :: samplesIn rest) r = some r' := h
      cases hstep : irReceiveTimerInterruptHandler mark r with
      | none =>
        rw [listen, List.foldlM_cons, hstep] at h
        cases h
      | some r₁ =>
        rw [listen_cons hstep] at h
        exact Gives.cons (pass_tick hstep) (ih h)
    | poll =>
      have h : listen (samplesIn rest) r = some r' := h
      have hnow : r.irparams.stateForISR ≠ .stop := by
        intro hstop
        obtain ⟨ticks, hlisten⟩ := listen_stopped (samplesIn rest) hstop
        rw [hlisten, Option.some_inj] at h
        rw [← h] at hbusy
        exact hbusy hstop
      exact Gives.cons (pass_poll_busy hnow) (ih h)

end Gives

/-! ### Between frames

A receiver that waits has seen `c` spaces since the last mark; one that has stored a
frame counts on in the same way. -/

structure Waiting (c : Nat) (r : IrReceiver n) : Prop where
  state : r.irparams.stateForISR = .idle
  ticks : r.irparams.tickCounterForISR = min c uint16Max

structure Stored (f : Frame) (c : Nat) (r : IrReceiver n) : Prop where
  captured : ∃ g s runs, Captured g s runs r ∧ f.Received runs
  ticks : r.irparams.tickCounterForISR = min c uint16Max

/-- All runs of the frame but the last are recorded, and the last one is being timed. -/
structure Pending (f : Frame) (r : IrReceiver n) : Prop where
  recording : ∃ g s runs k, Recording g s runs k r ∧ f.Received (runs ++ [k + 1])

/-- The counter after some samples. -/
def drift : Nat → List Bool → Nat
  | c, [] => c
  | c, mark :: rest => drift (if mark then 0 else c + 1) rest

/-- No mark among the samples follows a gap. -/
def Still : Nat → List Bool → Prop
  | _, [] => True
  | c, mark :: rest => (mark = true → c < recordGapTicks) ∧ Still (if mark then 0 else c + 1) rest

section Between
variable {others}

theorem Waiting.tick {c : Nat} {r : IrReceiver n} (h : Waiting c r) {mark : Bool}
    (hstill : mark = true → c < recordGapTicks) :
    ∃ r', irReceiveTimerInterruptHandler mark r = some r' ∧
      Waiting (if mark then 0 else c + 1) r' := by
  have hcount := IrParams.count_ticks h.ticks
  cases mark with
  | false =>
    simp only [irReceiveTimerInterruptHandler, IrParams.count_stateForISR, h.state,
      Bool.false_eq_true, if_false]
    exact ⟨_, rfl, by simp [h.state], hcount⟩
  | true =>
    have hshort : ¬r.irparams.count.tickCounterForISR > recordGapTicks := by
      have := hstill rfl
      rw [hcount]
      omega
    simp only [irReceiveTimerInterruptHandler, IrParams.count_stateForISR, h.state, if_true,
      if_neg hshort]
    exact ⟨_, rfl, rfl, rfl⟩

theorem Stored.tick {f : Frame} {c : Nat} {r : IrReceiver n} (h : Stored f c r) (mark : Bool) :
    ∃ r', irReceiveTimerInterruptHandler mark r = some r' ∧
      Stored f (if mark then 0 else c + 1) r' := by
  obtain ⟨g, s, runs, hcaptured, hreceived⟩ := h.captured
  refine ⟨_, interrupt_stopped hcaptured.state mark, ⟨g, s, runs,
    ⟨hcaptured.state, hcaptured.overflow, hcaptured.recorded, hcaptured.decoder⟩, hreceived⟩, ?_⟩
  cases mark with
  | false => exact IrParams.count_ticks h.ticks
  | true => rfl

/-- A poll reads the stored frame. -/
theorem Stored.poll {f : Frame} {c : Nat} {r : IrReceiver n} (h : Stored f c r) :
    ∃ d r', pass others .poll r = some (r', [d]) ∧ f.Reads d ∧ Waiting c r' := by
  obtain ⟨g, s, runs, hcaptured, hreceived⟩ := h.captured
  have hread : ∃ d, decode others r = some (true, {cleared r with decodedIRData := d}) ∧
      f.Reads d := by
    cases f with
    | data value =>
      exact ⟨_, decode_data others hcaptured hreceived, necFields_decodedRawData _, nofun⟩
    | again => exact ⟨_, decode_repeat others hcaptured hreceived, rfl, fun _ => rfl⟩
  obtain ⟨d, hdecode, hreads⟩ := hread
  refine ⟨d, resume {cleared r with decodedIRData := d}, ?_, hreads, ?_⟩
  · rw [pass, hdecode]
    rfl
  · have hstop : (cleared r).irparams.stateForISR = .stop := hcaptured.state
    rw [resume, if_pos hstop]
    exact ⟨rfl, h.ticks⟩

end Between

/-! ### Stretches of a session -/

def keysOf (out : List IRData) : List (BitVec 32) := out.map IRData.decodedRawData

theorem keysOf_append (a b : List IRData) : keysOf (a ++ b) = keysOf a ++ keysOf b :=
  List.map_append

/-- The keys read off some frames are theirs. -/
theorem keysOf_reads {fs : List Frame} {out : List IRData} (h : List.Forall₂ Frame.Reads fs out) :
    keysOf out = fs.map Frame.key := by
  induction h with
  | nil => rfl
  | cons hread _ ih => exact congrArg₂ (· :: ·) hread.1 ih

/-- What a receiver at rest holds that the sketch has not read. -/
inductive Holds : List Frame → Nat → IrReceiver n → Prop where
  | nothing {c : Nat} {r : IrReceiver n} (waiting : Waiting c r) : Holds [] c r
  | frame {f : Frame} {c : Nat} {r : IrReceiver n} (stored : Stored f c r) : Holds [f] c r

/-- The same right after a frame: its last run may still be open. -/
inductive Unread : List Frame → IrReceiver n → Prop where
  | held {fs : List Frame} {c : Nat} {r : IrReceiver n} (holds : Holds fs c r) : Unread fs r
  | pending {f : Frame} {r : IrReceiver n} (pending : Pending f r) : Unread [f] r

/-- Over the inputs the sketch reads the frames but for those left. -/
def Reading (inputs : List Input) (fs : List Frame) (r : IrReceiver n) (left : List Frame)
    (r' : IrReceiver n) : Prop :=
  ∃ read out, fs = read ++ left ∧ Gives others inputs r out r' ∧ List.Forall₂ Frame.Reads read out

section Stretches
variable {others}

theorem Reading.append {a b : List Input} {fs fs' fs'' : List Frame} {r r' r'' : IrReceiver n}
    (ha : Reading others a fs r fs' r') (hb : Reading others b fs' r' fs'' r'') :
    Reading others (a ++ b) fs r fs'' r'' := by
  obtain ⟨read, out, rfl, hgives, hreads⟩ := ha
  obtain ⟨read', out', rfl, hgives', hreads'⟩ := hb
  exact ⟨read ++ read', out ++ out', (List.append_assoc _ _ _).symm, hgives.append hgives',
    List.rel_append hreads hreads'⟩

theorem Reading.silent {inputs : List Input} {r r' : IrReceiver n} (h : Gives others inputs r [] r')
    (fs : List Frame) : Reading others inputs fs r fs r' := ⟨[], [], rfl, h, .nil⟩

/-- More frames behind those that are read are left. -/
theorem Reading.behind {inputs : List Input} {fs left : List Frame} {r r' : IrReceiver n}
    (h : Reading others inputs fs r left r') (more : List Frame) :
    Reading others inputs (fs ++ more) r (left ++ more) r' := by
  obtain ⟨read, out, rfl, hgives, hreads⟩ := h
  exact ⟨read, out, List.append_assoc _ _ _, hgives, hreads⟩

theorem Reading.tick {mark : Bool} {inputs : List Input} {fs left : List Frame}
    {r r₁ r' : IrReceiver n} (hstep : irReceiveTimerInterruptHandler mark r = some r₁)
    (h : Reading others inputs fs r₁ left r') :
    Reading others (.tick mark :: inputs) fs r left r' := by
  obtain ⟨read, out, hsplit, hgives, hreads⟩ := h
  exact ⟨read, out, hsplit, Gives.cons (pass_tick hstep) hgives, hreads⟩

variable (others)

/-- A poll reads whatever is held. -/
theorem Holds.poll {fs : List Frame} {c : Nat} {r : IrReceiver n} (h : Holds fs c r) :
    ∃ r', Reading others [.poll] fs r [] r' ∧ Waiting c r' := by
  cases h with
  | nothing hwaiting =>
    refine ⟨r, Reading.silent (Gives.cons (pass_poll_busy ?_) (Gives.nil r)) [], hwaiting⟩
    rw [hwaiting.state]
    decide
  | @frame f _ _ hstored =>
    obtain ⟨d, r', hpoll, hreads, hwaiting⟩ := hstored.poll
    exact ⟨r', ⟨[f], [d], rfl, Gives.cons hpoll (Gives.nil r'), .cons hreads .nil⟩, hwaiting⟩

/-- As long as no mark follows a gap, all that can happen is that the stored frame is read. -/
theorem Holds.still {inputs : List Input} {fs : List Frame} {c : Nat} {r : IrReceiver n}
    (h : Holds fs c r) (hstill : Still c (samplesIn inputs)) :
    ∃ left r', Reading others inputs fs r left r' ∧ Holds left (drift c (samplesIn inputs)) r' := by
  induction inputs generalizing fs c r with
  | nil => exact ⟨fs, r, Reading.silent (Gives.nil r) fs, h⟩
  | cons i rest ih =>
    cases i with
    | tick mark =>
      obtain ⟨hmark, hrest⟩ : (mark = true → c < recordGapTicks) ∧ Still _ (samplesIn rest) := hstill
      have hstep : ∃ r₁, irReceiveTimerInterruptHandler mark r = some r₁ ∧
          Holds fs (if mark then 0 else c + 1) r₁ := by
        cases h with
        | nothing hwaiting =>
          obtain ⟨r₁, hstep, h₁⟩ := hwaiting.tick hmark
          exact ⟨r₁, hstep, .nothing h₁⟩
        | frame hstored =>
          obtain ⟨r₁, hstep, h₁⟩ := hstored.tick mark
          exact ⟨r₁, hstep, .frame h₁⟩
      obtain ⟨r₁, hstep, h₁⟩ := hstep
      obtain ⟨left, r', hreading, h'⟩ := ih h₁ hrest
      exact ⟨left, r', hreading.tick hstep, h'⟩
    | poll =>
      obtain ⟨r₁, hpoll, hwaiting⟩ := h.poll others
      obtain ⟨left, r', hreading, h'⟩ := ih (.nothing hwaiting) hstill
      exact ⟨left, r', hpoll.append hreading, h'⟩

theorem drift_spaces (c g : Nat) : drift c (List.replicate g false) = c + g := by
  induction g generalizing c with
  | zero => rfl
  | succ g ih =>
    show drift (c + 1) (List.replicate g false) = _
    rw [ih, Nat.add_right_comm, Nat.add_assoc]

theorem still_spaces (c g : Nat) : Still c (List.replicate g false) := by
  induction g generalizing c with
  | zero => trivial
  | succ g ih => exact ⟨nofun, ih _⟩

theorem Holds.spaces {inputs : List Input} {fs : List Frame} {c g : Nat} {r : IrReceiver n}
    (h : Holds fs c r) (hinputs : samplesIn inputs = List.replicate g false) :
    ∃ left r', Reading others inputs fs r left r' ∧ Holds left (c + g) r' := by
  obtain ⟨left, r', hreading, h'⟩ := h.still others (by
    rw [hinputs]
    exact still_spaces c g)
  rw [hinputs, drift_spaces] at h'
  exact ⟨left, r', hreading, h'⟩

/-- The samples of a stretch split where its inputs do. -/
theorem samplesIn_append {inputs : List Input} {a b : List Bool} (h : samplesIn inputs = a ++ b) :
    ∃ before after, inputs = before ++ after ∧ samplesIn before = a ∧ samplesIn after = b :=
  List.filterMap_eq_append_iff.mp h

theorem samplesIn_split {inputs : List Input} {a b : List Bool} {mark : Bool}
    (h : samplesIn inputs = a ++ mark :: b) :
    ∃ before after, inputs = before ++ .tick mark :: after ∧ samplesIn before = a ∧
      samplesIn after = b := by
  obtain ⟨before, rest, rfl, hbefore, hrest⟩ := samplesIn_append h
  obtain ⟨polls, i, after, rfl, hpolls, hi, hafter⟩ := List.filterMap_eq_cons_iff.mp hrest
  have hnone : samplesIn polls = [] := List.filterMap_eq_nil_iff.mpr hpolls
  cases i with
  | poll => cases hi
  | tick mark' =>
    obtain rfl : mark' = mark := Option.some.inj hi
    refine ⟨before ++ polls, after, by rw [List.append_assoc], ?_, hafter⟩
    rw [samplesIn, List.filterMap_append]
    exact (congrArg₂ (· ++ ·) hbefore hnone).trans (List.append_nil a)

/-- A stretch of spaces that ends a frame. -/
def Gap (inputs : List Input) : Prop :=
  ∃ g, recordGapTicks + 2 ≤ g ∧ samplesIn inputs = List.replicate g false

/-- A gap in which the sketch polls once the frame before it is over. -/
def Polled (inputs : List Input) : Prop :=
  ∃ before after g, inputs = before ++ .poll :: after ∧ Gap before ∧
    samplesIn after = List.replicate g false

/-- The gap after a frame: the frame is stored, and may be read. -/
theorem Pending.gap {f : Frame} {r : IrReceiver n} (hn : f.runCount < n) (h : Pending f r)
    {inputs : List Input} (hgap : Gap inputs) :
    ∃ left r' c, Reading others inputs [f] r left r' ∧ Holds left c r' ∧ recordGapTicks ≤ c := by
  obtain ⟨g, s, runs, k, hrecording, hreceived⟩ := h.recording
  obtain ⟨quiet, hquiet, hsamples⟩ := hgap
  have hlen := hreceived.length
  have hodd := hreceived.odd
  simp only [List.length_append, List.length_singleton] at hlen hodd
  have heven : after true runs = true := after_even true (by omega)
  -- the last space of the gap proper is the one that stores the frame
  obtain ⟨r₁, done, k', hlisten, hdone, h₁⟩ := listen_runs [recordGapTicks + 1] hrecording
    (by rw [heven]; exact ⟨by decide, fun _ => by omega, trivial⟩) (by simp; omega)
  have hsplit : done ++ [k' + 1] = (runs ++ [k + 1]) ++ [recordGapTicks + 1] := by
    rw [hdone, List.append_assoc, List.singleton_append]
  obtain ⟨rfl, hk⟩ := List.append_inj' hsplit rfl
  obtain rfl : k' = recordGapTicks := by simpa using hk
  obtain ⟨r₂, hstop, hcaptured, hticks⟩ := interrupt_stop h₁ (by simpa using hodd) (Nat.le_refl _)
  rw [heven, Bool.not_true, wave_cons, wave_nil, List.append_nil] at hlisten
  obtain ⟨more, rfl⟩ := Nat.exists_eq_add_of_le hquiet
  rw [List.replicate_add, List.replicate_succ', List.append_assoc, List.singleton_append] at hsamples
  obtain ⟨before, later, rfl, hbefore, hlater⟩ := samplesIn_split hsamples
  have hfirst : Gives others before r [] r₁ := gives_listen (by rw [hbefore, hlisten]) (by
    rw [h₁.state]
    split <;> simp)
  have hlast : Gives others [.tick false] r₁ [] r₂ := Gives.cons (pass_tick hstop) (Gives.nil r₂)
  have hstored : Stored f (recordGapTicks + 1) r₂ := ⟨⟨g, s, _, hcaptured, hreceived⟩, hticks⟩
  obtain ⟨left, r', hreading, h'⟩ := (Holds.frame hstored).spaces others hlater
  refine ⟨left, r', _, ?_, h', by omega⟩
  rw [← List.singleton_append, ← List.append_assoc]
  exact (Reading.silent (hfirst.append hlast) [f]).append hreading

theorem runCount_le (f : Frame) : f.runCount ≤ 2 * necBits + 3 := by
  cases f <;> simp [Frame.runCount, necBits]

theorem Unread.gap (hn : 2 * necBits + 3 < n) {fs : List Frame} {r : IrReceiver n} (h : Unread fs r)
    {inputs : List Input} (hgap : Gap inputs) :
    ∃ left r' c, Reading others inputs fs r left r' ∧ Holds left c r' ∧ recordGapTicks ≤ c := by
  cases h with
  | pending hpending => exact hpending.gap others (Nat.lt_of_le_of_lt (runCount_le _) hn) hgap
  | held hholds =>
    obtain ⟨g, hg, hsamples⟩ := hgap
    obtain ⟨left, r', hreading, h'⟩ := hholds.spaces others hsamples
    exact ⟨left, r', _, hreading, h', by omega⟩

/-- With a poll late enough in the gap nothing is left. -/
theorem Unread.polled (hn : 2 * necBits + 3 < n) {fs : List Frame} {r : IrReceiver n}
    (h : Unread fs r) {inputs : List Input} (hpolled : Polled inputs) :
    ∃ r' c, Reading others inputs fs r [] r' ∧ Holds [] c r' ∧ recordGapTicks ≤ c := by
  obtain ⟨before, later, g, rfl, hgap, hlater⟩ := hpolled
  obtain ⟨left, r₁, c, hbefore, h₁, hc⟩ := h.gap others hn hgap
  obtain ⟨r₂, hpoll, h₂⟩ := h₁.poll others
  obtain ⟨left', r', hrest, h'⟩ := (Holds.nothing h₂).spaces others hlater
  obtain rfl : left' = [] := by
    obtain ⟨read, out, hsplit, -⟩ := hrest
    exact (List.append_eq_nil_iff.mp hsplit.symm).2
  refine ⟨r', _, ?_, h', by omega⟩
  rw [← List.singleton_append]
  exact hbefore.append (hpoll.append hrest)

/-- A waiting receiver takes the frame down. -/
theorem Waiting.body (hn : 2 * necBits + 3 < n) {c : Nat} {r : IrReceiver n} (h : Waiting c r)
    (hc : recordGapTicks ≤ c) {f : Frame} {runs : List Nat} (hreceived : f.Received runs)
    {inputs : List Input} (hinputs : samplesIn inputs = wave true runs) :
    ∃ r', Gives others inputs r [] r' ∧ Pending f r' := by
  have hlen := hreceived.length
  have hcount := runCount_le f
  cases runs with
  | nil => exact absurd hreceived.odd (by simp)
  | cons m rest =>
    obtain ⟨hpos, -, hrest⟩ := hreceived.framed.1
    obtain ⟨r₁, hfirst, h₁⟩ := listen_first (by omega) h.state h.ticks hpos 0 hc
    obtain ⟨r', done, k, hlisten, hdone, h'⟩ := listen_runs rest h₁ hrest (by
      simp only [List.length_cons, List.length_nil] at hlen ⊢; omega)
    rw [List.nil_append, Nat.sub_add_cancel hpos] at hdone
    rw [after_nil] at hlisten
    refine ⟨r', gives_listen ?_ ?_, ⟨_, _, done, k, h', hdone ▸ hreceived⟩⟩
    · rw [hinputs, wave_cons]
      exact (listen_append hfirst _).trans hlisten
    · rw [h'.state]
      split <;> simp

/-- In a frame no mark follows a gap, but for the first. -/
theorem still_wave {mark : Bool} {runs : List Nat} {c : Nat} (hframed : Framed mark runs)
    (hsnug : Snug mark runs) (hc : if mark then c < recordGapTicks else c = 0) :
    Still c (wave mark runs) := by
  have hmarks : ∀ (k c : Nat) (rest : List Bool), 0 < k → c < recordGapTicks → Still 0 rest →
      Still c (List.replicate k true ++ rest) := by
    intro k c rest hk hc hrest
    induction k generalizing c with
    | zero => omega
    | succ k ih =>
      refine ⟨fun _ => hc, ?_⟩
      rcases Nat.eq_zero_or_pos k with rfl | hpos
      · exact hrest
      · exact ih 0 hpos (by decide)
  have hspaces : ∀ (k c : Nat) (rest : List Bool), Still (c + k) rest →
      Still c (List.replicate k false ++ rest) := by
    intro k c rest hrest
    induction k generalizing c with
    | zero => exact hrest
    | succ k ih => exact ⟨nofun, ih (c + 1) (by rwa [Nat.add_right_comm, Nat.add_assoc])⟩
  induction runs generalizing mark c with
  | nil => trivial
  | cons k rest ih =>
    obtain ⟨hpos, -, hframed⟩ := hframed
    obtain ⟨hshort, hsnug⟩ := hsnug
    cases mark with
    | true => exact hmarks k c _ hpos hc (ih hframed hsnug rfl)
    | false =>
      obtain rfl : c = 0 := hc
      exact hspaces k 0 _ (ih hframed hsnug (by rw [Nat.zero_add]; exact hshort rfl))

/-- A frame while another is held: it is taken down if the sketch polls before its first
mark, and lost otherwise. -/
theorem Holds.body (hn : 2 * necBits + 3 < n) {fs : List Frame} {c : Nat} {r : IrReceiver n}
    (h : Holds fs c r) (hc : recordGapTicks ≤ c) {f : Frame} {runs : List Nat}
    (hreceived : f.Received runs) {inputs : List Input} (hinputs : samplesIn inputs = wave true runs) :
    ∃ left r', Unread left r' ∧ (Reading others inputs (fs ++ [f]) r left r' ∨
      fs ≠ [] ∧ Reading others inputs fs r left r') := by
  have hwaiting : ∀ {r : IrReceiver n} {inputs : List Input}, Waiting c r →
      samplesIn inputs = wave true runs →
      ∃ r', Unread [f] r' ∧ Reading others inputs [f] r [f] r' := by
    intro r inputs h hinputs
    obtain ⟨r', hgives, hpending⟩ := h.body others hn hc hreceived hinputs
    exact ⟨r', .pending hpending, Reading.silent hgives [f]⟩
  cases h with
  | nothing h =>
    obtain ⟨r', hunread, hreading⟩ := hwaiting h hinputs
    exact ⟨[f], r', hunread, .inl hreading⟩
  | @frame f₀ _ _ h =>
    obtain ⟨hframed, -⟩ := hreceived.framed
    have hsnug := hreceived.snug
    cases runs with
    | nil => exact absurd hreceived.odd (by simp)
    | cons m rest =>
      obtain ⟨k, rfl⟩ := Nat.exists_eq_succ_of_ne_zero (Nat.ne_of_gt hframed.1)
      cases inputs with
      | nil => cases hinputs
      | cons i inputs =>
        cases i with
        | poll =>
          have hinputs : samplesIn inputs = wave true ((k + 1) :: rest) := hinputs
          obtain ⟨r₁, hpoll, h₁⟩ := (Holds.frame h).poll others
          obtain ⟨r', hunread, hreading⟩ := hwaiting h₁ hinputs
          exact ⟨[f], r', hunread, .inl ((hpoll.behind [f]).append hreading)⟩
        | tick mark =>
          obtain ⟨hmark, hinputs⟩ : mark = true ∧ samplesIn inputs = _ :=
            List.cons.inj (hinputs.trans rfl)
          obtain ⟨r₁, hstep, h₁⟩ := h.tick mark
          have hstill : Still 0 (wave true ((k + 1) :: rest)) := still_wave hframed hsnug (by decide)
          rw [hmark] at h₁
          obtain ⟨left, r', hreading, h'⟩ := (Holds.frame h₁).still others
            (by rw [hinputs]; exact hstill.2)
          exact ⟨left, r', .held h', .inr ⟨nofun, hreading.tick hstep⟩⟩

/-! ### Whole sessions -/

/-- Frames, each with a gap after it. -/
inductive Heard (gap : List Input → Prop) : List Frame → List Input → Prop where
  | nil {inputs : List Input} (nothing : samplesIn inputs = []) : Heard gap [] inputs
  | cons {f : Frame} {fs : List Frame} {runs : List Nat} {body quiet rest : List Input}
      (received : f.Received runs) (samples : samplesIn body = wave true runs) (after : gap quiet)
      (heard : Heard gap fs rest) : Heard gap (f :: fs) (body ++ (quiet ++ rest))

/-- However the sketch polls, it reads some of the frames, in order. -/
theorem Heard.sublist (hn : 2 * necBits + 3 < n) {fs : List Frame} {inputs : List Input}
    (h : Heard Gap fs inputs) {unread : List Frame} {c : Nat} {r : IrReceiver n}
    (hholds : Holds unread c r) (hc : recordGapTicks ≤ c) :
    ∃ read out r', Gives others inputs r out r' ∧ List.Forall₂ Frame.Reads read out ∧
      read.Sublist (unread ++ fs) := by
  induction h generalizing unread c r with
  | nil hnothing =>
    obtain ⟨left, r', ⟨read, out, rfl, hgives, hreads⟩, -⟩ := hholds.still others (by
      rw [hnothing]
      trivial)
    rw [List.append_nil]
    exact ⟨read, out, r', hgives, hreads, List.sublist_append_left _ _⟩
  | @cons f fs runs body quiet rest hreceived hbody hquiet _ ih =>
    obtain ⟨left, r₁, hunread, hreading⟩ := hholds.body others hn hc hreceived hbody
    obtain ⟨left', r₂, c', hgap, hholds', hc'⟩ := hunread.gap others hn hquiet
    obtain ⟨read', out', r', hrest, hreads', hsub⟩ := ih hholds' hc'
    obtain ⟨heard, hheard, hreading⟩ : ∃ heard, heard.Sublist (unread ++ [f]) ∧
        Reading others body heard r left r₁ := by
      rcases hreading with h | ⟨-, h⟩
      · exact ⟨_, List.Sublist.refl _, h⟩
      · exact ⟨unread, List.sublist_append_left _ _, h⟩
    obtain ⟨read, out, rfl, hgives, hreads⟩ := hreading.append hgap
    refine ⟨read ++ read', out ++ out', r', ?_, List.rel_append hreads hreads', ?_⟩
    · rw [← List.append_assoc]
      exact hgives.append hrest
    · have hall : (read ++ (left' ++ fs)).Sublist (unread ++ f :: fs) := by
        rw [← List.append_assoc, ← List.singleton_append, ← List.append_assoc]
        exact hheard.append_right fs
      exact (hsub.append_left read).trans hall

/-- With a poll late enough in every gap it reads all of them. -/
theorem Heard.all (hn : 2 * necBits + 3 < n) {fs : List Frame} {inputs : List Input}
    (h : Heard Polled fs inputs) {c : Nat} {r : IrReceiver n} (hholds : Holds [] c r)
    (hc : recordGapTicks ≤ c) :
    ∃ out r', Gives others inputs r out r' ∧ List.Forall₂ Frame.Reads fs out := by
  induction h generalizing c r with
  | nil hnothing =>
    obtain ⟨left, r', ⟨read, out, hsplit, hgives, hreads⟩, -⟩ := hholds.still others (by
      rw [hnothing]
      trivial)
    obtain ⟨rfl, rfl⟩ := List.append_eq_nil_iff.mp hsplit.symm
    exact ⟨out, r', hgives, hreads⟩
  | cons hreceived hbody hquiet _ ih =>
    obtain ⟨left, r₁, hunread, hreading⟩ := hholds.body others hn hc hreceived hbody
    obtain ⟨r₂, c', hgap, hholds', hc'⟩ := hunread.polled others hn hquiet
    obtain ⟨out', r', hrest, hreads'⟩ := ih hholds' hc'
    have hreading : Reading others _ [_] r left r₁ := hreading.resolve_right fun h => h.1 rfl
    obtain ⟨read, out, hsplit, hgives, hreads⟩ := hreading.append hgap
    rw [List.append_nil] at hsplit
    refine ⟨out ++ out', r', ?_, ?_⟩
    · rw [← List.append_assoc]
      exact hgives.append hrest
    · rw [← List.singleton_append, hsplit]
      exact List.rel_append hreads hreads'

variable {others} in
/-- What has been read of a stretch is the beginning of what is read of a longer one. -/
theorem Gives.earlier {a b : List Input} {r r' : IrReceiver n} {out : List IRData}
    (h : Gives others (a ++ b) r out r') :
    ∃ r₁ early late, Gives others a r early r₁ ∧ out = early ++ late := by
  obtain ⟨hrun, hlog⟩ := h
  rw [Machine.run_append] at hrun
  rw [Machine.log_append] at hlog
  cases hmid : (polled others).run (some r) a with
  | none =>
    rw [hmid, polled, Machine.ofFallible_stuck] at hrun
    cases hrun
  | some r₁ => exact ⟨r₁, _, _, ⟨hmid, rfl⟩, hlog.symm⟩

end Stretches

end MakerSpace.InfraRed
