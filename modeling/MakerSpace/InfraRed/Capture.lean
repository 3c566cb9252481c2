import MakerSpace.InfraRed.Receiver
import Mathlib.Data.List.Basic

/-! What the receiver captures of a signal.

A frame is a list of runs, marks first, in which no space is longer than the record
gap allows. `listen_capture`: a frame that fits the buffer, heard by an idle receiver
after a long enough gap, is taken down run by run once the gap after it is long
enough. `listen_overrun`: a frame that does not fit is given up whole. -/
namespace MakerSpace.InfraRed
open Codec.Wave

variable {n : Nat}

/-- The receiver after a stretch of samples. -/
def listen (samples : List Bool) (r : IrReceiver n) : Option (IrReceiver n) :=
  samples.foldlM (fun r mark => irReceiveTimerInterruptHandler mark r) r

/-- Alternating runs without a gap among them. -/
def Framed (mark : Bool) : List Nat → Prop
  | [] => True
  | k :: rest => 0 < k ∧ (mark = false → k ≤ recordGapTicks + 1) ∧ Framed (!mark) rest

theorem Framed.append {mark : Bool} {a b : List Nat} :
    Framed mark (a ++ b) ↔ Framed mark a ∧ Framed (after mark a) b := by
  induction a generalizing mark with
  | nil => simp [Framed, after]
  | cons k rest ih => simp only [List.cons_append, Framed, ih, after, and_assoc]

/-! ### Listening -/

theorem listen_cons {mark : Bool} {r r' : IrReceiver n}
    (h : irReceiveTimerInterruptHandler mark r = some r') (rest : List Bool) :
    listen (mark :: rest) r = listen rest r' := by
  rw [listen, List.foldlM_cons, h]
  rfl

theorem listen_append {a : List Bool} {r r' : IrReceiver n} (h : listen a r = some r')
    (b : List Bool) : listen (a ++ b) r = listen b r' := by
  rw [listen, List.foldlM_append]
  show (listen a r).bind _ = _
  rw [h]
  rfl

/-- Spaces heard while idle only widen the gap. -/
theorem listen_gap (g : Nat) {r : IrReceiver n} {c : Nat} (hstate : r.irparams.stateForISR = .idle)
    (hticks : r.irparams.tickCounterForISR = min c uint16Max) :
    ∃ r', listen (List.replicate g false) r = some r' ∧ r'.irparams.stateForISR = .idle ∧
      r'.irparams.tickCounterForISR = min (c + g) uint16Max ∧
      {r' with irparams := r.irparams} = r := by
  induction g generalizing r c with
  | zero => exact ⟨r, rfl, hstate, hticks, rfl⟩
  | succ g ih =>
    have hstep : irReceiveTimerInterruptHandler false r = some {r with irparams := r.irparams.count} := by
      simp only [irReceiveTimerInterruptHandler, IrParams.count_stateForISR, hstate,
        Bool.false_eq_true, if_false]
    obtain ⟨r', hlisten, hidle, hcount, hframe⟩ :=
      @ih {r with irparams := r.irparams.count} _ (by simp [hstate]) (IrParams.count_ticks hticks)
    refine ⟨r', ?_, hidle, ?_, ?_⟩
    · rw [List.replicate_succ, listen_cons hstep, hlisten]
    · rw [hcount, Nat.add_right_comm, Nat.add_assoc]
    · exact congrArg (fun x : IrReceiver n => {x with irparams := r.irparams}) hframe

section Frames
variable {g : Nat} {s r : IrReceiver n} {done : List Nat} {k : Nat}

/-- More samples at the level of the open run. -/
theorem listen_same (m : Nat) (h : Recording g s done k r)
    (hm : done.length % 2 = 1 → k + m ≤ recordGapTicks) :
    ∃ r', listen (List.replicate m (after true done)) r = some r' ∧
      Recording g s done (k + m) r' := by
  induction m generalizing k r with
  | zero => exact ⟨r, rfl, h⟩
  | succ m ih =>
    obtain ⟨r₁, hstep, h₁⟩ := interrupt_same h (fun hodd => by have := hm hodd; omega)
    obtain ⟨r', hlisten, h'⟩ := ih h₁ (fun hodd => by have := hm hodd; omega)
    refine ⟨r', ?_, ?_⟩
    · rw [List.replicate_succ, listen_cons hstep, hlisten]
    · rwa [Nat.add_right_comm, Nat.add_assoc] at h'

/-- Further runs of the frame, as long as there is room for them. -/
theorem listen_runs (rest : List Nat) (h : Recording g s done k r)
    (hrest : Framed (!after true done) rest) (hfits : done.length + rest.length < n) :
    ∃ r' done' k', listen (wave (!after true done) rest) r = some r' ∧
      done' ++ [k' + 1] = done ++ (k + 1) :: rest ∧ Recording g s done' k' r' := by
  induction rest generalizing done k r with
  | nil => exact ⟨r, done, k, rfl, rfl, h⟩
  | cons m rest ih =>
    obtain ⟨hpos, hspace, hrest⟩ := hrest
    have hafter : after true (done ++ [k + 1]) = !after true done := by
      rw [after_append]
      rfl
    obtain ⟨r₁, hstep, h₁⟩ := interrupt_other h (by simp at hfits; omega)
    obtain ⟨r₂, hsame, h₂⟩ := listen_same (m - 1) h₁ (fun hodd => by
      have := hspace (by rw [← hafter, after_odd true hodd]; rfl)
      omega)
    rw [hafter] at hsame
    obtain ⟨r', done', k', hlisten, hdone, h'⟩ := ih h₂ (by rwa [hafter])
      (by simp only [List.length_append, List.length_cons, List.length_nil] at hfits ⊢; omega)
    rw [hafter, Nat.zero_add, Nat.sub_add_cancel hpos] at *
    refine ⟨r', done', k', ?_, by simpa using hdone, h'⟩
    rw [wave_cons, ← Nat.sub_add_cancel hpos, List.replicate_succ, List.cons_append,
      listen_cons hstep, listen_append hsame, hlisten]

/-- The gap that ends a frame. -/
theorem listen_end (h : Recording g s done k r) (heven : done.length % 2 = 0)
    (hfits : done.length + 1 < n) :
    ∃ r', listen (List.replicate (recordGapTicks + 2) false) r = some r' ∧
      Captured g s (done ++ [k + 1]) r' ∧
      r'.irparams.tickCounterForISR = recordGapTicks + 1 := by
  have hodd : (done ++ [k + 1]).length % 2 = 1 := by
    simp
    omega
  have hafter : after true (done ++ [k + 1]) = false := by
    rw [after_odd true hodd]
    rfl
  obtain ⟨r₁, hstep, h₁⟩ := interrupt_other h hfits
  rw [after_even true heven, Bool.not_true] at hstep
  obtain ⟨r₂, hsame, h₂⟩ := listen_same recordGapTicks h₁ (fun _ => by omega)
  obtain ⟨r', hstop, hcaptured, hticks⟩ := interrupt_stop h₂ hodd (by omega)
  rw [hafter] at hsame
  refine ⟨r', ?_, hcaptured, by rw [hticks]; decide⟩
  rw [List.replicate_succ, listen_cons hstep, List.replicate_succ', listen_append hsame,
    listen_cons hstop]
  rfl

/-- Once stopped, samples only move the counter. -/
theorem interrupt_stopped (hstate : r.irparams.stateForISR = .stop) (mark : Bool) :
    irReceiveTimerInterruptHandler mark r = some {r with irparams := {r.irparams with
      tickCounterForISR := if mark then 0 else r.irparams.count.tickCounterForISR}} := by
  obtain ⟨ticks, hcount⟩ : ∃ ticks, r.irparams.count = {r.irparams with tickCounterForISR := ticks} :=
    ⟨_, IrParams.count_eq _⟩
  simp only [irReceiveTimerInterruptHandler, hcount, hstate]
  cases mark <;> rfl

theorem listen_stopped (samples : List Bool) (hstate : r.irparams.stateForISR = .stop) :
    ∃ ticks, listen samples r =
      some {r with irparams := {r.irparams with tickCounterForISR := ticks}} := by
  induction samples generalizing r with
  | nil => exact ⟨r.irparams.tickCounterForISR, rfl⟩
  | cons mark rest ih =>
    obtain ⟨ticks, hrest⟩ := @ih {r with irparams := {r.irparams with
      tickCounterForISR := if mark then 0 else r.irparams.count.tickCounterForISR}} hstate
    exact ⟨ticks, by rw [listen_cons (interrupt_stopped hstate mark), hrest]⟩

end Frames

/-! ### Whole frames -/

/-- The first run of a frame, from an idle receiver. -/
theorem listen_first {r : IrReceiver n} {c m : Nat} (hn : 0 < n)
    (hstate : r.irparams.stateForISR = .idle)
    (hticks : r.irparams.tickCounterForISR = min c uint16Max) (hm : 0 < m) (g : Nat)
    (hgap : recordGapTicks ≤ c + g) :
    ∃ r', listen (List.replicate g false ++ List.replicate m true) r = some r' ∧
      Recording (min (c + g + 1) uint16Max) r [] (m - 1) r' := by
  obtain ⟨r₁, hlisten, hidle, hcount, hframe⟩ := listen_gap g hstate hticks
  obtain ⟨r₂, hstart, h₂⟩ := interrupt_start hn hidle hcount hgap
  obtain ⟨r', hsame, h'⟩ := listen_same (m - 1) h₂ (fun hodd => absurd hodd (by simp))
  refine ⟨r', ?_, ?_⟩
  · rw [listen_append hlisten]
    obtain ⟨m, rfl⟩ := Nat.exists_eq_succ_of_ne_zero (by omega : m ≠ 0)
    rw [List.replicate_succ, listen_cons hstart]
    exact hsame
  · rw [Nat.zero_add] at h'
    exact {h' with decoder := (congrArg (fun x : IrReceiver n => {x with irparams := r.irparams})
      h'.decoder).trans hframe}

/-- **A frame that fits is captured.** -/
theorem listen_capture {r : IrReceiver n} {c : Nat} {runs : List Nat}
    (hstate : r.irparams.stateForISR = .idle)
    (hticks : r.irparams.tickCounterForISR = min c uint16Max) (hframed : Framed true runs)
    (hodd : runs.length % 2 = 1) (hfits : runs.length < n) (g : Nat) (hgap : recordGapTicks ≤ c + g) :
    ∃ r', listen (List.replicate g false ++ wave true runs ++
        List.replicate (recordGapTicks + 2) false) r = some r' ∧
      Captured (min (c + g + 1) uint16Max) r runs r' ∧
      r'.irparams.tickCounterForISR = recordGapTicks + 1 := by
  cases runs with
  | nil => simp at hodd
  | cons m rest =>
    obtain ⟨hpos, -, hrest⟩ := hframed
    obtain ⟨r₁, hfirst, h₁⟩ := listen_first (by omega) hstate hticks hpos g hgap
    obtain ⟨r₂, done, k, hlisten, hdone, h₂⟩ := listen_runs rest h₁ hrest (by
      simp only [List.length_cons, List.length_nil] at hfits ⊢; omega)
    rw [List.nil_append, Nat.sub_add_cancel hpos] at hdone
    rw [after_nil] at hlisten
    have hlen : done.length + 1 = (m :: rest).length := by rw [← hdone]; simp
    obtain ⟨r', hend, hcaptured, hcount⟩ := listen_end h₂ (by omega) (by omega)
    rw [hdone] at hcaptured
    refine ⟨r', ?_, hcaptured, hcount⟩
    rw [wave_cons, ← List.append_assoc, List.append_assoc _ _ (List.replicate _ _), listen_append hfirst,
      listen_append hlisten, hend]

theorem Captured.listen {g : Nat} {s r : IrReceiver n} {runs : List Nat} (h : Captured g s runs r)
    (samples : List Bool) :
    ∃ r', InfraRed.listen samples r = some r' ∧ Captured g s runs r' := by
  obtain ⟨ticks, hlisten⟩ := listen_stopped samples h.state
  exact ⟨_, hlisten, h.state, h.overflow, h.recorded, h.decoder⟩

/-- How many of a frame's runs are captured: a space at its end is part of the gap. -/
def captureCount (runs : List Nat) : Nat :=
  if runs.length % 2 = 1 then runs.length else runs.length - 1

/-- A frame and any gap long enough, right after the gap before it. -/
theorem listen_frame {r : IrReceiver n} {k : Nat} {runs : List Nat}
    (hstate : r.irparams.stateForISR = .idle)
    (hticks : r.irparams.tickCounterForISR = min k uint16Max) (hgap : recordGapTicks ≤ k)
    (hframed : Framed true runs) (hne : runs ≠ []) (hfits : runs.length < n) {quiet : Nat}
    (hquiet : recordGapTicks + 2 ≤ quiet) :
    ∃ r', listen (wave true runs ++ List.replicate quiet false) r = some r' ∧
      Captured (min (k + 1) uint16Max) r (runs.take (captureCount runs)) r' := by
  have hpos : 0 < runs.length := List.length_pos_iff.mpr hne
  have hsplit : ∃ more, wave true runs ++ List.replicate quiet false =
      wave true (runs.take (captureCount runs)) ++ List.replicate (recordGapTicks + 2) false ++ more ∧
        (runs.take (captureCount runs)).length % 2 = 1 := by
    rw [captureCount]
    split
    · next hodd =>
      refine ⟨List.replicate (quiet - (recordGapTicks + 2)) false, ?_, by rwa [List.take_length]⟩
      rw [List.take_length, List.append_assoc, List.replicate_append_replicate,
        Nat.add_sub_cancel' hquiet]
    · next heven =>
      have hodd : (runs.take (runs.length - 1)).length % 2 = 1 := by
        rw [List.length_take]
        omega
      obtain ⟨s, hs⟩ : ∃ s, runs = runs.take (runs.length - 1) ++ [s] :=
        ⟨runs.getLast hne, by rw [← List.dropLast_eq_take, List.dropLast_concat_getLast]⟩
      refine ⟨List.replicate (s + quiet - (recordGapTicks + 2)) false, ?_, hodd⟩
      generalize runs.take (runs.length - 1) = a at hs hodd ⊢
      rw [hs, wave_append, after_odd true hodd, wave_cons, wave_nil, List.append_nil, Bool.not_true,
        List.append_assoc, List.append_assoc, List.replicate_append_replicate,
        List.replicate_append_replicate, Nat.add_sub_cancel' (by omega)]
  obtain ⟨more, hmore, hodd⟩ := hsplit
  have hframed' : Framed true (runs.take (captureCount runs)) :=
    (Framed.append.mp (by rwa [List.take_append_drop])).1
  obtain ⟨r₁, hlisten, hcaptured, -⟩ := listen_capture hstate hticks hframed' hodd
    (Nat.lt_of_le_of_lt (List.length_take_le' _ _) hfits) 0 hgap
  obtain ⟨r', hmore', hcaptured'⟩ := hcaptured.listen more
  refine ⟨r', ?_, hcaptured'⟩
  rw [hmore]
  exact (listen_append hlisten more).trans hmore'

/-- **A frame that does not fit is given up.** -/
theorem listen_overrun {r : IrReceiver n} {c : Nat} {runs : List Nat} (hn : n % 2 = 0) (hpos : 0 < n)
    (hstate : r.irparams.stateForISR = .idle)
    (hticks : r.irparams.tickCounterForISR = min c uint16Max) (hframed : Framed true runs)
    (hlong : n < runs.length) (g : Nat) (hgap : recordGapTicks ≤ c + g) (gap : List Bool) :
    ∃ r', listen (List.replicate g false ++ wave true runs ++ gap) r = some r' ∧ Overrun r r' := by
  have hsplit : runs = runs.take n ++ runs.drop n := (List.take_append_drop n runs).symm
  have htake : (runs.take n).length = n := by
    rw [List.length_take]
    omega
  have hdrop : 0 < (runs.drop n).length := by
    rw [List.length_drop]
    omega
  rw [hsplit] at hframed ⊢
  generalize runs.take n = a at htake hframed ⊢
  generalize runs.drop n = b at hdrop hframed ⊢
  cases a with
  | nil => simp at htake; omega
  | cons m rest =>
    cases b with
    | nil => simp at hdrop
    | cons k tail =>
      obtain ⟨⟨hm, -, hrest⟩, hk, -⟩ := Framed.append.mp hframed
      obtain ⟨r₁, hfirst, h₁⟩ := listen_first hpos hstate hticks hm g hgap
      obtain ⟨r₂, done, k', hlisten, hdone, h₂⟩ := listen_runs rest h₁ hrest (by
        simp only [List.length_cons, List.length_nil] at htake ⊢; omega)
      rw [List.nil_append, Nat.sub_add_cancel hm] at hdone
      rw [after_nil] at hlisten
      have hlen : done.length + 1 = n := by
        rw [← htake, ← hdone]
        simp
      obtain ⟨r₃, hover, h₃, -⟩ := interrupt_overrun h₂ (by omega) (by omega)
      obtain ⟨ticks, hrun⟩ := listen_stopped
        (List.replicate (k - 1) true ++ wave false tail ++ gap) h₃.state
      refine ⟨{r₃ with irparams := {r₃.irparams with tickCounterForISR := ticks}}, ?_,
        h₃.state, h₃.overflow, h₃.decoder⟩
      rw [wave_append, after_even true (by omega), wave_cons, wave_cons]
      obtain ⟨k, rfl⟩ := Nat.exists_eq_succ_of_ne_zero (by omega : k ≠ 0)
      simp only [List.append_assoc]
      rw [← List.append_assoc (List.replicate g false), listen_append hfirst, listen_append hlisten,
        List.replicate_succ, List.cons_append, listen_cons hover]
      simpa using hrun

end MakerSpace.InfraRed
