import MakerSpace.BaseListen.Model
import MakerSpace.Codec.HexDump
import Mathlib.Data.List.Forall2

/-! The sniffer loses, duplicates and reorders nothing.

The *framer* is what the sniffer is for: bytes pend until the line has been quiet,
and then close a group. It has no buffer to overflow. `listener_refines` shows the
sketch to be the framer seen through a 256-byte window and a hex dump, and
`dump_faithful` reads off what that means for the stream and the text. -/
namespace MakerSpace.BaseListen
open Arduino Reactive Codec

/-! ### The framer -/

section Framer
variable {A : Type} (millis : A → BitVec 32)

/-- Bytes pend until the clock of the timeout test is past the last of them by more
than the timeout; then they are a group. -/
def framer : Machine (Pass A) (List A) (List A) where
  pass := fun p pending =>
    let pending := pending ++ p.arrivals
    if ∃ last ∈ pending.getLast?, p.now - millis last > messageTimeout then ([], [pending])
    else (pending, [])

theorem framer_pass (p : Pass A) (pending : List A) :
    ((framer millis).next p pending = [] ∧ (framer millis).out p pending = [pending ++ p.arrivals] ∧
        ∃ last ∈ (pending ++ p.arrivals).getLast?, p.now - millis last > messageTimeout) ∨
      ((framer millis).next p pending = pending ++ p.arrivals ∧ (framer millis).out p pending = [] ∧
        ¬∃ last ∈ (pending ++ p.arrivals).getLast?, p.now - millis last > messageTimeout) := by
  simp only [Machine.next, Machine.out, framer]
  split_ifs with h
  · exact .inl ⟨rfl, rfl, h⟩
  · exact .inr ⟨rfl, rfl, h⟩

/-- Groups and what still pends are the stream, in order. -/
theorem framer_conserves (passes : List (Pass A)) (pending : List A) :
    ((framer millis).log pending passes).flatten ++ (framer millis).run pending passes =
      pending ++ passes.flatMap Pass.arrivals := by
  induction passes generalizing pending with
  | nil => simp
  | cons p rest ih =>
    rw [Machine.log_cons, Machine.run_cons, List.flatten_append, List.append_assoc, ih]
    rcases framer_pass millis p pending with ⟨hnext, hout, -⟩ | ⟨hnext, hout, -⟩ <;>
      simp [hnext, hout]

/-- A byte of a group was pending or was read. -/
theorem framer_mem (passes : List (Pass A)) (pending : List A) {group : List A} {a : A}
    (hgroup : group ∈ (framer millis).log pending passes) (ha : a ∈ group) :
    a ∈ pending ++ passes.flatMap Pass.arrivals := by
  rw [← framer_conserves millis passes pending]
  exact List.mem_append_left _ (List.mem_flatten.mpr ⟨group, hgroup, ha⟩)

theorem framer_nonempty (passes : List (Pass A)) (pending : List A) :
    ∀ group ∈ (framer millis).log pending passes, group ≠ [] := by
  induction passes generalizing pending with
  | nil => simp
  | cons p rest ih =>
    intro group hgroup
    rcases List.mem_append.mp hgroup with hout | hrest
    · rcases framer_pass millis p pending with ⟨-, hgroups, last, hlast, -⟩ | ⟨-, hgroups, -⟩
      · rw [hgroups] at hout
        obtain rfl := List.mem_singleton.mp hout
        intro hnil
        rw [hnil] at hlast
        cases hlast
      · rw [hgroups] at hout
        cases hout
    · exact ih _ group hrest

end Framer

/-! ### The sketch as a window on the framer -/

section Refinement
variable {A : Type} (f : A → Arrival)

def Pass.map (p : Pass A) : Pass Arrival := ⟨p.arrivals.map f, p.now⟩

/-- The buffer holds the first 256 pending bytes, and the clock is the last one's. -/
structure Represents (s : State) (pending : List A) : Prop where
  index : s.bufferIndex = min 256 pending.length
  contents : s.contents = (pending.map fun a => (f a).1).take 256
  clock : ∀ last ∈ pending.getLast?, s.lastByteTime = (f last).2

/-- The first 256 bytes of a group, as a line. -/
def line (group : List A) : List Char :=
  HexDump.dump ((group.map fun a => (f a).1).take 256) ++ ['\r', '\n']

theorem represents_powerUp : Represents f powerUp [] :=
  ⟨rfl, rfl, fun _ h => by cases h⟩

theorem takeByte_represents (a : A) {s : State} {pending : List A} (h : Represents f s pending) :
    ∃ s', takeByte (f a).1 (f a).2 s = some s' ∧ Represents f s' (pending ++ [a]) := by
  have hle : s.bufferIndex ≤ 256 := by
    rw [h.index]
    omega
  obtain ⟨s', hs', hcontents, hindex, hclock⟩ := takeByte_spec (f a).1 (f a).2 s hle
  refine ⟨s', hs', ?_, ?_, ?_⟩
  · rw [hindex, h.index, List.length_append, List.length_singleton]
    omega
  · rw [hcontents, h.contents, List.map_append, List.map_singleton, List.take_append,
      List.take_take, Nat.min_self, List.take_append, List.length_take]
    congr 1
    rcases Nat.lt_or_ge (pending.map fun a => (f a).1).length 256 with hlt | hge
    · rw [Nat.min_eq_right (by omega)]
    · rw [Nat.min_eq_left hge, Nat.sub_self, Nat.sub_eq_zero_of_le hge]
  · intro last hlast
    rw [List.getLast?_append, List.getLast?_singleton, Option.some_or, Option.mem_some] at hlast
    rw [hclock, hlast]

theorem drain_represents (arrivals : List A) {s : State} {pending : List A}
    (h : Represents f s pending) :
    ∃ s', drain (arrivals.map f) s = some s' ∧ Represents f s' (pending ++ arrivals) := by
  induction arrivals generalizing s pending with
  | nil => exact ⟨s, rfl, by rwa [List.append_nil]⟩
  | cons a rest ih =>
    obtain ⟨s₁, hs₁, h₁⟩ := takeByte_represents f a h
    obtain ⟨s₂, hs₂, h₂⟩ := ih h₁
    refine ⟨s₂, ?_, by simpa using h₂⟩
    rw [List.map_cons, drain, hs₁]
    exact hs₂

/-- Each byte is printed as its token. -/
theorem serialText_printByte (b : BitVec 8) : serialText (printByte b) = HexDump.token b := by
  have hall : ∀ n, n < 256 →
      serialText (printByte (BitVec.ofNat 8 n)) = HexDump.token (BitVec.ofNat 8 n) := by
    decide +kernel
  have hb := hall b.toNat b.isLt
  rwa [BitVec.ofNat_toNat, BitVec.setWidth_eq] at hb

theorem serialText_contents (bytes : List (BitVec 8)) :
    serialText (bytes.flatMap printByte) = HexDump.dump bytes := by
  induction bytes with
  | nil => rfl
  | cons b rest ih =>
    rw [List.flatMap_cons, serialText_append, serialText_printByte, ih, HexDump.dump_cons]

/-- The timeout test prints when the framer closes a group. -/
theorem timeout_iff {s : State} {pending : List A} (h : Represents f s pending) (now : BitVec 32) :
    (s.bufferIndex > 0 ∧ now - s.lastByteTime > messageTimeout) ↔
      ∃ last ∈ pending.getLast?, now - (f last).2 > messageTimeout := by
  constructor
  · intro htimeout
    obtain ⟨hpos, hquiet⟩ := htimeout
    have hne : pending ≠ [] := by
      intro hnil
      subst hnil
      rw [h.index] at hpos
      simp at hpos
    refine ⟨pending.getLast hne, List.getLast?_eq_some_getLast hne, ?_⟩
    rwa [← h.clock _ (List.getLast?_eq_some_getLast hne)]
  · intro hclosed
    obtain ⟨last, hlast, hquiet⟩ := hclosed
    have hne : pending ≠ [] := by
      intro hnil
      subst hnil
      cases hlast
    have hlen := List.length_pos_iff.mpr hne
    exact ⟨by rw [h.index]; omega, by rwa [h.clock last hlast]⟩

theorem loop_represents (p : Pass A) {s : State} {pending : List A} (h : Represents f s pending) :
    ∃ s' effects, loop (p.map f) s = some (s', effects) ∧
      Represents f s' ((framer fun a => (f a).2).next p pending) ∧
      serialText effects = ((framer fun a => (f a).2).out p pending).flatMap (line f) := by
  obtain ⟨s₁, hs₁, h₁⟩ := drain_represents f p.arrivals h
  have hle : s₁.bufferIndex ≤ 256 := by
    rw [h₁.index]
    omega
  have hloop : loop (p.map f) s = checkTimeout p.now s₁ := by
    rw [loop, Pass.map, hs₁]
    rfl
  rw [hloop, checkTimeout_spec p.now s₁ hle]
  have htest := timeout_iff f h₁ p.now
  rcases framer_pass (fun a => (f a).2) p pending with ⟨hnext, hout, hquiet⟩ | ⟨hnext, hout, hbusy⟩
  · rw [if_pos (htest.mpr hquiet), hnext, hout]
    refine ⟨_, _, rfl, ⟨rfl, rfl, fun _ h => by cases h⟩, ?_⟩
    rw [serialText_append, serialText_contents, h₁.contents, List.flatMap_singleton, line]
    rfl
  · rw [if_neg (fun ht => hbusy (htest.mp ht)), hnext, hout]
    exact ⟨_, _, rfl, h₁, rfl⟩

/-- **The sketch refines the framer**: it never faults, its buffer is the window on
what pends, and its text is the framer's groups, a line for each. -/
theorem listener_refines (passes : List (Pass A)) {s : State} {pending : List A}
    (h : Represents f s pending) :
    ∃ s', listener.run (some s) (passes.map (Pass.map f)) = some s' ∧
      Represents f s' ((framer fun a => (f a).2).run pending passes) ∧
      serialText (listener.log (some s) (passes.map (Pass.map f))) =
        ((framer fun a => (f a).2).log pending passes).flatMap (line f) := by
  induction passes generalizing s pending with
  | nil => exact ⟨s, rfl, h, rfl⟩
  | cons p rest ih =>
    obtain ⟨s₁, effects, hloop, h₁, htext⟩ := loop_represents f p h
    obtain ⟨s₂, hrun, h₂, hrest⟩ := ih h₁
    have hnext : listener.next (p.map f) (some s) = some s₁ := Machine.ofFallible_next hloop
    have hout : listener.out (p.map f) (some s) = effects := Machine.ofFallible_out hloop
    refine ⟨s₂, ?_, h₂, ?_⟩
    · rw [List.map_cons, Machine.run_cons, hnext, hrun]
    · rw [List.map_cons, Machine.log_cons, Machine.log_cons, hnext, hout, serialText_append, htext,
        hrest, List.flatMap_append]

end Refinement

/-! ### Whole runs from power-up -/

/-- **Nothing is lost, duplicated or reordered, and the dump is decodable.** Over any
run the sketch never leaves its buffer; the stream read is a list of non-empty
groups and a tail; the text is one line per group, with no other line ending,
and a line reads back as exactly the first 256 bytes of its group, which no other
line content does; and the buffer holds the first 256 bytes of the tail. -/
theorem dump_faithful (passes : List (Pass Arrival)) :
    ∃ (s : State) (groups : List (List (BitVec 8))) (tail : List (BitVec 8))
      (lines : List (List Char)),
      listener.run (some powerUp) passes = some s ∧
      passes.flatMap (fun p => p.arrivals.map Prod.fst) = groups.flatten ++ tail ∧
      (∀ g ∈ groups, g ≠ []) ∧
      serialText (listener.log (some powerUp) passes) = lines.flatMap (· ++ ['\r', '\n']) ∧
      (∀ l ∈ lines, ∀ c ∈ l, c ≠ '\r' ∧ c ≠ '\n') ∧
      List.Forall₂ (fun l g => ∀ text, HexDump.parse text = some (g.take 256) ↔ text = l) lines groups ∧
      s.bufferIndex = min 256 tail.length ∧ s.contents = tail.take 256 := by
  let framed := (framer Prod.snd).log [] passes
  obtain ⟨s, hrun, hrep, htext⟩ := listener_refines id passes (represents_powerUp id)
  have hid : passes.map (Pass.map id) = passes := by
    refine (List.map_congr_left fun p _ => ?_).trans passes.map_id
    simp [Pass.map]
  rw [hid] at hrun htext
  have hstream := framer_conserves Prod.snd passes ([] : List Arrival)
  refine ⟨s, framed.map (·.map Prod.fst), ((framer Prod.snd).run [] passes).map Prod.fst,
    framed.map fun g => HexDump.dump ((g.map Prod.fst).take 256), hrun, ?_, ?_, ?_, ?_, ?_, ?_,
    hrep.contents⟩
  · rw [← List.map_flatten, ← List.map_append, hstream, List.nil_append, List.map_flatMap]
  · intro g hg
    obtain ⟨group, hgroup, rfl⟩ := List.mem_map.mp hg
    simpa using framer_nonempty Prod.snd passes [] group hgroup
  · rw [htext, List.flatMap_map]
    rfl
  · intro l hl
    obtain ⟨group, -, rfl⟩ := List.mem_map.mp hl
    exact HexDump.dump_printable _
  · rw [List.forall₂_map_left_iff, List.forall₂_map_right_iff]
    exact List.forall₂_same.mpr fun g _ text => HexDump.parse_eq_some_iff text _
  · rw [hrep.index, List.length_map]
    rfl

end MakerSpace.BaseListen
