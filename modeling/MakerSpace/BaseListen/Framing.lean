import MakerSpace.BaseListen.Dump
import MakerSpace.Reactive.Rollover
import Mathlib.Data.List.Chain

/-! How the sniffer splits the stream into messages.

Reads and timeout tests are placed on a true time line, which the sketch sees only
through a `millis()` that rolls over. A pass drains the port before it tests the
timeout, so a byte that arrives after a pause meets a buffer the pause has not yet
emptied: `late_byte_merges` is two bytes 100 ms apart on one line.

`framed_iff`: lines and pauses agree on the runs in which no byte is stored later
than the timeout after a byte still in the buffer, and a pause within the timeout
never splits a line on any run. -/
namespace MakerSpace.BaseListen
open Arduino Reactive Rollover

/-! ### Schedules -/

/-- A byte, and the true time of the clock reading after it. -/
abbrev Read := BitVec 8 × Nat

structure TimedPass where
  arrivals : List Read
  check : Nat

/-- What the sketch sees of a read. -/
def sample (a : Read) : Arrival := (a.1, reading 32 a.2)

def TimedPass.sampled (p : TimedPass) : Pass Read := ⟨p.arrivals, reading 32 p.check⟩

/-- The true times of a pass's clock readings, in the order they are made. -/
def TimedPass.times (p : TimedPass) : List Nat := p.arrivals.map Prod.snd ++ [p.check]

/-- The clock readings of a run are made in the order of time. -/
def Ordered (passes : List TimedPass) : Prop := (passes.flatMap TimedPass.times).Pairwise (· ≤ ·)

/-- The framer on the sketch's clock. -/
abbrev sampler : Machine (Pass Read) (List Read) (List Read) := framer fun a => (sample a).2

/-! ### Lines -/

/-- A group's bytes with the line each is printed on: the 256 that fit are. -/
def stampGroup (k : Nat) (group : List Read) : List (Read × Option Nat) :=
  (group.take 256).map (·, some k) ++ (group.drop 256).map (·, none)

/-- The bytes of the groups, in the order they were read, with their lines. -/
def stamp (k : Nat) : List (List Read) → List (Read × Option Nat)
  | [] => []
  | group :: rest => stampGroup k group ++ stamp (k + 1) rest

/-- The second read is at most the timeout after the first. -/
def Near (a b : Read) : Prop := b.2 ≤ a.2 + messageTimeout.toNat

instance (a b : Read) : Decidable (Near a b) := inferInstanceAs (Decidable (_ ≤ _))

/-- Of two bytes read one after the other and printed, the lines are the same
exactly when the reads are at most the timeout apart. -/
def FramedByTimeout (stamped : List (Read × Option Nat)) : Prop :=
  stamped.IsChain fun x y => ∀ l ∈ x.2, ∀ l' ∈ y.2, (l = l' ↔ Near x.1 y.1)

/-- No byte of the drain is stored late: `pending` is what the buffer stands for when
the drain starts. -/
def InTime : List Read → List Read → Prop
  | _, [] => True
  | pending, b :: rest =>
    (pending.length < bufferSize → ∀ a ∈ pending.getLast?, Near a b) ∧
      InTime (pending ++ [b]) rest

instance decidableInTime : (pending arrivals : List Read) → Decidable (InTime pending arrivals)
  | _, [] => inferInstanceAs (Decidable True)
  | pending, b :: rest =>
    have := decidableInTime (pending ++ [b]) rest
    inferInstanceAs (Decidable (_ ∧ _))

/-! ### Inside a line -/

theorem take_concat_near (pending : List Read) (b : Read) :
    ((pending ++ [b]).take 256).IsChain Near ↔
      (pending.take 256).IsChain Near ∧
        (pending.length < bufferSize → ∀ a ∈ pending.getLast?, Near a b) := by
  rcases Nat.lt_or_ge pending.length 256 with hroom | hfull
  · have hlen : (pending ++ [b]).length ≤ 256 := by
      rw [List.length_append, List.length_singleton]
      omega
    rw [List.take_of_length_le hlen, List.take_of_length_le hroom.le, List.isChain_append]
    simp [bufferSize, hroom]
  · rw [List.take_append_of_le_length hfull]
    simp [bufferSize, hfull]

theorem take_append_near (pending arrivals : List Read) :
    ((pending ++ arrivals).take 256).IsChain Near ↔
      (pending.take 256).IsChain Near ∧ InTime pending arrivals := by
  induction arrivals generalizing pending with
  | nil => simp [InTime]
  | cons b rest ih =>
    rw [List.append_cons, ih, take_concat_near, InTime, and_assoc]

/-- Nothing is stored late in a run exactly when what is printed together, and what is
left to print, was read together. -/
theorem inTime_iff (passes : List TimedPass) (pending : List Read) :
    ((pending.take 256).IsChain Near ∧
        sampler.Along (fun p pending => InTime pending p.arrivals) pending
          (passes.map TimedPass.sampled)) ↔
      (∀ group ∈ sampler.log pending (passes.map TimedPass.sampled),
          (group.take 256).IsChain Near) ∧
        ((sampler.run pending (passes.map TimedPass.sampled)).take 256).IsChain Near := by
  induction passes generalizing pending with
  | nil => simp [Machine.Along]
  | cons p rest ih =>
    rw [List.map_cons, Machine.Along, Machine.log_cons, Machine.run_cons, ← and_assoc,
      ← take_append_near]
    have hstep := framer_pass (fun a => (sample a).2) p.sampled pending
    rcases hstep with ⟨hnext, hout, -⟩ | ⟨hnext, hout, -⟩
    · have hrest := ih []
      rw [hnext, hout, List.singleton_append, List.forall_mem_cons, and_assoc, ← hrest]
      simp [TimedPass.sampled]
    · rw [hnext, hout, List.nil_append]
      exact ih _

/-! ### Between lines -/

/-- The second group starts late after the first ends. -/
def Apart (g g' : List Read) : Prop := ∀ a ∈ g.getLast?, ∀ b ∈ g'.head?, ¬Near a b

/-- A timeout test that closes a line makes every later read late. -/
theorem not_near_of_quiet {last b : Read} {check : Nat} (hcheck : last.2 ≤ check)
    (hlater : check ≤ b.2) (hquiet : reading 32 check - (sample last).2 > messageTimeout) :
    ¬Near last b := by
  have helapsed := elapsed_le 32 hcheck
  have hlate : messageTimeout.toNat < (reading 32 check - reading 32 last.2).toNat := hquiet
  unfold Near
  omega

/-- A group is closed only when all that follows is late. -/
theorem groups_far (passes : List TimedPass) (pending : List Read)
    (h : (pending.map Prod.snd ++ passes.flatMap TimedPass.times).Pairwise (· ≤ ·)) :
    (sampler.log pending (passes.map TimedPass.sampled)).IsChain Apart := by
  induction passes generalizing pending with
  | nil => exact .nil
  | cons p rest ih =>
    rw [List.flatMap_cons, TimedPass.times, List.append_assoc, ← List.append_assoc,
      ← List.map_append] at h
    obtain ⟨hpending, hrest, hacross⟩ := List.pairwise_append.mp h
    rw [List.map_cons, Machine.log_cons]
    have hstep := framer_pass (fun a => (sample a).2) p.sampled pending
    rcases hstep with ⟨hnext, hout, last, hlast, hquiet⟩ | ⟨hnext, hout, -⟩
    · rw [hnext, hout, List.singleton_append, List.isChain_cons]
      refine ⟨fun g hg a ha b hb => ?_, ih [] (List.pairwise_cons.mp hrest).2⟩
      obtain rfl : last = a := Option.mem_unique hlast ha
      have hcheck : last.2 ≤ p.check :=
        hacross _ (List.mem_map_of_mem (List.mem_of_mem_getLast? hlast)) _ (by simp)
      have hstream := framer_mem _ _ [] (List.mem_of_mem_head? hg) (List.mem_of_mem_head? hb)
      rw [List.nil_append, List.flatMap_map] at hstream
      obtain ⟨q, hq, hbq⟩ := List.mem_flatMap.mp hstream
      have hlater : p.check ≤ b.2 := by
        refine (List.pairwise_cons.mp hrest).1 _ (List.mem_flatMap.mpr ⟨q, hq, ?_⟩)
        exact List.mem_append_left _ (List.mem_map_of_mem hbq)
      exact not_near_of_quiet hcheck hlater hquiet
    · rw [hnext, hout, List.nil_append]
      refine ih _ ?_
      simp only [TimedPass.sampled]
      rw [List.pairwise_append]
      exact ⟨hpending, (List.pairwise_cons.mp hrest).2,
        fun x hx y hy => hacross x hx y (List.mem_cons_of_mem _ hy)⟩

/-! ### Lines and pauses -/

theorem isChain_map_same_line (k : Nat) (bytes : List Read) :
    FramedByTimeout (bytes.map (·, some k)) ↔ bytes.IsChain Near := by
  simp [FramedByTimeout, List.isChain_map]

theorem stampGroup_framed (k : Nat) (group : List Read) :
    FramedByTimeout (stampGroup k group) ↔ (group.take 256).IsChain Near := by
  have hdropped : ((group.drop 256).map fun b => (b, (none : Option Nat))).IsChain
      fun x y => ∀ l ∈ x.2, ∀ l' ∈ y.2, (l = l' ↔ Near x.1 y.1) := by
    rw [List.isChain_map]
    exact List.Pairwise.isChain (List.pairwise_of_forall (by simp))
  rw [FramedByTimeout, stampGroup, List.isChain_append, ← isChain_map_same_line k]
  refine ⟨fun h => h.1, fun h => ⟨h, hdropped, ?_⟩⟩
  intro x _ y hy l _ l' hl'
  simp at hy
  grind

theorem stampGroup_bytes (k : Nat) (group : List Read) :
    (stampGroup k group).map Prod.fst = group := by
  simp [stampGroup, Function.comp_def]

/-- Every byte of a group has its place in the stamped stream. -/
theorem stamp_bytes (k : Nat) (groups : List (List Read)) :
    (stamp k groups).map Prod.fst = groups.flatten := by
  induction groups generalizing k with
  | nil => rfl
  | cons group rest ih =>
    rw [stamp, List.map_append, stampGroup_bytes, ih, List.flatten_cons]

theorem stampGroup_line {k : Nat} {group : List Read} {x : Read × Option Nat}
    (hx : x ∈ stampGroup k group) : ∀ l ∈ x.2, l = k := by
  rcases List.mem_append.mp hx with h | h <;>
    · obtain ⟨b, -, rfl⟩ := List.mem_map.mp h
      simp

theorem stamp_line {k : Nat} {groups : List (List Read)} {x : Read × Option Nat}
    (hx : x ∈ stamp k groups) : ∀ l ∈ x.2, k ≤ l := by
  induction groups generalizing k with
  | nil => cases hx
  | cons group rest ih =>
    intro l hl
    rcases List.mem_append.mp hx with h | h
    · exact (stampGroup_line h l hl).ge
    · exact (Nat.le_succ k).trans (ih h l hl)

/-- Where one group meets the next, the line changes and the reads are far apart. -/
theorem stamp_between {k : Nat} {group : List Read} {rest : List (List Read)}
    (hne : ∀ g ∈ rest, g ≠ []) (hnext : ∀ g ∈ rest.head?, Apart group g)
    {x y : Read × Option Nat} (hx : x ∈ (stampGroup k group).getLast?)
    (hy : y ∈ (stamp (k + 1) rest).head?) :
    (∀ l ∈ x.2, ∀ l' ∈ y.2, l ≠ l') ∧ ¬Near x.1 y.1 := by
  constructor
  · intro l hl l' hl'
    have hk := stampGroup_line (List.mem_of_mem_getLast? hx) l hl
    have hk' := stamp_line (List.mem_of_mem_head? hy) l' hl'
    omega
  · have hlast : x.1 ∈ group.getLast? := by
      rw [← stampGroup_bytes k group, List.getLast?_map]
      exact Option.mem_map_of_mem Prod.fst hx
    cases rest with
    | nil => cases hy
    | cons g rest =>
      have hhead := Option.mem_map_of_mem Prod.fst hy
      rw [← List.head?_map, stamp_bytes, List.flatten_cons,
        List.head?_append_of_ne_nil _ (hne g (by simp))] at hhead
      exact hnext g rfl _ hlast _ hhead

/-- Where groups are far apart, lines and pauses agree exactly when each line was
read together. -/
theorem stamp_framed (groups : List (List Read)) (hne : ∀ group ∈ groups, group ≠ [])
    (hfar : groups.IsChain Apart) (k : Nat) :
    FramedByTimeout (stamp k groups) ↔ ∀ group ∈ groups, (group.take 256).IsChain Near := by
  induction groups generalizing k with
  | nil => simp [stamp, FramedByTimeout]
  | cons group rest ih =>
    obtain ⟨hnext, hrest⟩ := List.isChain_cons.mp hfar
    obtain ⟨-, hne⟩ := List.forall_mem_cons.mp hne
    rw [FramedByTimeout, stamp, List.isChain_append, ← FramedByTimeout, ← FramedByTimeout,
      stampGroup_framed, ih hne hrest, List.forall_mem_cons]
    refine and_congr_right fun _ => and_iff_left fun x hx y hy l hl l' hl' => ?_
    obtain ⟨hline, hlate⟩ := stamp_between hne hnext hx hy
    exact iff_of_false (hline l hl l' hl') hlate

/-- Where groups are far apart, a change of line is a pause. -/
theorem stamp_unsplit (groups : List (List Read)) (hne : ∀ group ∈ groups, group ≠ [])
    (hfar : groups.IsChain Apart) (k : Nat) :
    (stamp k groups).IsChain fun x y => ∀ l ∈ x.2, ∀ l' ∈ y.2, Near x.1 y.1 → l = l' := by
  induction groups generalizing k with
  | nil => exact .nil
  | cons group rest ih =>
    obtain ⟨hnext, hrest⟩ := List.isChain_cons.mp hfar
    obtain ⟨-, hne⟩ := List.forall_mem_cons.mp hne
    refine List.isChain_append.mpr ⟨?_, ih hne hrest _, fun x hx y hy l hl l' hl' hnear => ?_⟩
    · refine List.Pairwise.isChain (List.pairwise_of_forall_mem_list fun x hx y hy l hl l' hl' _ => ?_)
      exact (stampGroup_line hx l hl).trans (stampGroup_line hy l' hl').symm
    · exact absurd hnear (stamp_between hne hnext hx hy).2

/-! ### Whole runs from power-up -/

/-- The groups a run prints, one to a line. -/
def printed (passes : List TimedPass) : List (List Read) :=
  sampler.log [] (passes.map TimedPass.sampled)

/-- On any schedule, reads within the timeout are never printed on different lines. -/
theorem printed_unsplit (passes : List TimedPass) (h : Ordered passes) :
    (stamp 0 (printed passes)).IsChain
      fun x y => ∀ l ∈ x.2, ∀ l' ∈ y.2, Near x.1 y.1 → l = l' :=
  stamp_unsplit (printed passes) (framer_nonempty _ _ []) (groups_far passes [] h) 0

/-- Nothing is stored late in the run. -/
def RunInTime (passes : List TimedPass) : Prop :=
  sampler.Along (fun p pending => InTime pending p.arrivals) [] (passes.map TimedPass.sampled)

/-- **Where the lines are the messages.** On any schedule the sketch prints its groups
line by line. If no byte is stored later than the timeout after a byte still in the
buffer, then of any two bytes read one after the other and printed the lines are the
same exactly when the reads are at most the timeout apart; and on a run that leaves
nothing in the buffer, only then. Reads within the timeout are on one line in any case. -/
theorem framed_iff (passes : List TimedPass) (h : Ordered passes) :
    serialText (listener.log (some powerUp)
        (passes.map fun p => p.sampled.map sample)) = (printed passes).flatMap (line sample) ∧
      (RunInTime passes → FramedByTimeout (stamp 0 (printed passes))) ∧
      (sampler.run [] (passes.map TimedPass.sampled) = [] →
        FramedByTimeout (stamp 0 (printed passes)) → RunInTime passes) ∧
      (stamp 0 (printed passes)).IsChain
        fun x y => ∀ l ∈ x.2, ∀ l' ∈ y.2, Near x.1 y.1 → l = l' := by
  have hframed := stamp_framed (printed passes) (framer_nonempty _ _ []) (groups_far passes [] h) 0
  have hwhole := inTime_iff passes []
  refine ⟨?_, fun hin => ?_, fun hempty hlines => ?_, printed_unsplit passes h⟩
  · obtain ⟨s, -, -, htext⟩ :=
      listener_refines sample (passes.map TimedPass.sampled) (represents_powerUp sample)
    rw [List.map_map] at htext
    exact htext
  · exact hframed.mpr (hwhole.mp ⟨.nil, hin⟩).1
  · refine (hwhole.mpr ⟨hframed.mp hlines, ?_⟩).2
    rw [hempty]
    exact .nil

/-- A byte, a pause of a second, two bytes together. -/
def pausedRun : List TimedPass :=
  [⟨[(0x41, 0)], 11⟩, ⟨[], 1000⟩, ⟨[(0x42, 1001), (0x43, 1011)], 1012⟩, ⟨[], 1022⟩]

theorem framed_pausedRun :
    Ordered pausedRun ∧ FramedByTimeout (stamp 0 (printed pausedRun)) ∧
      printed pausedRun = [[(0x41, 0)], [(0x42, 1001), (0x43, 1011)]] := by
  have hordered : Ordered pausedRun := by
    unfold Ordered
    decide
  refine ⟨hordered, (framed_iff pausedRun hordered).2.1 ?_, by decide +kernel⟩
  refine ⟨?_, ?_, ?_, ?_, trivial⟩ <;> decide +kernel

/-- The second byte comes 100 ms after the first, and finds it still in the buffer. -/
def lateRun : List TimedPass := [⟨[(0x41, 0)], 0⟩, ⟨[(0x42, 100)], 100⟩, ⟨[], 200⟩]

theorem late_byte_merges :
    Ordered lateRun ∧ (lateRun.flatMap TimedPass.times).IsChain (fun t t' => t' - t < 2 ^ 32) ∧
      serialText (listener.log (some powerUp) (lateRun.map fun p => p.sampled.map sample)) =
        "0x41 0x42 \r\n".toList ∧
      ¬FramedByTimeout (stamp 0 (printed lateRun)) := by
  unfold Ordered FramedByTimeout
  refine ⟨by decide, by decide, by decide +kernel, by decide +kernel⟩

end MakerSpace.BaseListen
