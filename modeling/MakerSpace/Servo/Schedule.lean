import MakerSpace.Servo.Angles

/-! When the pins change.

In a cycle the servos are pulsed one after the other, each for the width last asked for
and for as long as the interrupt that ends it is late. The next cycle is due when the
refresh interval is over, and at the earliest four ticks after the last pulse. The
schedule knows of pins and of widths in microseconds only, not of the library's tables.

`servos_scheduled`: so it is for any number of servos, whatever the sketch commands in the
meantime, as long as no handle goes beyond the default longest width and no interrupt is
more than 660 ticks late: twelve pulses of full width then fit the 16 bits of the timer. -/
namespace MakerSpace.Servo
open Arduino Reactive

/-! ### The schedule -/

/-- What the sketch has asked for: a pulse width in microseconds for each servo. -/
abbrev Widths := Nat → Int

def Command.handle : Command → Handle
  | .write o _ => o
  | .writeMicroseconds o _ => o

/-- The width a command asks for: its own, within the range of the handle, or the angle's
share of that range. -/
def Command.asked : Command → Int
  | .write o value =>
    if value < minPulseWidth then
      o.servoMin + max 0 (min value 180) * (o.servoMax - o.servoMin) / 180
    else max o.servoMin (min value o.servoMax)
  | .writeMicroseconds o value => max o.servoMin (min value o.servoMax)

def asks (w : Widths) (i : Interrupt) : Widths :=
  i.commands.foldl (fun w c => Function.update w c.handle.servoIndex c.asked) w

/-- A width in ticks of half a microsecond, less the trim for the interrupt's own time. -/
def pulseTicks (us : Int) : Nat := (2 * (us - trimDuration)).toNat

/-- The pulses of the channels from one on, the first begun at `t`: each ends as its
interrupt is served, and the next one begins. -/
def pulses (pins : List (BitVec 6)) (w : Widths) (channel t : Nat) : List Interrupt → List Edge
  | [] => []
  | i :: rest =>
    let stop := t + pulseTicks (w channel) + i.late
    ⟨t, pins.getD channel 0, .high⟩ :: ⟨stop, pins.getD channel 0, .low⟩ ::
      pulses pins (asks w i) (channel + 1) stop rest

/-- When they are over. -/
def ending (w : Widths) (channel t : Nat) : List Interrupt → Nat
  | [] => t
  | i :: rest => ending (asks w i) (channel + 1) (t + pulseTicks (w channel) + i.late) rest

/-- The interrupt that begins a cycle, and those that end its pulses. -/
structure Cycle where
  start : Interrupt
  ends : List Interrupt

def refreshTicks : Nat := 40000

/-- Cycles, the first of them due at a time. -/
def schedule (pins : List (BitVec 6)) (w : Widths) (due : Nat) : List Cycle → List Edge
  | [] => []
  | c :: rest =>
    let t := due + c.start.late
    pulses pins (asks w c.start) 0 t c.ends ++
      schedule pins (c.ends.foldl asks (asks w c.start))
        (max (t + refreshTicks) (ending (asks w c.start) 0 t c.ends + 4)) rest

/-! ### Commands -/

def Handle.Ranged (o : Handle) : Prop := o.servoMax ≤ maxPulseWidth

def maxTicks : Nat := 4796

def entryAt (servos : Table) (channel : Nat) : Entry := servos[channel]?.getD {}

/-- The entry of a servo in use pulses its pin for the width asked for. -/
structure Entry.Follows (pin : BitVec 6) (us : Int) (e : Entry) : Prop where
  nbr : e.nbr = pin
  active : e.isActive = true
  ticks : e.ticks.toNat = pulseTicks us
  pos : 0 < pulseTicks us
  fits : pulseTicks us ≤ maxTicks

def Follows (pins : List (BitVec 6)) (w : Widths) (servos : Table) : Prop :=
  ∀ c < pins.length, (entryAt servos c).Follows (pins.getD c 0) (w c)

theorem Entry.Follows.drive {pin : BitVec 6} {us : Int} {e : Entry} (h : e.Follows pin us)
    (level : Level) : e.drive level = [(pin, level)] := by
  rw [Entry.drive, if_pos h.active, h.nbr]

theorem width_eq (o : Handle) (value : Int) : o.width value = max o.servoMin (min value o.servoMax) := by
  have hmin := servoMin_range o
  have hmax := servoMax_range o
  unfold Handle.width
  split
  · omega
  · split <;> omega

/-- The width an angle stands for is within the range. -/
theorem width_map {o : Handle} {angle : Int} (hangle : 0 ≤ angle ∧ angle ≤ 180) :
    o.width (map angle 0 180 o.servoMin o.servoMax) =
      o.servoMin + angle * (o.servoMax - o.servoMin) / 180 := by
  have hmin := servoMin_range o
  have hmax := servoMax_range o
  obtain ⟨⟨hlow, hhigh⟩, -⟩ := map_map hangle (by omega : 180 < o.servoMax - o.servoMin)
  have hprod : 0 ≤ angle * (o.servoMax - o.servoMin) := Int.mul_nonneg hangle.1 (by omega)
  rw [Handle.width, if_neg (by omega), if_neg (by omega), map, Int.sub_zero, Int.sub_zero,
    Int.tdiv_eq_ediv_of_nonneg hprod, Int.add_comm]

/-- Every command comes down to a width for one servo. -/
theorem apply_eq (c : Command) (servos : Table) :
    ∃ value, c.apply servos = writeMicroseconds value c.handle servos ∧
      c.handle.width value = c.asked := by
  cases c with
  | writeMicroseconds o value => exact ⟨value, rfl, width_eq o value⟩
  | write o value =>
    by_cases hangle : value < minPulseWidth
    · have hclip : (if (if value < 0 then 0 else value) > 180 then 180
          else if value < 0 then 0 else value) = max 0 (min value 180) := by
        split <;> split at * <;> omega
      refine ⟨map (max 0 (min value 180)) 0 180 o.servoMin o.servoMax, ?_, ?_⟩
      · rw [Command.apply, write, if_pos hangle]
        dsimp only
        rw [hclip]
        rfl
      · rw [Command.asked, if_pos hangle]
        exact width_map (by omega)
    · refine ⟨value, ?_, ?_⟩
      · rw [Command.apply, write, if_neg hangle]
        rfl
      · rw [Command.asked, if_neg hangle]
        exact width_eq o value

/-- **A command sets the width it asks for**, and no other. -/
theorem Follows.apply {pins : List (BitVec 6)} (hpins : pins.length ≤ servosPerTimer) {w : Widths}
    {servos : Table} (h : Follows pins w servos) {c : Command} (hc : c.handle.Ranged) :
    Follows pins (Function.update w c.handle.servoIndex c.asked) (c.apply servos) := by
  obtain ⟨value, happly, hasked⟩ := apply_eq c servos
  have hwidth := width_between c.handle value
  have hticks := ticks_width c.handle value
  have hmin := (servoMin_range c.handle).1
  have hmax : c.handle.servoMax ≤ 2400 := hc
  intro k hk
  have hold := h k hk
  rw [happly, writeMicroseconds]
  by_cases hsame : c.handle.servoIndex = k
  · subst hsame
    have hindex : c.handle.servoIndex < servosPerTimer := by omega
    have hentry : entryAt servos c.handle.servoIndex = servos.get ⟨c.handle.servoIndex, hindex⟩ := by
      rw [entryAt, Vector.getElem?_eq_getElem hindex]
      rfl
    have hpulse : (pulseTicks c.asked : Int) = 2 * (c.asked - 2) := by
      rw [pulseTicks, trimDuration]
      omega
    rw [hentry] at hold
    rw [dif_pos hindex, entryAt, Vector.getElem?_set_self, Function.update_self]
    refine ⟨hold.nbr, hold.active, ?_, by omega, by unfold maxTicks; omega⟩
    show (BitVec.ofInt 16 (usToTicks (c.handle.width value - trimDuration))).toNat = pulseTicks c.asked
    omega
  · rw [Function.update_of_ne (Ne.symm hsame)]
    split
    · next hindex =>
      rw [entryAt, Vector.getElem?_set_ne _ hsame]
      exact hold
    · exact hold

/-- A command a sketch can give of a servo whose range ends no later than the default one,
and an interrupt in time. -/
def Interrupt.Ok (i : Interrupt) : Prop := (∀ c ∈ i.commands, c.handle.Ranged) ∧ i.late ≤ 660

/-- The table after the sketch's commands. -/
def commanded (servos : Table) (i : Interrupt) : Table := i.commands.foldl Command.apply servos

theorem Follows.commanded {pins : List (BitVec 6)} (hpins : pins.length ≤ servosPerTimer)
    {w : Widths} {servos : Table} (h : Follows pins w servos) {i : Interrupt} (hok : i.Ok) :
    Follows pins (asks w i) (commanded servos i) := by
  obtain ⟨commands, late⟩ := i
  obtain ⟨hcommands, -⟩ := hok
  rw [asks, Servo.commanded]
  induction commands generalizing w servos with
  | nil => exact h
  | cons c rest ih =>
    exact ih (h.apply hpins (hcommands c List.mem_cons_self)) fun c hc =>
      hcommands c (List.mem_cons_of_mem _ hc)

/-! ### The registers -/

/-- A channel's pulse has begun at `t`, in a cycle whose count was zero at `origin`. -/
structure Pulsing (pins : List (BitVec 6)) (w : Widths) (origin t c : Nat) (b : Board) : Prop where
  count : b.servoCount = pins.length
  channel : b.channel = c
  began : origin ≤ t
  tcnt : b.tcnt = BitVec.ofNat 16 (t - origin)
  ocr : b.ocr = b.tcnt + (entryAt b.servos c).ticks
  follows : Follows pins w b.servos

/-- The pulses are over, and the next cycle is due at a time. -/
structure Resting (pins : List (BitVec 6)) (w : Widths) (t due : Nat) (b : Board) : Prop where
  count : b.servoCount = pins.length
  channel : b.channel = -1
  due : t + b.toMatch = due
  follows : Follows pins w b.servos

variable {pins : List (BitVec 6)} {w : Widths} {origin t c : Nat} {b : Board}

theorem Pulsing.toMatch (h : Pulsing pins w origin t c b) (hc : c < pins.length) :
    b.toMatch = pulseTicks (w c) := by
  have hentry := h.follows c hc
  have hdiff : b.ocr - b.tcnt = (entryAt b.servos c).ticks := by
    rw [h.ocr, BitVec.add_comm, BitVec.add_sub_cancel]
  have hne : b.ocr ≠ b.tcnt := by
    intro heq
    have hticks := hentry.ticks
    rw [heq, BitVec.sub_self] at hdiff
    rw [← hdiff] at hticks
    exact absurd hentry.pos (by rw [← hticks]; decide)
  rw [Board.toMatch, if_neg hne, hdiff, hentry.ticks]

/-- The next pulse begins. -/
theorem startPulse_next (hpins : pins.length ≤ servosPerTimer) (hcount : b.servoCount = pins.length)
    (hchannel : b.channel = c) (hbegan : origin ≤ t) (htcnt : b.tcnt = BitVec.ofNat 16 (t - origin))
    (hfollows : Follows pins w b.servos) (hc : c < pins.length) :
    ∃ b', startPulse b = (b', [(pins.getD c 0, .high)]) ∧ Pulsing pins w origin t c b' := by
  have hentry : b.entry b.channel = entryAt b.servos c := by
    rw [Board.entry, hchannel, Int.toNat_natCast]
    rfl
  refine ⟨{b with ocr := b.tcnt + (entryAt b.servos c).ticks}, ?_,
    hcount, hchannel, hbegan, htcnt, rfl, hfollows⟩
  rw [startPulse, if_pos ⟨by omega, by omega⟩, hentry, (hfollows c hc).drive]

/-- The pulses are over: the rest of the refresh interval, or four ticks. -/
theorem startPulse_rest (hcount : b.servoCount = pins.length) (hchannel : b.channel = pins.length)
    (hbegan : origin ≤ t) (htcnt : b.tcnt = BitVec.ofNat 16 (t - origin))
    (hfollows : Follows pins w b.servos) (hfits : t + 4 < origin + 65536) :
    ∃ b', startPulse b = (b', []) ∧
      Resting pins w t (max (origin + refreshTicks) (t + 4)) b' := by
  have hnow : b.tcnt.toNat = t - origin := by
    rw [htcnt, BitVec.toNat_ofNat]
    omega
  have hnext : (b.tcnt + 4).toNat = t - origin + 4 := by
    have hfour : (4 : BitVec 16).toNat = 4 := rfl
    rw [BitVec.toNat_add, hnow, hfour]
    omega
  have hlimit : usToTicks refreshInterval = 40000 := by decide
  have hrefresh : (BitVec.ofInt 16 40000).toNat = 40000 := by decide
  by_cases hshort : t - origin + 4 < 40000
  · refine ⟨{b with ocr := BitVec.ofInt 16 40000, channel := -1}, ?_, hcount, rfl, ?_, hfollows⟩
    · rw [startPulse, if_neg (by omega), hlimit, hnext, if_pos (by omega)]
    · have hne : BitVec.ofInt 16 40000 ≠ b.tcnt := by
        intro heq
        rw [heq, hnow] at hrefresh
        omega
      show t + (if BitVec.ofInt 16 40000 = b.tcnt then 65536 else (BitVec.ofInt 16 40000 - b.tcnt).toNat) = _
      rw [if_neg hne, BitVec.toNat_sub_of_le (BitVec.le_def.mpr (by omega)), hrefresh, hnow, refreshTicks]
      omega
  · refine ⟨{b with ocr := b.tcnt + 4, channel := -1}, ?_, hcount, rfl, ?_, hfollows⟩
    · rw [startPulse, if_neg (by omega), hlimit, hnext, if_neg (by omega)]
    · have hne : b.tcnt + 4 ≠ b.tcnt := by
        intro heq
        rw [heq] at hnext
        omega
      show t + (if b.tcnt + 4 = b.tcnt then 65536 else (b.tcnt + 4 - b.tcnt).toNat) = _
      rw [if_neg hne, BitVec.add_comm, BitVec.add_sub_cancel, refreshTicks]
      show t + 4 = _
      omega

/-! ### Interrupts -/

/-- The board as an interrupt finds it, at the channel it is to serve next. -/
def Board.served (b : Board) (i : Interrupt) (tcnt : BitVec 16) (channel : Int) : Board :=
  {b with servos := commanded b.servos i, tcnt := tcnt, channel := channel}

/-- An interrupt that ends a pulse. -/
theorem pass_pulse (hpins : pins.length ≤ servosPerTimer) {i : Interrupt} (hok : i.Ok)
    (hcount : b.servoCount = pins.length) (hchannel : b.channel = c) (hc : c < pins.length)
    (hfollows : Follows pins w b.servos) :
    timer.pass i (b, t) =
      let next := startPulse (b.served i (b.tcnt + BitVec.ofNat 16 (b.toMatch + i.late)) (c + 1))
      ((next.1, t + b.toMatch + i.late),
        ⟨t + b.toMatch + i.late, pins.getD c 0, .low⟩ :: stamp (t + b.toMatch + i.late) next.2) := by
  have hentry : ∀ tcnt, (b.served i tcnt c).entry c = entryAt (commanded b.servos i) c := by
    intro tcnt
    rw [Board.entry, Int.toNat_natCast]
    rfl
  have hend : endPulse (b.served i (b.tcnt + BitVec.ofNat 16 (b.toMatch + i.late)) c) =
      (b.served i (b.tcnt + BitVec.ofNat 16 (b.toMatch + i.late)) c, [(pins.getD c 0, .low)]) := by
    have hchannel' : ∀ tcnt, (b.served i tcnt c).channel = c := fun _ => rfl
    have hcount' : ∀ tcnt, (b.served i tcnt c).servoCount = pins.length := fun _ => hcount
    rw [endPulse, hchannel', if_neg (by omega), hcount', if_pos (by omega), hentry,
      (hfollows.commanded hpins hok c hc).drive]
  have hserved : ∀ tcnt, {b with servos := i.commands.foldl Command.apply b.servos, tcnt := tcnt} =
      b.served i tcnt c := by
    intro tcnt
    rw [Board.served, ← hchannel]
    rfl
  show (let r := handleInterrupts {b with
      servos := i.commands.foldl Command.apply b.servos
      tcnt := b.tcnt + BitVec.ofNat 16 (b.toMatch + i.late)}
    ((r.1, t + (b.toMatch + i.late)), stamp (t + (b.toMatch + i.late)) r.2)) = _
  rw [hserved, handleInterrupts, hend, ← Nat.add_assoc]
  dsimp only
  rw [stamp, List.map_append]
  rfl

/-- An interrupt that begins a cycle. -/
theorem pass_start {i : Interrupt} (hchannel : b.channel = -1) :
    timer.pass i (b, t) =
      let next := startPulse (b.served i 0 0)
      ((next.1, t + b.toMatch + i.late), stamp (t + b.toMatch + i.late) next.2) := by
  have hend : ∀ tcnt, endPulse {b with servos := i.commands.foldl Command.apply b.servos, tcnt := tcnt} =
      (b.served i 0 (-1), []) := by
    intro tcnt
    rw [endPulse, if_pos (by rw [hchannel]; decide), Board.served, ← hchannel]
    rfl
  show (let r := handleInterrupts {b with
      servos := i.commands.foldl Command.apply b.servos
      tcnt := b.tcnt + BitVec.ofNat 16 (b.toMatch + i.late)}
    ((r.1, t + (b.toMatch + i.late)), stamp (t + (b.toMatch + i.late)) r.2)) = _
  rw [handleInterrupts, hend, ← Nat.add_assoc]
  rfl

/-- A channel is served at the next match, on a count that was zero at `origin`. -/
structure Counting (pins : List (BitVec 6)) (w : Widths) (origin t c : Nat) (b : Board) : Prop where
  count : b.servoCount = pins.length
  channel : b.channel = c
  began : origin ≤ t + b.toMatch
  tcnt : ∀ late, b.tcnt + BitVec.ofNat 16 (b.toMatch + late) = BitVec.ofNat 16 (t + b.toMatch + late - origin)
  follows : Follows pins w b.servos

theorem Pulsing.counting (h : Pulsing pins w origin t c b) : Counting pins w origin t c b := by
  have hbegan := h.began
  refine ⟨h.count, h.channel, by omega, fun late => ?_, h.follows⟩
  have hsplit : t + b.toMatch + late - origin = t - origin + (b.toMatch + late) := by omega
  rw [hsplit, h.tcnt, ← BitVec.ofNat_add]

/-! ### Runs -/

/-- The longest a channel takes. -/
def slot : Nat := maxTicks + 660

theorem Pulsing.slot_le (h : Pulsing pins w origin t c b) (hc : c < pins.length) {i : Interrupt}
    (hi : i.Ok) : b.toMatch + i.late ≤ slot := by
  have hfits := (h.follows c hc).fits
  have hlate := hi.2
  have hticks := h.toMatch hc
  unfold slot
  omega

/-- The interrupt that serves a channel ends its pulse, and goes on to the next one. -/
theorem Counting.pass (hpins : pins.length ≤ servosPerTimer) {i : Interrupt} (hi : i.Ok)
    (h : Counting pins w origin t c b) (hc : c < pins.length) {stop : Nat}
    (hstop : t + b.toMatch + i.late = stop) :
    timer.pass i (b, t) =
      let next := startPulse (b.served i (BitVec.ofNat 16 (stop - origin)) (c + 1))
      ((next.1, stop), ⟨stop, pins.getD c 0, .low⟩ :: stamp stop next.2) := by
  have hpass := pass_pulse (t := t) hpins hi h.count h.channel hc h.follows
  rw [h.tcnt, hstop] at hpass
  exact hpass

/-- **The rest of a cycle**, from the interrupt that serves a channel on. -/
theorem run_ends (hpins : pins.length ≤ servosPerTimer) {i : Interrupt} {rest : List Interrupt}
    (hi : i.Ok) (hrest : ∀ j ∈ rest, j.Ok) (h : Counting pins w origin t c b)
    (hlength : c + 1 + rest.length = pins.length)
    (hfits : t + b.toMatch + i.late + rest.length * slot + 4 < origin + 65536) {stop : Nat}
    (hstop : t + b.toMatch + i.late = stop) :
    ∃ b', timer.run (b, t) (i :: rest) = (b', ending (asks w i) (c + 1) stop rest) ∧
      timer.log (b, t) (i :: rest) =
        ⟨stop, pins.getD c 0, .low⟩ :: pulses pins (asks w i) (c + 1) stop rest ∧
      Resting pins (rest.foldl asks (asks w i)) (ending (asks w i) (c + 1) stop rest)
        (max (origin + refreshTicks) (ending (asks w i) (c + 1) stop rest + 4)) b' := by
  induction rest generalizing t c b w i stop with
  | nil =>
    have hbegan := h.began
    have hpass := h.pass hpins hi (by omega) hstop
    have hcount : (b.served i (BitVec.ofNat 16 (stop - origin)) (c + 1)).servoCount = pins.length :=
      h.count
    have hlast : (b.served i (BitVec.ofNat 16 (stop - origin)) (c + 1)).channel = pins.length := by
      rw [← hlength]
      rfl
    obtain ⟨b', hstart, hresting⟩ := startPulse_rest hcount hlast (by omega : origin ≤ stop) rfl
      (h.follows.commanded hpins hi) (by omega)
    rw [hstart] at hpass
    refine ⟨b', ?_, ?_, hresting⟩
    · rw [Machine.run_cons, Machine.next, hpass]
      rfl
    · rw [Machine.log_cons, Machine.out, hpass]
      rfl
  | cons j rest ih =>
    rw [List.length_cons] at hlength hfits
    rw [Nat.add_one_mul] at hfits
    have hbegan := h.began
    have hpass := h.pass hpins hi (by omega) hstop
    have hcount : (b.served i (BitVec.ofNat 16 (stop - origin)) (c + 1)).servoCount = pins.length :=
      h.count
    have hchannel : (b.served i (BitVec.ofNat 16 (stop - origin)) (c + 1)).channel = (c + 1 : Nat) := rfl
    have hmore : c + 1 < pins.length := by omega
    obtain ⟨b₁, hstart, hpulsing⟩ := startPulse_next hpins hcount hchannel
      (by omega : origin ≤ stop) rfl (h.follows.commanded hpins hi) hmore
    rw [hstart] at hpass
    have hj := hrest j List.mem_cons_self
    have hslot := hpulsing.slot_le hmore hj
    obtain ⟨b', hrun, hlog, hresting⟩ := ih hj (fun k hk => hrest k (List.mem_cons_of_mem _ hk))
      hpulsing.counting (by omega) (by omega) rfl
    rw [hpulsing.toMatch hmore] at hrun hlog hresting
    refine ⟨b', ?_, ?_, hresting⟩
    · rw [Machine.run_cons, Machine.next, hpass]
      exact hrun
    · rw [Machine.log_cons, Machine.out, Machine.next, hpass, hlog]
      rfl

/-- **The pulses of a cycle**, from the one begun at `t` on. -/
theorem run_pulses (hpins : pins.length ≤ servosPerTimer) {ends : List Interrupt}
    (hok : ∀ i ∈ ends, i.Ok) (h : Pulsing pins w origin t c b) (hends : c + ends.length = pins.length)
    (hsome : c < pins.length) (hfits : t + ends.length * slot + 4 < origin + 65536) :
    ∃ b', timer.run (b, t) ends = (b', ending w c t ends) ∧
      ⟨t, pins.getD c 0, .high⟩ :: timer.log (b, t) ends = pulses pins w c t ends ∧
      Resting pins (ends.foldl asks w) (ending w c t ends)
        (max (origin + refreshTicks) (ending w c t ends + 4)) b' := by
  cases ends with
  | nil => exact absurd hends (Nat.ne_of_lt hsome)
  | cons i rest =>
    have hi := hok i List.mem_cons_self
    have hslot := h.slot_le hsome hi
    rw [List.length_cons] at hends hfits
    rw [Nat.add_one_mul] at hfits
    obtain ⟨b', hrun, hlog, hresting⟩ := run_ends hpins hi
      (fun j hj => hok j (List.mem_cons_of_mem _ hj)) h.counting (by omega) (by omega) rfl
    rw [h.toMatch hsome] at hrun hlog hresting
    exact ⟨b', hrun, by rw [hlog]; rfl, hresting⟩

theorem slots_fit (hpins : pins.length ≤ servosPerTimer) : pins.length * slot + 4 < 65536 :=
  Nat.lt_of_le_of_lt (Nat.add_le_add_right (Nat.mul_le_mul_right slot hpins) 4) (by decide)

def Cycle.inputs (c : Cycle) : List Interrupt := c.start :: c.ends

/-- A whole cycle of `n` servos, none of its interrupts too late. -/
structure Cycle.Ok (n : Nat) (c : Cycle) : Prop where
  start : c.start.Ok
  ends : ∀ i ∈ c.ends, i.Ok
  length : c.ends.length = n

/-- **Cycle after cycle.** -/
theorem run_cycles (hpins : pins.length ≤ servosPerTimer) (hsome : 0 < pins.length) {due : Nat}
    (h : Resting pins w t due b) (cycles : List Cycle) (hok : ∀ c ∈ cycles, c.Ok pins.length) :
    timer.log (b, t) (cycles.flatMap Cycle.inputs) = schedule pins w due cycles := by
  induction cycles generalizing t b w due with
  | nil => rfl
  | cons c rest ih =>
    obtain ⟨hstart, hends, hlength⟩ := hok c List.mem_cons_self
    have hpass := pass_start (t := t) (i := c.start) h.channel
    rw [h.due] at hpass
    have hzero : (b.served c.start 0 0).tcnt = BitVec.ofNat 16 (due + c.start.late - (due + c.start.late)) := by
      rw [Nat.sub_self]
      rfl
    have hchannel : (b.served c.start 0 0).channel = (0 : Nat) := rfl
    have hcount : (b.served c.start 0 0).servoCount = pins.length := h.count
    obtain ⟨b₁, hbegin, hpulsing⟩ := startPulse_next hpins hcount hchannel (Nat.le_refl _) hzero
      (h.follows.commanded hpins hstart) hsome
    rw [hbegin] at hpass
    have hfits := slots_fit hpins
    obtain ⟨b', hrun, hlog, hrest⟩ := run_pulses hpins hends hpulsing (by omega) hsome (by
      rw [hlength]
      omega)
    have hnext := ih hrest fun c hc => hok c (List.mem_cons_of_mem _ hc)
    rw [List.flatMap_cons, Cycle.inputs, List.cons_append, Machine.log_cons, Machine.out, Machine.next, hpass,
      Machine.log_append, hrun, hnext, schedule, ← hlog]
    rfl

/-! ### From power-up -/

/-- The width of a servo that nothing was written to: the constructor does not trim it. -/
def initialWidth : Int := defaultPulseWidth + trimDuration

/-- Servos made and attached one after the other, with the default range. -/
def setup (pins : List (BitVec 6)) : Board :=
  pins.foldl (fun b pin =>
    let (o, b) := construct b
    (attach pin minPulseWidth maxPulseWidth o b).2) {}

/-- The board before the first interrupt. -/
structure Fresh (pins : List (BitVec 6)) (b : Board) : Prop where
  count : b.servoCount = pins.length
  channel : b.channel = 0
  tcnt : b.tcnt = 0
  ocr : b.ocr = 0
  entry : ∀ c pin, pins[c]? = some pin → entryAt b.servos c = ⟨pin, true, 3000⟩

theorem setup_fresh {pins : List (BitVec 6)} (hpins : pins.length ≤ servosPerTimer) :
    Fresh pins (setup pins) := by
  induction pins using List.reverseRecOn with
  | nil => exact ⟨rfl, rfl, rfl, rfl, nofun⟩
  | append_singleton pins pin ih =>
    rw [List.length_append, List.length_singleton] at hpins
    have h := ih (by omega)
    have hroom : (setup pins).servoCount < servosPerTimer := by
      rw [h.count]
      omega
    have hsetup : setup (pins ++ [pin]) =
        (attach pin minPulseWidth maxPulseWidth (construct (setup pins)).1 (construct (setup pins)).2).2 := by
      rw [setup, List.foldl_append]
      rfl
    rw [hsetup, construct, dif_pos hroom, attach, dif_pos hroom]
    refine ⟨?_, h.channel, ?_, h.ocr, fun c pin' hpin => ?_⟩
    · rw [List.length_append, List.length_singleton, ← h.count]
    · show (if _ then (setup pins).tcnt else 0) = 0
      rw [h.tcnt, ite_self]
    · have hdefault : BitVec.ofInt 16 (usToTicks defaultPulseWidth) = 3000 := by decide
      by_cases hlast : (setup pins).servoCount = c
      · rw [← hlast, h.count, List.getElem?_concat_length] at hpin
        obtain rfl := Option.some.inj hpin
        have hset : ∀ e : Entry, ((setup pins).servos.set _ e hroom).get ⟨_, hroom⟩ = e := by
          intro e
          exact Vector.getElem_set_self hroom
        dsimp only
        rw [← hlast, entryAt, Vector.getElem?_set_self, hset, hdefault]
        rfl
      · have hbefore : pins[c]? = some pin' := by
          rw [h.count] at hlast
          rw [← hpin, List.getElem?_append]
          have hlt : c < (pins ++ [pin]).length := (List.getElem?_eq_some_iff.mp hpin).1
          rw [List.length_append, List.length_singleton] at hlt
          rw [if_pos (by omega)]
        rw [entryAt, Vector.getElem?_set_ne _ hlast, Vector.getElem?_set_ne _ hlast]
        exact h.entry c pin' hbefore

theorem Fresh.follows {pins : List (BitVec 6)} (h : Fresh pins b) :
    Follows pins (fun _ => initialWidth) b.servos := by
  intro c hc
  have hpin := List.getElem?_eq_getElem hc
  rw [h.entry c pins[c] hpin, List.getD, hpin]
  exact ⟨rfl, rfl, (by decide : (3000 : BitVec 16).toNat = pulseTicks initialWidth),
    (by decide : 0 < pulseTicks initialWidth), (by decide : pulseTicks initialWidth ≤ maxTicks)⟩

/-- **The servos' pins, from power-up on.** The first interrupt comes when the count has
gone round, and takes the first servo's pulse for over; from the second servo on everything
is as scheduled, cycle after cycle. -/
theorem servos_scheduled {pins : List (BitVec 6)} (hsome : pins ≠ []) (hpins : pins.length ≤ servosPerTimer)
    {first : Interrupt} {ends : List Interrupt} {cycles : List Cycle}
    (hlength : (first :: ends).length = pins.length) (hok : ∀ i ∈ first :: ends, i.Ok)
    (hcycles : ∀ c ∈ cycles, c.Ok pins.length) :
    let w := asks (fun _ => initialWidth) first
    let begun := 65536 + first.late
    timer.log (setup pins, 0) (first :: ends ++ cycles.flatMap Cycle.inputs) =
      ⟨begun, pins.getD 0 0, .low⟩ :: pulses pins w 1 begun ends ++
        schedule pins (ends.foldl asks w) (max (65536 + refreshTicks) (ending w 1 begun ends + 4))
          cycles := by
  intro w begun
  have h := setup_fresh hpins
  have hpos : 0 < pins.length := List.length_pos_iff.mpr hsome
  have hround : (setup pins).toMatch = 65536 := by rw [Board.toMatch, h.ocr, h.tcnt, if_pos rfl]
  have hcounting : Counting pins (fun _ => initialWidth) 65536 0 0 (setup pins) := by
    refine ⟨h.count, h.channel, by omega, fun late => ?_, h.follows⟩
    have hzero : (0 : BitVec 16) = BitVec.ofNat 16 0 := rfl
    rw [h.tcnt, hround, hzero, ← BitVec.ofNat_add]
    apply BitVec.eq_of_toNat_eq
    rw [BitVec.toNat_ofNat, BitVec.toNat_ofNat]
    omega
  have hfits := slots_fit hpins
  have hlate := (hok first List.mem_cons_self).2
  rw [List.length_cons] at hlength
  have hslot : first.late ≤ slot := Nat.le_trans hlate (by decide)
  have hroom : ends.length * slot + slot = pins.length * slot := by rw [← hlength, Nat.add_one_mul]
  obtain ⟨b', hrun, hlog, hresting⟩ := run_ends hpins (hok first List.mem_cons_self)
    (fun j hj => hok j (List.mem_cons_of_mem _ hj)) hcounting (by omega) (by rw [hround]; omega)
    (by rw [hround, Nat.zero_add] : 0 + (setup pins).toMatch + first.late = begun)
  rw [Machine.log_append, hrun, hlog, run_cycles hpins hpos hresting cycles hcycles]

/-- Two servos: one kept where it is and one turned in its own first pulse, every interrupt
a little late. -/
theorem servos_scheduled_two :
    timer.log (setup [9, 10], 0)
        ([⟨[], 3⟩, ⟨[.write ⟨1, 0, 0⟩ 90], 5⟩] ++ [Cycle.mk ⟨[], 2⟩ [⟨[], 4⟩, ⟨[], 1⟩]].flatMap Cycle.inputs) =
      [⟨65539, 9, .low⟩, ⟨65539, 10, .high⟩, ⟨68544, 10, .low⟩, ⟨105538, 9, .high⟩, ⟨108542, 9, .low⟩,
        ⟨108542, 10, .high⟩, ⟨111483, 10, .low⟩] := by
  have hcycle : (Cycle.mk ⟨[], 2⟩ [⟨[], 4⟩, ⟨[], 1⟩]).Ok 2 :=
    ⟨by simp [Interrupt.Ok], by simp [Interrupt.Ok], rfl⟩
  have hok : ∀ i ∈ [(⟨[], 3⟩ : Interrupt), ⟨[.write ⟨1, 0, 0⟩ 90], 5⟩], i.Ok := by
    simp [Interrupt.Ok, Command.handle]
    unfold Handle.Ranged
    decide
  refine (servos_scheduled (by decide) (by decide) rfl hok fun c hc => ?_).trans (by decide)
  obtain rfl := List.mem_singleton.mp hc
  exact hcycle

end MakerSpace.Servo
