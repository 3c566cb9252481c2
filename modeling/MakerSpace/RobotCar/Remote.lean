import MakerSpace.InfraRed.Transmission
import MakerSpace.RobotCar.Model

/-! The car behind its receiver.

`loop` calls `IR_Control`, which polls the receiver, steps the car on what was decoded
and resumes the receiver; the interrupt runs in between. What the receiver hands over is
all that reaches the car (`remote_gives`), so a session of frames drives it as its keys
would: `remote_all` when every frame is polled for in time. A key held down steps the car once,
as the repeat frames carry no key. -/
namespace MakerSpace.RobotCar
open Arduino Reactive InfraRed Codec.Wave

variable {n : Nat} (g : Tuning) (others : IrReceiver n → IRData)

/-- One interrupt, or one call of `IR_Control`. -/
def remotePass (i : Input) (s : IrReceiver n × State) :
    Option ((IrReceiver n × State) × List Effect) :=
  match i with
  | .tick mark => (irReceiveTimerInterruptHandler mark s.1).map fun r => ((r, s.2), [])
  | .poll => (decode others s.1).map fun result =>
    if result.1 then
      let controlled := irControl g (some result.2.decodedIRData.decodedRawData) s.2
      ((resume result.2, controlled.1), controlled.2)
    else
      let controlled := irControl g none s.2
      ((result.2, controlled.1), controlled.2)

def remote : Machine Input (Option (IrReceiver n × State)) Effect :=
  Machine.ofFallible (remotePass g others)

/-- The keys of a session: a repeat frame is none. -/
def presses (fs : List Frame) : List (BitVec 32) :=
  fs.filterMap fun
    | .data value => some value
    | .again => none

variable {others}

theorem remotePass_eq {i : Input} {r r' : IrReceiver n} {out : List IRData}
    (h : pass others i r = some (r', out)) (s : State) :
    remotePass g others i (r, s) =
      some ((r', (car g).run s ((keysOf out).map some)), (car g).log s ((keysOf out).map some)) := by
  cases i with
  | tick mark =>
    simp only [InfraRed.pass, Option.map_eq_some_iff, Prod.mk.injEq] at h
    obtain ⟨r₁, hstep, rfl, rfl⟩ := h
    simp only [remotePass, hstep, Option.map_some]
    rfl
  | poll =>
    simp only [InfraRed.pass, Option.map_eq_some_iff] at h
    obtain ⟨result, hdecode, hresult⟩ := h
    simp only [remotePass, hdecode, Option.map_some]
    split at hresult
    · next hdone =>
      obtain ⟨rfl, rfl⟩ := Prod.mk.inj hresult
      rw [if_pos hdone]
      simp only [keysOf, List.map_cons, List.map_nil, Machine.run_cons, Machine.run_nil,
        Machine.log_cons, Machine.log_nil, List.append_nil]
      rfl
    · next hbusy =>
      obtain ⟨rfl, rfl⟩ := Prod.mk.inj hresult
      rw [if_neg hbusy]
      rfl

/-- **The car does what the keys that are read make it do**, and nothing else. -/
theorem remote_gives {inputs : List Input} {r r' : IrReceiver n} {out : List IRData}
    (h : Gives others inputs r out r') (s : State) :
    (remote g others).run (some (r, s)) inputs = some (r', (car g).run s ((keysOf out).map some)) ∧
      (remote g others).log (some (r, s)) inputs = (car g).log s ((keysOf out).map some) := by
  induction inputs generalizing r out s with
  | nil =>
    obtain ⟨hrun, rfl⟩ := h
    obtain rfl := Option.some.inj hrun
    exact ⟨rfl, rfl⟩
  | cons i rest ih =>
    obtain ⟨hrun, hlog⟩ := h
    cases hpass : pass others i r with
    | none =>
      have hstuck : (polled others).next i (some r) = none := by
        simp [polled, Machine.next, Machine.ofFallible, hpass]
      rw [Machine.run_cons, hstuck, polled, Machine.ofFallible_stuck] at hrun
      cases hrun
    | some first =>
      obtain ⟨r₁, early⟩ := first
      rw [Machine.run_cons, polled, Machine.ofFallible_next hpass] at hrun
      rw [Machine.log_cons, polled, Machine.ofFallible_out hpass, Machine.ofFallible_next hpass] at hlog
      obtain ⟨hrest, hlate⟩ := ih ⟨hrun, rfl⟩ ((car g).run s ((keysOf early).map some))
      have hstep := remotePass_eq g hpass s
      rw [← hlog, Machine.run_cons, Machine.log_cons, remote, Machine.ofFallible_next hstep,
        Machine.ofFallible_out hstep, keysOf_append, List.map_append, Machine.run_append,
        Machine.log_append]
      exact ⟨hrest, congrArg _ hlate⟩

/-- A repeat frame leaves the car as it is. -/
theorem car_again (s : State) : (car g).next (some 0) s = s := by
  simp only [Machine.next, car, irControl, handleKey]
  rw [if_neg (by decide), if_neg (by decide), if_neg (by decide), if_neg (by decide), if_neg (by decide)]

/-- What the keys of some frames make of the car is what its presses do. -/
theorem car_presses (fs : List Frame) (s : State) :
    (car g).run s ((fs.map Frame.key).map some) = (car g).run s ((presses fs).map some) := by
  induction fs generalizing s with
  | nil => rfl
  | cons f rest ih =>
    cases f with
    | data value => exact ih _
    | again =>
      rw [List.map_cons, List.map_cons, Machine.run_cons, Frame.key, car_again, ih]
      rfl

/-- **Every press steps the car once**, however long the key is held down: when the sketch
polls in every gap once the frame before it is over, the car ends up where the presses
take it. -/
theorem remote_all (hn : 2 * necBits + 3 < n) (sent : List Sent) {first phase : Nat}
    (hfirst : recordGapMicros + 2 * microsPerTick ≤ first) (hphase : phase < microsPerTick)
    {inputs : List Input}
    (hsamples : samplesIn inputs =
      samples microsPerTick phase false (first :: sent.flatMap Sent.signal))
    (hattentive : Attentive inputs) (s : State) :
    ∃ r, (remote g others).run (some (InfraRed.powerUp n, s)) inputs =
      some (r, (car g).run s ((presses (sent.map Sent.frame)).map some)) := by
  obtain ⟨quiet, rest, c, rfl, hgap, hlong, hheard⟩ := hattentive.heard sent hfirst hphase hsamples
  obtain ⟨r₁, hgives, h₁⟩ := powerUp_spaces others hgap
  obtain ⟨out, r, hgives', hreads⟩ := hheard.all others hn h₁ hlong
  obtain ⟨hrun, -⟩ := remote_gives g (hgives.append hgives') s
  rw [List.nil_append, keysOf_reads hreads, car_presses] at hrun
  exact ⟨r, hrun⟩

/-- Two presses, the first of them held down. -/
theorem remote_all_held :
    ∃ r, (remote {} fun r => r.decodedIRData).run (some (InfraRed.powerUp 200, {}))
        (eager (samples microsPerTick 7 false (9000 :: [onTime (.data irGo), onTime .again,
          onTime .again, onTime (.data irRight)].flatMap Sent.signal))) =
      some (r, ⟨1, 1⟩) :=
  remote_all {} (by decide)
    [onTime (.data irGo), onTime .again, onTime .again, onTime (.data irRight)] (by decide) (by decide)
    (samplesIn_eager _) (eager_attentive _) {}

end MakerSpace.RobotCar
