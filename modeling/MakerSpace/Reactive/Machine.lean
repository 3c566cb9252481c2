import Mathlib.Data.List.Induction

/-! Reactive machines: a state, and one pass of a loop at a time.

A pass takes what the outside shows it and the state, and gives the next state
and what it puts out, in order. A *run* is the state after a history of inputs,
the *log* is everything put out on the way, and the *trace* keeps the two apart
pass by pass. Nothing here knows what the loop controls. -/
namespace MakerSpace.Reactive

structure Machine (I S O : Type) where
  pass : I → S → S × List O

namespace Machine
variable {I S T O V : Type}

def next (m : Machine I S O) (i : I) (s : S) : S := (m.pass i s).1

def out (m : Machine I S O) (i : I) (s : S) : List O := (m.pass i s).2

/-- The state after a history of inputs. -/
def run (m : Machine I S O) (s : S) : List I → S
  | [] => s
  | i :: rest => m.run (m.next i s) rest

/-- Everything put out over a history, in order. -/
def log (m : Machine I S O) (s : S) : List I → List O
  | [] => []
  | i :: rest => m.out i s ++ m.log (m.next i s) rest

/-- Pass by pass: what `view` shows of the state after the pass, and the pass's output. -/
def trace (m : Machine I S O) (view : S → V) (s : S) : List I → List (V × List O)
  | [] => []
  | i :: rest => (view (m.next i s), m.out i s) :: m.trace view (m.next i s) rest

/-- The states a run goes through, pass by pass: before and after. -/
def steps (m : Machine I S O) (s : S) : List I → List (S × S)
  | [] => []
  | i :: rest => (s, m.next i s) :: m.steps (m.next i s) rest

/-- Every pass of the run meets `P`, a condition on its input and the state before it. -/
def Along (m : Machine I S O) (P : I → S → Prop) (s : S) : List I → Prop
  | [] => True
  | i :: rest => P i s ∧ m.Along P (m.next i s) rest

@[simp] theorem run_nil (m : Machine I S O) (s : S) : m.run s [] = s := rfl

@[simp] theorem run_cons (m : Machine I S O) (s : S) (i : I) (rest : List I) :
    m.run s (i :: rest) = m.run (m.next i s) rest := rfl

@[simp] theorem log_nil (m : Machine I S O) (s : S) : m.log s [] = [] := rfl

@[simp] theorem log_cons (m : Machine I S O) (s : S) (i : I) (rest : List I) :
    m.log s (i :: rest) = m.out i s ++ m.log (m.next i s) rest := rfl

theorem run_append (m : Machine I S O) (s : S) (a b : List I) :
    m.run s (a ++ b) = m.run (m.run s a) b := by
  induction a generalizing s with
  | nil => rfl
  | cons i rest ih => exact ih _

theorem run_concat (m : Machine I S O) (s : S) (a : List I) (i : I) :
    m.run s (a ++ [i]) = m.next i (m.run s a) := by
  rw [run_append]
  rfl

theorem log_append (m : Machine I S O) (s : S) (a b : List I) :
    m.log s (a ++ b) = m.log s a ++ m.log (m.run s a) b := by
  induction a generalizing s with
  | nil => rfl
  | cons i rest ih => simp only [List.cons_append, log_cons, run_cons, ih, List.append_assoc]

theorem log_concat (m : Machine I S O) (s : S) (a : List I) (i : I) :
    m.log s (a ++ [i]) = m.log s a ++ m.out i (m.run s a) := by
  simp [log_append]

theorem steps_concat (m : Machine I S O) (s : S) (a : List I) (i : I) :
    m.steps s (a ++ [i]) = m.steps s a ++ [(m.run s a, m.next i (m.run s a))] := by
  induction a generalizing s with
  | nil => rfl
  | cons j rest ih => simp only [List.cons_append, steps, run_cons, ih]

/-! ### Invariants -/

/-- What every pass keeps, every run keeps. -/
theorem run_invariant (m : Machine I S O) (inv : S → Prop)
    (keep : ∀ i s, inv s → inv (m.next i s)) (s : S) (h : inv s) (inputs : List I) :
    inv (m.run s inputs) := by
  induction inputs generalizing s with
  | nil => exact h
  | cons i rest ih => exact ih _ (keep i s h)

theorem along_append (m : Machine I S O) (P : I → S → Prop) (s : S) (a b : List I) :
    m.Along P s (a ++ b) ↔ m.Along P s a ∧ m.Along P (m.run s a) b := by
  induction a generalizing s with
  | nil => simp [Along]
  | cons i rest ih => simp only [List.cons_append, Along, run_cons, ih, and_assoc]

theorem along_concat (m : Machine I S O) (P : I → S → Prop) (s : S) (a : List I) (i : I) :
    m.Along P s (a ++ [i]) ↔ m.Along P s a ∧ P i (m.run s a) := by
  simp [along_append, Along]

/-- A condition holds along a run when it holds at each of its passes. -/
theorem along_iff (m : Machine I S O) (P : I → S → Prop) (s : S) (inputs : List I) :
    m.Along P s inputs ↔
      ∀ n (hn : n < inputs.length), P inputs[n] (m.run s (inputs.take n)) := by
  induction inputs generalizing s with
  | nil => simp [Along]
  | cons i rest ih =>
    rw [Along, ih]
    constructor
    · intro hall n hn
      obtain ⟨hi, hrest⟩ := hall
      cases n with
      | zero => exact hi
      | succ n => exact hrest n (by simpa using hn)
    · intro h
      exact ⟨h 0 (by simp), fun n hn => h (n + 1) (by simpa using hn)⟩

/-- Conditions that agree under an invariant, which passes keep while the first
holds, hold along the same runs. `Ok` is what is known of the runs in question. -/
theorem along_congr (m : Machine I S O) (inv : S → Prop) (Ok P Q : I → S → Prop)
    (agree : ∀ i s, inv s → Ok i s → (P i s ↔ Q i s))
    (keep : ∀ i s, inv s → Ok i s → P i s → inv (m.next i s))
    (s : S) (h : inv s) (inputs : List I) (ok : m.Along Ok s inputs) :
    m.Along P s inputs ↔ m.Along Q s inputs := by
  induction inputs generalizing s with
  | nil => rfl
  | cons i rest ih =>
    rw [Along, Along, ← agree i s h ok.1]
    exact and_congr_right fun hP => ih _ (keep i s h ok.1 hP) ok.2

/-! ### Two machines on the same inputs -/

/-- Machines whose passes agree exactly under a condition `P`, and stay related
under it, have equal traces exactly on the runs that meet it throughout. `Ok` is
what is known of the runs in question. -/
theorem trace_eq_iff (a : Machine I S O) (b : Machine I T O) (view : S → V) (view' : T → V)
    (Rel : S → T → Prop) (Ok P : I → S → Prop)
    (agree : ∀ i s t, Rel s t → Ok i s →
      (view (a.next i s) = view' (b.next i t) ∧ a.out i s = b.out i t ↔ P i s))
    (keep : ∀ i s t, Rel s t → Ok i s → P i s → Rel (a.next i s) (b.next i t))
    (s : S) (t : T) (h : Rel s t) (inputs : List I) (ok : a.Along Ok s inputs) :
    a.trace view s inputs = b.trace view' t inputs ↔ a.Along P s inputs := by
  induction inputs generalizing s t with
  | nil => simp [trace, Along]
  | cons i rest ih =>
    simp only [trace, Along, List.cons.injEq, Prod.mk.injEq]
    rw [agree i s t h ok.1]
    exact and_congr_right fun hP => ih _ _ (keep i s t h ok.1 hP) ok.2

/-! ### Passes that can fail

A pass that has no defined behaviour is `none`, and a machine that took one is
stuck there: no later pass brings it back. -/

def ofFallible (f : I → S → Option (S × List O)) : Machine I (Option S) O where
  pass := fun i s => match s.bind (f i) with
    | some (s', o) => (some s', o)
    | none => (none, [])

theorem ofFallible_pass {f : I → S → Option (S × List O)} {i : I} {s s' : S} {o : List O}
    (h : f i s = some (s', o)) : (ofFallible f).pass i (some s) = (some s', o) := by
  simp [ofFallible, h]

theorem ofFallible_next {f : I → S → Option (S × List O)} {i : I} {s s' : S} {o : List O}
    (h : f i s = some (s', o)) : (ofFallible f).next i (some s) = some s' := by
  rw [next, ofFallible_pass h]

theorem ofFallible_out {f : I → S → Option (S × List O)} {i : I} {s s' : S} {o : List O}
    (h : f i s = some (s', o)) : (ofFallible f).out i (some s) = o := by
  rw [out, ofFallible_pass h]

theorem ofFallible_stuck (f : I → S → Option (S × List O)) (inputs : List I) :
    (ofFallible f).run none inputs = none := by
  induction inputs with
  | nil => rfl
  | cons i rest ih => exact ih

/-- A run of passes that can fail is a fold of them. -/
theorem ofFallible_run (f : I → S → Option (S × List O)) (s : S) (inputs : List I) :
    (ofFallible f).run (some s) inputs =
      inputs.foldlM (fun s i => (f i s).map Prod.fst) s := by
  induction inputs generalizing s with
  | nil => rfl
  | cons i rest ih =>
    rw [run_cons, List.foldlM_cons]
    cases h : f i s with
    | none =>
      have hnext : (ofFallible f).next i (some s) = none := by simp [next, ofFallible, h]
      rw [hnext, ofFallible_stuck]
      rfl
    | some r =>
      rw [ofFallible_next h, ih]
      rfl

end Machine

end MakerSpace.Reactive
