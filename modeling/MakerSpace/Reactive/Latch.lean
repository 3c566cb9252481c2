import MakerSpace.Reactive.Machine

/-! Set/reset latches over whole histories.

A latch is set by some inputs, reset by others, and holds in between. Over a
history its value is a closed statement about the history alone: some input set
it, and nothing since has reset it. `Machine.latched` says so of any machine
whose passes treat some predicate on its state that way. -/
namespace MakerSpace.Reactive

variable {A B I S O : Type}

/-- Some input of the history sets, and neither it nor any later one resets. -/
def Latched (set reset : A → Prop) (history : List A) : Prop :=
  ∃ k, ∃ hk : k < history.length, set history[k] ∧
    ∀ j (hj : j < history.length), k ≤ j → ¬reset history[j]

theorem not_latched_nil (set reset : A → Prop) : ¬Latched set reset [] := by
  intro hset
  obtain ⟨k, hk, -⟩ := hset
  simp at hk

/-- One more input: it must not reset, and it sets or finds the latch set. -/
theorem latched_concat (set reset : A → Prop) (history : List A) (a : A) :
    Latched set reset (history ++ [a]) ↔ ¬reset a ∧ (set a ∨ Latched set reset history) := by
  have hlen : history.length < (history ++ [a]).length := by simp
  have hlast : (history ++ [a])[history.length] = a := by simp
  constructor
  · intro hlatched
    obtain ⟨k, hk, hset, hkeep⟩ := hlatched
    rw [List.length_append, List.length_singleton] at hk
    refine ⟨hlast ▸ hkeep history.length hlen (by omega), ?_⟩
    rcases Nat.lt_or_ge k history.length with hlt | hge
    · rw [List.getElem_append_left hlt] at hset
      refine .inr ⟨k, hlt, hset, fun j hj hkj => ?_⟩
      have := hkeep j (by simp; omega) hkj
      rwa [List.getElem_append_left hj] at this
    · obtain rfl : k = history.length := by omega
      exact .inl (hlast ▸ hset)
  · intro hnow
    obtain ⟨hreset, hset | ⟨k, hk, hset, hkeep⟩⟩ := hnow
    · refine ⟨history.length, hlen, by rwa [hlast], fun j hj hkj => ?_⟩
      obtain rfl : j = history.length := by simp at hj; omega
      rwa [hlast]
    · refine ⟨k, by simp; omega, by rwa [List.getElem_append_left hk], fun j hj hkj => ?_⟩
      rcases Nat.lt_or_ge j history.length with hlt | hge
      · rw [List.getElem_append_left hlt]
        exact hkeep j hlt hkj
      · obtain rfl : j = history.length := by simp at hj; omega
        rwa [hlast]

/-- Only what set and reset read of each input matters. -/
theorem latched_map (f : A → B) (set reset : B → Prop) (history : List A) :
    Latched set reset (history.map f) ↔
      Latched (fun a => set (f a)) (fun a => reset (f a)) history := by
  simp [Latched]

/-- A predicate on the state that every pass clears on reset, raises on set and
otherwise leaves alone is, after any history, whether the history latched. -/
theorem Machine.latched (m : Machine I S O) (on : S → Prop) (set reset : I → Prop)
    (inv : S → Prop) (keep : ∀ i s, inv s → inv (m.next i s))
    (latch : ∀ i s, inv s → (on (m.next i s) ↔ ¬reset i ∧ (set i ∨ on s)))
    (s : S) (h : inv s) (hoff : ¬on s) (inputs : List I) :
    on (m.run s inputs) ↔ Latched set reset inputs := by
  induction inputs using List.reverseRecOn with
  | nil => exact iff_of_false hoff (not_latched_nil set reset)
  | append_singleton history i ih =>
    rw [m.run_concat, latched_concat, latch i _ (m.run_invariant inv keep s h history), ih]

end MakerSpace.Reactive
