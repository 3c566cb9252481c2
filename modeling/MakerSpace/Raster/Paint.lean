import Mathlib.Data.List.Basic

/-! Painting.

A picture gives each place a value. `Paints f S a b`: picture `b` is `a` with `f` done at
every place of the region `S` and nothing anywhere else. Strokes on disjoint regions
paint their union (`paints_foldlM`). Nothing here knows how a picture is stored. -/
namespace MakerSpace.Raster

variable {ι α σ τ : Type}

structure Paints (f : ι → α → α) (S : ι → Prop) (a b : ι → α) : Prop where
  inside : ∀ i, S i → b i = f i (a i)
  outside : ∀ i, ¬S i → b i = a i

variable {f g : ι → α → α} {S T : ι → Prop} {a b c : ι → α}

theorem Paints.nothing (f : ι → α → α) (hS : ∀ i, ¬S i) (a : ι → α) : Paints f S a a :=
  ⟨fun i hi => absurd hi (hS i), fun _ _ => rfl⟩

theorem Paints.congr (h : Paints f S a b) (hST : ∀ i, S i ↔ T i) (hfg : ∀ i, S i → f i = g i) :
    Paints g T a b :=
  ⟨fun i hi => by rw [h.inside i ((hST i).mpr hi), hfg i ((hST i).mpr hi)],
    fun i hi => h.outside i fun hS => hi ((hST i).mp hS)⟩

theorem Paints.union (hab : Paints f S a b) (hbc : Paints f T b c) (hdisjoint : ∀ i, S i → ¬T i) :
    Paints f (fun i => S i ∨ T i) a c where
  inside := fun i hi => by
    rcases hi with hS | hT
    · rw [hbc.outside i (hdisjoint i hS), hab.inside i hS]
    · rw [hbc.inside i hT, hab.outside i fun hS => hdisjoint i hS hT]
  outside := fun i hi => by
    rw [hbc.outside i fun hT => hi (.inr hT), hab.outside i fun hS => hi (.inl hS)]

/-- What is painted where is all there is to the result. -/
theorem Paints.unique (h : Paints f S a b) (h' : Paints f S a c) : b = c := by
  funext i
  by_cases hi : S i
  · rw [h.inside i hi, h'.inside i hi]
  · rw [h.outside i hi, h'.outside i hi]

/-- **Strokes** on disjoint regions paint the union of the regions, and none of them fails. -/
theorem paints_foldlM (view : σ → ι → α) (stroke : τ → σ → Option σ) (region : τ → ι → Prop)
    (strokes : List τ)
    (hstroke : ∀ t ∈ strokes, ∀ s, ∃ s', stroke t s = some s' ∧ Paints f (region t) (view s) (view s'))
    (hdisjoint : strokes.Pairwise fun t u => ∀ i, region t i → ¬region u i) (s : σ) :
    ∃ s', strokes.foldlM (fun s t => stroke t s) s = some s' ∧
      Paints f (fun i => ∃ t ∈ strokes, region t i) (view s) (view s') := by
  induction strokes generalizing s with
  | nil => exact ⟨s, rfl, .nothing f (fun i hi => by simp at hi) _⟩
  | cons t rest ih =>
    obtain ⟨hfirst, hdisjoint⟩ := List.pairwise_cons.mp hdisjoint
    obtain ⟨s₁, hs₁, hpaint⟩ := hstroke t List.mem_cons_self s
    obtain ⟨s', hs', hrest⟩ := ih (fun u hu => hstroke u (List.mem_cons_of_mem t hu)) hdisjoint s₁
    refine ⟨s', ?_, (hpaint.union hrest ?_).congr ?_ fun _ _ => rfl⟩
    · rw [List.foldlM_cons, hs₁]
      exact hs'
    · intro i hi hlater
      obtain ⟨u, hu, hregion⟩ := hlater
      exact hfirst u hu i hi hregion
    · intro i
      simp

end MakerSpace.Raster
