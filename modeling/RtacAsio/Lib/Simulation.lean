import RtacAsio.Lib.Run

/-!
Forward simulation: a system whose every step is matched by a run of another one, which may have to
show the same. Projection: a system that is another one with something beside it.
-/

namespace RtacAsio.Lib

/-- Every allowed step of `step` is matched by allowed steps of `step'`, or by none. `R` relates the
two runs so far, each by its events and the state they led to. -/
def Simulates (step : σ → ε → Option σ) (ok : σ → ε → Prop) (step' : τ → φ → Option τ) (ok' : τ → φ → Prop)
    (R : List ε → σ → List φ → τ → Prop) : Prop :=
  ∀ es s e s' fs t, R es s fs t → ok s e → step s e = some s' →
    ∃ gs t', Steps step' ok' t gs t' ∧ R (es ++ [e]) s' (fs ++ gs) t'

section Runs
variable {step : σ → ε → Option σ} {ok : σ → ε → Prop} {step' : τ → φ → Option τ} {ok' : τ → φ → Prop}
  {R : List ε → σ → List φ → τ → Prop} {s s' : σ} {t : τ} {es : List ε}

theorem Simulates.run (h : Simulates step ok step' ok' R) (start : R [] s [] t) (run : Steps step ok s es s') :
    ∃ fs t', Steps step' ok' t fs t' ∧ R es s' fs t' := by
  induction run with
  | refl => exact ⟨[], t, .refl, start⟩
  | tail _ allowed taken ih =>
    obtain ⟨fs, u, before, related⟩ := ih
    obtain ⟨gs, t', matched, related'⟩ := h _ _ _ _ _ _ related allowed taken
    exact ⟨fs ++ gs, t', before.append matched, related'⟩

end Runs

/-- Every step of `step` that stays within `I` is matched by a run of `step'` that shows the same. -/
def Mimics (step : σ → ε → Option σ) (view : σ → ε → Option β) (I : σ → Prop) (step' : τ → φ → Option τ)
    (view' : τ → φ → Option β) (R : σ → τ → Prop) : Prop :=
  ∀ s e s' t, R s t → step s e = some s' → I s' → ∃ t', Shows step' view' t (view s e).toList t' ∧ R s' t'

/-- Then all that `step` shows within `I`, `step'` can show. -/
theorem Mimics.run {step : σ → ε → Option σ} {view : σ → ε → Option β} {I : σ → Prop} {step' : τ → φ → Option τ}
    {view' : τ → φ → Option β} {R : σ → τ → Prop} {s s' : σ} {t : τ} {ls : List β} (h : Mimics step view I step' view' R)
    (earlier : ∀ s e s', step s e = some s' → I s' → I s) (start : R s t) (run : Shows step view s ls s') (within : I s') :
    ∃ t', Shows step' view' t ls t' ∧ R s' t' := by
  induction run with
  | refl => exact ⟨t, .refl, start⟩
  | hidden _ taken seen ih =>
    obtain ⟨u, before, related⟩ := ih (earlier _ _ _ taken within)
    obtain ⟨t', matched, related'⟩ := h _ _ _ _ related taken within
    rw [seen] at matched
    exact ⟨t', by simpa using before.append matched, related'⟩
  | shown _ taken seen ih =>
    obtain ⟨u, before, related⟩ := ih (earlier _ _ _ taken within)
    obtain ⟨t', matched, related'⟩ := h _ _ _ _ related taken within
    rw [seen] at matched
    exact ⟨t', before.append matched, related'⟩

/-- A run without a condition on its steps is a fold. -/
theorem steps_iff_foldlM {step : σ → ε → Option σ} {s t : σ} {es : List ε} :
    Steps step Always s es t ↔ es.foldlM step s = some t := by
  constructor
  · intro run
    induction run with
    | refl => rfl
    | tail _ _ taken ih => simp [List.foldlM_append, ih, taken]
  · intro folded
    induction es generalizing s with
    | nil =>
      obtain rfl := Option.some.inj folded
      exact .refl
    | cons e rest ih =>
      rw [List.foldlM_cons] at folded
      obtain ⟨u, taken, later⟩ := Option.bind_eq_some_iff.mp folded
      exact (Steps.single trivial taken).append (ih later)

/-- `view` sees the system of `step'` in that of `step`: the events that it has in common with it do
the same there, and the others are always possible and nothing is seen of them. -/
structure Projects (step : σ → ε → Option σ) (step' : τ → φ → Option τ) (view : σ → τ) (own : ε → Option φ) : Prop where
  shown : ∀ s e f, own e = some f → step' (view s) f = (step s e).map view
  hidden : ∀ s e, own e = none → (step s e).map view = some (view s)

section Projections
variable {step : σ → ε → Option σ} {step' : τ → φ → Option τ} {view : σ → τ} {own : ε → Option φ} {s : σ} {v : τ}
  {es : List ε}

theorem Projects.foldlM (h : Projects step step' view own) (s : σ) (es : List ε) :
    (es.filterMap own).foldlM step' (view s) = (es.foldlM step s).map view := by
  induction es generalizing s with
  | nil => rfl
  | cons e rest ih =>
    rw [List.foldlM_cons]
    cases shown : own e with
    | some f =>
      rw [List.filterMap_cons_some shown, List.foldlM_cons, h.shown s e f shown]
      cases step s e with
      | none => rfl
      | some t => exact ih t
    | none =>
      have kept := h.hidden s e shown
      rw [List.filterMap_cons_none shown]
      cases taken : step s e with
      | none => simp [taken] at kept
      | some t =>
        rw [taken] at kept
        rw [← Option.some.inj kept]
        exact ih t

/-- The runs that are seen are the runs of the other system. -/
theorem Projects.runs_iff (h : Projects step step' view own) :
    Steps step' Always (view s) (es.filterMap own) v ↔ ∃ t, Steps step Always s es t ∧ view t = v := by
  simp only [steps_iff_foldlM, h.foldlM, Option.map_eq_some_iff]

end Projections

end RtacAsio.Lib
