/-! Runs of an executable transition function, labelled by their events. -/

namespace RtacAsio.Lib

/-- `es` leads from `s` to `t` in `step`, and every step was taken where `ok` held. -/
inductive Steps (step : σ → ε → Option σ) (ok : σ → ε → Prop) (s : σ) : List ε → σ → Prop where
  | refl : Steps step ok s [] s
  | tail {es : List ε} {t u : σ} {e : ε} :
      Steps step ok s es t → ok t e → step t e = some u → Steps step ok s (es ++ [e]) u

/-- No condition on the steps. -/
abbrev Always : σ → ε → Prop := fun _ _ => True

/-- The induction of every safety proof: what one step keeps, a run keeps. -/
theorem Steps.invariant {step : σ → ε → Option σ} {ok : σ → ε → Prop} {P : σ → Prop} {s t : σ} {es : List ε}
    (start : P s) (keep : ∀ t e u, P t → ok t e → step t e = some u → P u)
    (h : Steps step ok s es t) : P t := by
  induction h with
  | refl => exact start
  | tail _ allowed taken ih => exact keep _ _ _ ih allowed taken

/-- The same for what relates the events so far to the state they led to. -/
theorem Steps.history {step : σ → ε → Option σ} {ok : σ → ε → Prop} {P : List ε → σ → Prop} {s t : σ} {es : List ε}
    (start : P [] s) (keep : ∀ es t e u, P es t → ok t e → step t e = some u → P (es ++ [e]) u)
    (h : Steps step ok s es t) : P es t := by
  induction h with
  | refl => exact start
  | tail _ allowed taken ih => exact keep _ _ _ _ ih allowed taken

theorem Steps.weaken {step : σ → ε → Option σ} {ok ok' : σ → ε → Prop} {s t : σ} {es : List ε}
    (weaker : ∀ t e, ok t e → ok' t e) (h : Steps step ok s es t) : Steps step ok' s es t := by
  induction h with
  | refl => exact .refl
  | tail _ allowed taken ih => exact ih.tail (weaker _ _ allowed) taken

theorem Steps.append {step : σ → ε → Option σ} {ok : σ → ε → Prop} {s t u : σ} {es fs : List ε}
    (h : Steps step ok s es t) (h' : Steps step ok t fs u) : Steps step ok s (es ++ fs) u := by
  induction h' with
  | refl => simpa using h
  | tail _ allowed taken ih =>
    rw [← List.append_assoc]
    exact ih.tail allowed taken

theorem Steps.single {step : σ → ε → Option σ} {ok : σ → ε → Prop} {s t : σ} {e : ε}
    (allowed : ok s e) (taken : step s e = some t) : Steps step ok s [e] t :=
  Steps.tail .refl allowed taken

/-- Every run comes to `P`: it cannot go on for ever, and where `P` does not hold it can go on. -/
def Completes (step : σ → ε → Option σ) (ok : σ → ε → Prop) (s : σ) (P : σ → Prop) : Prop :=
  ∃ bound, ∀ es t, Steps step ok s es t → es.length ≤ bound ∧ (P t ∨ ∃ e u, ok t e ∧ step t e = some u)

theorem Completes.reaches {step : σ → ε → Option σ} {ok : σ → ε → Prop} {s : σ} {P : σ → Prop}
    (h : Completes step ok s P) : ∃ es t, Steps step ok s es t ∧ P t := by
  obtain ⟨bound, h⟩ := h
  apply Classical.byContradiction
  intro never
  have longer (n : Nat) : ∃ es t, Steps step ok s es t ∧ es.length = n := by
    induction n with
    | zero => exact ⟨[], s, .refl, rfl⟩
    | succ n ih =>
      obtain ⟨es, t, run, length⟩ := ih
      rcases (h es t run).2 with there | ⟨e, u, allowed, taken⟩
      · exact (never ⟨es, t, run, there⟩).elim
      · exact ⟨es ++ [e], u, run.tail allowed taken, by simp [length]⟩
  obtain ⟨es, t, run, length⟩ := longer (bound + 1)
  have short := (h es t run).1
  omega

/-- A measure that every step from a state of the invariant lowers, where one is left to be taken. -/
theorem completes_of_measure {step : σ → ε → Option σ} {ok : σ → ε → Prop} {s : σ} {P I : σ → Prop} (μ : σ → Nat)
    (start : I s) (less : ∀ t e u, I t → ok t e → step t e = some u → I u ∧ μ u < μ t)
    (goes : ∀ t, I t → P t ∨ ∃ e u, ok t e ∧ step t e = some u) : Completes step ok s P := by
  refine ⟨μ s, fun es t run => ?_⟩
  have kept : I t ∧ es.length + μ t ≤ μ s := by
    refine run.history (P := fun es t => I t ∧ es.length + μ t ≤ μ s) ⟨start, by simp⟩ ?_
    rintro es t e u ⟨holds, bound⟩ allowed taken
    obtain ⟨holds', lower⟩ := less t e u holds allowed taken
    refine ⟨holds', ?_⟩
    rw [List.length_append, List.length_singleton]
    omega
  obtain ⟨holds, bound⟩ := kept
  exact ⟨by omega, goes t holds⟩

/-- A run, with the number of its steps that are not `idle`. -/
inductive Works (step : σ → ε → Option σ) (ok idle : σ → ε → Prop) (s : σ) : Nat → σ → Prop where
  | refl : Works step ok idle s 0 s
  | idle {n : Nat} {t u : σ} {e : ε} :
      Works step ok idle s n t → ok t e → idle t e → step t e = some u → Works step ok idle s n u
  | work {n : Nat} {t u : σ} {e : ε} :
      Works step ok idle s n t → ok t e → ¬ idle t e → step t e = some u → Works step ok idle s (n + 1) u

/-- Every run comes to `P` unless it is `idle` for ever: it cannot work for ever, and where `P` does
not hold it can come to work. -/
def Advances (step : σ → ε → Option σ) (ok idle : σ → ε → Prop) (s : σ) (P : σ → Prop) : Prop :=
  ∃ bound, ∀ n t, Works step ok idle s n t → n ≤ bound ∧ (P t ∨ ∃ u, Works step ok idle t 1 u)

theorem Works.one {step : σ → ε → Option σ} {ok idle : σ → ε → Prop} {s t : σ} {e : ε} (allowed : ok s e) (busy : ¬ idle s e)
    (taken : step s e = some t) : Works step ok idle s 1 t :=
  .work .refl allowed busy taken

/-- A measure that every step lowers, and an idle one does not raise. -/
theorem advances_of_measure {step : σ → ε → Option σ} {ok idle : σ → ε → Prop} {s : σ} {P I : σ → Prop} (μ : σ → Nat)
    (start : I s) (less : ∀ t e u, I t → ok t e → step t e = some u → I u ∧ μ u ≤ μ t ∧ (¬ idle t e → μ u < μ t))
    (goes : ∀ t, I t → P t ∨ ∃ u, Works step ok idle t 1 u) : Advances step ok idle s P := by
  refine ⟨μ s, fun n t run => ?_⟩
  have kept : I t ∧ n + μ t ≤ μ s := by
    induction run with
    | refl => exact ⟨start, by simp⟩
    | idle _ allowed _ taken ih =>
      obtain ⟨holds, lower, _⟩ := less _ _ _ ih.1 allowed taken
      exact ⟨holds, by omega⟩
    | work _ allowed busy taken ih =>
      obtain ⟨holds, _, lower⟩ := less _ _ _ ih.1 allowed taken
      have lower := lower busy
      exact ⟨holds, by omega⟩
  exact ⟨by omega, goes t kept.1⟩

/-- A run with what `view` shows of it: the steps of which it shows nothing are hidden. -/
inductive Shows (step : σ → ε → Option σ) (view : σ → ε → Option β) (s : σ) : List β → σ → Prop where
  | refl : Shows step view s [] s
  | hidden {ls : List β} {t u : σ} {e : ε} :
      Shows step view s ls t → step t e = some u → view t e = none → Shows step view s ls u
  | shown {ls : List β} {t u : σ} {e : ε} {l : β} :
      Shows step view s ls t → step t e = some u → view t e = some l → Shows step view s (ls ++ [l]) u

theorem Steps.shows {step : σ → ε → Option σ} {ok : σ → ε → Prop} {s t : σ} {es : List ε}
    (h : Steps step ok s es t) (view : σ → ε → Option β) : ∃ ls, Shows step view s ls t := by
  induction h with
  | refl => exact ⟨[], .refl⟩
  | @tail _ t _ e _ _ taken ih =>
    obtain ⟨ls, shows⟩ := ih
    cases seen : view t e with
    | none => exact ⟨ls, shows.hidden taken seen⟩
    | some l => exact ⟨ls ++ [l], shows.shown taken seen⟩

section Shows
variable {step : σ → ε → Option σ} {view : σ → ε → Option β} {s t u : σ} {e : ε} {l : β} {ls ms : List β}

theorem Shows.append (h : Shows step view s ls t) (h' : Shows step view t ms u) : Shows step view s (ls ++ ms) u := by
  induction h' with
  | refl => simpa using h
  | hidden _ taken seen ih => exact ih.hidden taken seen
  | shown _ taken seen ih =>
    rw [← List.append_assoc]
    exact ih.shown taken seen

theorem Shows.hidden_first (taken : step s e = some t) (seen : view s e = none) (rest : Shows step view t ls u) :
    Shows step view s ls u :=
  (Shows.refl.hidden taken seen).append rest

theorem Shows.shown_first (taken : step s e = some t) (seen : view s e = some l) (rest : Shows step view t ls u) :
    Shows step view s (l :: ls) u :=
  (Shows.refl.shown taken seen).append rest

end Shows

/-- What a run shows decides all that is kept by an abstraction which the hidden steps leave as it
is, and which the others move by what they show. -/
theorem Shows.decides {step : σ → ε → Option σ} {view : σ → ε → Option β} {R : σ → τ → Prop} {next : τ → β → τ}
    {s t : σ} {ls : List β} {a : τ} (start : R s a)
    (hidden : ∀ t e u a, R t a → step t e = some u → view t e = none → R u a)
    (shown : ∀ t e u l a, R t a → step t e = some u → view t e = some l → R u (next a l))
    (h : Shows step view s ls t) : R t (ls.foldl next a) := by
  induction h with
  | refl => exact start
  | hidden _ taken seen ih => exact hidden _ _ _ _ ih taken seen
  | shown _ taken seen ih =>
    rw [List.foldl_append, List.foldl_cons, List.foldl_nil]
    exact shown _ _ _ _ _ ih taken seen

/-- Executes a list of events; `none` as soon as one of them is not enabled or not allowed. -/
def exec (step : σ → ε → Option σ) (ok : σ → ε → Prop) [∀ s e, Decidable (ok s e)] (s : σ) : List ε → Option σ
  | [] => some s
  | e :: rest => if ok s e then (step s e).bind fun t => exec step ok t rest else none

theorem steps_of_exec {step : σ → ε → Option σ} {ok : σ → ε → Prop} [∀ s e, Decidable (ok s e)]
    {s t : σ} {es : List ε} (h : exec step ok s es = some t) : Steps step ok s es t := by
  induction es generalizing s with
  | nil =>
    obtain rfl := Option.some.inj h
    exact .refl
  | cons e rest ih =>
    simp only [exec, Option.ite_none_right_eq_some] at h
    obtain ⟨allowed, h⟩ := h
    obtain ⟨u, taken, later⟩ := Option.bind_eq_some_iff.mp h
    exact (Steps.single allowed taken).append (ih later)

/-- A computed run as a run, with what was observed of its last state. -/
theorem exists_of_exec {step : σ → ε → Option σ} {ok : σ → ε → Prop} [∀ s e, Decidable (ok s e)]
    {s : σ} {es : List ε} {observe : σ → β} {seen : β}
    (h : (exec step ok s es).map observe = some seen) :
    ∃ t, Steps step ok s es t ∧ observe t = seen := by
  obtain ⟨t, ran, observed⟩ := Option.map_eq_some_iff.mp h
  exact ⟨t, steps_of_exec ran, observed⟩

end RtacAsio.Lib
