import RtacAsio.Service.Model

/-! Whether the keep-alive handlers come to rest, over the whole history of a service. -/

namespace RtacAsio
open Lib

namespace AsyncService

/-- Nothing happens but that `t` executes ready handlers. -/
def OnlyHandles (t : Thread) (_ : AsyncService) (e : ServiceEvent) : Prop := e = .handle t

instance (t : Thread) (s : AsyncService) (e : ServiceEvent) : Decidable (OnlyHandles t s e) :=
  inferInstanceAs (Decidable (_ = _))

/-- After finitely many handlers none is ready, and a wait is pending. -/
def Settles (s : AsyncService) (t : Thread) : Prop :=
  ∃ es s', Steps step (OnlyHandles t) s es s' ∧ s'.timer.ready = [] ∧ 0 < s'.timer.pending

/-- One chain of waits for each run, of which one at most is pending. -/
structure Chained (s : AsyncService) : Prop where
  chains : s.timer.chains = s.armed
  pending : s.timer.pending ≤ 1
  armed : ∀ t, s.pc t = .run .service → 0 < s.armed

variable {s s' : AsyncService} {t : Thread} {e : ServiceEvent}

theorem step_chained (h : Chained s) (taken : s.step e = some s') : Chained s' := by
  obtain ⟨chains, pending, armed⟩ := h
  have idle {u : Thread} {pc : Pc} (other : pc ≠ .run .service) :
      ∀ t, Function.update s.pc u pc t = .run .service → 0 < s.armed := by
    intro t
    by_cases same : t = u
    · subst same
      simp [other]
    · simpa [same] using armed t
  cases step_move taken with
  | runArm u pc =>
    refine ⟨?_, Nat.le_refl _, fun _ _ => Nat.succ_pos _⟩
    simp [goto, chains]
  | handle u timer pc running handled =>
    obtain ⟨same, one⟩ := Timer.handle_chains handled
    exact ⟨same.trans chains, Nat.le_of_eq one, armed⟩
  | expire => exact ⟨by simpa using chains, Nat.zero_le _, armed⟩
  | startSpawn u pc =>
    refine ⟨chains, pending, fun t => ?_⟩
    by_cases same : t = u
    · subst same
      simp [goto]
    · simpa [goto, same] using idle (by simp) t
  | _ => exact ⟨chains, pending, idle (by simp)⟩

theorem reachable_chained {es : List ServiceEvent} (created : s.Created) (run : Steps step Always s es s') :
    Chained s' := by
  have start : Chained s := by
    refine ⟨?_, ?_, fun t running => ?_⟩
    · simp [created.timer, created.armed, Timer.chains]
    · simp [created.timer]
    · simp [created.pc t] at running
  exact run.invariant start fun _ _ _ h _ taken => step_chained h taken

theorem ready_length (h : Chained s) : s.timer.ready.length + s.timer.pending = s.armed := by
  have chains := h.chains
  unfold Timer.chains at chains
  omega

theorem handles_restless {es : List ServiceEvent} (h : Chained s) (again : 2 ≤ s.armed)
    (run : Steps step (OnlyHandles t) s es s') : s'.timer.ready ≠ [] := by
  have kept : Chained s' ∧ 2 ≤ s'.armed := by
    refine run.invariant (P := fun v => Chained v ∧ 2 ≤ v.armed) ⟨h, again⟩ ?_
    rintro v e v' ⟨h, again⟩ rfl taken
    refine ⟨step_chained h taken, ?_⟩
    cases step_move taken with
    | handle => exact again
  intro none
  have count := ready_length kept.1
  have pending := kept.1.pending
  rw [none, List.length_nil] at count
  have two := kept.2
  omega

theorem handles_rest (h : Chained s) (running : s.pc t = .run .service) (open_ : s.stopped = false)
    (first : s.armed = 1) : Settles s t := by
  have count := ready_length h
  have pending := h.pending
  cases ready : s.timer.ready with
  | nil =>
    rw [ready, List.length_nil] at count
    exact ⟨[], s, .refl, ready, by omega⟩
  | cons err rest =>
    rw [ready, List.length_cons] at count
    have empty : rest = [] := List.length_eq_zero_iff.mp (by omega)
    have handled : s.timer.handle = some ({ s.timer with ready := rest }.timerCallback err) := by
      simp [Timer.handle, ready]
    have taken : s.step (.handle t) = some { s with timer := { s.timer with ready := rest }.timerCallback err } := by
      simp [step, running, open_, handled]
    refine ⟨_, _, .single rfl taken, ?_, Nat.one_pos⟩
    have none : s.timer.pending = 0 := by omega
    simp [Timer.timerCallback, Timer.expiresFromNow, Timer.cancel, Timer.asyncWait, none, empty]

/-- While the service runs, its keep-alive handlers come to rest exactly when `run` has armed the
timer once only. -/
theorem keep_alive_settles_iff {es : List ServiceEvent} (created : s.Created) (run : Steps step Always s es s')
    (running : s'.pc t = .run .service) (open_ : s'.stopped = false) : Settles s' t ↔ s'.armed = 1 := by
  have chained := reachable_chained created run
  constructor
  · rintro ⟨es, v, handles, none, _⟩
    have some := chained.armed t running
    by_contra other
    exact handles_restless chained (by omega) handles none
  · exact handles_rest chained running open_

def firstRun : List ServiceEvent :=
  [.run 0, .go (.user 0), .go (.user 0), .go (.user 0)]

theorem keep_alive_settles_first :
    ∃ s, Steps step Always blank firstRun s ∧ Settles s (.user 0) := by
  obtain ⟨s, run, seen⟩ : ∃ s, Steps step Always blank firstRun s ∧
      (s.pc (.user 0), s.stopped, s.armed) = (.run .service, false, 1) := exists_of_exec (by decide)
  simp only [Prod.mk.injEq] at seen
  exact ⟨s, run, (keep_alive_settles_iff blank_created run seen.1 seen.2.1).mpr seen.2.2⟩

/-- A service that is run again after a stop never comes to rest. -/
theorem keep_alive_spins :
    ∃ es s, Steps step Always blank es s ∧ s.pc (.user 0) = .run .service ∧ s.stopped = false ∧
      ¬ Settles s (.user 0) := by
  obtain ⟨s, run, seen⟩ : ∃ s, Steps step Always blank
      (firstRun ++ [.stop 1, .go (.user 1), .go (.user 1), .go (.user 0), .go (.user 0), .go (.user 1)] ++ firstRun) s ∧
      (s.pc (.user 0), s.stopped, s.armed) = (.run .service, false, 2) := exists_of_exec (by decide)
  simp only [Prod.mk.injEq] at seen
  refine ⟨_, s, run, seen.1, seen.2.1, ?_⟩
  rintro ⟨es, v, handles, none, _⟩
  exact handles_restless (reachable_chained blank_created run) (Nat.le_of_eq seen.2.2.symm) handles none

end AsyncService

end RtacAsio
