import RtacAsio.Service.Model

/-! Whether `start` can wait for ever: one `start`, the worker it spawns, and calls of `run`. -/

namespace RtacAsio
open Lib

/-- Inside `waitStart_.wait`. -/
def StartPc.waits : StartPc → Bool
  | .test | .blocked | .relock => true
  | _ => false

namespace AsyncService

/-- `start` is called once, `run` by any number of threads, and `stop` not at all. -/
def StartAndRun (s : AsyncService) : ServiceEvent → Prop
  | .start _ => s.calls = 0
  | .stop _ => False
  | _ => True

instance (s : AsyncService) (e : ServiceEvent) : Decidable (StartAndRun s e) :=
  match e with
  | .start _ => inferInstanceAs (Decidable (s.calls = 0))
  | .stop _ => inferInstanceAs (Decidable False)
  | .run _ | .go _ | .wake _ | .handle _ | .expire => inferInstanceAs (Decidable True)

/-- The worker does not return early from `run` while the flag it should have set is clear. -/
def WorkerNotifies (s : AsyncService) : ServiceEvent → Prop
  | .go t => s.thread.map .worker = some t → s.pc t = .run .notify → s.isRunning = true → s.waiterWasNotified = true
  | _ => True

instance (s : AsyncService) (e : ServiceEvent) : Decidable (WorkerNotifies s e) :=
  match e with
  | .go t => inferInstanceAs
      (Decidable (s.thread.map .worker = some t → s.pc t = .run .notify → s.isRunning = true → s.waiterWasNotified = true))
  | .start _ | .stop _ | .run _ | .wake _ | .handle _ | .expire => inferInstanceAs (Decidable True)

/-- `start` waits for a worker that has returned, and nobody is left to notify it. -/
structure Stranded (s : AsyncService) : Prop where
  waiting : ∃ t at_, s.pc t = .start at_ ∧ at_.waits = true
  unset : s.waiterWasNotified = false
  returned : ∃ k, s.thread = some k ∧ s.pc (.worker k) = .idle
  nobody : ∀ t, s.pc t ≠ .run .notify

/-- The invariant: the worker that `start` waits for is about to notify it, or somebody has. -/
structure Watched (s : AsyncService) : Prop where
  first : s.calls = 0 → ∀ t at_, s.pc t ≠ .start at_
  only : ∀ t u at_ at_', s.pc t = .start at_ → s.pc u = .start at_' → t = u
  user : ∀ t at_, s.pc t = .start at_ → ∃ n, t = .user n
  stops : ∀ t at_, s.pc t ≠ .stop at_
  held : ∀ t at_, s.pc t = .start at_ → at_ = .spawn ∨ at_ = .unnotify → s.waitMutex = some t
  spawned : ∀ t, s.pc t = .start .unnotify → ∃ k, s.thread = some k ∧ s.pc (.worker k) = .run .notify
  waits : ∀ t at_, s.pc t = .start at_ → at_.waits = true →
    ∃ k, s.thread = some k ∧ (s.waiterWasNotified = true ∨ s.pc (.worker k) = .run .notify)

section Proofs
variable {s s' : AsyncService} {e : ServiceEvent} {t : Thread}

/-- A step of a thread in `run`, or one that calls it. -/
theorem Watched.runs {next : Pc} (h : Watched s) (start : ∀ at_, next ≠ .start at_) (stop : ∀ at_, next ≠ .stop at_)
    (pc : s'.pc = Function.update s.pc t next) (calls : s'.calls = s.calls) (thread : s'.thread = s.thread)
    (waitMutex : s'.waitMutex = s.waitMutex) (flag : s.waiterWasNotified = true → s'.waiterWasNotified = true)
    (locked : s.pc t = .run .notify → s.waitMutex = none)
    (tells : s.pc t = .run .notify → s.thread.map .worker = some t → s'.waiterWasNotified = true) : Watched s' := by
  have before : ∀ u at_, s'.pc u = .start at_ → s.pc u = .start at_ := by
    intro u at_ now
    by_cases own : u = t
    · rw [own, pc, Function.update_self] at now
      exact (start at_ now).elim
    · rwa [pc, Function.update_of_ne own] at now
  refine ⟨?_, ?_, ?_, ?_, ?_, ?_, ?_⟩
  · intro none u at_ now
    exact h.first (calls ▸ none) u at_ (before u at_ now)
  · intro u v at_ at_' now now'
    exact h.only u v at_ at_' (before u at_ now) (before v at_' now')
  · intro u at_ now
    exact h.user u at_ (before u at_ now)
  · intro u at_
    rw [pc]
    by_cases own : u = t
    · rw [own, Function.update_self]
      exact stop at_
    · rw [Function.update_of_ne own]
      exact h.stops u at_
  · intro u at_ now early
    exact waitMutex.trans (h.held u at_ (before u at_ now) early)
  · intro u now
    obtain ⟨k, worker, at_⟩ := h.spawned u (before u _ now)
    have held := h.held u _ (before u _ now) (Or.inr rfl)
    have apart : (.worker k : Thread) ≠ t := by
      rintro rfl
      simp [held] at locked
      exact locked at_
    exact ⟨k, thread.trans worker, by rw [pc, Function.update_of_ne apart, at_]⟩
  · intro u at_ now waits
    obtain ⟨k, worker, set | at_'⟩ := h.waits u at_ (before u at_ now) waits
    · exact ⟨k, thread.trans worker, Or.inl (flag set)⟩
    · refine ⟨k, thread.trans worker, ?_⟩
      by_cases same : (.worker k : Thread) = t
      · subst same
        exact Or.inl (tells at_' (by rw [worker]; rfl))
      · exact Or.inr (by rw [pc, Function.update_of_ne same, at_'])

/-- A step of the thread in `start`. -/
theorem Watched.starts {at_ : StartPc} {next : Pc} (h : Watched s) (was : s.pc t = .start at_)
    (pc : s'.pc t = next) (stop : ∀ at_, next ≠ .stop at_)
    (others : ∀ u, u ≠ t → s'.pc u = s.pc u ∨ s'.pc u = .run .notify) (calls : s'.calls = s.calls)
    (held : ∀ at_, next = .start at_ → at_ = .spawn ∨ at_ = .unnotify → s'.waitMutex = some t)
    (spawned : next = .start .unnotify → ∃ k, s'.thread = some k ∧ s'.pc (.worker k) = .run .notify)
    (waits : ∀ at_, next = .start at_ → at_.waits = true →
      ∃ k, s'.thread = some k ∧ (s'.waiterWasNotified = true ∨ s'.pc (.worker k) = .run .notify)) : Watched s' := by
  have before : ∀ u at_, s'.pc u = .start at_ → u = t ∧ next = .start at_ := by
    intro u at_' now
    by_cases own : u = t
    · rw [own, pc] at now
      exact ⟨own, now⟩
    · rcases others u own with same | runs
      · exact (own (h.only u t at_' at_ (same ▸ now) was)).elim
      · simp [runs] at now
  refine ⟨?_, ?_, ?_, ?_, ?_, ?_, ?_⟩
  · intro none
    exact (h.first (calls ▸ none) t at_ was).elim
  · intro u v at_ at_' now now'
    exact (before u at_ now).1.trans (before v at_' now').1.symm
  · intro u at_' now
    exact (before u at_' now).1 ▸ h.user t at_ was
  · intro u at_'
    by_cases own : u = t
    · rw [own, pc]
      exact stop at_'
    · rcases others u own with same | runs
      · rw [same]
        exact h.stops u at_'
      · simp [runs]
  · intro u at_' now early
    obtain ⟨rfl, eq⟩ := before u at_' now
    exact held at_' eq early
  · intro u now
    exact spawned (before u _ now).2
  · intro u at_' now
    exact waits at_' (before u at_' now).2

/-- The same when the step does not touch the worker. -/
theorem Watched.start {at_ : StartPc} {next : Pc} (h : Watched s) (was : s.pc t = .start at_)
    (pc : s'.pc = Function.update s.pc t next) (calls : s'.calls = s.calls) (stop : ∀ at_, next ≠ .stop at_)
    (held : next = .start .spawn → s'.waitMutex = some t) (unnotify : next ≠ .start .unnotify)
    (waits : ∀ at_', next = .start at_' → at_'.waits = true → s'.thread = s.thread ∧
      (at_.waits = true ∧ s'.waiterWasNotified = s.waiterWasNotified ∨ at_ = .unnotify)) : Watched s' := by
  refine h.starts was (by rw [pc, Function.update_self]) stop
    (fun u other => Or.inl ?_) calls ?_ (fun eq => (unnotify eq).elim) ?_
  · rw [pc, Function.update_of_ne other]
  · rintro at_' eq (rfl | rfl)
    · exact held eq
    · exact (unnotify eq).elim
  · intro at_' eq inside
    obtain ⟨n, rfl⟩ := h.user t at_ was
    have same : ∀ k, s'.pc (.worker k) = s.pc (.worker k) := fun k => by rw [pc, Function.update_of_ne (by simp)]
    simp only [same]
    obtain ⟨thread, ⟨waits, flag⟩ | rfl⟩ := waits at_' eq inside
    · rw [thread, flag]
      exact h.waits _ at_ was waits
    · obtain ⟨k, worker, at_⟩ := h.spawned _ was
      exact ⟨k, thread.trans worker, Or.inr at_⟩

theorem spawn_watched (h : Watched s) (was : s.pc t = .start .spawn) :
    Watched ({ s with thread := some s.spawned, spawned := s.spawned + 1 }.goto (.worker s.spawned) (.run .notify)
      |>.goto t (.start .unnotify)) := by
  obtain ⟨n, rfl⟩ := h.user t _ was
  refine h.starts was (show _ = Pc.start .unnotify by simp) (by simp) (fun u other => ?_) rfl ?_ ?_ ?_
  · by_cases worker : u = .worker s.spawned
    · exact Or.inr (by simp [worker])
    · exact Or.inl (by simp [other, worker])
  · exact fun _ _ _ => h.held _ _ was (Or.inl rfl)
  · exact fun _ => ⟨s.spawned, rfl, by simp⟩
  · rintro at_ eq waits
    obtain rfl := Pc.start.inj eq
    cases waits

theorem call_watched (h : Watched s) (first : s.calls = 0) {n : Nat} :
    Watched ({ s with calls := s.calls + 1 }.goto (.user n) (.start .lock)) := by
  have before : ∀ u at_, Function.update s.pc (.user n) (.start .lock) u = .start at_ → u = .user n ∧ at_ = .lock := by
    intro u at_ now
    by_cases own : u = .user n
    · rw [own, Function.update_self] at now
      exact ⟨own, (Pc.start.inj now).symm⟩
    · rw [Function.update_of_ne own] at now
      exact (h.first first u at_ now).elim
  refine ⟨by simp [goto], ?_, ?_, ?_, ?_, ?_, ?_⟩
  · intro u v at_ at_' now now'
    exact (before u at_ now).1.trans (before v at_' now').1.symm
  · exact fun u at_ now => ⟨n, (before u at_ now).1⟩
  · intro u at_
    by_cases own : u = .user n
    · simp [own]
    · simpa [own] using h.stops u at_
  · rintro u at_ now (rfl | rfl) <;> cases (before u _ now).2
  · intro u now
    cases (before u _ now).2
  · intro u at_ now waits
    obtain rfl := (before u at_ now).2
    cases waits

theorem step_watched (h : Watched s) (allowed : StartAndRun s e ∧ WorkerNotifies s e) (taken : s.step e = some s') :
    Watched s' := by
  obtain ⟨scenario, notifies⟩ := allowed
  cases step_move taken with
  | start n pc => exact call_watched h scenario
  | stop n => exact scenario.elim
  | run n pc =>
    exact h.runs (t := .user n) (by simp) (by simp) rfl rfl rfl rfl id (by simp [pc]) (by simp [pc])
  | startLock t pc | startAgain t pc | startFirst t pc | startStop t pc | startJoin t _ pc =>
    exact h.start pc rfl rfl (by simp) (by simp) (by simp) (by rintro _ ⟨⟩ ⟨⟩)
  | startRunning t pc | startNotified t pc => exact h.start pc rfl rfl (by simp) (by simp) (by simp) (by simp)
  | startWaitLock t pc => exact h.start pc rfl rfl (by simp) (fun _ => rfl) (by simp) (by rintro _ ⟨⟩ ⟨⟩)
  | startSpawn t pc => exact spawn_watched h pc
  | startUnnotify t pc => exact h.start pc rfl rfl (by simp) (by simp) (by simp) fun _ _ _ => ⟨rfl, Or.inr rfl⟩
  | startWait t pc | startRelock t pc | wake t pc =>
    exact h.start pc rfl rfl (by simp) (by simp) (by simp) fun _ _ _ => ⟨rfl, Or.inl ⟨rfl, rfl⟩⟩
  | stopLock t pc | stopService t pc | stopNothing t pc | stopJoin t _ pc => exact (h.stops t _ pc).elim
  | runBusy t pc free running =>
    exact h.runs (t := t) (by simp) (by simp) rfl rfl rfl rfl id (fun _ => free) fun at_ worker =>
      notifies worker at_ running
  | runNotify t pc free => exact h.runs (t := t) (by simp) (by simp) rfl rfl rfl rfl (fun _ => rfl) (fun _ => free) fun _ _ => rfl
  | runRestart t pc | runArm t pc | runReturn t pc | runLeave t pc =>
    exact h.runs (t := t) (by simp) (by simp) rfl rfl rfl rfl id (by simp [pc]) (by simp [pc])
  | handle | expire => exact ⟨h.first, h.only, h.user, h.stops, h.held, h.spawned, h.waits⟩

theorem idle_watched (idle : ∀ t, s.pc t = .idle) : Watched s := by
  refine ⟨?_, ?_, ?_, ?_, ?_, ?_, ?_⟩ <;> simp [idle]

theorem not_stranded (h : Watched s) : ¬ Stranded s := by
  rintro ⟨⟨t, at_, pc, waits⟩, unset, _, nobody⟩
  obtain ⟨k, _, set | at_'⟩ := h.waits t at_ pc waits
  · exact Bool.false_ne_true (unset.symm.trans set)
  · exact nobody _ at_'

end Proofs

/-- `start` is not left waiting, as long as its worker does not find another thread in `run` and the
flag clear. -/
theorem start_not_stranded {s s' : AsyncService} {es : List ServiceEvent} (idle : ∀ t, s.pc t = .idle)
    (run : Steps step (fun s e => StartAndRun s e ∧ WorkerNotifies s e) s es s') : ¬ Stranded s' :=
  not_stranded (run.invariant (idle_watched idle) fun _ _ _ h allowed taken => step_watched h allowed taken)

/-- A worker that returns early with the flag clear leaves `start` waiting, unless some other
thread is about to enter `run`. -/
theorem stranded_of_early_return {s : AsyncService} {t : Thread} {at_ : StartPc} {k : Nat} (waiting : s.pc t = .start at_)
    (waits : at_.waits = true) (unset : s.waiterWasNotified = false) (worker : s.thread = some k)
    (pc : s.pc (.worker k) = .run .notify) (free : s.waitMutex = none) (running : s.isRunning = true)
    (last : ∀ u, s.pc u = .run .notify → u = .worker k) :
    ∃ s', s.step (.go (.worker k)) = some s' ∧ Stranded s' := by
  refine ⟨s.goto (.worker k) .idle, by simp [step, pc, runStep, free, running], ?_, unset, ⟨k, worker, by simp⟩, ?_⟩
  · have apart : t ≠ .worker k := by
      rintro rfl
      simp [pc] at waiting
    exact ⟨t, at_, by rw [goto_pc, Function.update_of_ne apart, waiting], waits⟩
  · intro u at_'
    by_cases own : u = .worker k
    · simp [own] at at_'
    · rw [goto_pc, Function.update_of_ne own] at at_'
      exact own (last u at_')

/-- Another thread enters `run` while `start` waits, and the worker finds it there. -/
theorem start_not_stranded_beside :
    ∃ es s, Steps step StartAndRun blank es s ∧ s.pc (.user 0) = .start .blocked ∧ s.pc (.worker 0) = .idle ∧
      ¬ Stranded s := by
  obtain ⟨s, run, seen⟩ : ∃ s, Steps step (fun s e => StartAndRun s e ∧ WorkerNotifies s e) blank
      [.start 0, .go (.user 0), .go (.user 0), .go (.user 0), .go (.user 0), .run 1, .go (.user 0), .go (.user 0),
        .go (.user 1), .go (.worker 0)] s ∧
      (s.pc (.user 0), s.pc (.worker 0)) = (.start .blocked, .idle) := exists_of_exec (by decide)
  simp only [Prod.mk.injEq] at seen
  exact ⟨_, s, run.weaken fun _ _ => And.left, seen.1, seen.2, start_not_stranded (fun _ => rfl) run⟩

/-- Another thread enters `run` after `start` has found `isRunning_` clear and before it locks
`waitMutex_`. -/
theorem start_stranded : ∃ es s, Steps step StartAndRun blank es s ∧ Stranded s := by
  have ran : exec step StartAndRun blank
      [.start 0, .go (.user 0), .go (.user 0), .run 1, .go (.user 1), .go (.user 0), .go (.user 0), .go (.user 0),
        .go (.user 0), .go (.worker 0)] = some _ := rfl
  refine ⟨_, _, steps_of_exec ran, ⟨.user 0, .blocked, by decide, rfl⟩, rfl, ⟨0, rfl, by decide⟩, fun t => ?_⟩
  cases t with
  | user n => rcases n with _ | _ | n <;> nofun
  | worker n => cases n <;> nofun

end AsyncService

end RtacAsio
