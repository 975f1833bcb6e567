import RtacAsio.Lib.Mutex
import RtacAsio.Service.Exclusion

/-! The workers that `start` spawns, and that `start` and `stop` join, whoever calls them. -/

namespace RtacAsio
open Lib

/-- Where a thread holds `startMutex_`. -/
def Pc.holdsStart : Pc → Bool
  | .start .lock | .stop .lock => false
  | .start _ | .stop _ => true
  | _ => false

/-- Where a thread holds `waitMutex_` between two steps. -/
def Pc.holdsWait : Pc → Bool
  | .start .spawn | .start .unnotify | .start .test => true
  | _ => false

/-- Where `start` has made sure that there is no thread to be joined. -/
def Pc.spawns : Pc → Bool
  | .start .waitLock | .start .spawn => true
  | _ => false

namespace AsyncService

structure Supervised (s : AsyncService) : Prop where
  /-- `startMutex_` and `waitMutex_` are held by the thread that is in their sections. -/
  start : ∀ t u, (s.pc t).holdsStart = true → (s.pc u).holdsStart = true → t = u
  wait : ∀ t u, (s.pc t).holdsWait = true → (s.pc u).holdsWait = true → t = u
  /-- A worker that has not returned is the one that `thread_` refers to. -/
  kept : ∀ n, s.pc (.worker n) ≠ .idle → s.thread = some n
  /-- `thread_ = std::make_unique` never drops a thread that was not joined. -/
  spawn : ∀ t, s.pc t = .start .spawn → s.thread = none
  /-- When `stop` returns, so have all workers, and only a user's own `run` is left. -/
  stop : ∀ t s', s.pc t = .stop .join → s.step (.go t) = some s' →
    (∀ n, s'.pc (.worker n) = .idle) ∧ (s'.isRunning = true → ∃ n, (s'.pc (.user n)).inside = true)

/-- The invariant. -/
structure Manned (s : AsyncService) : Prop where
  guarded : Guarded s
  start : Guards Pc.holdsStart s.startMutex s.pc
  wait : Guards Pc.holdsWait s.waitMutex s.pc
  kept : ∀ n, s.pc (.worker n) ≠ .idle → s.thread = some n
  spawn : ∀ t, (s.pc t).spawns = true → s.thread = none

section Proofs
variable {s s' : AsyncService} {e : ServiceEvent} {t : Thread} {next : Pc}

/-- A thread goes on, and `thread_` stays as it is. -/
theorem Manned.goto (h : Manned s) (guarded : Guarded s') (known : ∀ n, t = .worker n → s.pc t ≠ .idle)
    (pc : s'.pc = Function.update s.pc t next) (start : Guards Pc.holdsStart s'.startMutex s'.pc)
    (wait : Guards Pc.holdsWait s'.waitMutex s'.pc) (thread : s'.thread = s.thread)
    (spawn : next.spawns = true → s.thread = none) : Manned s' := by
  refine ⟨guarded, start, wait, ?_, ?_⟩
  · intro n busy
    rw [thread]
    by_cases own : .worker n = t
    · exact h.kept n (own ▸ known n own.symm)
    · rw [pc, Function.update_of_ne own] at busy
      exact h.kept n busy
  · intro u spawns
    rw [thread]
    by_cases own : u = t
    · rw [pc, own, Function.update_self] at spawns
      exact spawn spawns
    · rw [pc, Function.update_of_ne own] at spawns
      exact h.spawn u spawns

/-- The worker that `thread_` refers to has returned: all have. -/
theorem Manned.joined (h : Manned s) {u : Nat} (thread : s.thread = some u) (returned : s.pc (.worker u) = .idle) (n : Nat) :
    s.pc (.worker n) = .idle := by
  by_contra busy
  have kept := h.kept n busy
  rw [thread] at kept
  obtain rfl := Option.some.inj kept
  exact busy returned

/-- A user drops `thread_` after the join. -/
theorem Manned.join (guarded : Guarded s') (returned : ∀ n, s.pc (.worker n) = .idle)
    (pc : s'.pc = Function.update s.pc t next) (start : Guards Pc.holdsStart s'.startMutex s'.pc)
    (wait : Guards Pc.holdsWait s'.waitMutex s'.pc) (thread : s'.thread = none) (busy : s.pc t ≠ .idle) : Manned s' := by
  refine ⟨guarded, start, wait, ?_, fun _ _ => thread⟩
  intro n active
  have apart : .worker n ≠ t := by
    rintro rfl
    exact busy (returned n)
  rw [pc, Function.update_of_ne apart, returned n] at active
  exact (active rfl).elim

theorem Pc.holdsStart_of_spawns {pc : Pc} (spawns : pc.spawns = true) : pc.holdsStart = true := by
  cases pc with
  | start at_ => cases at_ <;> first | rfl | cases spawns
  | _ => cases spawns

theorem spawn_manned (h : Manned s) (pc : s.pc t = .start .spawn)
    (guarded : Guarded ({ s with thread := some s.spawned, spawned := s.spawned + 1 }.goto (.worker s.spawned) (.run .notify)
      |>.goto t (.start .unnotify))) :
    Manned ({ s with thread := some s.spawned, spawned := s.spawned + 1 }.goto (.worker s.spawned) (.run .notify)
      |>.goto t (.start .unnotify)) := by
  have fresh := h.guarded.unspawned s.spawned (Nat.le_refl _)
  have apart : t ≠ .worker s.spawned := by
    rintro rfl
    simp [fresh] at pc
  have still : Function.update s.pc (.worker s.spawned) (.run .notify) t = .start .spawn := by
    rw [Function.update_of_ne apart, pc]
  refine ⟨guarded, ?_, ?_, ?_, ?_⟩
  · have spawned : Guards Pc.holdsStart s.startMutex (Function.update s.pc (.worker s.spawned) (.run .notify)) :=
      h.start.stay (by rw [fresh]; rfl)
    exact spawned.stay (t := t) (by rw [still]; rfl)
  · have spawned : Guards Pc.holdsWait s.waitMutex (Function.update s.pc (.worker s.spawned) (.run .notify)) :=
      h.wait.stay (by rw [fresh]; rfl)
    exact spawned.stay (t := t) (by rw [still]; rfl)
  · intro n busy
    by_cases new : n = s.spawned
    · rw [new]
      rfl
    · by_cases own : .worker n = t
      · -- a worker would be the one to be joined, but there is none
        have kept := h.kept n (by simp [own, pc])
        rw [h.spawn t (by rw [pc]; rfl)] at kept
        cases kept
      · rw [goto_pc, Function.update_of_ne own, goto_pc, Function.update_of_ne (by simpa using new)] at busy
        have kept := h.kept n busy
        rw [h.spawn t (by rw [pc]; rfl)] at kept
        cases kept
  · intro u spawns
    by_cases own : u = t
    · rw [goto_pc, own, Function.update_self] at spawns
      cases spawns
    · rw [goto_pc, Function.update_of_ne own, goto_pc] at spawns
      by_cases new : u = .worker s.spawned
      · rw [new, Function.update_self] at spawns
        cases spawns
      · rw [Function.update_of_ne new] at spawns
        exact (own (h.start.exclusive (Pc.holdsStart_of_spawns spawns) (by rw [pc]; rfl))).elim

theorem step_manned (h : Manned s) (taken : s.step e = some s') : Manned s' := by
  have guarded := step_guarded h.guarded taken
  cases step_move taken with
  | start n pc | stop n pc | run n pc =>
    exact h.goto guarded (t := .user n) (fun _ same => by cases same) rfl (h.start.stay (by rw [pc]; rfl))
      (h.wait.stay (by rw [pc]; rfl)) rfl nofun
  | handle | expire => exact ⟨guarded, h.start, h.wait, h.kept, h.spawn⟩
  | startLock t pc free | stopLock t pc free =>
    exact h.goto guarded (t := t) (fun _ _ => by simp [pc]) rfl ((free ▸ h.start).lock rfl) (h.wait.stay (by rw [pc]; rfl))
      rfl nofun
  | startRunning t pc | stopNothing t pc =>
    exact h.goto guarded (t := t) (fun _ _ => by simp [pc]) rfl (h.start.unlock (by rw [pc]; rfl) rfl)
      (h.wait.stay (by rw [pc]; rfl)) rfl nofun
  | startFirst t pc _ none =>
    exact h.goto guarded (t := t) (fun _ _ => by simp [pc]) rfl (h.start.stay (by rw [pc]; rfl))
      (h.wait.stay (by rw [pc]; rfl)) rfl fun _ => none
  | startJoin t u pc thread returned =>
    exact Manned.join guarded (h.joined thread returned) rfl (h.start.stay (by rw [pc]; rfl))
      (h.wait.stay (by rw [pc]; rfl)) rfl (t := t) (by simp [pc])
  | stopJoin t u pc thread returned =>
    exact Manned.join guarded (h.joined thread returned) rfl (h.start.unlock (by rw [pc]; rfl) rfl)
      (h.wait.stay (by rw [pc]; rfl)) rfl (t := t) (by simp [pc])
  | startWaitLock t pc free =>
    exact h.goto guarded (t := t) (fun _ _ => by simp [pc]) rfl (h.start.stay (by rw [pc]; rfl)) ((free ▸ h.wait).lock rfl)
      rfl fun _ => h.spawn t (by rw [pc]; rfl)
  | startSpawn t pc => exact spawn_manned h pc guarded
  | startNotified t pc =>
    exact h.goto guarded (t := t) (fun _ _ => by simp [pc]) rfl (h.start.unlock (by rw [pc]; rfl) rfl)
      (h.wait.unlock (by rw [pc]; rfl) rfl) rfl nofun
  | startWait t pc =>
    exact h.goto guarded (t := t) (fun _ _ => by simp [pc]) rfl (h.start.stay (by rw [pc]; rfl))
      (h.wait.unlock (by rw [pc]; rfl) rfl) rfl nofun
  | startRelock t pc free =>
    exact h.goto guarded (t := t) (fun _ _ => by simp [pc]) rfl (h.start.stay (by rw [pc]; rfl)) ((free ▸ h.wait).lock rfl)
      rfl nofun
  | startAgain t pc | startStop t pc | startUnnotify t pc | stopService t pc | runBusy t pc | runNotify t pc
  | runRestart t pc | runArm t pc | runReturn t pc | runLeave t pc | wake t pc =>
    exact h.goto guarded (t := t) (fun _ _ => by simp [pc]) rfl (h.start.stay (by rw [pc]; rfl))
      (h.wait.stay (by rw [pc]; rfl)) rfl nofun

theorem created_manned (created : s.Created) : Manned s := by
  have idle := created.pc
  refine ⟨created_guarded created, ?_, ?_, by simp [idle], by simp [idle, Pc.spawns]⟩
  · rw [created.startMutex]
    exact .start (by simp [idle, Pc.holdsStart])
  · rw [created.waitMutex]
    exact .start (by simp [idle, Pc.holdsWait])

theorem stop_returns (pc : s.pc t = .stop .join) (taken : s.step (.go t) = some s') : s'.thread = none := by
  simp only [step, pc, stopStep] at taken
  split at taken
  · rename_i none
    obtain rfl := Option.some.inj taken
    exact none
  · obtain ⟨_, eq⟩ := Option.ite_none_right_eq_some.mp taken
    obtain rfl := Option.some.inj eq
    rfl

theorem Manned.supervised (h : Manned s) : Supervised s := by
  refine ⟨fun _ _ => h.start.exclusive, fun _ _ => h.wait.exclusive, h.kept, ?_, ?_⟩
  · intro t pc
    exact h.spawn t (by rw [pc]; rfl)
  · intro t s' pc taken
    have after := step_manned h taken
    have returned : ∀ n, s'.pc (.worker n) = .idle := by
      intro n
      by_contra busy
      have kept := after.kept n busy
      rw [stop_returns pc taken] at kept
      cases kept
    refine ⟨returned, fun running => ?_⟩
    obtain ⟨u, inside⟩ := after.guarded.running.mp running
    cases u with
    | user n => exact ⟨n, inside⟩
    | worker n =>
      rw [returned n] at inside
      cases inside

end Proofs

/-- Whoever calls `start`, `stop` and `run`, and however the calls interleave: one worker at most is
alive, `start` joins it before it spawns another one, and it has returned when `stop` returns. -/
theorem workers_joined {s s' : AsyncService} {es : List ServiceEvent} (created : s.Created)
    (run : Steps step Always s es s') : Supervised s' :=
  (run.invariant (created_manned created) fun _ _ _ h _ taken => step_manned h taken).supervised

/-- Two threads call `stop` and a third one `start`; the first call of `stop` is about to return. -/
theorem workers_joined_contended :
    ∃ es s, Steps step Always blank es s ∧ s.pc (.user 1) = .stop .join ∧ s.pc (.user 2) = .stop .lock ∧
      s.pc (.user 3) = .start .lock ∧ s.spawned = 1 ∧ Supervised s := by
  obtain ⟨s, run, seen⟩ : ∃ s, Steps step Always blank
      [.start 0, .go (.user 0), .go (.user 0), .go (.user 0), .go (.user 0), .go (.user 0), .go (.user 0),
        .go (.worker 0), .wake (.user 0), .go (.user 0), .go (.user 0), .stop 1, .stop 2, .start 3, .go (.user 1),
        .go (.worker 0), .go (.worker 0), .go (.user 1), .go (.worker 0), .go (.worker 0)] s ∧
      (s.pc (.user 1), s.pc (.user 2), s.pc (.user 3), s.spawned) = (.stop .join, .stop .lock, .start .lock, 1) :=
    exists_of_exec (by decide)
  simp only [Prod.mk.injEq] at seen
  obtain ⟨first, second, third, one⟩ := seen
  exact ⟨_, s, run, first, second, third, one, workers_joined blank_created run⟩

end AsyncService

end RtacAsio
