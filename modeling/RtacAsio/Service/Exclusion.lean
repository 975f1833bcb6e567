import RtacAsio.Service.Model

/-! How many threads are inside `run`, whoever calls `run`, `start` and `stop`. -/

namespace RtacAsio
open Lib

/-- Between the statement of `run` that sets `isRunning_` and the one that resets it. -/
def Pc.inside : Pc → Bool
  | .run .restart | .run .arm | .run .service | .run .leave => true
  | _ => false

namespace AsyncService

structure Exclusive (s : AsyncService) : Prop where
  one : ∀ t u, (s.pc t).inside = true → (s.pc u).inside = true → t = u
  running : s.isRunning = true ↔ ∃ t, (s.pc t).inside = true
  handlers : ∀ t u, s.pc t = .run .service → s.pc u = .run .service → t = u

/-- The invariant: `isRunning_` is the lock of the section, and `start` spawns onto threads that
have never run. -/
structure Guarded (s : AsyncService) : Prop where
  one : ∀ t u, (s.pc t).inside = true → (s.pc u).inside = true → t = u
  running : s.isRunning = true ↔ ∃ t, (s.pc t).inside = true
  unspawned : ∀ n, s.spawned ≤ n → s.pc (.worker n) = .idle

section Proofs
variable {s s' : AsyncService} {e : ServiceEvent} {t : Thread} {next : Pc}

theorem Guarded.exclusive (h : Guarded s) : Exclusive s :=
  ⟨h.one, h.running, fun t u at_ at_' => h.one t u (by rw [at_]; rfl) (by rw [at_']; rfl)⟩

theorem unspawned_goto (h : Guarded s) (known : ∀ n, t = .worker n → s.pc t ≠ .idle) {n : Nat} (fresh : s.spawned ≤ n) :
    Function.update s.pc t next (.worker n) = .idle := by
  have other : (.worker n : Thread) ≠ t := by
    rintro rfl
    exact known n rfl (h.unspawned n fresh)
  rw [Function.update_of_ne other]
  exact h.unspawned n fresh

/-- A thread that stays on its side of the section changes nothing. -/
theorem Guarded.goto (h : Guarded s) (known : ∀ n, t = .worker n → s.pc t ≠ .idle)
    (same : next.inside = (s.pc t).inside) (pc : s'.pc = Function.update s.pc t next)
    (running : s'.isRunning = s.isRunning) (spawned : s'.spawned = s.spawned) : Guarded s' := by
  have inside : ∀ u, (s'.pc u).inside = (s.pc u).inside := by
    intro u
    rw [pc]
    by_cases own : u = t
    · rw [own, Function.update_self, same]
    · rw [Function.update_of_ne own]
  refine ⟨?_, ?_, ?_⟩
  · simpa only [inside] using h.one
  · simpa only [inside, running] using h.running
  · intro n fresh
    rw [pc]
    exact unspawned_goto h known (spawned ▸ fresh)

theorem Guarded.enter (h : Guarded s) (known : ∀ n, t = .worker n → s.pc t ≠ .idle) (free : s.isRunning = false)
    (enters : next.inside = true) (pc : s'.pc = Function.update s.pc t next) (running : s'.isRunning = true)
    (spawned : s'.spawned = s.spawned) : Guarded s' := by
  have nobody : ∀ u, (s.pc u).inside = false := by
    intro u
    by_contra inside
    have running := h.running.mpr ⟨u, by simpa using inside⟩
    simp [free] at running
  have only : ∀ u, (s'.pc u).inside = true → u = t := by
    intro u inside
    by_contra other
    rw [pc, Function.update_of_ne other, nobody u] at inside
    cases inside
  refine ⟨fun u v inside inside' => (only u inside).trans (only v inside').symm, ?_, ?_⟩
  · exact ⟨fun _ => ⟨t, by rw [pc, Function.update_self, enters]⟩, fun _ => running⟩
  · intro n fresh
    rw [pc]
    exact unspawned_goto h known (spawned ▸ fresh)

theorem Guarded.leave (h : Guarded s) (inside : (s.pc t).inside = true) (leaves : next.inside = false)
    (pc : s'.pc = Function.update s.pc t next) (running : s'.isRunning = false) (spawned : s'.spawned = s.spawned) :
    Guarded s' := by
  have nobody : ∀ u, (s'.pc u).inside = false := by
    intro u
    rw [pc]
    by_cases own : u = t
    · rw [own, Function.update_self, leaves]
    · rw [Function.update_of_ne own]
      by_contra other
      exact own (h.one u t (by simpa using other) inside)
  refine ⟨?_, ?_, ?_⟩
  · simp [nobody]
  · simp [nobody, running]
  · intro n fresh
    rw [pc]
    refine unspawned_goto h (fun m _ idle => ?_) (spawned ▸ fresh)
    simp [idle, Pc.inside] at inside

theorem spawn_guarded (h : Guarded s) (pc : s.pc t = .start .spawn) :
    Guarded ({ s with thread := some s.spawned, spawned := s.spawned + 1 }.goto (.worker s.spawned) (.run .notify)
      |>.goto t (.start .unnotify)) := by
  have idle := h.unspawned s.spawned (Nat.le_refl _)
  have apart : t ≠ .worker s.spawned := by
    rintro rfl
    simp [idle] at pc
  have spawned : Guarded ({ s with thread := some s.spawned, spawned := s.spawned + 1 }.goto (.worker s.spawned)
      (.run .notify)) := by
    have inside : ∀ u, (Function.update s.pc (.worker s.spawned) (.run .notify) u).inside = (s.pc u).inside := by
      intro u
      by_cases own : u = .worker s.spawned
      · rw [own, Function.update_self, idle]
        rfl
      · rw [Function.update_of_ne own]
    refine ⟨?_, ?_, ?_⟩
    · simpa only [goto_pc, inside] using h.one
    · show s.isRunning = true ↔ _
      simpa only [goto_pc, inside] using h.running
    · intro n fresh
      have fresh : s.spawned + 1 ≤ n := fresh
      rw [goto_pc, Function.update_of_ne (by simp only [ne_eq, Thread.worker.injEq]; omega)]
      exact h.unspawned n (by omega)
  have at_ : ({ s with thread := some s.spawned, spawned := s.spawned + 1 }.goto (.worker s.spawned) (.run .notify)).pc t =
      .start .spawn := by
    rw [goto_pc, Function.update_of_ne apart]
    exact pc
  exact spawned.goto (t := t) (fun _ _ => by simp [at_]) (by simp [at_, Pc.inside]) rfl rfl rfl

theorem step_guarded (h : Guarded s) (taken : s.step e = some s') : Guarded s' := by
  cases step_move taken with
  | start n pc | stop n pc | run n pc =>
    exact h.goto (t := .user n) (fun _ same => by cases same) (by rw [pc]; rfl) rfl rfl rfl
  | runNotify t pc _ free => exact h.enter (fun _ _ => by simp [pc]) free rfl rfl rfl rfl
  | runLeave t pc => exact h.leave (t := t) (by rw [pc]; rfl) rfl rfl rfl rfl
  | startSpawn t pc => exact spawn_guarded h pc
  | handle | expire => exact ⟨h.one, h.running, h.unspawned⟩
  | startLock t pc | startRunning t pc | startAgain t pc | startFirst t pc | startStop t pc | startJoin t _ pc
  | startWaitLock t pc | startUnnotify t pc | startNotified t pc | startWait t pc | startRelock t pc | stopLock t pc
  | stopService t pc | stopNothing t pc | stopJoin t _ pc | runBusy t pc | runRestart t pc | runArm t pc
  | runReturn t pc | wake t pc =>
    exact h.goto (t := t) (fun _ _ => by simp [pc]) (by rw [pc]; rfl) rfl rfl rfl

theorem created_guarded (created : s.Created) : Guarded s := by
  have idle := created.pc
  refine ⟨by simp [idle, Pc.inside], by simp [idle, created.isRunning, Pc.inside], fun n _ => idle _⟩

end Proofs

/-- Whatever the calls and however they interleave, one thread at most is inside `run`, and
`isRunning_` is set exactly while there is one. -/
theorem handlers_exclusive {s s' : AsyncService} {es : List ServiceEvent} (created : s.Created)
    (run : Steps step Always s es s') : Exclusive s' :=
  (run.invariant (created_guarded created) fun _ _ _ h _ taken => step_guarded h taken).exclusive

/-- `start` spawns a worker while another thread has just entered `run`. -/
theorem handlers_exclusive_spawned :
    ∃ es s, Steps step Always blank es s ∧ s.pc (.user 1) = .run .restart ∧ s.pc (.worker 0) = .run .notify ∧
      Exclusive s := by
  obtain ⟨s, run, seen⟩ : ∃ s, Steps step Always blank
      [.start 0, .go (.user 0), .go (.user 0), .run 1, .go (.user 1), .go (.user 0), .go (.user 0)] s ∧
      (s.pc (.user 1), s.pc (.worker 0)) = (.run .restart, .run .notify) := exists_of_exec (by decide)
  simp only [Prod.mk.injEq] at seen
  exact ⟨_, s, run, seen.1, seen.2, handlers_exclusive blank_created run⟩

end AsyncService

end RtacAsio
