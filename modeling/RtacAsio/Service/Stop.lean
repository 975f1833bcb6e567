import RtacAsio.Service.Model

/-! Whether `stop` can hang: one `start`, the worker it spawns, and calls of `stop` after it. -/

namespace RtacAsio
open Lib

namespace AsyncService

/-- No thread is inside a member function. -/
structure Quiet (s : AsyncService) : Prop where
  pc : ∀ t, s.pc t = .idle
  startMutex : s.startMutex = none
  waitMutex : s.waitMutex = none
  calls : s.calls = 0
  returns : s.returns = 0

/-- `start` is called once, `stop` only after it has returned and `run` not at all. `service_.run()`
returns only when it has been stopped, as the keep-alive timer leaves it work. -/
def StartThenStop (s : AsyncService) : ServiceEvent → Prop
  | .start _ => s.calls = 0
  | .stop _ => 0 < s.returns
  | .run _ => False
  | .go t => s.pc t = .run .service → s.stopped = true
  | _ => True

instance (s : AsyncService) (e : ServiceEvent) : Decidable (StartThenStop s e) := by
  cases e <;> simp only [StartThenStop] <;> infer_instance

def workerPc (s : AsyncService) : Option Pc := s.thread.map fun u => s.pc (.worker u)

/-- `stop` does not stop the service while the worker has yet to restart it. -/
def StopsRestarted (s : AsyncService) : ServiceEvent → Prop
  | .go t => s.pc t = .stop .stop → s.workerPc ≠ some (.run .restart)
  | _ => True

instance (s : AsyncService) (e : ServiceEvent) : Decidable (StopsRestarted s e) := by
  cases e <;> simp only [StopsRestarted] <;> infer_instance

/-- A thread waits in `stop` for a worker that is in `service_.run()`, or about to enter it, with
the stopped flag clear. -/
def Hung (s : AsyncService) : Prop :=
  s.stopped = false ∧ (s.workerPc = some (.run .arm) ∨ s.workerPc = some (.run .service)) ∧
    ∃ t, s.pc t = .stop .join

/-! ### The stages of the one call of `start` -/

/-- The user `n` is in `start`, and nobody else is in any member function. -/
structure Starting (s : AsyncService) (n : Nat) (at_ : StartPc) : Prop where
  calls : s.calls = 1
  returns : s.returns = 0
  user : s.pc (.user n) = .start at_
  others : ∀ t, t ≠ .user n → s.pc t = .idle

/-- Besides, the worker `k` is where `pc` says. -/
structure Spawned (s : AsyncService) (n k : Nat) (at_ : StartPc) (pc : Pc) : Prop where
  calls : s.calls = 1
  returns : s.returns = 0
  thread : s.thread = some k
  user : s.pc (.user n) = .start at_
  worker : s.pc (.worker k) = pc
  others : ∀ t, t ≠ .user n → t ≠ .worker k → s.pc t = .idle

/-- `start` has returned: the worker `k` is past its notification, the users are in `stop`. -/
structure Started (s : AsyncService) (k : Nat) : Prop where
  calls : s.calls = 1
  worker : s.pc (.worker k) = .idle ∨ s.thread = some k ∧ ∃ at_, s.pc (.worker k) = .run at_ ∧ at_ ≠ .notify
  others : ∀ t, t ≠ .worker k → s.pc t = .idle ∨ ∃ at_, s.pc t = .stop at_
  joining : ∀ t, s.pc t = .stop .join → s.stopped = true ∧ s.pc (.worker k) ≠ .run .restart

inductive Stage (s : AsyncService) : Prop where
  | quiet : s.calls = 0 → s.returns = 0 → (∀ t, s.pc t = .idle) → Stage s
  | entered (n : Nat) (at_ : StartPc) : Starting s n at_ → at_ = .lock ∨ at_ = .check → Stage s
  | spawning (n : Nat) (at_ : StartPc) : Starting s n at_ → s.isRunning = false →
      at_ = .stop ∨ at_ = .join ∨ at_ = .waitLock ∨ at_ = .spawn ∧ s.waitMutex = some (.user n) → Stage s
  | spawned (n k : Nat) : Spawned s n k .unnotify (.run .notify) → s.isRunning = false →
      s.waitMutex = some (.user n) → Stage s
  | unnotified (n k : Nat) (at_ : StartPc) : Spawned s n k at_ (.run .notify) → s.isRunning = false →
      s.waiterWasNotified = false → at_ = .test ∨ at_ = .blocked ∨ at_ = .relock → Stage s
  | notified (n k : Nat) (at_ : StartPc) (pc : Pc) : Spawned s n k at_ pc → s.waiterWasNotified = true →
      at_ = .test ∨ at_ = .blocked ∨ at_ = .relock → pc = .idle ∨ (∃ at_, pc = .run at_ ∧ at_ ≠ .notify) → Stage s
  | started (k : Nat) : Started s k → Stage s

section Stages
variable {s s' : AsyncService} {e : ServiceEvent} {n k : Nat} {at_ : StartPc} {pc : Pc} {t : Thread}

theorem go_idle (idle : s.pc t = .idle) : s.step (.go t) = none := by simp [step, idle]

theorem go_start (user : s.pc t = .start at_) : s.step (.go t) = s.startStep t at_ := by simp [step, user]

theorem go_run {at_ : RunPc} (worker : s.pc t = .run at_) : s.step (.go t) = s.runStep t at_ := by simp [step, worker]

theorem event_active (calls : s.calls = 1) (returns : s.returns = 0) (scenario : StartThenStop s e)
    (taken : s.step e = some s') :
    e = .expire ∨ ∃ t, s.pc t ≠ .idle ∧
      (e = .go t ∨ e = .wake t ∧ s.pc t = .start .blocked ∨ e = .handle t ∧ s.pc t = .run .service) := by
  cases e with
  | start m => simp [StartThenStop, calls] at scenario
  | stop m => simp [StartThenStop, returns] at scenario
  | run m => exact scenario.elim
  | expire => exact Or.inl rfl
  | go t =>
    refine Or.inr ⟨t, fun idle => ?_, Or.inl rfl⟩
    simp [go_idle idle] at taken
  | wake t =>
    have pc := (Option.ite_none_right_eq_some.mp taken).1
    exact Or.inr ⟨t, by simp [pc], Or.inr (Or.inl ⟨rfl, pc⟩)⟩
  | handle t =>
    have pc := (Option.ite_none_right_eq_some.mp taken).1.1
    exact Or.inr ⟨t, by simp [pc], Or.inr (Or.inr ⟨rfl, pc⟩)⟩

theorem starting_event (h : Starting s n at_) (scenario : StartThenStop s e) (taken : s.step e = some s') :
    e = .go (.user n) ∨ e = .wake (.user n) ∧ at_ = .blocked ∨ e = .expire := by
  rcases event_active h.calls h.returns scenario taken with rfl | ⟨t, active, event⟩
  · exact Or.inr (Or.inr rfl)
  · obtain rfl : t = .user n := by
      by_contra other
      exact active (h.others t other)
    rcases event with rfl | ⟨rfl, pc⟩ | ⟨rfl, pc⟩
    · exact Or.inl rfl
    · exact Or.inr (Or.inl ⟨rfl, Pc.start.inj (h.user.symm.trans pc)⟩)
    · simp [h.user] at pc

theorem Starting.next {next : StartPc} (h : Starting s n at_)
    (pc : s'.pc = Function.update s.pc (.user n) (.start next)) (calls : s'.calls = s.calls)
    (returns : s'.returns = s.returns) : Starting s' n next := by
  refine ⟨calls.trans h.calls, returns.trans h.returns, by simp [pc], fun t other => ?_⟩
  simpa [pc, other] using h.others t other

theorem Starting.done (h : Starting s n at_) (pc : s'.pc = Function.update s.pc (.user n) .idle)
    (calls : s'.calls = s.calls) : Started s' 0 := by
  have idle : ∀ t, s'.pc t = .idle := by
    intro t
    by_cases same : t = .user n
    · simp [pc, same]
    · simpa [pc, same] using h.others t same
  exact ⟨calls.trans h.calls, Or.inl (idle _), fun t _ => Or.inl (idle t), by simp [idle]⟩

theorem entered_stage (h : Starting s n at_) (early : at_ = .lock ∨ at_ = .check)
    (scenario : StartThenStop s e) (taken : s.step e = some s') : Stage s' := by
  rcases starting_event h scenario taken with rfl | ⟨rfl, rfl⟩ | rfl
  · rw [go_start h.user] at taken
    have move := start_move h.user taken
    rcases early with rfl | rfl
    · cases move with
      | startLock => exact .entered n .check (h.next rfl rfl rfl) (Or.inr rfl)
      | _ => simp_all [h.user]
    · cases move with
      | startRunning => exact .started 0 (h.done rfl rfl)
      | startAgain _ _ still => exact .spawning n .stop (h.next rfl rfl rfl) still (Or.inl rfl)
      | startFirst _ _ still => exact .spawning n .waitLock (h.next rfl rfl rfl) still (by simp)
      | _ => simp_all [h.user]
  · simp at early
  · obtain rfl := Option.some.inj taken
    exact .entered n at_ ⟨h.calls, h.returns, h.user, h.others⟩ early

theorem spawning_stage (h : Starting s n at_) (still : s.isRunning = false)
    (at_' : at_ = .stop ∨ at_ = .join ∨ at_ = .waitLock ∨ at_ = .spawn ∧ s.waitMutex = some (.user n))
    (scenario : StartThenStop s e) (taken : s.step e = some s') : Stage s' := by
  rcases starting_event h scenario taken with rfl | ⟨rfl, rfl⟩ | rfl
  · rw [go_start h.user] at taken
    have move := start_move h.user taken
    rcases at_' with rfl | rfl | rfl | ⟨rfl, holds⟩
    · cases move with
      | startStop => exact .spawning n .join (h.next rfl rfl rfl) still (by simp)
      | _ => simp_all [h.user]
    · cases move with
      | startJoin => exact .spawning n .waitLock (h.next rfl rfl rfl) still (by simp)
      | _ => simp_all [h.user]
    · cases move with
      | startWaitLock => exact .spawning n .spawn (h.next rfl rfl rfl) still (by simp [goto])
      | _ => simp_all [h.user]
    · cases move with
      | startSpawn =>
        refine .spawned n s.spawned ⟨h.calls, h.returns, rfl, by simp, by simp, ?_⟩ still holds
        intro t other other'
        simpa [other, other'] using h.others t other
      | _ => simp_all [h.user]
  · simp at at_'
  · obtain rfl := Option.some.inj taken
    exact .spawning n at_ ⟨h.calls, h.returns, h.user, h.others⟩ still at_'

theorem spawned_event (h : Spawned s n k at_ pc) (body : ∀ at_, pc ≠ .start at_) (scenario : StartThenStop s e)
    (taken : s.step e = some s') :
    e = .go (.user n) ∨ e = .go (.worker k) ∨ e = .wake (.user n) ∧ at_ = .blocked ∨
      e = .handle (.worker k) ∨ e = .expire := by
  rcases event_active h.calls h.returns scenario taken with rfl | ⟨t, active, event⟩
  · simp
  · have who : t = .user n ∨ t = .worker k := by
      by_contra other
      rw [not_or] at other
      exact active (h.others t other.1 other.2)
    rcases who with rfl | rfl
    · rcases event with rfl | ⟨rfl, pc⟩ | ⟨rfl, pc⟩
      · simp
      · simp [Pc.start.inj (h.user.symm.trans pc)]
      · simp [h.user] at pc
    · rcases event with rfl | ⟨rfl, pc⟩ | ⟨rfl, _⟩
      · simp
      · exact (body _ (h.worker.symm.trans pc)).elim
      · simp

theorem Spawned.user_next {next : StartPc} (h : Spawned s n k at_ pc)
    (moved : s'.pc = Function.update s.pc (.user n) (.start next)) (calls : s'.calls = s.calls)
    (returns : s'.returns = s.returns) (thread : s'.thread = s.thread) : Spawned s' n k next pc := by
  refine ⟨calls.trans h.calls, returns.trans h.returns, thread.trans h.thread, by simp [moved], ?_, fun t other other' => ?_⟩
  · simpa [moved] using h.worker
  · simpa [moved, other] using h.others t other other'

theorem Spawned.worker_next {next : Pc} (h : Spawned s n k at_ pc)
    (moved : s'.pc = Function.update s.pc (.worker k) next) (calls : s'.calls = s.calls)
    (returns : s'.returns = s.returns) (thread : s'.thread = s.thread) : Spawned s' n k at_ next := by
  refine ⟨calls.trans h.calls, returns.trans h.returns, thread.trans h.thread, ?_, by simp [moved], fun t other other' => ?_⟩
  · simpa [moved] using h.user
  · simpa [moved, other'] using h.others t other other'

theorem spawned_stage (h : Spawned s n k .unnotify (.run .notify)) (still : s.isRunning = false)
    (holds : s.waitMutex = some (.user n)) (scenario : StartThenStop s e) (taken : s.step e = some s') : Stage s' := by
  rcases spawned_event h (by simp) scenario taken with rfl | rfl | ⟨rfl, at_⟩ | rfl | rfl
  · rw [go_start h.user] at taken
    cases start_move h.user taken with
    | startUnnotify => exact .unnotified n k .test (h.user_next rfl rfl rfl rfl) still rfl (Or.inl rfl)
    | _ => simp_all [h.user]
  · rw [go_run h.worker] at taken
    cases run_move h.worker taken with
    | runBusy => simp_all
    | runNotify => simp_all
    | _ => simp_all [h.worker]
  · cases at_
  · have pc := (Option.ite_none_right_eq_some.mp taken).1.1
    simp [h.worker] at pc
  · obtain rfl := Option.some.inj taken
    exact .spawned n k ⟨h.calls, h.returns, h.thread, h.user, h.worker, h.others⟩ still holds

theorem waiting_user (h : Spawned s n k at_ pc) (at_' : at_ = .test ∨ at_ = .blocked ∨ at_ = .relock)
    (taken : s.step (.go (.user n)) = some s') :
    s.waiterWasNotified = true ∧ s'.calls = s.calls ∧ s'.thread = s.thread ∧
        s'.pc = Function.update s.pc (.user n) .idle ∨
      s'.isRunning = s.isRunning ∧ s'.waiterWasNotified = s.waiterWasNotified ∧
        ∃ next, (next = .test ∨ next = .blocked ∨ next = .relock) ∧ Spawned s' n k next pc := by
  rw [go_start h.user] at taken
  have move := start_move h.user taken
  rcases at_' with rfl | rfl | rfl
  · cases move with
    | startNotified _ _ set => exact Or.inl ⟨set, rfl, rfl, rfl⟩
    | startWait => exact Or.inr ⟨rfl, rfl, .blocked, by simp, h.user_next rfl rfl rfl rfl⟩
    | _ => simp_all [h.user]
  · cases taken
  · cases move with
    | startRelock => exact Or.inr ⟨rfl, rfl, .test, by simp, h.user_next rfl rfl rfl rfl⟩
    | _ => simp_all [h.user]

theorem wake_user (h : Spawned s n k .blocked pc) (taken : s.step (.wake (.user n)) = some s') :
    s'.isRunning = s.isRunning ∧ s'.waiterWasNotified = s.waiterWasNotified ∧ Spawned s' n k .relock pc := by
  cases step_move taken with
  | wake => exact ⟨rfl, rfl, h.user_next rfl rfl rfl rfl⟩

theorem unnotified_stage (h : Spawned s n k at_ (.run .notify)) (still : s.isRunning = false)
    (unset : s.waiterWasNotified = false) (at_' : at_ = .test ∨ at_ = .blocked ∨ at_ = .relock)
    (scenario : StartThenStop s e) (taken : s.step e = some s') : Stage s' := by
  rcases spawned_event h (by simp) scenario taken with rfl | rfl | ⟨rfl, rfl⟩ | rfl | rfl
  · rcases waiting_user h at_' taken with ⟨set, _⟩ | ⟨running, notified, next, among, h'⟩
    · simp [unset] at set
    · exact .unnotified n k next h' (running.trans still) (notified.trans unset) among
  · rw [go_run h.worker] at taken
    cases run_move h.worker taken with
    | runBusy _ _ _ running => simp [still] at running
    | runNotify =>
      exact .notified n k at_ (.run .restart) (h.worker_next rfl rfl rfl rfl) rfl at_' (Or.inr ⟨_, rfl, by simp⟩)
    | _ => simp_all [h.worker]
  · obtain ⟨running, notified, h'⟩ := wake_user h taken
    exact .unnotified n k .relock h' (running.trans still) (notified.trans unset) (by simp)
  · have pc := (Option.ite_none_right_eq_some.mp taken).1.1
    simp [h.worker] at pc
  · obtain rfl := Option.some.inj taken
    exact .unnotified n k at_ ⟨h.calls, h.returns, h.thread, h.user, h.worker, h.others⟩ still unset at_'

theorem worker_step {u : Thread} {at_ : RunPc} (worker : s.pc u = .run at_) (past : at_ ≠ .notify)
    (taken : s.step (.go u) = some s') :
    s'.calls = s.calls ∧ s'.returns = s.returns ∧ s'.thread = s.thread ∧
      s'.waiterWasNotified = s.waiterWasNotified ∧
      (s'.stopped = s.stopped ∨ at_ = .restart) ∧
      ∃ next, s'.pc = Function.update s.pc u next ∧
        (next = .idle ∨ ∃ at_, next = .run at_ ∧ at_ ≠ .notify ∧ at_ ≠ .restart) := by
  rw [go_run worker] at taken
  cases run_move worker taken with
  | runRestart _ pc =>
    exact ⟨rfl, rfl, rfl, rfl, Or.inr (Pc.run.inj (worker.symm.trans pc)), .run .arm, rfl, Or.inr ⟨_, rfl, by simp⟩⟩
  | runArm => exact ⟨rfl, rfl, rfl, rfl, Or.inl rfl, .run .service, rfl, Or.inr ⟨_, rfl, by simp⟩⟩
  | runReturn => exact ⟨rfl, rfl, rfl, rfl, Or.inl rfl, .run .leave, rfl, Or.inr ⟨_, rfl, by simp⟩⟩
  | runLeave => exact ⟨rfl, rfl, rfl, rfl, Or.inl rfl, .idle, rfl, Or.inl rfl⟩
  | _ => simp_all

theorem notified_stage (h : Spawned s n k at_ pc) (set : s.waiterWasNotified = true)
    (at_' : at_ = .test ∨ at_ = .blocked ∨ at_ = .relock) (body : pc = .idle ∨ ∃ at_, pc = .run at_ ∧ at_ ≠ .notify)
    (scenario : StartThenStop s e) (taken : s.step e = some s') : Stage s' := by
  have notStart : ∀ at_, pc ≠ .start at_ := by
    rcases body with rfl | ⟨_, rfl, _⟩ <;> simp
  rcases spawned_event h notStart scenario taken with rfl | rfl | ⟨rfl, rfl⟩ | rfl | rfl
  · rcases waiting_user h at_' taken with ⟨_, calls, thread, moved⟩ | ⟨_, notified, next, among, h'⟩
    · refine .started k ⟨calls.trans h.calls, ?_, ?_, ?_⟩
      · rcases body with rfl | ⟨at_, rfl, past⟩
        · exact Or.inl (by simpa [moved] using h.worker)
        · exact Or.inr ⟨thread.trans h.thread, at_, by simpa [moved] using h.worker, past⟩
      · intro t other
        by_cases same : t = .user n
        · simp [moved, same]
        · exact Or.inl (by simpa [moved, same] using h.others t same other)
      · intro t joining
        by_cases same : t = .user n
        · simp [moved, same] at joining
        · by_cases same' : t = .worker k
          · rw [moved, same', Function.update_of_ne (by simp), h.worker] at joining
            rcases body with rfl | ⟨_, rfl, _⟩ <;> cases joining
          · simp [moved, same, h.others t same same'] at joining
    · exact .notified n k next pc h' (notified.trans set) among body
  · rcases body with rfl | ⟨at_, rfl, past⟩
    · simp [go_idle h.worker] at taken
    · obtain ⟨calls, returns, thread, notified, _, next, moved, next'⟩ := worker_step h.worker past taken
      apply Stage.notified n k _ next (h.worker_next moved calls returns thread) (notified.trans set) at_'
      exact next'.imp_right fun ⟨at_, eq, past, _⟩ => ⟨at_, eq, past⟩
  · obtain ⟨_, notified, h'⟩ := wake_user h taken
    exact .notified n k .relock pc h' (notified.trans set) (by simp) body
  · cases step_move taken with
    | handle =>
      exact .notified n k at_ pc ⟨h.calls, h.returns, h.thread, h.user, h.worker, h.others⟩ set at_' body
  · obtain rfl := Option.some.inj taken
    exact .notified n k at_ pc ⟨h.calls, h.returns, h.thread, h.user, h.worker, h.others⟩ set at_' body

theorem go_stop {at_ : StopPc} (user : s.pc t = .stop at_) : s.step (.go t) = s.stopStep t at_ := by simp [step, user]

theorem Started.move (h : Started s k) (other : t ≠ .worker k) {next : Pc}
    (next' : next = .idle ∨ next = .stop .lock ∨ next = .stop .stop)
    (moved : s'.pc = Function.update s.pc t next) (calls : s'.calls = s.calls) (stopped : s'.stopped = s.stopped)
    (worker : s.pc (.worker k) ≠ .idle → s'.thread = s.thread) : Started s' k := by
  have same : s'.pc (.worker k) = s.pc (.worker k) := by simp [moved, Ne.symm other]
  refine ⟨calls.trans h.calls, ?_, ?_, ?_⟩
  · rw [same]
    rcases h.worker with idle | ⟨thread, body⟩
    · exact Or.inl idle
    · have busy : s.pc (.worker k) ≠ .idle := by
        obtain ⟨_, eq, _⟩ := body
        simp [eq]
      exact Or.inr ⟨(worker busy).trans thread, body⟩
  · intro u apart
    by_cases own : u = t
    · subst own
      rcases next' with rfl | rfl | rfl <;> simp [moved]
    · simpa [moved, own] using h.others u apart
  · intro u joining
    rw [same, stopped]
    by_cases own : u = t
    · subst own
      rcases next' with rfl | rfl | rfl <;> simp [moved] at joining
    · exact h.joining u (by simpa [moved, own] using joining)

theorem started_worker (h : Started s k) (taken : s.step (.go (.worker k)) = some s') : Started s' k := by
  rcases h.worker with idle | ⟨thread, at_, pc, past⟩
  · simp [go_idle idle] at taken
  · obtain ⟨calls, _, thread', _, stopped, next, moved, next'⟩ := worker_step pc past taken
    refine ⟨calls.trans h.calls, ?_, ?_, ?_⟩
    · simp only [moved, Function.update_self]
      exact next'.imp_right fun ⟨at_, eq, past, _⟩ => ⟨thread'.trans thread, at_, eq, past⟩
    · intro u other
      simpa [moved, other] using h.others u other
    · intro u joining
      have before : s.pc u = .stop .join := by
        by_cases own : u = .worker k
        · subst own
          rcases next' with rfl | ⟨_, rfl, _⟩ <;> simp [moved] at joining
        · simpa [moved, own] using joining
      obtain ⟨set, restarted⟩ := h.joining u before
      refine ⟨?_, ?_⟩
      · rcases stopped with same | rfl
        · exact same.trans set
        · exact (restarted pc).elim
      · rcases next' with rfl | ⟨_, rfl, _, other⟩
        · simp [moved]
        · simpa [moved] using other

theorem started_user (h : Started s k) (own : t ≠ .worker k) (prompt : StopsRestarted s (.go t))
    (taken : s.step (.go t) = some s') : Started s' k := by
  rcases h.others t own with idle | ⟨at_, pc⟩
  · simp [go_idle idle] at taken
  · rw [go_stop pc] at taken
    cases stop_move pc taken with
    | stopLock => exact h.move own (Or.inr (Or.inr rfl)) rfl rfl rfl fun _ => rfl
    | stopNothing => exact h.move own (Or.inl rfl) rfl rfl rfl fun _ => rfl
    | stopJoin _ u _ thread returned =>
      refine h.move own (Or.inl rfl) rfl rfl rfl fun busy => ?_
      rcases h.worker with idle | ⟨thread', _⟩
      · exact (busy idle).elim
      · obtain rfl : u = k := Option.some.inj (thread.symm.trans thread')
        exact (busy returned).elim
    | stopService _ pc =>
      have restarted : s.pc (.worker k) ≠ .run .restart := by
        rcases h.worker with idle | ⟨thread, _⟩
        · simp [idle]
        · have apart := prompt pc
          simpa [workerPc, thread] using apart
      have same : Function.update s.pc t (.stop .join) (.worker k) = s.pc (.worker k) := by simp [Ne.symm own]
      refine ⟨h.calls, ?_, ?_, ?_⟩
      · simpa [goto, same] using h.worker
      · intro u other
        by_cases own : u = t
        · simp [own]
        · simpa [own] using h.others u other
      · intro u joining
        exact ⟨rfl, by simpa [same] using restarted⟩
    | _ => simp_all

theorem started_stage (h : Started s k) (scenario : StartThenStop s e) (prompt : StopsRestarted s e)
    (taken : s.step e = some s') : Stage s' := by
  cases e with
  | start m => simp [StartThenStop, h.calls] at scenario
  | run m => exact scenario.elim
  | stop m =>
    obtain ⟨_, eq⟩ := Option.ite_none_right_eq_some.mp taken
    obtain rfl := Option.some.inj eq
    exact .started k (h.move (t := .user m) (by simp) (Or.inr (Or.inl rfl)) rfl rfl rfl fun _ => rfl)
  | wake t =>
    have pc := (Option.ite_none_right_eq_some.mp taken).1
    by_cases own : t = .worker k
    · subst own
      rcases h.worker with idle | ⟨_, _, eq, _⟩
      · simp [idle] at pc
      · simp [eq] at pc
    · rcases h.others t own with idle | ⟨_, eq⟩
      · simp [idle] at pc
      · simp [eq] at pc
  | handle t =>
    cases step_move taken with
    | handle => exact .started k ⟨h.calls, h.worker, h.others, h.joining⟩
  | expire =>
    obtain rfl := Option.some.inj taken
    exact .started k ⟨h.calls, h.worker, h.others, h.joining⟩
  | go t =>
    by_cases own : t = .worker k
    · exact .started k (started_worker h (own ▸ taken))
    · exact .started k (started_user h own prompt taken)

theorem quiet_stage (calls : s.calls = 0) (returns : s.returns = 0) (idle : ∀ t, s.pc t = .idle)
    (scenario : StartThenStop s e) (taken : s.step e = some s') : Stage s' := by
  cases step_move taken with
  | start n =>
    refine .entered n .lock ⟨by simp [goto, calls], returns, by simp, fun t other => ?_⟩ (Or.inl rfl)
    simpa [other] using idle t
  | stop n => simp [StartThenStop, returns] at scenario
  | run n => exact scenario.elim
  | expire => exact .quiet calls returns idle
  | _ => simp_all

theorem step_stage (h : Stage s) (allowed : StartThenStop s e ∧ StopsRestarted s e) (taken : s.step e = some s') :
    Stage s' := by
  obtain ⟨scenario, prompt⟩ := allowed
  cases h with
  | quiet calls returns idle => exact quiet_stage calls returns idle scenario taken
  | entered n at_ starting early => exact entered_stage starting early scenario taken
  | spawning n at_ starting still at_' => exact spawning_stage starting still at_' scenario taken
  | spawned n k both still holds => exact spawned_stage both still holds scenario taken
  | unnotified n k at_ both still unset at_' => exact unnotified_stage both still unset at_' scenario taken
  | notified n k at_ pc both set at_' body => exact notified_stage both set at_' body scenario taken
  | started k started => exact started_stage started scenario prompt taken

theorem Starting.not_joining (h : Starting s n at_) : s.pc t ≠ .stop .join := by
  by_cases same : t = .user n
  · simp [same, h.user]
  · simp [h.others t same]

theorem Spawned.not_joining (h : Spawned s n k at_ pc) (body : ∀ at_, pc ≠ .stop at_) : s.pc t ≠ .stop .join := by
  by_cases same : t = .user n
  · simp [same, h.user]
  · by_cases same' : t = .worker k
    · rw [same', h.worker]
      exact body _
    · simp [h.others t same same']

theorem not_hung (h : Stage s) : ¬ Hung s := by
  rintro ⟨clear, _, t, joining⟩
  cases h with
  | quiet _ _ idle => simp [idle t] at joining
  | entered n at_ starting => exact starting.not_joining joining
  | spawning n at_ starting => exact starting.not_joining joining
  | spawned n k both => exact both.not_joining (by simp) joining
  | unnotified n k at_ both => exact both.not_joining (by simp) joining
  | notified n k at_ pc both _ _ body =>
    refine both.not_joining ?_ joining
    rcases body with rfl | ⟨_, rfl, _⟩ <;> simp
  | started k started => exact Bool.false_ne_true (clear.symm.trans (started.joining t joining).1)

end Stages

/-- `stop` cannot hang, as long as it does not stop the service before the worker restarts it. -/
theorem stop_not_hung {s s' : AsyncService} {es : List ServiceEvent} (quiet : Quiet s)
    (run : Steps step (fun s e => StartThenStop s e ∧ StopsRestarted s e) s es s') : ¬ Hung s' :=
  not_hung (run.invariant (.quiet quiet.calls quiet.returns quiet.pc) fun _ _ _ h allowed taken =>
    step_stage h allowed taken)

/-- A service that is stopped before its worker has restarted it can always come to hang. -/
theorem hung_of_stop_first {s : AsyncService} {t : Thread} {u : Nat} (user : s.pc t = .stop .stop)
    (thread : s.thread = some u) (worker : s.pc (.worker u) = .run .restart) :
    ∃ s', Steps step Always s [.go t, .go (.worker u)] s' ∧ Hung s' := by
  have apart : t ≠ .worker u := by
    rintro rfl
    simp [user] at worker
  have stops : s.step (.go t) = some ({ s with stopped := true }.goto t (.stop .join)) := by
    rw [go_stop user]
    rfl
  have restarts : ({ s with stopped := true }.goto t (.stop .join)).step (.go (.worker u)) =
      some ({ ({ s with stopped := true }.goto t (.stop .join)) with stopped := false }.goto (.worker u) (.run .arm)) := by
    have worker' : ({ s with stopped := true }.goto t (.stop .join)).pc (.worker u) = .run .restart := by
      simpa [Ne.symm apart] using worker
    rw [go_run worker']
    rfl
  refine ⟨_, (Steps.single trivial stops).append (.single trivial restarts), rfl, Or.inl ?_, t, ?_⟩
  · simp [workerPc, goto, thread]
  · simp [apart]

/-- `start` returns as soon as its worker has notified it. -/
def startReturns : List ServiceEvent :=
  [.start 0, .go (.user 0), .go (.user 0), .go (.user 0), .go (.user 0), .go (.user 0), .go (.user 0),
    .go (.worker 0), .wake (.user 0), .go (.user 0), .go (.user 0)]

theorem blank_quiet : Quiet blank := ⟨fun _ => rfl, rfl, rfl, rfl, rfl⟩

/-- The worker restarts the service before it is stopped. -/
theorem stop_not_hung_restarted :
    ∃ es s, Steps step StartThenStop blank es s ∧ s.pc (.user 0) = .stop .join ∧ ¬ Hung s := by
  obtain ⟨s, run, joining⟩ : ∃ s, Steps step (fun s e => StartThenStop s e ∧ StopsRestarted s e) blank
      (startReturns ++ [.go (.worker 0), .stop 0, .go (.user 0), .go (.user 0)]) s ∧
      s.pc (.user 0) = .stop .join := exists_of_exec (by decide)
  exact ⟨_, s, run.weaken fun _ _ => And.left, joining, stop_not_hung blank_quiet run⟩

/-- The worker restarts the service after it was stopped, and `stop` waits for it. -/
theorem stop_hangs : ∃ es s, Steps step StartThenStop blank es s ∧ Hung s := by
  obtain ⟨s, run, seen⟩ : ∃ s, Steps step StartThenStop blank
      (startReturns ++ [.stop 0, .go (.user 0), .go (.user 0), .go (.worker 0), .go (.worker 0)]) s ∧
      (s.pc (.user 0), s.stopped, s.workerPc) = (.stop .join, false, some (.run .service)) := exists_of_exec (by decide)
  simp only [Prod.mk.injEq] at seen
  exact ⟨_, s, run, seen.2.1, Or.inr seen.2.2, .user 0, seen.1⟩

end AsyncService

end RtacAsio
