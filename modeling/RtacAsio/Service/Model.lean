import Mathlib.Logic.Function.Basic
import RtacAsio.Lib.Run
import RtacAsio.Service.Timer

/-!
`AsyncService` under any number of threads that call `start`, `stop` and `run`. A step is one
statement between two accesses to what the threads share; a mutex has a holder, and a wait on
`waitStart_` may end at any time.
-/

namespace RtacAsio
open Lib

/-- The threads of the user, and those that `start` has spawned to execute `run`. -/
inductive Thread where
  | user (n : Nat)
  | worker (n : Nat)
  deriving DecidableEq, Repr

inductive StartPc where
  | lock
  | check
  | stop
  | join
  | waitLock
  | spawn
  | unnotify
  | test
  | blocked
  | relock
  deriving DecidableEq, Repr

inductive StopPc where
  | lock
  | stop
  | join
  deriving DecidableEq, Repr

inductive RunPc where
  | notify
  | restart
  | arm
  | service
  | leave
  deriving DecidableEq, Repr

/-- The statement a thread executes next. A worker that is `idle` has returned. -/
inductive Pc where
  | idle
  | start (at_ : StartPc)
  | stop (at_ : StopPc)
  | run (at_ : RunPc)
  deriving DecidableEq, Repr

/-- `stopped` is the flag of `service_`. `spawned` numbers the workers; the ghosts are `calls` and
`returns`, the calls of `start` made and finished, and `armed`, the times that `run` has armed
the keep-alive timer. -/
structure AsyncService where
  stopped : Bool
  timer : Timer
  thread : Option Nat
  isRunning : Bool
  waiterWasNotified : Bool
  startMutex : Option Thread
  waitMutex : Option Thread
  pc : Thread → Pc
  spawned : Nat
  calls : Nat
  returns : Nat
  armed : Nat

inductive ServiceEvent where
  | start (n : Nat)
  | stop (n : Nat)
  | run (n : Nat)
  | go (t : Thread)
  /-- The thread's wait on `waitStart_` ends. -/
  | wake (t : Thread)
  /-- The thread, in `service_.run()`, executes a keep-alive handler. -/
  | handle (t : Thread)
  | expire
  deriving DecidableEq

namespace AsyncService

def goto (t : Thread) (pc : Pc) (s : AsyncService) : AsyncService := { s with pc := Function.update s.pc t pc }

@[simp] theorem goto_pc (s : AsyncService) (t : Thread) (pc : Pc) : (s.goto t pc).pc = Function.update s.pc t pc :=
  rfl

def startStep (t : Thread) (s : AsyncService) : StartPc → Option AsyncService
  | .lock =>
    if s.startMutex = none then some ({ s with startMutex := some t }.goto t (.start .check)) else none
  | .check =>
    if s.isRunning then some ({ s with startMutex := none, returns := s.returns + 1 }.goto t .idle)
    else if s.thread.isSome then some (s.goto t (.start .stop))
    else some (s.goto t (.start .waitLock))
  | .stop => some ({ s with stopped := true }.goto t (.start .join))
  | .join =>
    match s.thread with
    | none => none
    | some u => if s.pc (.worker u) = .idle then some ({ s with thread := none }.goto t (.start .waitLock)) else none
  | .waitLock =>
    if s.waitMutex = none then some ({ s with waitMutex := some t }.goto t (.start .spawn)) else none
  | .spawn =>
    some ({ s with thread := some s.spawned, spawned := s.spawned + 1 }.goto (.worker s.spawned) (.run .notify)
      |>.goto t (.start .unnotify))
  | .unnotify => some ({ s with waiterWasNotified := false }.goto t (.start .test))
  | .test =>
    -- the predicate of waitStart_.wait
    if s.waiterWasNotified then
      some ({ s with waitMutex := none, startMutex := none, returns := s.returns + 1 }.goto t .idle)
    else some ({ s with waitMutex := none }.goto t (.start .blocked))
  | .relock =>
    if s.waitMutex = none then some ({ s with waitMutex := some t }.goto t (.start .test)) else none
  | .blocked => none

def stopStep (t : Thread) (s : AsyncService) : StopPc → Option AsyncService
  | .lock =>
    if s.startMutex = none then some ({ s with startMutex := some t }.goto t (.stop .stop)) else none
  | .stop => some ({ s with stopped := true }.goto t (.stop .join))
  | .join =>
    match s.thread with
    | none => some ({ s with startMutex := none }.goto t .idle)
    | some u =>
      if s.pc (.worker u) = .idle then some ({ s with thread := none, startMutex := none }.goto t .idle) else none

/-- `run()`. `service_.run()` may return or throw at any time, with the same effect on
`isRunning_`. -/
def runStep (t : Thread) (s : AsyncService) : RunPc → Option AsyncService
  | .notify =>
    if s.waitMutex = none then
      if s.isRunning then some (s.goto t .idle)
      else some ({ s with isRunning := true, waiterWasNotified := true }.goto t (.run .restart))
    else none
  | .restart => some ({ s with stopped := false }.goto t (.run .arm))
  | .arm =>
    some ({ s with timer := s.timer.cancel.timerCallback .success, armed := s.armed + 1 }.goto t (.run .service))
  | .service => some (s.goto t (.run .leave))
  | .leave => some ({ s with isRunning := false }.goto t .idle)

def step (s : AsyncService) : ServiceEvent → Option AsyncService
  | .start n => if s.pc (.user n) = .idle then some ({ s with calls := s.calls + 1 }.goto (.user n) (.start .lock)) else none
  | .stop n => if s.pc (.user n) = .idle then some (s.goto (.user n) (.stop .lock)) else none
  | .run n => if s.pc (.user n) = .idle then some (s.goto (.user n) (.run .notify)) else none
  | .go t =>
    match s.pc t with
    | .idle => none
    | .start at_ => s.startStep t at_
    | .stop at_ => s.stopStep t at_
    | .run at_ => s.runStep t at_
  | .wake t => if s.pc t = .start .blocked then some (s.goto t (.start .relock)) else none
  | .handle t =>
    if s.pc t = .run .service ∧ s.stopped = false then s.timer.handle.map fun timer => { s with timer } else none
  | .expire => some { s with timer := s.timer.expire }

inductive Move (s : AsyncService) : ServiceEvent → AsyncService → Prop where
  | start (n : Nat) : s.pc (.user n) = .idle →
      Move s (.start n) ({ s with calls := s.calls + 1 }.goto (.user n) (.start .lock))
  | stop (n : Nat) : s.pc (.user n) = .idle → Move s (.stop n) (s.goto (.user n) (.stop .lock))
  | run (n : Nat) : s.pc (.user n) = .idle → Move s (.run n) (s.goto (.user n) (.run .notify))
  | startLock (t : Thread) : s.pc t = .start .lock → s.startMutex = none →
      Move s (.go t) ({ s with startMutex := some t }.goto t (.start .check))
  | startRunning (t : Thread) : s.pc t = .start .check → s.isRunning = true →
      Move s (.go t) ({ s with startMutex := none, returns := s.returns + 1 }.goto t .idle)
  | startAgain (t : Thread) : s.pc t = .start .check → s.isRunning = false → s.thread.isSome = true →
      Move s (.go t) (s.goto t (.start .stop))
  | startFirst (t : Thread) : s.pc t = .start .check → s.isRunning = false → s.thread = none →
      Move s (.go t) (s.goto t (.start .waitLock))
  | startStop (t : Thread) : s.pc t = .start .stop → Move s (.go t) ({ s with stopped := true }.goto t (.start .join))
  | startJoin (t : Thread) (u : Nat) : s.pc t = .start .join → s.thread = some u → s.pc (.worker u) = .idle →
      Move s (.go t) ({ s with thread := none }.goto t (.start .waitLock))
  | startWaitLock (t : Thread) : s.pc t = .start .waitLock → s.waitMutex = none →
      Move s (.go t) ({ s with waitMutex := some t }.goto t (.start .spawn))
  | startSpawn (t : Thread) : s.pc t = .start .spawn →
      Move s (.go t) ({ s with thread := some s.spawned, spawned := s.spawned + 1 }.goto (.worker s.spawned) (.run .notify)
        |>.goto t (.start .unnotify))
  | startUnnotify (t : Thread) : s.pc t = .start .unnotify →
      Move s (.go t) ({ s with waiterWasNotified := false }.goto t (.start .test))
  | startNotified (t : Thread) : s.pc t = .start .test → s.waiterWasNotified = true →
      Move s (.go t) ({ s with waitMutex := none, startMutex := none, returns := s.returns + 1 }.goto t .idle)
  | startWait (t : Thread) : s.pc t = .start .test → s.waiterWasNotified = false →
      Move s (.go t) ({ s with waitMutex := none }.goto t (.start .blocked))
  | startRelock (t : Thread) : s.pc t = .start .relock → s.waitMutex = none →
      Move s (.go t) ({ s with waitMutex := some t }.goto t (.start .test))
  | stopLock (t : Thread) : s.pc t = .stop .lock → s.startMutex = none →
      Move s (.go t) ({ s with startMutex := some t }.goto t (.stop .stop))
  | stopService (t : Thread) : s.pc t = .stop .stop → Move s (.go t) ({ s with stopped := true }.goto t (.stop .join))
  | stopNothing (t : Thread) : s.pc t = .stop .join → s.thread = none →
      Move s (.go t) ({ s with startMutex := none }.goto t .idle)
  | stopJoin (t : Thread) (u : Nat) : s.pc t = .stop .join → s.thread = some u → s.pc (.worker u) = .idle →
      Move s (.go t) ({ s with thread := none, startMutex := none }.goto t .idle)
  | runBusy (t : Thread) : s.pc t = .run .notify → s.waitMutex = none → s.isRunning = true →
      Move s (.go t) (s.goto t .idle)
  | runNotify (t : Thread) : s.pc t = .run .notify → s.waitMutex = none → s.isRunning = false →
      Move s (.go t) ({ s with isRunning := true, waiterWasNotified := true }.goto t (.run .restart))
  | runRestart (t : Thread) : s.pc t = .run .restart → Move s (.go t) ({ s with stopped := false }.goto t (.run .arm))
  | runArm (t : Thread) : s.pc t = .run .arm →
      Move s (.go t) ({ s with timer := s.timer.cancel.timerCallback .success, armed := s.armed + 1 }.goto t (.run .service))
  | runReturn (t : Thread) : s.pc t = .run .service → Move s (.go t) (s.goto t (.run .leave))
  | runLeave (t : Thread) : s.pc t = .run .leave → Move s (.go t) ({ s with isRunning := false }.goto t .idle)
  | wake (t : Thread) : s.pc t = .start .blocked → Move s (.wake t) (s.goto t (.start .relock))
  | handle (t : Thread) (timer : Timer) : s.pc t = .run .service → s.stopped = false → s.timer.handle = some timer →
      Move s (.handle t) { s with timer }
  | expire : Move s .expire { s with timer := s.timer.expire }

variable {s s' : AsyncService} {t : Thread}

theorem start_move {at_ : StartPc} (pc : s.pc t = .start at_) (taken : s.startStep t at_ = some s') :
    Move s (.go t) s' := by
  cases at_ with
  | lock =>
    obtain ⟨free, eq⟩ := Option.ite_none_right_eq_some.mp taken
    obtain rfl := Option.some.inj eq
    exact .startLock t pc free
  | check =>
    simp only [startStep] at taken
    split at taken
    · obtain rfl := Option.some.inj taken
      exact .startRunning t pc ‹_›
    · rename_i still
      split at taken
      · obtain rfl := Option.some.inj taken
        exact .startAgain t pc (by simpa using still) ‹_›
      · rename_i none
        obtain rfl := Option.some.inj taken
        exact .startFirst t pc (by simpa using still) (by simpa using none)
  | stop =>
    obtain rfl := Option.some.inj taken
    exact .startStop t pc
  | join =>
    simp only [startStep] at taken
    split at taken
    · cases taken
    · rename_i u thread
      obtain ⟨returned, eq⟩ := Option.ite_none_right_eq_some.mp taken
      obtain rfl := Option.some.inj eq
      exact .startJoin t u pc thread returned
  | waitLock =>
    obtain ⟨free, eq⟩ := Option.ite_none_right_eq_some.mp taken
    obtain rfl := Option.some.inj eq
    exact .startWaitLock t pc free
  | spawn =>
    obtain rfl := Option.some.inj taken
    exact .startSpawn t pc
  | unnotify =>
    obtain rfl := Option.some.inj taken
    exact .startUnnotify t pc
  | test =>
    simp only [startStep] at taken
    split at taken
    · obtain rfl := Option.some.inj taken
      exact .startNotified t pc ‹_›
    · rename_i unset
      obtain rfl := Option.some.inj taken
      exact .startWait t pc (by simpa using unset)
  | relock =>
    obtain ⟨free, eq⟩ := Option.ite_none_right_eq_some.mp taken
    obtain rfl := Option.some.inj eq
    exact .startRelock t pc free
  | blocked => cases taken

theorem stop_move {at_ : StopPc} (pc : s.pc t = .stop at_) (taken : s.stopStep t at_ = some s') :
    Move s (.go t) s' := by
  cases at_ with
  | lock =>
    obtain ⟨free, eq⟩ := Option.ite_none_right_eq_some.mp taken
    obtain rfl := Option.some.inj eq
    exact .stopLock t pc free
  | stop =>
    obtain rfl := Option.some.inj taken
    exact .stopService t pc
  | join =>
    simp only [stopStep] at taken
    split at taken
    · obtain rfl := Option.some.inj taken
      exact .stopNothing t pc ‹_›
    · rename_i u thread
      obtain ⟨returned, eq⟩ := Option.ite_none_right_eq_some.mp taken
      obtain rfl := Option.some.inj eq
      exact .stopJoin t u pc thread returned

theorem run_move {at_ : RunPc} (pc : s.pc t = .run at_) (taken : s.runStep t at_ = some s') :
    Move s (.go t) s' := by
  cases at_ with
  | notify =>
    obtain ⟨free, taken⟩ := Option.ite_none_right_eq_some.mp taken
    split at taken
    · obtain rfl := Option.some.inj taken
      exact .runBusy t pc free ‹_›
    · rename_i still
      obtain rfl := Option.some.inj taken
      exact .runNotify t pc free (by simpa using still)
  | restart =>
    obtain rfl := Option.some.inj taken
    exact .runRestart t pc
  | arm =>
    obtain rfl := Option.some.inj taken
    exact .runArm t pc
  | service =>
    obtain rfl := Option.some.inj taken
    exact .runReturn t pc
  | leave =>
    obtain rfl := Option.some.inj taken
    exact .runLeave t pc

theorem step_move {e : ServiceEvent} (taken : s.step e = some s') : Move s e s' := by
  cases e with
  | start n =>
    obtain ⟨pc, eq⟩ := Option.ite_none_right_eq_some.mp taken
    obtain rfl := Option.some.inj eq
    exact .start n pc
  | stop n =>
    obtain ⟨pc, eq⟩ := Option.ite_none_right_eq_some.mp taken
    obtain rfl := Option.some.inj eq
    exact .stop n pc
  | run n =>
    obtain ⟨pc, eq⟩ := Option.ite_none_right_eq_some.mp taken
    obtain rfl := Option.some.inj eq
    exact .run n pc
  | go t =>
    simp only [step] at taken
    split at taken
    · cases taken
    · exact start_move ‹_› taken
    · exact stop_move ‹_› taken
    · exact run_move ‹_› taken
  | wake t =>
    obtain ⟨pc, eq⟩ := Option.ite_none_right_eq_some.mp taken
    obtain rfl := Option.some.inj eq
    exact .wake t pc
  | handle t =>
    obtain ⟨⟨pc, running⟩, eq⟩ := Option.ite_none_right_eq_some.mp taken
    obtain ⟨timer, handled, rfl⟩ := Option.map_eq_some_iff.mp eq
    exact .handle t timer pc running handled
  | expire =>
    obtain rfl := Option.some.inj taken
    exact .expire

/-- The constructor leaves `waiterWasNotified_` uninitialized. -/
structure Created (s : AsyncService) : Prop where
  thread : s.thread = none
  isRunning : s.isRunning = false
  timer : s.timer = {}
  startMutex : s.startMutex = none
  waitMutex : s.waitMutex = none
  pc : ∀ t, s.pc t = .idle
  calls : s.calls = 0
  returns : s.returns = 0
  armed : s.armed = 0

/-- A service just built, its uninitialized member false. -/
def blank : AsyncService :=
  { stopped := false, timer := {}, thread := none, isRunning := false, waiterWasNotified := false, startMutex := none,
    waitMutex := none, pc := fun _ => .idle, spawned := 0, calls := 0, returns := 0, armed := 0 }

theorem blank_created : blank.Created := ⟨rfl, rfl, rfl, rfl, rfl, fun _ => rfl, rfl, rfl, rfl⟩

end AsyncService

end RtacAsio
