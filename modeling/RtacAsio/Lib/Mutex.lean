import Mathlib.Logic.Function.Basic

/-!
A mutex among threads, and the section of the program that is only executed while holding it:
`inside` tells whether a thread at a program counter is in the section.
-/

namespace RtacAsio.Lib
variable {θ π : Type}

/-- The mutex is held by the thread in the section, and is free if there is none. -/
def Guards (inside : π → Bool) (mutex : Option θ) (pc : θ → π) : Prop := ∀ t, inside (pc t) = true ↔ mutex = some t

namespace Guards
variable {inside : π → Bool} {mutex : Option θ} {pc : θ → π} {t u : θ} {next : π}

/-- Two threads are never in the section together. -/
theorem exclusive (h : Guards inside mutex pc) (first : inside (pc t) = true) (second : inside (pc u) = true) : t = u := by
  have holder := (h t).mp first
  rw [(h u).mp second] at holder
  exact (Option.some.inj holder).symm

theorem start (idle : ∀ t, inside (pc t) = false) : Guards inside none pc := fun t => by simp [idle t]

variable [DecidableEq θ]

/-- The thread stays inside or outside. -/
theorem stay (h : Guards inside mutex pc) (same : inside next = inside (pc t)) :
    Guards inside mutex (Function.update pc t next) := by
  intro u
  by_cases own : u = t
  · rw [own, Function.update_self, same]
    exact h t
  · rw [Function.update_of_ne own]
    exact h u

/-- The thread locks the mutex. -/
theorem lock (h : Guards inside none pc) (enters : inside next = true) :
    Guards inside (some t) (Function.update pc t next) := by
  intro u
  by_cases own : u = t
  · rw [own, Function.update_self, enters]
    simp
  · have outside : ¬ inside (pc u) = true := fun inside => by cases (h u).mp inside
    rw [Function.update_of_ne own]
    simp [outside, Ne.symm own]

/-- The thread unlocks the mutex. -/
theorem unlock (h : Guards inside mutex pc) (held : inside (pc t) = true) (leaves : inside next = false) :
    Guards inside none (Function.update pc t next) := by
  refine start fun u => ?_
  by_cases own : u = t
  · rw [own, Function.update_self, leaves]
  · rw [Function.update_of_ne own]
    by_contra other
    exact own (h.exclusive (by simpa using other) held)

end Guards

end RtacAsio.Lib
