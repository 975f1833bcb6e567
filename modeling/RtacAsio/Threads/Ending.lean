import RtacAsio.Threads.Ids

/-! Whose request each `finish_read` ends, and which id each continuation is bound to. -/

namespace RtacAsio
open Lib

def Caller.opens : Caller κ → Bool
  | .open_ _ _ => true
  | _ => false

/-- The id of the `timeout_reached` under way, after its id check. -/
def Serving.deadline : Serving κ → Option UInt32
  | .flag id | .timeUp id => some id
  | _ => none

namespace Threads
variable {κ : Type} {code : Code κ} {w w' : Threads κ} {e : ThreadEvent κ}

/-- No call waits. -/
def Asynchronous : ThreadEvent κ → Prop
  | .call _ sync => sync = false
  | _ => True

/-- `timeout_reached` does not end a request whose call has yet to read the id that it binds, and
no request is accepted while one is between its id check and its end. -/
def Apart (code : Code κ) (w : Threads κ) (e : ThreadEvent κ) : Prop :=
  w.EndsBound code e ∧ (e = .caller → w.caller.opens = true → w.slot.id = 0 → w.serving.deadline = none)

instance [DecidableEq κ] (w : Threads κ) (e : ThreadEvent κ) : Decidable (w.Apart code e) :=
  inferInstanceAs (Decidable ((_ → _ → _ ∨ _) ∧ (_ → _ → _ → _)))

instance : DecidablePred (Asynchronous (κ := κ))
  | .call _ sync => inferInstanceAs (Decidable (sync = false))
  | .caller | .wake | .service | .complete _ _ _ | .deliver _ | .timer _ | .callback _ | .expire => instDecidableTrue

/-- Each request was ended on its own behalf, and each continuation is bound to the id that its
call assigned. -/
structure Faithful (w : Threads κ) : Prop where
  endings : ∀ f ∈ w.endings, f.ended = f.behalf
  bound : ∀ b ∈ w.bound, b.2 = b.1

/-- The request that a `timeout_reached` has checked is in progress or none is. -/
structure Owned (w : Threads κ) : Prop where
  deadline : ∀ id, w.serving.deadline = some id → w.slot.id = 0 ∨ w.slot.id = id
  endings : ∀ f ∈ w.endings, f.ended = f.behalf

theorem finish_endings {id : UInt32} (err : ErrorCode) (before : ∀ f ∈ w.endings, f.ended = f.behalf)
    (own : w.slot.id ≠ 0 → id = w.slot.id) : ∀ f ∈ (w.finish id err).endings, f.ended = f.behalf := by
  by_cases idle : w.slot.id = 0
  · rwa [finish_idle _ _ idle]
  · rw [finish_busy _ _ idle]
    intro f member
    rcases List.mem_append.mp member with old | new
    · exact before f old
    · obtain rfl := List.mem_singleton.mp new
      exact (own idle).symm

theorem step_owned (ids : Ids code w) (h : Owned w) (apart : w.Apart code e) (taken : w.step code e = some w') :
    Owned w' := by
  cases step_move taken with
  | opened request sync slot waits fired call at_ idle =>
    have none := apart.2 rfl (by rw [at_]; rfl) idle
    exact ⟨by simp [none], h.endings⟩
  | finish call at_ =>
    have own := ids.own_of_busy call.own (by rw [at_]; rfl)
    have ended := finish_id (w := w) call.own .success
    exact ⟨fun _ _ => Or.inl ended, finish_endings .success h.endings own⟩
  | finished c err at_ =>
    have checked : w.serving.checked = some c := by rw [at_]; rfl
    exact ⟨by simp [Serving.deadline], finish_endings err h.endings fun _ => ids.checked c checked⟩
  | timeUp id at_ =>
    have deadline := h.deadline id (by rw [at_]; rfl)
    exact ⟨by simp [Serving.deadline], finish_endings .success h.endings fun busy => (deadline.resolve_left busy).symm⟩
  | expired id at_ same => exact ⟨fun id' now => Or.inr (same.symm.trans (Option.some.inj now)), h.endings⟩
  | flag id at_ => exact ⟨fun id' now => h.deadline id' (by rw [at_]; exact now), h.endings⟩
  | count c err bytes readBuffer processed serving at_ next =>
    exact ⟨by rcases next with rfl | rfl <;> simp [Serving.deadline], h.endings⟩
  | decide c err serving at_ next =>
    exact ⟨by rcases next with rfl | ⟨_, _, rfl⟩ <;> simp [Serving.deadline], h.endings⟩
  | callback => exact ⟨by split <;> simp [Serving.deadline], h.endings⟩
  | current | stale | more | timeStale | callbackLock | notify | complete | deliver | timer =>
    exact ⟨by simp [Serving.deadline], h.endings⟩
  | _ => exact ⟨h.deadline, h.endings⟩

theorem fresh_owned (fresh : w.Fresh) : Owned w := by
  rw [fresh.start]
  exact ⟨by simp [Serving.deadline], by simp⟩

end Threads

open Threads

/-- Asynchronous reads, any interleaving: each `finish_read` ends the request that it was called
for, and each continuation is bound to the id of its own request, as long as the steps of
`timeout_reached` keep apart from the opening of a request. -/
theorem reads_end_own {w t : Threads ReadKind} {es : List (ThreadEvent ReadKind)} (fresh : w.Fresh)
    (run : Steps (step readerCode) (fun w e => Asynchronous e ∧ w.Apart readerCode e) w es t)
    (bounded : t.accepted < 2 ^ 32) : t.Faithful := by
  obtain ⟨ids, owned⟩ := reachable_ids (fun _ _ ok => ok.2.1) (fresh_owned fresh)
    (fun _ _ _ ids h ok taken _ => step_owned ids h ok.2 taken) fresh run bounded
  exact ⟨owned.endings, ids.bound⟩

/-- A read ended by its timer once handed over, and the one after it, which the late completion
leaves alone. -/
theorem reads_end_own_timeout :
    ∃ es t, Steps (step readerCode) (fun w e => Asynchronous e ∧ w.Apart readerCode e)
      { slot := StreamReader.blank.toSlot } es t ∧ t.endings.length = 2 ∧ t.bound.length = 2 ∧ t.Faithful := by
  obtain ⟨t, run, seen⟩ : ∃ t, Steps (step readerCode) (fun w e => Asynchronous e ∧ w.Apart readerCode e)
      { slot := StreamReader.blank.toSlot }
      [.call { kind := .read, size := 4, data := 0, callback := 1, timeoutMillis := 1 } false,
        .caller, .caller, .caller, .caller, .expire, .timer 0, .service, .service, .service,
        .call { kind := .readSome, size := 4, data := 0, callback := 2 } false,
        .caller, .complete 0 .success [97], .service, .caller, .caller, .caller,
        .complete 0 .success [98], .service, .service, .service] t ∧
      (t.endings.length, t.bound.length, t.accepted) = (2, 2, 2) :=
    exists_of_exec (by decide)
  simp only [Prod.mk.injEq] at seen
  exact ⟨_, t, run, seen.1, seen.2.1, reads_end_own ⟨rfl, rfl, rfl⟩ run (by rw [seen.2.2]; decide)⟩

/-- `timeout_reached` checks the id of a request that async_read_until then ends from the buffer,
and ends the next one. It also ends a request whose id is still to be bound. -/
theorem timeout_ends_other :
    (∃ w es t, w.Fresh ∧ Steps (step readerCode) (fun _ e => Asynchronous e) w es t ∧
      ∃ f ∈ t.endings, f.ended ≠ f.behalf) ∧
    (∃ w es t, w.Fresh ∧ Steps (step readerCode) (fun _ e => Asynchronous e) w es t ∧ ∃ b ∈ t.bound, b.2 ≠ b.1) := by
  constructor
  · obtain ⟨t, run, seen⟩ : ∃ t, Steps (step readerCode) (fun _ e => Asynchronous e)
        { slot := StreamReader.blank.toSlot }
        [.call { kind := .readUntil 10, size := 8, data := 0, callback := 1 } false,
          .caller, .caller, .caller, .caller, .caller, .complete 0 .success [97, 10, 98, 10], .service, .service, .service,
          .call { kind := .readUntil 10, size := 8, data := 0, callback := 2, timeoutMillis := 1 } false,
          .caller, .caller, .expire, .timer 0, .service, .caller, .caller, .caller,
          .call { kind := .read, size := 4, data := 0, callback := 3 } false,
          .caller, .service, .service] t ∧
        t.endings = [⟨1, 1, 2⟩, ⟨2, 2, 2⟩, ⟨2, 3, 0⟩] :=
      exists_of_exec (by decide)
    exact ⟨_, _, t, ⟨rfl, rfl, rfl⟩, run, ⟨2, 3, 0⟩, by simp [seen], by decide⟩
  · obtain ⟨t, run, seen⟩ : ∃ t, Steps (step readerCode) (fun _ e => Asynchronous e)
        { slot := StreamReader.blank.toSlot }
        [.call { kind := .read, size := 4, data := 0, callback := 1, timeoutMillis := 1 } false,
          .caller, .expire, .timer 0, .service, .service, .service, .caller, .caller] t ∧
        t.bound = [(1, 0)] :=
      exists_of_exec (by decide)
    exact ⟨_, _, t, ⟨rfl, rfl, rfl⟩, run, (1, 0), by simp [seen], by decide⟩

end RtacAsio
