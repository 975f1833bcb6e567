import RtacAsio.Request.Steps
import RtacAsio.Threads.Sync

/-! Whether a synchronous call can be left waiting after its request has ended. -/

namespace RtacAsio
open Lib

namespace Caller
variable {κ : Type}

/-- The calling thread has `mutex_` locked, when every call waits. -/
def holds : Caller κ → Bool
  | .idle | .lock _ | .blocked _ | .relock _ => false
  | _ => true

/-- The call has cleared the flag. -/
def past : Caller κ → Bool
  | .test _ | .blocked _ | .relock _ | .result _ => true
  | _ => false

theorem past_of_own {caller : Caller κ} {own : UInt32} (under : caller.own = some own) (away : caller.holds = false) :
    caller.past = true := by
  cases caller <;> simp_all [Caller.own, holds, past]

end Caller

namespace Threads
variable {κ : Type} {code : Code κ} {w w' : Threads κ} {e : ThreadEvent κ}

/-- The `read_callback` or `write_callback` of the request `own` is posted, or runs and has not yet
set the flag. -/
def Calling (w : Threads κ) (own : UInt32) : Prop :=
  (own, syncCallback) ∈ w.posted ∨ w.serving = .callback own ∨ w.serving = .notify own

/-- A call that is blocked with the flag clear has its request in progress, or its callback to come. -/
def NoLostWake (w : Threads κ) : Prop :=
  ∀ own, w.caller = .blocked own → w.slot.waiterNotified = false → own ≠ 0 ∧ (w.slot.id = own ∨ w.Calling own)

/-- The invariant. Before the call clears the flag it holds `mutex_`, so that its callback cannot
have run yet. -/
structure Heard (w : Threads κ) : Prop where
  counted : w.slot.counter.toNat = w.accepted
  sync : w.caller.sync = true
  callback : w.slot.id ≠ 0 → w.slot.callback = syncCallback
  held : w.caller.holds = true → w.mutex = some .caller
  serves : w.serving.notifies = true → w.mutex = some .service
  own : ∀ own, w.caller.own = some own → own ≠ 0
  heard : ∀ own, w.caller.own = some own →
    w.slot.id = own ∨ w.Calling own ∨ w.caller.past = true ∧ w.slot.waiterNotified = true

theorem Heard.quiet (h : Heard w) (other : w.mutex ≠ some .service) : w.serving.notifies = false :=
  Bool.eq_false_iff.mpr fun notifies => other (h.serves notifies)

theorem Heard.away (h : Heard w) (other : w.mutex ≠ some .caller) : w.caller.holds = false :=
  Bool.eq_false_iff.mpr fun holds => other (h.held holds)

/-- A step of the calling thread. -/
theorem Heard.advance (h : Heard w) {caller : Caller κ} {processed : Nat} {readBuffer : List UInt8}
    {mutex : Option Holder} {ops : List (Cont κ)} {queue : List (Cont κ × List UInt8)} {bound : List (UInt32 × UInt32)}
    {returns : List Return} (sync : caller.sync = true) (own : ∀ own, caller.own = some own → w.caller.own = some own)
    (held : caller.holds = true → mutex = some .caller) (serves : w.serving.notifies = true → mutex = some .service)
    (past : w.caller.past = true → caller.own ≠ none → caller.past = true) :
    Heard { w with slot := { w.slot with processed }, readBuffer, mutex, caller, ops, queue, bound, returns } where
  counted := h.counted
  sync := sync
  callback := h.callback
  held := held
  serves := serves
  own id under := h.own id (own id under)
  heard id under := by
    refine (h.heard id (own id under)).imp_right (Or.imp_right fun ⟨cleared, set⟩ => ⟨past cleared ?_, set⟩)
    simp [under]

/-- A step of the service's thread. -/
theorem Heard.serve (h : Heard w) {serving : Serving κ} {processed : Nat} {waiterNotified : Bool}
    {readBuffer : List UInt8} {mutex : Option Holder} {ops : List (Cont κ)} {queue : List (Cont κ × List UInt8)}
    {waits : List UInt32} {fired : List (UInt32 × ErrorCode)} {posted : List (UInt32 × Callback)}
    (held : w.caller.holds = true → mutex = some .caller) (serves : serving.notifies = true → mutex = some .service)
    (flag : w.slot.waiterNotified = true → waiterNotified = true)
    (calling : ∀ own, w.caller.own = some own → w.Calling own →
      Calling { w with serving, posted } own ∨ w.caller.past = true ∧ waiterNotified = true) :
    Heard { w with slot := { w.slot with processed, waiterNotified }, readBuffer, mutex, serving, ops, queue, waits, fired,
                   posted } where
  counted := h.counted
  sync := h.sync
  callback := h.callback
  held := held
  serves := serves
  own := h.own
  heard id under := by
    rcases h.heard id under with live | call | ⟨past, set⟩
    · exact Or.inl live
    · exact Or.inr (calling id under call)
    · exact Or.inr (Or.inr ⟨past, flag set⟩)

/-- The same when the step has nothing to do with callbacks. -/
theorem Heard.turn (h : Heard w) {serving : Serving κ} {processed : Nat} {waiterNotified : Bool}
    {readBuffer : List UInt8} {ops : List (Cont κ)} {queue : List (Cont κ × List UInt8)} {waits : List UInt32}
    {fired : List (UInt32 × ErrorCode)} (was : ∀ id, w.serving ≠ .callback id ∧ w.serving ≠ .notify id)
    (next : serving.notifies = false) (flag : w.slot.waiterNotified = true → waiterNotified = true) :
    Heard { w with slot := { w.slot with processed, waiterNotified }, readBuffer, serving, ops, queue, waits, fired } := by
  refine h.serve h.held (by simp [next]) flag fun own _ calling => Or.inl ?_
  rcases calling with posted | runs | runs
  · exact Or.inl posted
  · exact ((was own).1 runs).elim
  · exact ((was own).2 runs).elim

theorem Heard.finish (h : Heard w) (id : UInt32) (err : ErrorCode) : Heard (w.finish id err) := by
  by_cases idle : w.slot.id = 0
  · rwa [finish_idle _ _ idle]
  · rw [finish_busy _ _ idle]
    refine ⟨h.counted, h.sync, by simp, h.held, h.serves, h.own, fun own under => Or.inr ?_⟩
    rcases h.heard own under with rfl | (posted | runs) | flagged
    · exact Or.inl (Or.inl (List.mem_append_right _ (by simp [h.callback idle])))
    · exact Or.inl (Or.inl (List.mem_append_left _ posted))
    · exact Or.inl (Or.inr runs)
    · exact Or.inr flagged

theorem opened_heard (h : Heard w) {request : Request κ} {slot : Slot} {waits : List UInt32}
    {fired : List (UInt32 × ErrorCode)} {call : Call κ} {caller : Caller κ} (at_ : w.caller = .open_ request true)
    (counter : slot.counter = w.slot.counter + 1) (id : slot.id = slot.counter) (callback : slot.callback = syncCallback)
    (eq : call = ⟨request, true, slot.id⟩) (first : caller = .look call ∨ caller = .args call)
    (bounded : w.accepted + 1 < 2 ^ 32) : Heard { w with slot, waits, fired, accepted := w.accepted + 1, caller } := by
  have rank : slot.counter.toNat = w.accepted + 1 := by
    rw [counter]
    exact counter_next h.counted bounded
  have own : ∀ own, caller.own = some own → own = slot.id := by
    rintro own under
    rcases first with rfl | rfl <;> simpa [Caller.own, eq] using under.symm
  refine ⟨rank, ?_, fun _ => callback, fun _ => h.held (by rw [at_]; rfl), h.serves, fun id' under => ?_, fun id' under =>
    Or.inl (own id' under).symm⟩
  · rcases first with rfl | rfl <;> simp [Caller.sync, eq]
  · rw [own id' under, id]
    intro zero
    simp [zero] at rank

theorem reset_heard (h : Heard w) {own : UInt32} (at_ : w.caller = .reset own) :
    Heard { w with slot := { w.slot with waiterNotified := false }, caller := .test own } := by
  have under : w.caller.own = some own := by rw [at_]; rfl
  refine ⟨h.counted, rfl, h.callback, fun _ => h.held (by rw [at_]; rfl), h.serves, ?_, ?_⟩
  · intro own' under'
    obtain rfl := Option.some.inj under'
    exact h.own _ under
  · intro own' under'
    obtain rfl := Option.some.inj under'
    rcases h.heard _ under with live | call | ⟨past, _⟩
    · exact Or.inl live
    · exact Or.inr (Or.inl call)
    · simp [at_, Caller.past] at past

theorem step_heard (h : Heard w) (scenario : Synchronous code e) (taken : w.step code e = some w')
    (bounded : w'.accepted < 2 ^ 32) : Heard w' := by
  cases step_move taken with
  | call request sync at_ =>
    obtain ⟨rfl, _⟩ := scenario
    exact h.advance rfl (by simp [Caller.own]) (by simp [Caller.holds]) h.serves (by simp [at_, Caller.past])
  | lock request at_ free =>
    exact h.advance rfl (by simp [Caller.own]) (fun _ => rfl) (by simp [h.quiet (by simp [free])]) (by simp [at_, Caller.past])
  | opened request sync slot waits fired call at_ idle counter id callback eq =>
    obtain rfl : sync = true := by simpa [at_, Caller.sync] using h.sync
    exact opened_heard h at_ counter id (by simpa [passed] using callback) eq (by split <;> simp) bounded
  | refused request sync at_ =>
    have held := h.held (by rw [at_]; rfl)
    exact h.advance rfl (by simp [Caller.own]) (by simp [Caller.holds]) (by simp [h.quiet (by simp [held])])
      (by simp [at_, Caller.past])
  | lookPast call at_ | look call c buffer at_ | scanned call c at_ | scanPast call c at_ | scan call c next buffer at_
  | args call count data at_ | bind call count data at_ =>
    have held := h.held (by rw [at_]; rfl)
    have sync := h.sync
    rw [at_] at sync
    exact h.advance sync (by simp [at_, Caller.own]) (fun _ => held) h.serves (by simp [at_, Caller.past])
  | finish call at_ =>
    have sync : call.sync = true := by simpa [at_, Caller.sync] using h.sync
    have held := h.held (by rw [at_]; rfl)
    rw [finish_caller, handedOver_sync sync]
    have handed : Heard { w with caller := .reset call.own } :=
      h.advance rfl (by simp [at_, Caller.own]) (fun _ => held) h.serves (by simp [at_, Caller.past])
    exact handed.finish _ _
  | some_ call count data id readBuffer ops queue at_ =>
    have sync : call.sync = true := by simpa [at_, Caller.sync] using h.sync
    have held := h.held (by rw [at_]; rfl)
    rw [handedOver_sync sync]
    exact h.advance rfl (by simp [at_, Caller.own]) (fun _ => held) h.serves (by simp [at_, Caller.past])
  | reset own at_ => exact reset_heard h at_
  | notified own at_ =>
    have held := h.held (by rw [at_]; rfl)
    exact h.advance rfl (by simp [at_, Caller.own]) (fun _ => held) h.serves fun _ _ => rfl
  | wait own at_ =>
    have held := h.held (by rw [at_]; rfl)
    exact h.advance rfl (by simp [at_, Caller.own]) (by simp [Caller.holds]) (by simp [h.quiet (by simp [held])])
      fun _ _ => rfl
  | wake own at_ =>
    exact h.advance rfl (by simp [at_, Caller.own]) (by simp [Caller.holds]) h.serves fun _ _ => rfl
  | relock own at_ free =>
    exact h.advance rfl (by simp [at_, Caller.own]) (fun _ => rfl) (by simp [h.quiet (by simp [free])]) fun _ _ => rfl
  | result own at_ =>
    have held := h.held (by rw [at_]; rfl)
    exact h.advance rfl (by simp [Caller.own]) (by simp [Caller.holds]) (by simp [h.quiet (by simp [held])])
      (by simp [Caller.own])
  | callbackLock id at_ free =>
    refine h.serve (by simp [h.away (by simp [free])]) (fun _ => rfl) (fun set => set) fun own _ calling => Or.inl ?_
    rcases calling with posted | runs | runs
    · exact Or.inl posted
    · exact Or.inr (Or.inr (by simpa [at_] using runs))
    · simp [at_] at runs
  | notify id at_ =>
    have away := h.away (by simp [h.serves (by rw [at_]; rfl)])
    refine h.serve (by simp [away]) (by simp [Serving.notifies]) (fun _ => rfl) fun own under calling => ?_
    exact Or.inr ⟨Caller.past_of_own under away, rfl⟩
  | callback i id callback at_ found =>
    refine h.serve h.held (by split <;> simp [Serving.notifies]) (fun set => set) fun own _ calling => Or.inl ?_
    rcases calling with posted | runs | runs
    · by_cases first : (own, syncCallback) = (id, callback)
      · obtain ⟨rfl, rfl⟩ := Prod.mk.inj first
        exact Or.inr (Or.inl (by simp))
      · exact Or.inl ((mem_eraseIdx_of_ne found first).mpr posted)
    · simp [at_] at runs
    · simp [at_] at runs
  | finished c err at_ | timeUp id at_ =>
    rw [finish_serving]
    have idle : Heard { w with serving := .idle } := h.turn (by simp [at_]) rfl fun set => set
    exact idle.finish _ _
  | flag id at_ => exact h.turn (by simp [at_]) rfl fun _ => rfl
  | count c err bytes readBuffer processed serving at_ next =>
    exact h.turn (by simp [at_]) (by rcases next with rfl | rfl <;> rfl) id
  | decide c err serving at_ next =>
    exact h.turn (by simp [at_]) (by rcases next with rfl | ⟨_, _, rfl⟩ <;> rfl) id
  | expire => exact ⟨h.counted, h.sync, h.callback, h.held, h.serves, h.own, h.heard⟩
  | current c err bytes at_ | stale c err bytes at_ | more c count data readBuffer ops queue at_
  | expired id at_ | timeStale id at_ | complete i err bytes c at_ | deliver i c bytes at_
  | timer i id err at_ => exact h.turn (by simp [at_]) rfl fun set => set

theorem fresh_heard (fresh : w.Fresh) : Heard w := by
  have counter := fresh.counter
  have id := fresh.id
  rw [fresh.start]
  refine ⟨by simp [counter], rfl, by simp [id], by simp [Caller.holds], by simp [Serving.notifies], by simp [Caller.own],
    by simp [Caller.own]⟩

theorem no_lost_wake (h : Heard w) : w.NoLostWake := by
  intro own at_ unset
  have under : w.caller.own = some own := by rw [at_]; rfl
  refine ⟨h.own own under, ?_⟩
  rcases h.heard own under with live | calling | ⟨_, set⟩
  · exact Or.inl live
  · exact Or.inr calling
  · simp [unset] at set

end Threads

open Threads

/-- Synchronous calls, any interleaving: a call that is blocked with the flag clear has its request
in progress, or is going to be notified by the callback of that request. -/
theorem wakes_not_lost {κ : Type} {code : Code κ} {w t : Threads κ} {es : List (ThreadEvent κ)} (fresh : w.Fresh)
    (run : Steps (step code) (fun _ e => Synchronous code e) w es t) (bounded : t.accepted < 2 ^ 32) : t.NoLostWake := by
  have kept : t.accepted < 2 ^ 32 → Heard t := run.invariant (P := fun t => t.accepted < 2 ^ 32 → Heard t)
    (fun _ => fresh_heard fresh) fun u e v before scenario taken bounded =>
      step_heard (before (Nat.lt_of_le_of_lt (step_accepted taken) bounded)) scenario taken bounded
  exact no_lost_wake (kept bounded)

/-- A read and a write that end before their calls clear the flag: by the timer, and by a completion
that comes once the continuation is handed over. -/
theorem wakes_not_lost_early :
    (∃ es t, Steps (step readerCode) (fun _ e => Synchronous readerCode e) { slot := StreamReader.blank.toSlot } es t ∧
      t.caller = .blocked 1 ∧ t.slot.waiterNotified = false ∧ t.slot.id = 0 ∧ t.NoLostWake) ∧
    (∃ es t, Steps (step writerCode) (fun _ e => Synchronous writerCode e) { slot := StreamWriter.blank.toSlot } es t ∧
      t.caller = .blocked 1 ∧ t.slot.waiterNotified = false ∧ t.slot.id = 0 ∧ t.NoLostWake) := by
  constructor
  · obtain ⟨t, run, seen⟩ : ∃ t, Steps (step readerCode) (fun _ e => Synchronous readerCode e)
        { slot := StreamReader.blank.toSlot }
        [.call { kind := .read, size := 4, data := 0, callback := 1, timeoutMillis := 1 } true,
          .caller, .caller, .caller, .caller, .caller, .expire, .timer 0, .service, .service, .service,
          .caller, .caller] t ∧
        (t.caller, t.slot.waiterNotified, t.slot.id, t.accepted) = (.blocked 1, false, 0, 1) :=
      exists_of_exec (by decide)
    simp only [Prod.mk.injEq] at seen
    exact ⟨_, t, run, seen.1, seen.2.1, seen.2.2.1, wakes_not_lost ⟨rfl, rfl, rfl⟩ run (by rw [seen.2.2.2]; decide)⟩
  · obtain ⟨t, run, seen⟩ : ∃ t, Steps (step writerCode) (fun _ e => Synchronous writerCode e)
        { slot := StreamWriter.blank.toSlot }
        [.call { kind := .write, size := 2, data := 0, callback := 1 } true,
          .caller, .caller, .caller, .caller, .caller, .complete 0 .success [1, 2], .service, .service, .service,
          .service, .callback 0, .caller, .caller] t ∧
        (t.caller, t.slot.waiterNotified, t.slot.id, t.accepted) = (.blocked 1, false, 0, 1) :=
      exists_of_exec (by decide)
    simp only [Prod.mk.injEq] at seen
    exact ⟨_, t, run, seen.1, seen.2.1, seen.2.2.1, wakes_not_lost ⟨rfl, rfl, rfl⟩ run (by rw [seen.2.2.2]; decide)⟩

end RtacAsio
