import RtacAsio.Threads.Model

/-! What one step of two threads can do. -/

namespace RtacAsio
open Lib

namespace Threads
variable {κ : Type} {code : Code κ} {w w' : Threads κ}

theorem foldl_arm (request : Request κ) (id : UInt32) :
    ∃ waits fired, (if request.timeoutMillis > 0 then [Effect.arm (κ := κ) request.timeoutMillis id] else []).foldl perform w =
      { w with waits, fired } := by
  split
  · exact ⟨_, _, rfl⟩
  · exact ⟨w.waits, w.fired, rfl⟩

theorem finish_idle (id : UInt32) (err : ErrorCode) (idle : w.slot.id = 0) : w.finish id err = w := by
  simp [finish, Slot.finish_idle, idle]

theorem finish_busy (id : UInt32) (err : ErrorCode) (busy : w.slot.id ≠ 0) :
    w.finish id err =
      { w with
        slot := { w.slot with id := 0 }
        posted := w.posted ++ [(w.slot.id, w.slot.callback)]
        endings := w.endings ++ [⟨id, w.slot.id, w.slot.processed⟩] } := by
  simp [finish, Slot.finish_busy, busy, perform]

theorem finish_id (id : UInt32) (err : ErrorCode) : (w.finish id err).slot.id = 0 := by
  by_cases idle : w.slot.id = 0
  · rwa [finish_idle _ _ idle]
  · rw [finish_busy _ _ idle]

theorem finish_accepted (id : UInt32) (err : ErrorCode) : (w.finish id err).accepted = w.accepted := by
  by_cases idle : w.slot.id = 0
  · rw [finish_idle _ _ idle]
  · rw [finish_busy _ _ idle]

theorem doSome_eq (c : Cont κ) (count data : Nat) :
    ∃ readBuffer ops queue, w.doSome c count data = { w with readBuffer, ops, queue } ∧
      ∀ c', c' ∈ ops ++ queue.map Prod.fst ↔ c' = c ∨ c' ∈ w.ops ++ w.queue.map Prod.fst := by
  unfold doSome
  split
  · refine ⟨_, w.ops, _, rfl, fun c' => ?_⟩
    simp only [List.map_append, List.mem_append, List.map_cons, List.map_nil, List.mem_singleton]
    grind
  · refine ⟨w.readBuffer, _, w.queue, rfl, fun c' => ?_⟩
    simp only [List.mem_append, List.mem_singleton]
    grind

inductive Move (code : Code κ) (w : Threads κ) : ThreadEvent κ → Threads κ → Prop
  | call (request : Request κ) (sync : Bool) : w.caller = .idle →
      Move code w (.call request sync) { w with caller := if sync then .lock request else .open_ request false }
  | lock (request : Request κ) : w.caller = .lock request → w.mutex = none →
      Move code w .caller { w with mutex := some .caller, caller := .open_ request true }
  | opened (request : Request κ) (sync : Bool) (slot : Slot) (waits : List UInt32) (fired : List (UInt32 × ErrorCode))
      (call : Call κ) : w.caller = .open_ request sync → w.slot.id = 0 → slot.counter = w.slot.counter + 1 →
      slot.id = slot.counter → slot.callback = (passed request sync).callback → call = ⟨request, sync, slot.id⟩ →
      Move code w .caller { w with
        slot, waits, fired
        accepted := w.accepted + 1
        caller := if (code.delimiter request.kind).isSome then .look call else .args call }
  | refused (request : Request κ) (sync : Bool) : w.caller = .open_ request sync → w.slot.id ≠ 0 →
      Move code w .caller { w with caller := .idle, mutex := if sync then none else w.mutex }
  | lookPast (call : Call κ) : w.caller = .look call → w.readBuffer = [] →
      Move code w .caller { w with caller := .args call }
  | look (call : Call κ) (c : UInt8) (buffer : List UInt8) : w.caller = .look call → w.readBuffer = c :: buffer →
      Move code w .caller { w with readBuffer := buffer, caller := .scan call c }
  | scanned (call : Call κ) (c : UInt8) : w.caller = .scan call c →
      some c.toInt8 = code.delimiter call.request.kind ∨ w.slot.processed + 1 ≥ w.slot.requestedSize →
      Move code w .caller { w with slot := { w.slot with processed := w.slot.processed + 1 }, caller := .finish call }
  | scanPast (call : Call κ) (c : UInt8) : w.caller = .scan call c →
      ¬ (some c.toInt8 = code.delimiter call.request.kind ∨ w.slot.processed + 1 ≥ w.slot.requestedSize) →
      w.readBuffer = [] →
      Move code w .caller { w with slot := { w.slot with processed := w.slot.processed + 1 }, caller := .args call }
  | scan (call : Call κ) (c next : UInt8) (buffer : List UInt8) : w.caller = .scan call c →
      ¬ (some c.toInt8 = code.delimiter call.request.kind ∨ w.slot.processed + 1 ≥ w.slot.requestedSize) →
      w.readBuffer = next :: buffer →
      Move code w .caller { w with
        slot := { w.slot with processed := w.slot.processed + 1 }
        readBuffer := buffer
        caller := .scan call next }
  | finish (call : Call κ) : w.caller = .finish call →
      Move code w .caller { w.finish call.own .success with caller := handedOver call }
  | args (call : Call κ) (count data : Nat) : w.caller = .args call →
      Move code w .caller { w with caller := .bind call count data }
  | bind (call : Call κ) (count data : Nat) : w.caller = .bind call count data →
      Move code w .caller { w with
        bound := w.bound ++ [(call.own, w.slot.id)]
        caller := .some_ call count data w.slot.id }
  | some_ (call : Call κ) (count data : Nat) (id : UInt32) (readBuffer : List UInt8) (ops : List (Cont κ))
      (queue : List (Cont κ × List UInt8)) : w.caller = .some_ call count data id →
      (∀ c, c ∈ ops ++ queue.map Prod.fst ↔ c = ⟨call.request.kind, id⟩ ∨ c ∈ w.ops ++ w.queue.map Prod.fst) →
      Move code w .caller { w with readBuffer, ops, queue, caller := handedOver call }
  | reset (own : UInt32) : w.caller = .reset own →
      Move code w .caller { w with slot := { w.slot with waiterNotified := false }, caller := .test own }
  | notified (own : UInt32) : w.caller = .test own → w.slot.waiterNotified = true →
      Move code w .caller { w with caller := .result own }
  | wait (own : UInt32) : w.caller = .test own → w.slot.waiterNotified = false →
      Move code w .caller { w with mutex := none, caller := .blocked own }
  | relock (own : UInt32) : w.caller = .relock own → w.mutex = none →
      Move code w .caller { w with mutex := some .caller, caller := .test own }
  | result (own : UInt32) : w.caller = .result own →
      Move code w .caller { w with
        returns := w.returns ++ [⟨own, w.slot.id, w.slot.processed⟩]
        mutex := none
        caller := .idle }
  | wake (own : UInt32) : w.caller = .blocked own → Move code w .wake { w with caller := .relock own }
  | current (c : Cont κ) (err : ErrorCode) (bytes : List UInt8) : w.serving = .check c err bytes →
      c.id = w.slot.id → Move code w .service { w with serving := .count c err bytes }
  | stale (c : Cont κ) (err : ErrorCode) (bytes : List UInt8) : w.serving = .check c err bytes →
      c.id ≠ w.slot.id → Move code w .service { w with serving := .idle }
  | count (c : Cont κ) (err : ErrorCode) (bytes readBuffer : List UInt8) (processed : Nat) (serving : Serving κ) :
      w.serving = .count c err bytes → serving = .finish c err ∨ serving = .decide c err →
      Move code w .service { w with slot := { w.slot with processed }, readBuffer, serving }
  | decide (c : Cont κ) (err : ErrorCode) (serving : Serving κ) : w.serving = .decide c err →
      serving = .finish c err ∨ (∃ count data, serving = .more c count data) →
      Move code w .service { w with serving }
  | more (c : Cont κ) (count data : Nat) (readBuffer : List UInt8) (ops : List (Cont κ))
      (queue : List (Cont κ × List UInt8)) : w.serving = .more c count data →
      (∀ c', c' ∈ ops ++ queue.map Prod.fst ↔ c' = c ∨ c' ∈ w.ops ++ w.queue.map Prod.fst) →
      Move code w .service { w with readBuffer, ops, queue, serving := .idle }
  | finished (c : Cont κ) (err : ErrorCode) : w.serving = .finish c err →
      Move code w .service { w.finish c.id err with serving := .idle }
  | expired (id : UInt32) : w.serving = .timeCheck id → id = w.slot.id →
      Move code w .service { w with serving := .flag id }
  | timeStale (id : UInt32) : w.serving = .timeCheck id → id ≠ w.slot.id →
      Move code w .service { w with serving := .idle }
  | flag (id : UInt32) : w.serving = .flag id →
      Move code w .service { w with slot := { w.slot with waiterNotified := true }, serving := .timeUp id }
  | timeUp (id : UInt32) : w.serving = .timeUp id →
      Move code w .service { w.finish id .success with serving := .idle }
  | callbackLock (id : UInt32) : w.serving = .callback id → w.mutex = none →
      Move code w .service { w with mutex := some .service, serving := .notify id }
  | notify (id : UInt32) : w.serving = .notify id →
      Move code w .service { w with
        slot := { w.slot with waiterNotified := true }
        mutex := none
        serving := .idle }
  | complete (i : Nat) (err : ErrorCode) (bytes : List UInt8) (c : Cont κ) : w.serving = .idle → w.ops[i]? = some c →
      Move code w (.complete i err bytes) { w with ops := w.ops.eraseIdx i, serving := .check c err bytes }
  | deliver (i : Nat) (c : Cont κ) (bytes : List UInt8) : w.serving = .idle → w.queue[i]? = some (c, bytes) →
      Move code w (.deliver i) { w with queue := w.queue.eraseIdx i, serving := .check c .success bytes }
  | timer (i : Nat) (id : UInt32) (err : ErrorCode) : w.serving = .idle → w.fired[i]? = some (id, err) →
      Move code w (.timer i) { w with fired := w.fired.eraseIdx i, serving := .timeCheck id }
  | callback (i : Nat) (id : UInt32) (callback : Callback) : w.serving = .idle → w.posted[i]? = some (id, callback) →
      Move code w (.callback i) { w with
        posted := w.posted.eraseIdx i
        serving := if callback = syncCallback then .callback id else .idle }
  | expire : Move code w .expire { w with fired := w.fired ++ w.waits.map (·, .success), waits := [] }

theorem openStep_move {request : Request κ} {sync : Bool} (at_ : w.caller = .open_ request sync) :
    Move code w .caller (w.openStep code request sync) := by
  by_cases idle : w.slot.id = 0
  · obtain ⟨waits, fired, armed⟩ := foldl_arm (w := w) (passed request sync) (w.slot.counter + 1)
    simp only [openStep, Slot.newRequest_idle _ idle, armed, ↓reduceIte]
    exact .opened request sync _ waits fired _ at_ idle rfl rfl rfl rfl
  · simp only [openStep, Slot.newRequest_busy _ idle, Bool.false_eq_true, ↓reduceIte]
    exact .refused request sync at_ idle

theorem callerStep_move (taken : w.callerStep code = some w') : Move code w .caller w' := by
  simp only [callerStep] at taken
  split at taken
  · cases taken
  · obtain ⟨free, eq⟩ := Option.ite_none_right_eq_some.mp taken
    obtain rfl := Option.some.inj eq
    exact .lock _ ‹_› free
  · obtain rfl := Option.some.inj taken
    exact openStep_move ‹_›
  · split at taken
    · obtain rfl := Option.some.inj taken
      exact .lookPast _ ‹_› ‹_›
    · obtain rfl := Option.some.inj taken
      exact .look _ _ _ ‹_› ‹_›
  · split at taken
    · obtain rfl := Option.some.inj taken
      exact .scanned _ _ ‹_› ‹_›
    · split at taken
      · obtain rfl := Option.some.inj taken
        exact .scanPast _ _ ‹_› ‹_› ‹_›
      · obtain rfl := Option.some.inj taken
        exact .scan _ _ _ _ ‹_› ‹_› ‹_›
  · obtain rfl := Option.some.inj taken
    exact .finish _ ‹_›
  · obtain rfl := Option.some.inj taken
    exact .args _ _ _ ‹_›
  · obtain rfl := Option.some.inj taken
    exact .bind _ _ _ ‹_›
  · rename_i call count data id at_
    obtain rfl := Option.some.inj taken
    obtain ⟨readBuffer, ops, queue, eq, handed⟩ := doSome_eq (w := w) ⟨call.request.kind, id⟩ count data
    rw [eq]
    exact .some_ call count data id _ _ _ at_ handed
  · obtain rfl := Option.some.inj taken
    exact .reset _ ‹_›
  · split at taken
    · obtain rfl := Option.some.inj taken
      exact .notified _ ‹_› ‹_›
    · rename_i unset
      obtain rfl := Option.some.inj taken
      exact .wait _ ‹_› (by simpa using unset)
  · cases taken
  · obtain ⟨free, eq⟩ := Option.ite_none_right_eq_some.mp taken
    obtain rfl := Option.some.inj eq
    exact .relock _ ‹_› free
  · obtain rfl := Option.some.inj taken
    exact .result _ ‹_›

theorem countStep_move {c : Cont κ} {err : ErrorCode} {bytes : List UInt8} (at_ : w.serving = .count c err bytes) :
    Move code w .service (w.countStep code c err bytes) := by
  unfold countStep
  split
  · exact .count c err bytes w.readBuffer _ _ at_ (Or.inl rfl)
  · split
    · exact .count c err bytes _ _ _ at_ (Or.inl rfl)
    · exact .count c err bytes w.readBuffer _ _ at_ (Or.inr rfl)

theorem serviceStep_move (taken : w.serviceStep code = some w') : Move code w .service w' := by
  simp only [serviceStep] at taken
  split at taken
  · cases taken
  · obtain rfl := Option.some.inj taken
    split
    · rename_i current
      exact .current _ _ _ ‹_› (Slot.idOk_iff.mp current)
    · rename_i stale
      exact .stale _ _ _ ‹_› (mt Slot.idOk_iff.mpr stale)
  · obtain rfl := Option.some.inj taken
    exact countStep_move ‹_›
  · split at taken
    · obtain rfl := Option.some.inj taken
      exact .decide _ _ _ ‹_› (Or.inr ⟨_, _, rfl⟩)
    · obtain rfl := Option.some.inj taken
      exact .decide _ _ _ ‹_› (Or.inl rfl)
  · rename_i c count data at_
    obtain rfl := Option.some.inj taken
    obtain ⟨readBuffer, ops, queue, eq, handed⟩ := doSome_eq (w := w) c count data
    rw [eq]
    exact .more c count data _ _ _ at_ handed
  · obtain rfl := Option.some.inj taken
    exact .finished _ _ ‹_›
  · obtain rfl := Option.some.inj taken
    split
    · rename_i current
      exact .expired _ ‹_› (Slot.idOk_iff.mp current)
    · rename_i stale
      exact .timeStale _ ‹_› (mt Slot.idOk_iff.mpr stale)
  · obtain rfl := Option.some.inj taken
    exact .flag _ ‹_›
  · obtain rfl := Option.some.inj taken
    exact .timeUp _ ‹_›
  · obtain ⟨free, eq⟩ := Option.ite_none_right_eq_some.mp taken
    obtain rfl := Option.some.inj eq
    exact .callbackLock _ ‹_› free
  · obtain rfl := Option.some.inj taken
    exact .notify _ ‹_›

theorem step_move {e : ThreadEvent κ} (taken : w.step code e = some w') : Move code w e w' := by
  cases e with
  | caller => exact callerStep_move taken
  | service => exact serviceStep_move taken
  | call request sync =>
    simp only [step] at taken
    split at taken
    · obtain rfl := Option.some.inj taken
      exact .call _ _ ‹_›
    · cases taken
  | wake =>
    simp only [step] at taken
    split at taken
    · obtain rfl := Option.some.inj taken
      exact .wake _ ‹_›
    · cases taken
  | complete i err bytes =>
    simp only [step] at taken
    split at taken
    · obtain rfl := Option.some.inj taken
      exact .complete _ _ _ _ ‹_› ‹_›
    · cases taken
  | deliver i =>
    simp only [step] at taken
    split at taken
    · obtain rfl := Option.some.inj taken
      exact .deliver _ _ _ ‹_› ‹_›
    · cases taken
  | timer i =>
    simp only [step] at taken
    split at taken
    · obtain rfl := Option.some.inj taken
      exact .timer _ _ _ ‹_› ‹_›
    · cases taken
  | callback i =>
    simp only [step] at taken
    split at taken
    · obtain rfl := Option.some.inj taken
      exact .callback _ _ _ ‹_› ‹_›
    · cases taken
  | expire =>
    obtain rfl := Option.some.inj taken
    exact .expire

end Threads

end RtacAsio
