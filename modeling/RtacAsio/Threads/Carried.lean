import RtacAsio.Threads.Wake

/-!
Where a request under two threads is as long as it is in progress, and who has locked the mutex of
the synchronous calls.
-/

namespace RtacAsio
open Lib

namespace Caller
variable {κ : Type}

/-- The call has opened the request `id`, and has yet to end it or to hand it over. -/
def brings (id : UInt32) : Caller κ → Prop
  | .look _ | .scan _ _ | .finish _ | .args _ | .bind _ _ _ => True
  | .some_ _ _ _ id' => id' = id
  | _ => False

def request : Caller κ → Option (Request κ)
  | .lock request | .open_ request _ => some request
  | .look call | .scan call _ | .finish call | .args call | .bind call _ _ | .some_ call _ _ _ => some call.request
  | _ => none

end Caller

namespace Threads
variable {κ : Type} {code : Code κ} {w w' : Threads κ} {e : ThreadEvent κ}

/-- The request in progress is in the hands of its call, of the stream or of the service. -/
def Carried (w : Threads κ) : Prop :=
  w.slot.id ≠ 0 → w.caller.brings w.slot.id ∨ ∃ c, w.Flight c ∧ c.id = w.slot.id

/-- No request ends with its first completion. -/
structure Plain (code : Code κ) (w : Threads κ) : Prop where
  requests : ∀ request, w.caller.request = some request → code.single request.kind = false
  flight : ∀ c, w.Flight c → code.single c.kind = false

/-- `mutex_` is locked by those only who are between its lock and its unlock. -/
structure Held (w : Threads κ) : Prop where
  caller : w.mutex = some .caller → w.caller.holds = true
  service : w.mutex = some .service → w.serving.notifies = true

/-! ### Invariants -/

theorem Carried.kept (h : Carried w) (id : w'.slot.id = w.slot.id) (flight : ∀ c, c.id = w.slot.id → w.Flight c → w'.Flight c)
    (brings : w.caller.brings w.slot.id → w'.caller.brings w.slot.id ∨ ∃ c, w'.Flight c ∧ c.id = w.slot.id) : Carried w' := by
  intro busy
  rw [id] at busy ⊢
  rcases h busy with brought | ⟨c, in_, same⟩
  · exact brings brought
  · exact Or.inr ⟨c, flight c same in_, same⟩

theorem Carried.ended (id : w'.slot.id = 0) : Carried w' := fun busy => (busy id).elim

theorem handed_flight {c : Cont κ} {serving : Serving κ} {ops : List (Cont κ)} {queue : List (Cont κ × List UInt8)}
    (handed : ∀ c', c' ∈ ops ++ queue.map Prod.fst ↔ c' = c ∨ c' ∈ w.ops ++ w.queue.map Prod.fst)
    (runs : ∀ c', w.serving.cont = some c' → c' = c ∨ serving.cont = some c') {c' : Cont κ} (in_ : c' = c ∨ w.Flight c')
    {readBuffer : List UInt8} {caller : Caller κ} : Flight { w with readBuffer, ops, queue, serving, caller } c' := by
  rcases in_ with rfl | waits | running
  · exact Or.inl ((handed c').mpr (Or.inl rfl))
  · exact Or.inl ((handed c').mpr (Or.inr waits))
  · rcases runs c' running with rfl | still
    · exact Or.inl ((handed c').mpr (Or.inl rfl))
    · exact Or.inr still

theorem taken_flight {c c' : Cont κ} {i : Nat} (waits : c' ∈ w.ops ++ w.queue.map Prod.fst) :
    (w.ops[i]? = some c → c' = c ∨ c' ∈ w.ops.eraseIdx i ++ w.queue.map Prod.fst) ∧
      ∀ bytes, w.queue[i]? = some (c, bytes) → c' = c ∨ c' ∈ w.ops ++ (w.queue.eraseIdx i).map Prod.fst := by
  constructor
  · intro found
    by_cases same : c' = c
    · exact Or.inl same
    · simp only [List.mem_append] at waits ⊢
      exact Or.inr (waits.imp_left (mem_eraseIdx_of_ne found same).mpr)
  · intro bytes found
    by_cases same : c' = c
    · exact Or.inl same
    · simp only [List.mem_append, List.mem_map] at waits ⊢
      refine Or.inr (waits.imp_right ?_)
      rintro ⟨p, member, rfl⟩
      refine ⟨p, (mem_eraseIdx_of_ne found ?_).mpr member, rfl⟩
      rintro rfl
      exact same rfl

theorem step_carried (h : Carried w) (taken : w.step code e = some w') : Carried w' := by
  cases step_move taken with
  | opened request sync slot waits fired call at_ =>
    intro _
    dsimp only
    split <;> exact Or.inl trivial
  | finish call at_ =>
    rw [finish_caller]
    exact .ended (finish_id ..)
  | finished c err at_ | timeUp id at_ =>
    rw [finish_serving]
    exact .ended (finish_id ..)
  | bind call count data at_ => exact h.kept rfl (fun _ _ in_ => in_) fun _ => Or.inl rfl
  | some_ call count data id readBuffer ops queue at_ handed =>
    refine h.kept rfl (fun c _ in_ => handed_flight handed (fun _ => Or.inr) (Or.inr in_)) fun brings => Or.inr ?_
    rw [at_] at brings
    exact ⟨⟨call.request.kind, id⟩, handed_flight handed (fun _ => Or.inr) (Or.inl rfl), brings⟩
  | more c count data readBuffer ops queue at_ handed =>
    refine h.kept rfl (fun c' _ in_ => handed_flight handed (fun c'' runs => Or.inl ?_) (Or.inr in_)) Or.inl
    rw [at_] at runs
    exact (Option.some.inj runs).symm
  | complete i err bytes c at_ found =>
    refine h.kept rfl (fun c' _ in_ => ?_) Or.inl
    rcases in_ with waits | runs
    · exact ((taken_flight waits).1 found).symm.imp id fun same => by rw [same]; rfl
    · rw [at_] at runs
      cases runs
  | deliver i c bytes at_ found =>
    refine h.kept rfl (fun c' _ in_ => ?_) Or.inl
    rcases in_ with waits | runs
    · exact ((taken_flight waits).2 bytes found).symm.imp id fun same => by rw [same]; rfl
    · rw [at_] at runs
      cases runs
  | stale c err bytes at_ other =>
    refine h.kept rfl (fun c' same in_ => ?_) Or.inl
    rcases in_ with waits | runs
    · exact Or.inl waits
    · rw [at_] at runs
      obtain rfl := Option.some.inj runs
      exact (other same).elim
  | current c err bytes at_ same =>
    refine h.kept rfl (fun c' _ in_ => in_.imp_right fun runs => ?_) Or.inl
    rwa [at_] at runs
  | count c err bytes readBuffer processed serving at_ next =>
    refine h.kept rfl (fun c' _ in_ => in_.imp_right fun runs => ?_) Or.inl
    rw [at_] at runs
    rcases next with rfl | rfl <;> exact runs
  | decide c err serving at_ next =>
    refine h.kept rfl (fun c' _ in_ => in_.imp_right fun runs => ?_) Or.inl
    rw [at_] at runs
    rcases next with rfl | ⟨_, _, rfl⟩ <;> exact runs
  | expire => exact h
  | expired id at_ | timeStale id at_ | flag id at_ | callbackLock id at_ | notify id at_ | timer i id err at_
  | callback i id callback at_ =>
    exact h.kept rfl (fun c' _ in_ => in_.imp_right fun runs => by simp [at_, Serving.cont] at runs) Or.inl
  | lookPast call at_ | look call c buffer at_ | scanned call c at_ | scanPast call c at_ | scan call c next buffer at_
  | args call count data at_ =>
    exact h.kept rfl (fun _ _ in_ => in_) fun _ => Or.inl trivial
  | call request sync at_ | lock request at_ | refused request sync at_ | reset own at_ | notified own at_ | wait own at_
  | relock own at_ | result own at_ | wake own at_ =>
    exact h.kept rfl (fun _ _ in_ => in_) fun brings => by simp [at_, Caller.brings] at brings

/-- What is in flight after a step was so before, except for what the step hands over. -/
theorem Plain.kept (h : Plain code w) (requests : ∀ request, w'.caller.request = some request →
      w.caller.request = some request ∨ code.single request.kind = false)
    (flight : ∀ c, w'.Flight c → w.Flight c ∨ code.single c.kind = false) : Plain code w' :=
  ⟨fun request under => (requests request under).elim (h.requests request) id,
    fun c in_ => (flight c in_).elim (h.flight c) id⟩

theorem finish_eq (id : UInt32) (err : ErrorCode) :
    ∃ posted endings, w.finish id err = { w with slot := { w.slot with id := 0 }, posted, endings } := by
  by_cases idle : w.slot.id = 0
  · refine ⟨w.posted, w.endings, ?_⟩
    rw [finish_idle _ _ idle, ← idle]
  · exact ⟨_, _, finish_busy id err idle⟩

theorem handedOver_request (call : Call κ) : (handedOver call).request = none := by
  unfold handedOver
  split <;> rfl

theorem step_plain (h : Plain code w) (scenario : Synchronous code e) (taken : w.step code e = some w') : Plain code w' := by
  cases step_move taken with
  | call request sync at_ =>
    obtain ⟨rfl, plain⟩ := scenario
    refine h.kept (fun request' under => Or.inr ?_) fun _ => Or.inl
    obtain rfl := Option.some.inj under
    exact plain
  | opened request sync slot waits fired call at_ idle counter id callback eq =>
    refine h.kept (fun request' under => Or.inl ?_) fun _ => Or.inl
    rw [at_]
    dsimp only at under
    split at under <;> simpa [Caller.request, eq] using under
  | finish call at_ =>
    obtain ⟨posted, endings, eq⟩ := finish_eq (w := w) call.own .success
    rw [eq]
    refine h.kept (fun request under => ?_) fun _ => Or.inl
    rw [handedOver_request] at under
    cases under
  | finished c err at_ =>
    obtain ⟨posted, endings, eq⟩ := finish_eq (w := w) c.id err
    rw [eq]
    exact h.kept (fun _ => Or.inl) fun c' in_ => Or.inl (Or.inl (in_.resolve_right nofun))
  | timeUp id at_ =>
    obtain ⟨posted, endings, eq⟩ := finish_eq (w := w) id .success
    rw [eq]
    exact h.kept (fun _ => Or.inl) fun c' in_ => Or.inl (Or.inl (in_.resolve_right nofun))
  | some_ call count data id readBuffer ops queue at_ handed =>
    refine h.kept (fun request under => ?_) fun c in_ => ?_
    · rw [handedOver_request] at under
      cases under
    · rcases in_ with waits | runs
      · rcases (handed c).mp waits with rfl | before
        · exact Or.inr (h.requests call.request (by rw [at_]; rfl))
        · exact Or.inl (Or.inl before)
      · exact Or.inl (Or.inr runs)
  | more c count data readBuffer ops queue at_ handed =>
    refine h.kept (fun _ => Or.inl) fun c' in_ => Or.inl ?_
    rcases in_ with waits | runs
    · rcases (handed c').mp waits with rfl | before
      · exact Or.inr (by rw [at_]; rfl)
      · exact Or.inl before
    · cases runs
  | complete i err bytes c at_ found =>
    refine h.kept (fun _ => Or.inl) fun c' in_ => Or.inl (Or.inl ?_)
    rcases in_ with waits | runs
    · exact mem_of_erased i (Or.inl waits)
    · obtain rfl := Option.some.inj runs
      exact List.mem_append_left _ (List.mem_of_getElem? found)
  | deliver i c bytes at_ found =>
    refine h.kept (fun _ => Or.inl) fun c' in_ => Or.inl (Or.inl ?_)
    rcases in_ with waits | runs
    · exact mem_of_erased i (Or.inr waits)
    · obtain rfl := Option.some.inj runs
      exact List.mem_append_right _ (List.mem_map_of_mem (List.mem_of_getElem? found))
  | current c err bytes at_ same =>
    refine h.kept (fun _ => Or.inl) fun c' in_ => Or.inl (in_.imp_right fun runs => ?_)
    rwa [at_]
  | count c err bytes readBuffer processed serving at_ next =>
    refine h.kept (fun _ => Or.inl) fun c' in_ => Or.inl (in_.imp_right fun runs => ?_)
    rw [at_]
    rcases next with rfl | rfl <;> exact runs
  | decide c err serving at_ next =>
    refine h.kept (fun _ => Or.inl) fun c' in_ => Or.inl (in_.imp_right fun runs => ?_)
    rw [at_]
    rcases next with rfl | ⟨_, _, rfl⟩ <;> exact runs
  | expire => exact ⟨h.requests, h.flight⟩
  | callback i id callback at_ =>
    refine h.kept (fun _ => Or.inl) fun c' in_ => Or.inl (in_.imp_right fun runs => ?_)
    dsimp only at runs
    split at runs <;> cases runs
  | stale c err bytes at_ | expired id at_ | timeStale id at_ | flag id at_ | callbackLock id at_ | notify id at_
  | timer i id err at_ =>
    refine h.kept (fun _ => Or.inl) fun c' in_ => Or.inl (in_.imp_right fun runs => ?_)
    cases runs
  | lookPast call at_ | look call c buffer at_ | scanned call c at_ | scanPast call c at_ | scan call c next buffer at_
  | args call count data at_ | bind call count data at_ | lock request at_ =>
    exact h.kept (fun request under => Or.inl (by rw [at_]; exact under)) fun _ => Or.inl
  | refused request sync at_ | reset own at_ | notified own at_ | wait own at_ | relock own at_ | result own at_
  | wake own at_ =>
    refine h.kept (fun request under => ?_) fun _ => Or.inl
    cases under

theorem Held.caller_step (h : Held w) {caller : Caller κ} (mutex : w'.mutex = w.mutex) (serving : w'.serving = w.serving)
    (eq : w'.caller = caller) (holds : w.caller.holds = true → caller.holds = true) : Held w' :=
  ⟨fun locked => by rw [eq]; exact holds (h.caller (mutex ▸ locked)), fun locked => by rw [serving]; exact h.service (mutex ▸ locked)⟩

theorem Held.service_step (h : Held w) (mutex : w'.mutex = w.mutex) (caller : w'.caller = w.caller)
    (other : w.serving.notifies = false) : Held w' := by
  refine ⟨fun locked => by rw [caller]; exact h.caller (mutex ▸ locked), fun locked => ?_⟩
  rw [h.service (mutex ▸ locked)] at other
  cases other

theorem step_held (h : Held w) (waits : w.caller.sync = true) (scenario : Synchronous code e)
    (taken : w.step code e = some w') : Held w' := by
  cases step_move taken with
  | call request sync at_ =>
    obtain ⟨rfl, _⟩ := scenario
    exact h.caller_step rfl rfl rfl (by simp [at_, Caller.holds])
  | lock request at_ => exact ⟨fun _ => rfl, by simp⟩
  | refused request sync at_ =>
    obtain rfl : sync = true := by simpa [at_, Caller.sync] using waits
    exact ⟨by simp, by simp⟩
  | relock own at_ => exact ⟨fun _ => rfl, by simp⟩
  | callbackLock id at_ => exact ⟨by simp, fun _ => rfl⟩
  | wait own at_ | result own at_ | notify id at_ => exact ⟨by simp, by simp⟩
  | opened request sync slot waits' fired call at_ => exact h.caller_step rfl rfl rfl fun _ => by split <;> rfl
  | finish call at_ =>
    have sync : call.sync = true := by simpa [at_, Caller.sync] using waits
    obtain ⟨posted, endings, eq⟩ := finish_eq (w := w) call.own .success
    rw [eq]
    exact h.caller_step rfl rfl rfl fun _ => by rw [handedOver_sync sync]; rfl
  | some_ call count data id readBuffer ops queue at_ =>
    have sync : call.sync = true := by simpa [at_, Caller.sync] using waits
    exact h.caller_step rfl rfl rfl fun _ => by rw [handedOver_sync sync]; rfl
  | wake own at_ => exact h.caller_step rfl rfl rfl (by simp [at_, Caller.holds])
  | lookPast call at_ | look call c buffer at_ | scanned call c at_ | scanPast call c at_ | scan call c next buffer at_
  | args call count data at_ | bind call count data at_ | reset own at_ | notified own at_ =>
    exact h.caller_step rfl rfl rfl fun _ => rfl
  | finished c err at_ =>
    obtain ⟨posted, endings, eq⟩ := finish_eq (w := w) c.id err
    rw [eq]
    exact h.service_step rfl rfl (by rw [at_]; rfl)
  | timeUp id at_ =>
    obtain ⟨posted, endings, eq⟩ := finish_eq (w := w) id .success
    rw [eq]
    exact h.service_step rfl rfl (by rw [at_]; rfl)
  | expire => exact ⟨h.caller, h.service⟩
  | current c err bytes at_ | stale c err bytes at_ | count c err bytes readBuffer processed serving at_
  | decide c err serving at_ | more c count data readBuffer ops queue at_ | expired id at_ | timeStale id at_ | flag id at_
  | complete i err bytes c at_ | deliver i c bytes at_ | timer i id err at_ | callback i id callback at_ =>
    exact h.service_step rfl rfl (by rw [at_]; rfl)

end Threads

end RtacAsio
