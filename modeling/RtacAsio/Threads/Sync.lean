import RtacAsio.Threads.Ids

/-! For which request a synchronous call returns, and what. -/

namespace RtacAsio
open Lib

namespace Caller
variable {κ : Type}

def own : Caller κ → Option UInt32
  | .look call | .scan call _ | .finish call | .args call | .bind call _ _ | .some_ call _ _ _ => some call.own
  | .reset own | .test own | .blocked own | .relock own | .result own => some own
  | _ => none

/-- The call has yet to end its request, or to read the id that it binds. -/
def early : Caller κ → Bool
  | .look _ | .scan _ _ | .args _ | .bind _ _ _ => true
  | _ => false

/-- The call has cleared the flag, and waits for it. -/
def waiting : Caller κ → Bool
  | .test _ | .blocked _ | .relock _ => true
  | _ => false

def tests : Caller κ → Bool
  | .test _ => true
  | _ => false

/-- The call waits once it has handed its request over. -/
def sync : Caller κ → Bool
  | .open_ _ sync => sync
  | .look call | .scan call _ | .finish call | .args call | .bind call _ _ | .some_ call _ _ _ => call.sync
  | _ => true

theorem opening_of_early {caller : Caller κ} (h : caller.early = true) : ∃ own, caller.opening = some own := by
  cases caller <;> simp_all [early, opening]

end Caller

def Serving.notifies : Serving κ → Bool
  | .notify _ => true
  | _ => false

namespace Threads
variable {κ : Type} {code : Code κ} {w w' : Threads κ} {e : ThreadEvent κ}

/-- Every call waits; `read_some` and `write_some` have no form that does. -/
def Synchronous (code : Code κ) : ThreadEvent κ → Prop
  | .call request sync => sync = true ∧ code.single request.kind = false
  | _ => True

/-- `timeout_reached` does not end a request whose call has yet to read the id that it binds;
while the request of a waiting call is in progress, no callback sets the flag, and the call does
not test a flag that a `timeout_reached` has set before it ends the request. -/
def OwnWake (w : Threads κ) (e : ThreadEvent κ) : Prop :=
  (e = .service → w.serving.isTimeUp = true → w.slot.id = 0 ∨ w.caller.early = false) ∧
  (e = .service → w.serving.notifies = true → w.slot.id = 0 ∨ w.caller.waiting = false) ∧
  (e = .caller → w.caller.tests = true → w.slot.waiterNotified = true → w.slot.id = 0 ∨ w.serving.isTimeUp = false)

instance : DecidablePred (Synchronous code)
  | .call _ _ => inferInstanceAs (Decidable (_ ∧ _))
  | .caller | .wake | .service | .complete _ _ _ | .deliver _ | .timer _ | .callback _ | .expire => instDecidableTrue

instance [DecidableEq κ] (w : Threads κ) (e : ThreadEvent κ) : Decidable (w.OwnWake e) :=
  inferInstanceAs (Decidable ((_ → _ → _ ∨ _) ∧ (_ → _ → _ ∨ _) ∧ (_ → _ → _ → _ ∨ _)))

/-- The request `id` was ended, with `count` bytes. -/
structure EndedWith (w : Threads κ) (id : UInt32) (count : Nat) : Prop where
  ended : ∃ f ∈ w.endings, f.ended = id
  only : ∀ f ∈ w.endings, f.ended = id → f.count = count

/-- Every call that returned found its own request ended, and returned its number of bytes. -/
def ReturnsOwn (w : Threads κ) : Prop :=
  ∀ r ∈ w.returns, r.id ≠ r.own ∧ w.EndedWith r.own r.value

structure Waits (w : Threads κ) : Prop where
  sync : w.caller.sync = true
  idle : w.caller.own = none → w.slot.id = 0
  running : ∀ own, w.caller.own = some own →
    own ≠ 0 ∧ (w.slot.id = own ∨ w.slot.id = 0 ∧ w.EndedWith own w.slot.processed)
  early : w.caller.early = true → w.slot.id ≠ 0
  flagged : w.caller.waiting = true → w.slot.waiterNotified = true → w.slot.id = 0 ∨ w.serving.isTimeUp = true
  result : ∀ own, w.caller = .result own → w.slot.id = 0
  ended : ∀ f ∈ w.endings, f.ended.toNat ≤ w.accepted ∧ f.ended ≠ 0 ∧ f.ended ≠ w.slot.id
  returns : w.ReturnsOwn

theorem EndedWith.kept {id : UInt32} {count : Nat} (h : w.EndedWith id count) {f : Ending} (other : f.ended ≠ id)
    (grown : w'.endings = w.endings ++ [f]) : w'.EndedWith id count := by
  obtain ⟨g, member, ended⟩ := h.ended
  refine ⟨⟨g, by simp [grown, member], ended⟩, fun g' member' ended' => ?_⟩
  rw [grown] at member'
  rcases List.mem_append.mp member' with old | new
  · exact h.only g' old ended'
  · obtain rfl := List.mem_singleton.mp new
    exact (other ended').elim

theorem Waits.ne_of_ended (h : Waits w) {id : UInt32} {count : Nat} (ended : w.EndedWith id count) : w.slot.id ≠ id := by
  obtain ⟨f, member, rfl⟩ := ended.ended
  exact (h.ended f member).2.2.symm

theorem Waits.go (h : Waits w) {caller : Caller κ} {serving : Serving κ} {processed : Nat} {waiterNotified : Bool}
    {readBuffer : List UInt8} {mutex : Option Holder} {ops : List (Cont κ)} {queue : List (Cont κ × List UInt8)}
    {waits : List UInt32} {fired : List (UInt32 × ErrorCode)} {posted : List (UInt32 × Callback)}
    {bound : List (UInt32 × UInt32)} (sync : caller.sync = true) (own : caller.own = w.caller.own)
    (count : w.slot.id = 0 → processed = w.slot.processed) (early : caller.early = true → w.slot.id ≠ 0)
    (flagged : caller.waiting = true → waiterNotified = true → w.slot.id = 0 ∨ serving.isTimeUp = true)
    (result : ∀ own, caller = .result own → w.slot.id = 0) :
    Waits { w with slot := { w.slot with processed, waiterNotified }, readBuffer, mutex, caller, serving, ops, queue, waits,
                   fired, posted, bound } where
  sync := sync
  idle none := h.idle (own ▸ none)
  running id under := by
    obtain ⟨ne, live | ⟨past, ended⟩⟩ := h.running id (own ▸ under)
    · exact ⟨ne, Or.inl live⟩
    · refine ⟨ne, Or.inr ⟨past, ?_⟩⟩
      obtain rfl := count past
      exact ⟨ended.ended, ended.only⟩
  early := early
  flagged := flagged
  result := result
  ended := h.ended
  returns r member := by
    obtain ⟨other, ended⟩ := h.returns r member
    exact ⟨other, ended.ended, ended.only⟩

theorem Waits.serve (h : Waits w) {serving : Serving κ} {processed : Nat} {readBuffer : List UInt8}
    {mutex : Option Holder} {ops : List (Cont κ)} {queue : List (Cont κ × List UInt8)} {waits : List UInt32}
    {fired : List (UInt32 × ErrorCode)} {posted : List (UInt32 × Callback)} (calm : w.serving.isTimeUp = false)
    (count : w.slot.id = 0 → processed = w.slot.processed) :
    Waits { w with slot := { w.slot with processed }, readBuffer, mutex, serving, ops, queue, waits, fired, posted } := by
  refine h.go h.sync rfl count h.early (fun waiting set => Or.inl ?_) h.result
  exact (h.flagged waiting set).resolve_right (by simp [calm])

theorem Waits.goto (h : Waits w) {caller : Caller κ} {readBuffer : List UInt8} {mutex : Option Holder}
    {ops : List (Cont κ)} {queue : List (Cont κ × List UInt8)} (sync : caller.sync = true)
    (own : caller.own = w.caller.own) (early : caller.early = false) (waiting : caller.waiting = false)
    (result : ∀ own, caller ≠ .result own) : Waits { w with readBuffer, mutex, caller, ops, queue } :=
  h.go sync own (fun _ => rfl) (by simp [early]) (by simp [waiting]) fun own at_ => (result own at_).elim

theorem Waits.advance (h : Waits w) {caller : Caller κ} {processed : Nat} {readBuffer : List UInt8}
    {bound : List (UInt32 × UInt32)} (busy : w.slot.id ≠ 0) (own : caller.own = w.caller.own)
    (sync : caller.sync = w.caller.sync) (waiting : caller.waiting = false) (result : ∀ own, caller ≠ .result own) :
    Waits { w with slot := { w.slot with processed }, readBuffer, caller, bound } :=
  h.go (sync.trans h.sync) own (fun idle => (busy idle).elim) (fun _ => busy) (by simp [waiting]) fun own at_ =>
    (result own at_).elim

theorem Waits.finish (ids : Ids code w) (h : Waits w) (id : UInt32) (err : ErrorCode)
    (settled : w.slot.id = 0 ∨ w.caller.early = false) : Waits (w.finish id err) := by
  by_cases idle : w.slot.id = 0
  · rwa [finish_idle _ _ idle]
  · have rank : w.slot.id.toNat = w.accepted := by rw [ids.current.resolve_left idle, ids.counted]
    rw [finish_busy _ _ idle]
    refine ⟨h.sync, fun _ => rfl, fun own under => ?_, ?_, fun _ _ => Or.inl rfl, fun _ _ => rfl, fun f member => ?_,
      fun r member => ?_⟩
    · obtain ⟨ne, live | ⟨past, _⟩⟩ := h.running own under
      · refine ⟨ne, Or.inr ⟨rfl, ⟨_, List.mem_append_right _ (List.mem_singleton_self _), live⟩, fun f member ended => ?_⟩⟩
        rcases List.mem_append.mp member with old | new
        · exact ((h.ended f old).2.2 (ended.trans live.symm)).elim
        · obtain rfl := List.mem_singleton.mp new
          rfl
      · exact (idle past).elim
    · simp [settled.resolve_left idle]
    · rcases List.mem_append.mp member with old | new
      · obtain ⟨below, ne, _⟩ := h.ended f old
        exact ⟨below, ne, ne⟩
      · obtain rfl := List.mem_singleton.mp new
        exact ⟨Nat.le_of_eq rank, idle, idle⟩
    · obtain ⟨other, ended⟩ := h.returns r member
      exact ⟨other, ended.kept (h.ne_of_ended ended) rfl⟩

theorem opened_waits (ids : Ids code w) (h : Waits w) {slot : Slot} {waits : List UInt32}
    {fired : List (UInt32 × ErrorCode)} {call : Call κ} {caller : Caller κ}
    (counter : slot.counter = w.slot.counter + 1) (id : slot.id = slot.counter) (own : call.own = slot.id)
    (sync : call.sync = true) (first : caller = .look call ∨ caller = .args call) (bounded : w.accepted + 1 < 2 ^ 32) :
    Waits { w with slot, waits, fired, accepted := w.accepted + 1, caller } := by
  have rank : slot.id.toNat = w.accepted + 1 := by
    rw [id, counter]
    exact counter_next ids.counted bounded
  have ne : slot.id ≠ 0 := by
    intro zero
    simp [zero] at rank
  have under : caller.own = some slot.id := by rcases first with rfl | rfl <;> simp [Caller.own, own]
  refine ⟨?_, by simp [under], fun id' at_ => ?_, fun _ => ne, ?_, ?_, fun f member => ?_, fun r member => ?_⟩
  · rcases first with rfl | rfl <;> exact sync
  · obtain rfl := Option.some.inj (under.symm.trans at_)
    exact ⟨ne, Or.inl rfl⟩
  · rcases first with rfl | rfl <;> simp [Caller.waiting]
  · rcases first with rfl | rfl <;> simp
  · obtain ⟨below, ne', _⟩ := h.ended f member
    refine ⟨Nat.le_succ_of_le below, ne', fun same => ?_⟩
    rw [same, rank] at below
    omega
  · obtain ⟨other, ended⟩ := h.returns r member
    exact ⟨other, ended.ended, ended.only⟩

theorem returned_waits (h : Waits w) {own : UInt32} (at_ : w.caller = .result own) :
    Waits { w with
      returns := w.returns ++ [⟨own, w.slot.id, w.slot.processed⟩]
      mutex := none
      caller := .idle } := by
  have idle := h.result own at_
  obtain ⟨ne, running⟩ := h.running own (by rw [at_]; rfl)
  refine ⟨rfl, fun _ => idle, by simp [Caller.own], by simp [Caller.early], by simp [Caller.waiting], by simp, h.ended,
    fun r member => ?_⟩
  rcases List.mem_append.mp member with old | new
  · obtain ⟨other, ended⟩ := h.returns r old
    exact ⟨other, ended.ended, ended.only⟩
  · obtain rfl := List.mem_singleton.mp new
    obtain ⟨_, ended⟩ := running.resolve_left (idle ▸ ne.symm)
    exact ⟨idle ▸ ne.symm, ended.ended, ended.only⟩

theorem handedOver_sync {call : Call κ} (sync : call.sync = true) : handedOver call = .reset call.own := by
  simp [handedOver, sync]

theorem handed_waits (h : Waits w) {call : Call κ} {readBuffer : List UInt8} {ops : List (Cont κ)}
    {queue : List (Cont κ × List UInt8)} (own : w.caller.own = some call.own) (sync : call.sync = true) :
    Waits { w with readBuffer, ops, queue, caller := handedOver call } := by
  rw [handedOver_sync sync]
  exact h.goto rfl own.symm rfl rfl (by simp)

theorem step_waits (ids : Ids code w) (h : Waits w) (scenario : Synchronous code e) (wakes : w.OwnWake e)
    (taken : w.step code e = some w') (bounded : w'.accepted < 2 ^ 32) : Waits w' := by
  obtain ⟨bound, heard, tested⟩ := wakes
  cases step_move taken with
  | call request sync at_ =>
    obtain ⟨rfl, _⟩ := scenario
    exact h.goto rfl (by rw [at_]; rfl) rfl rfl (by simp)
  | lock request at_ => exact h.goto rfl (by rw [at_]; rfl) rfl rfl (by simp)
  | opened request sync slot waits fired call at_ idle counter id callback eq =>
    have waits : sync = true := by simpa [at_, Caller.sync] using h.sync
    have own : call.own = slot.id := by rw [eq]
    have sync : call.sync = true := by rw [eq, waits]
    exact opened_waits ids h counter id own sync (by split <;> simp) bounded
  | refused request sync at_ busy => exact (busy (h.idle (by rw [at_]; rfl))).elim
  | lookPast call at_ | look call c buffer at_ | scanned call c at_ | scanPast call c at_ | scan call c next buffer at_
  | args call count data at_ | bind call count data at_ =>
    refine h.advance (h.early (by rw [at_]; rfl)) ?_ ?_ rfl (by simp) <;> simp [at_, Caller.own, Caller.sync]
  | finish call at_ =>
    have sync : call.sync = true := by simpa [at_, Caller.sync] using h.sync
    have handed : Waits { w with caller := handedOver call } := handed_waits h (by rw [at_]; rfl) sync
    rw [finish_caller]
    exact handed.finish (ids.elsewhere (handedOver_opening call)) _ _ (Or.inr (by rw [handedOver_sync sync]; rfl))
  | some_ call count data id readBuffer ops queue at_ =>
    exact handed_waits h (by rw [at_]; rfl) (by simpa [at_, Caller.sync] using h.sync)
  | reset own at_ =>
    exact h.go rfl (by rw [at_]; rfl) (fun _ => rfl) (by simp [Caller.early]) (by simp) (by simp)
  | notified own at_ set =>
    have past : w.slot.id = 0 := by
      have flagged := h.flagged (by rw [at_]; rfl) set
      rcases tested rfl (by rw [at_]; rfl) set with past | calm
      · exact past
      · exact flagged.resolve_right (by simp [calm])
    exact h.go rfl (by rw [at_]; rfl) (fun _ => rfl) (fun _ => by simp_all [Caller.early]) (by simp [Caller.waiting])
      fun _ _ => past
  | wait own at_ | relock own at_ | wake own at_ =>
    refine h.go rfl (by rw [at_]; rfl) (fun _ => rfl) (by simp [Caller.early]) (fun _ => ?_) (by simp)
    exact h.flagged (by rw [at_]; rfl)
  | result own at_ => exact returned_waits h at_
  | count c err bytes readBuffer processed serving at_ =>
    have checked : w.serving.checked = some c := by rw [at_]; rfl
    refine h.serve (by rw [at_]; rfl) fun past => ?_
    exact ((ids.issued c (.of_checked checked)).1 ((ids.checked c checked).trans past)).elim
  | finished c err at_ =>
    have checked : w.serving.checked = some c := by rw [at_]; rfl
    rw [finish_serving]
    have idle : Waits { w with serving := .idle } := h.serve (by rw [at_]; rfl) fun _ => rfl
    apply idle.finish (ids.turn rfl) _ _
    refine Or.inr (Bool.eq_false_iff.mpr fun early => ?_)
    obtain ⟨own, opening⟩ := Caller.opening_of_early early
    exact absurd opening (by simp [ids.handed checked])
  | flag id at_ =>
    exact h.go h.sync rfl (fun _ => rfl) h.early (fun _ _ => Or.inr rfl) h.result
  | timeUp id at_ =>
    have ended := h.finish ids id .success (bound rfl (by rw [at_]; rfl))
    exact ended.go ended.sync rfl (fun _ => rfl) ended.early (fun _ _ => Or.inl (finish_id _ _)) ended.result
  | notify id at_ =>
    refine h.go h.sync rfl (fun _ => rfl) h.early (fun waiting _ => Or.inl ?_) h.result
    exact (heard rfl (by rw [at_]; rfl)).resolve_right (by simp [waiting])
  | expire => exact h.go h.sync rfl (fun _ => rfl) h.early h.flagged h.result
  | current c err bytes at_ | stale c err bytes at_ | decide c err serving at_ | more c count data readBuffer ops queue at_
  | expired id at_ | timeStale id at_ | callbackLock id at_ | complete i err bytes c at_ | deliver i c bytes at_
  | timer i id err at_ | callback i id callback at_ => exact h.serve (by rw [at_]; rfl) fun _ => rfl

theorem fresh_waits (fresh : w.Fresh) : Waits w := by
  have id := fresh.id
  rw [fresh.start]
  exact ⟨rfl, fun _ => id, by simp [Caller.own], by simp [Caller.early], by simp [Caller.waiting], by simp, by simp,
    by simp [ReturnsOwn]⟩

theorem ends_bound_of_own_wake (wakes : w.OwnWake e) : w.EndsBound code e := by
  intro service timeUp
  refine (wakes.1 service timeUp).imp_right fun late => ?_
  unfold toBind
  split <;> simp_all [Caller.early]

end Threads

open Threads

/-- Synchronous calls, any interleaving: each returns for its own request, with the number of bytes
of that request, as long as it is woken for that request. -/
theorem waits_return_own {κ : Type} {code : Code κ} {w t : Threads κ} {es : List (ThreadEvent κ)} (fresh : w.Fresh)
    (run : Steps (step code) (fun w e => Synchronous code e ∧ w.OwnWake e) w es t) (bounded : t.accepted < 2 ^ 32) :
    t.ReturnsOwn := by
  obtain ⟨_, h⟩ := reachable_ids (fun _ _ ok => ends_bound_of_own_wake ok.2) (fresh_waits fresh)
    (fun _ _ _ ids h ok taken bounded => step_waits ids h ok.1 ok.2 taken bounded) fresh run bounded
  exact h.returns

/-- A read that its timer ends while it waits, and a write that its completion ends. -/
theorem waits_return_own_once :
    (∃ es t, Steps (step readerCode) (fun w e => Synchronous readerCode e ∧ w.OwnWake e)
      { slot := StreamReader.blank.toSlot } es t ∧ t.returns = [⟨1, 0, 0⟩] ∧ t.ReturnsOwn) ∧
    (∃ es t, Steps (step writerCode) (fun w e => Synchronous writerCode e ∧ w.OwnWake e)
      { slot := StreamWriter.blank.toSlot } es t ∧ t.returns = [⟨1, 0, 2⟩] ∧ t.ReturnsOwn) := by
  constructor
  · obtain ⟨t, run, seen⟩ : ∃ t, Steps (step readerCode) (fun w e => Synchronous readerCode e ∧ w.OwnWake e)
        { slot := StreamReader.blank.toSlot }
        [.call { kind := .read, size := 4, data := 0, callback := 1, timeoutMillis := 1 } true,
          .caller, .caller, .caller, .caller, .caller, .caller, .caller, .expire, .timer 0, .service, .service, .service,
          .wake, .caller, .caller, .caller] t ∧
        (t.returns, t.accepted) = ([⟨1, 0, 0⟩], 1) :=
      exists_of_exec (by decide)
    simp only [Prod.mk.injEq] at seen
    exact ⟨_, t, run, seen.1, waits_return_own ⟨rfl, rfl, rfl⟩ run (by rw [seen.2]; decide)⟩
  · obtain ⟨t, run, seen⟩ : ∃ t, Steps (step writerCode) (fun w e => Synchronous writerCode e ∧ w.OwnWake e)
        { slot := StreamWriter.blank.toSlot }
        [.call { kind := .write, size := 2, data := 0, callback := 1 } true,
          .caller, .caller, .caller, .caller, .caller, .caller, .caller, .complete 0 .success [1, 2], .service, .service,
          .service, .service, .callback 0, .service, .service, .wake, .caller, .caller, .caller] t ∧
        (t.returns, t.accepted) = ([⟨1, 0, 2⟩], 1) :=
      exists_of_exec (by decide)
    simp only [Prod.mk.injEq] at seen
    exact ⟨_, t, run, seen.1, waits_return_own ⟨rfl, rfl, rfl⟩ run (by rw [seen.2]; decide)⟩

/-- A read wakes between the flag and the `finish_read` of its timeout. A write is woken by the
`write_callback` of the one before, which its timer had ended. -/
theorem returns_in_progress :
    (∃ w es t, w.Fresh ∧ Steps (step readerCode) (fun _ e => Synchronous readerCode e) w es t ∧
      ∃ r ∈ t.returns, r.id = r.own) ∧
    (∃ w es t, w.Fresh ∧ Steps (step writerCode) (fun _ e => Synchronous writerCode e) w es t ∧
      ∃ r ∈ t.returns, r.id = r.own) := by
  constructor
  · obtain ⟨t, run, seen⟩ : ∃ t, Steps (step readerCode) (fun _ e => Synchronous readerCode e)
        { slot := StreamReader.blank.toSlot }
        [.call { kind := .read, size := 4, data := 0, callback := 1, timeoutMillis := 1 } true,
          .caller, .caller, .caller, .caller, .caller, .caller, .caller, .expire, .timer 0, .service, .service,
          .wake, .caller, .caller, .caller] t ∧
        t.returns = [⟨1, 1, 0⟩] :=
      exists_of_exec (by decide)
    exact ⟨_, _, t, ⟨rfl, rfl, rfl⟩, run, ⟨1, 1, 0⟩, by simp [seen], rfl⟩
  · obtain ⟨t, run, seen⟩ : ∃ t, Steps (step writerCode) (fun _ e => Synchronous writerCode e)
        { slot := StreamWriter.blank.toSlot }
        [.call { kind := .write, size := 4, data := 0, callback := 1, timeoutMillis := 1 } true,
          .caller, .caller, .caller, .caller, .caller, .caller, .caller, .expire, .timer 0, .service, .service, .service,
          .wake, .caller, .caller, .caller,
          .call { kind := .write, size := 4, data := 4, callback := 2 } true,
          .caller, .caller, .caller, .caller, .caller, .caller, .caller, .callback 0, .service, .service,
          .wake, .caller, .caller, .caller] t ∧
        t.returns = [⟨1, 0, 0⟩, ⟨2, 2, 0⟩] :=
      exists_of_exec (by decide)
    exact ⟨_, _, t, ⟨rfl, rfl, rfl⟩, run, ⟨2, 2, 0⟩, by simp [seen], rfl⟩

end RtacAsio
