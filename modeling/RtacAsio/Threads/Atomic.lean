import RtacAsio.Threads.Carried
import RtacAsio.Threads.View

/-! A call or a handler that runs by itself, statement by statement. -/

namespace RtacAsio
open Lib

/-- A step as the callers, the stream and the service see it. -/
inductive Outer (κ : Type) where
  | call (request : Request κ) (sync : Bool)
  | wake
  /-- `count` is the number of bytes. -/
  | complete (i : Nat) (err : ErrorCode) (count : Nat)
  | deliver (i : Nat)
  | timer (i : Nat)
  | callback (i : Nat)
  | expire
  deriving DecidableEq

namespace Threads
variable {κ : Type} {code : Code κ} {t t' u : Threads κ}

def view (t : Threads κ) : View κ where
  slot := t.slot
  readBuffer := t.readBuffer
  ops := t.ops
  queue := t.queue.map fun p => (p.1, p.2.length)
  waits := t.waits
  fired := t.fired
  posted := t.posted.map Prod.snd
  accepted := t.accepted

/-- No thread is inside a call or a handler. -/
structure Between (t : Threads κ) : Prop where
  mutex : t.mutex = none
  caller : t.caller = .idle
  serving : t.serving = .idle

def outer (_ : Threads κ) : ThreadEvent κ → Option (Outer κ)
  | .call request sync => some (.call request sync)
  | .caller | .service => none
  | .wake => some .wake
  | .complete i err bytes => some (.complete i err bytes.length)
  | .deliver i => some (.deliver i)
  | .timer i => some (.timer i)
  | .callback i => some (.callback i)
  | .expire => some .expire

/-- A run from `t` to `u` with what is seen of it from outside. -/
abbrev Leads (code : Code κ) (t : Threads κ) (ls : List (Outer κ)) (u : Threads κ) : Prop := Shows (step code) outer t ls u

/-- The calling thread executes its next statement. -/
theorem Leads.caller {ls : List (Outer κ)} (taken : t.callerStep code = some t') (rest : Leads code t' ls u) :
    Leads code t ls u :=
  Shows.hidden_first (e := ThreadEvent.caller) taken rfl rest

/-- The service's thread does. -/
theorem Leads.service {ls : List (Outer κ)} (taken : t.serviceStep code = some t') (rest : Leads code t' ls u) :
    Leads code t ls u :=
  Shows.hidden_first (e := ThreadEvent.service) taken rfl rest

theorem finish_view (id : UInt32) (err : ErrorCode) : (t.finish id err).view = t.view.finish := by
  by_cases idle : t.slot.id = 0
  · rw [finish_idle _ _ idle]
    simp [View.finish, view, idle]
  · rw [finish_busy _ _ idle]
    simp [View.finish, view, idle]

theorem doSome_view (c : Cont κ) (count data : Nat) : (t.doSome c count data).view = t.view.doSome c count := by
  unfold doSome
  split
  · rename_i b buffer left
    rw [StreamReader.copyLoop_eq count data b buffer 0 (Nat.zero_le _), left]
    simp [View.doSome, view, left]
  · rename_i left
    simp [View.doSome, view, left]

theorem some_leads (code : Code κ) {call : Call κ} {count data : Nat} {id : UInt32} (at_ : t.caller = .some_ call count data id)
    (alone : call.sync = false) (mutex : t.mutex = none) (serving : t.serving = .idle) :
    ∃ u, Leads code t [] u ∧ u.Between ∧ u.view = t.view.doSome ⟨call.request.kind, id⟩ count := by
  have handed := doSome_view (t := t) ⟨call.request.kind, id⟩ count data
  obtain ⟨readBuffer, ops, queue, eq, _⟩ := doSome_eq (w := t) ⟨call.request.kind, id⟩ count data
  have some_ : t.callerStep code = some { t with readBuffer, ops, queue, caller := .idle } := by
    simp only [callerStep, at_, eq, handedOver, alone, Bool.false_eq_true, ↓reduceIte]
  rw [eq] at handed
  exact ⟨_, Leads.caller some_ .refl, ⟨mutex, rfl, serving⟩, handed⟩

/-- The end of a call that does not wait: the arguments, the id for the continuation and the call of
`do_read_some` or `do_write_some`. -/
theorem args_leads (code : Code κ) {call : Call κ} (at_ : t.caller = .args call) (alone : call.sync = false) (mutex : t.mutex = none)
    (serving : t.serving = .idle) :
    ∃ u, Leads code t [] u ∧ u.Between ∧ u.view = t.view.doSome ⟨call.request.kind, t.slot.id⟩ t.slot.requestedSize := by
  obtain ⟨data, args⟩ : ∃ data, t.callerStep code = some { t with caller := .bind call t.slot.requestedSize data } := by
    simp only [callerStep, at_]
    exact ⟨_, rfl⟩
  obtain ⟨u, leads, between, seen⟩ := some_leads code (t := { t with
    bound := t.bound ++ [(call.own, t.slot.id)]
    caller := .some_ call t.slot.requestedSize data t.slot.id }) rfl alone mutex serving
  exact ⟨u, Leads.caller args (Leads.caller rfl leads), between, seen⟩

theorem finish_leads (code : Code κ) {call : Call κ} (at_ : t.caller = .finish call) (alone : call.sync = false) (mutex : t.mutex = none)
    (serving : t.serving = .idle) : ∃ u, Leads code t [] u ∧ u.Between ∧ u.view = t.view.finish := by
  have ended := finish_view (t := t) call.own .success
  obtain ⟨posted, endings, eq⟩ := finish_eq (w := t) call.own .success
  have finish : t.callerStep code = some { t with slot := { t.slot with id := 0 }, posted, endings, caller := .idle } := by
    simp only [callerStep, at_, eq, handedOver, alone, Bool.false_eq_true, ↓reduceIte]
  rw [eq] at ended
  exact ⟨_, Leads.caller finish .refl, ⟨mutex, rfl, serving⟩, ended⟩

/-- What the loop of `async_read_until` comes to from the byte `c`: it stops among the bytes left
over, or there are no more of them. -/
def Scans (code : Code κ) (call : Call κ) (delimiter : Int8) (c : UInt8) (t : Threads κ) : Prop :=
  ∃ u, Leads code t [] u ∧ u.mutex = none ∧ u.serving = .idle ∧ u.view = t.view.scanned delimiter (c :: t.readBuffer) ∧
    u.caller = if StreamReader.leftoverStops delimiter (t.slot.requestedSize - t.slot.processed) (c :: t.readBuffer)
      then .finish call else .args call

theorem scan_stops {call : Call κ} {c : UInt8} {delimiter : Int8} (kind : code.delimiter call.request.kind = some delimiter)
    (at_ : t.caller = .scan call c) (mutex : t.mutex = none) (serving : t.serving = .idle)
    (stop : c.toInt8 = delimiter ∨ t.slot.requestedSize - t.slot.processed ≤ 1) : Scans code call delimiter c t := by
  have reached : t.slot.processed + 1 ≥ t.slot.requestedSize ↔ t.slot.requestedSize - t.slot.processed ≤ 1 := by omega
  have stops : t.callerStep code =
      some { t with slot := { t.slot with processed := t.slot.processed + 1 }, caller := .finish call } := by
    simp only [callerStep, at_, kind, Option.some.injEq, reached, stop, ↓reduceIte]
  refine ⟨_, Leads.caller stops .refl, mutex, serving, ?_, ?_⟩
  · simp only [View.scanned, view, StreamReader.leftoverTaken, stop, ↓reduceIte, List.drop_succ_cons, List.drop_zero]
  · simp only [StreamReader.leftoverStops, stop, ↓reduceIte]

theorem scan_leads {call : Call κ} {c : UInt8} {delimiter : Int8} {buffer : List UInt8} (left : t.readBuffer = buffer)
    (kind : code.delimiter call.request.kind = some delimiter) (at_ : t.caller = .scan call c) (mutex : t.mutex = none)
    (serving : t.serving = .idle) : Scans code call delimiter c t := by
  induction buffer generalizing t c with
  | nil =>
    by_cases stop : c.toInt8 = delimiter ∨ t.slot.requestedSize - t.slot.processed ≤ 1
    · exact scan_stops kind at_ mutex serving stop
    · have goesOn : ¬ (some c.toInt8 = some delimiter ∨ t.slot.processed + 1 ≥ t.slot.requestedSize) := by
        rw [Option.some.injEq]
        exact mt (Or.imp_right fun reached => by omega) stop
      have past : t.callerStep code =
          some { t with slot := { t.slot with processed := t.slot.processed + 1 }, caller := .args call } := by
        simp only [callerStep, at_, kind, goesOn, left, ↓reduceIte]
      refine ⟨_, Leads.caller past .refl, mutex, serving, ?_, ?_⟩
      · simp only [View.scanned, view, left, StreamReader.leftoverTaken, stop, ↓reduceIte, List.drop_succ_cons, List.drop_zero]
      · simp only [left, StreamReader.leftoverStops, stop, ↓reduceIte, Bool.false_eq_true]
  | cons next rest ih =>
    by_cases stop : c.toInt8 = delimiter ∨ t.slot.requestedSize - t.slot.processed ≤ 1
    · exact scan_stops kind at_ mutex serving stop
    · have goesOn : ¬ (some c.toInt8 = some delimiter ∨ t.slot.processed + 1 ≥ t.slot.requestedSize) := by
        rw [Option.some.injEq]
        exact mt (Or.imp_right fun reached => by omega) stop
      have past : t.callerStep code = some { t with
          slot := { t.slot with processed := t.slot.processed + 1 }
          readBuffer := rest
          caller := .scan call next } := by
        simp only [callerStep, at_, kind, goesOn, left, ↓reduceIte]
      obtain ⟨u, leads, free, idle, seen, caller⟩ := ih (t := { t with
        slot := { t.slot with processed := t.slot.processed + 1 }
        readBuffer := rest
        caller := .scan call next }) rfl rfl mutex serving
      have amount : StreamReader.leftoverTaken delimiter (t.slot.requestedSize - t.slot.processed) (c :: next :: rest) =
          StreamReader.leftoverTaken delimiter (t.slot.requestedSize - t.slot.processed - 1) (next :: rest) + 1 := by
        rw [StreamReader.leftoverTaken, if_neg stop]
      have stops : StreamReader.leftoverStops delimiter (t.slot.requestedSize - t.slot.processed) (c :: next :: rest) =
          StreamReader.leftoverStops delimiter (t.slot.requestedSize - t.slot.processed - 1) (next :: rest) := by
        rw [StreamReader.leftoverStops, if_neg stop]
      refine ⟨u, Leads.caller past leads, free, idle, ?_, ?_⟩
      · rw [seen]
        simp only [View.scanned, view, left, amount, Nat.sub_sub, Nat.add_assoc, Nat.add_comm 1, List.drop_succ_cons]
      · rw [caller, left, stops, Nat.sub_sub]

/-- `new_read` or `new_write` of a call that does not wait. -/
theorem opened_leads (code : Code κ) (h : t.Between) (idle : t.slot.id = 0) (q : Request κ) :
    ∃ u, Leads code t [.call q false] u ∧ u.mutex = none ∧ u.serving = .idle ∧ u.view = t.view.opened q ∧
      u.caller = if (code.delimiter q.kind).isSome then .look ⟨q, false, t.slot.counter + 1⟩
        else .args ⟨q, false, t.slot.counter + 1⟩ := by
  have called : t.step code (.call q false) = some { t with caller := .open_ q false } := by
    simp only [Threads.step, h.caller, Bool.false_eq_true, ↓reduceIte]
  refine ⟨_, .shown_first called rfl (Leads.caller rfl .refl), ?_⟩
  simp only [openStep, Slot.newRequest_idle _ idle, ↓reduceIte, passed]
  split <;> simp [perform, view, View.opened, Slot.opened, passed, h.mutex, h.serving, *]

theorem call_leads (code : Code κ) (h : t.Between) (q : Request κ) :
    ∃ u, Leads code t [.call q false] u ∧ u.Between ∧ u.view = t.view.call code q := by
  by_cases idle : t.slot.id = 0
  · obtain ⟨u, leads, mutex, serving, seen, at_⟩ := opened_leads code h idle q
    have slot : u.slot = t.slot.opened (passed q false) := congrArg View.slot seen
    have left : u.readBuffer = t.readBuffer := congrArg View.readBuffer seen
    have last {v : Threads κ} (way : Leads code u [] v) (mutex : v.mutex = none) (serving : v.serving = .idle)
        (id : v.slot.id = t.slot.counter + 1) (size : v.slot.requestedSize = q.size)
        (at_ : v.caller = .args ⟨q, false, t.slot.counter + 1⟩) :
        ∃ x, Leads code t [.call q false] x ∧ x.Between ∧ x.view = v.view.doSome ⟨q.kind, t.slot.counter + 1⟩ q.size := by
      obtain ⟨x, leads', between, ends⟩ := args_leads code at_ rfl mutex serving
      exact ⟨x, leads.append (way.append leads'), between, by rw [ends, id, size]⟩
    cases kind : code.delimiter q.kind with
    | none =>
      rw [kind] at at_
      obtain ⟨x, leads', between, ends⟩ := last .refl mutex serving (by rw [slot]; rfl) (by rw [slot]; rfl) at_
      exact ⟨x, leads', between, by rw [ends, seen, View.call_plain idle (Or.inl kind)]; rfl⟩
    | some delimiter =>
      rw [kind] at at_
      cases buffered : t.readBuffer with
      | nil =>
        have past : u.callerStep code = some { u with caller := .args ⟨q, false, t.slot.counter + 1⟩ } := by
          simp only [callerStep, at_, left, buffered, Option.isSome_some, ↓reduceIte]
        obtain ⟨x, leads', between, ends⟩ :=
          last (Leads.caller past .refl) mutex serving (by rw [slot]; rfl) (by rw [slot]; rfl) rfl
        refine ⟨x, leads', between, ?_⟩
        rw [ends, View.call_plain idle (Or.inr buffered), ← seen]
        rfl
      | cons c buffer =>
        have look : u.callerStep code =
            some { u with readBuffer := buffer, caller := .scan ⟨q, false, t.slot.counter + 1⟩ c } := by
          simp only [callerStep, at_, left, buffered, Option.isSome_some, ↓reduceIte]
        obtain ⟨v, scans, mutex', serving', scanned, at_'⟩ := scan_leads (t := { u with
          readBuffer := buffer
          caller := .scan ⟨q, false, t.slot.counter + 1⟩ c }) rfl kind rfl mutex serving
        have size : u.slot.requestedSize - u.slot.processed = q.size := by rw [slot]; rfl
        have after : v.view = (t.view.opened q).scanned delimiter (c :: buffer) := by rw [scanned, ← seen]; rfl
        have slot' : v.slot = ((t.view.opened q).scanned delimiter (c :: buffer)).slot := congrArg View.slot after
        rw [View.call_scan idle kind buffered, ← after]
        dsimp only at at_'
        rw [size] at at_'
        cases stops : StreamReader.leftoverStops delimiter q.size (c :: buffer) with
        | true =>
          rw [stops] at at_'
          obtain ⟨x, leads', between, ends⟩ := finish_leads code at_' rfl mutex' serving'
          exact ⟨x, leads.append (Leads.caller look (scans.append leads')), between, ends⟩
        | false =>
          rw [stops] at at_'
          exact last (Leads.caller look scans) mutex' serving' (by rw [slot']; rfl) (by rw [slot']; rfl) at_'
  · have called : t.step code (.call q false) = some { t with caller := .open_ q false } := by
      simp only [Threads.step, h.caller, Bool.false_eq_true, ↓reduceIte]
    have refused : callerStep code { t with caller := .open_ q false } = some { t with caller := .idle } := by
      simp only [callerStep, openStep, Slot.newRequest_busy _ idle, Bool.false_eq_true, ↓reduceIte]
    refine ⟨_, .shown_first called rfl (Leads.caller refused .refl), ⟨h.mutex, rfl, h.serving⟩, ?_⟩
    rw [View.call_busy idle]
    rfl

theorem ended_leads (code : Code κ) {c : Cont κ} {err : ErrorCode} (at_ : t.serving = .finish c err) (mutex : t.mutex = none)
    (caller : t.caller = .idle) : ∃ u, Leads code t [] u ∧ u.Between ∧ u.view = t.view.finish := by
  have ended := finish_view (t := t) c.id err
  obtain ⟨posted, endings, eq⟩ := finish_eq (w := t) c.id err
  have finish : t.serviceStep code = some { t with slot := { t.slot with id := 0 }, posted, endings, serving := .idle } := by
    simp only [serviceStep, at_, eq]
  rw [eq] at ended
  exact ⟨_, Leads.service finish .refl, ⟨mutex, caller, rfl⟩, ended⟩

theorem more_leads (code : Code κ) {c : Cont κ} {count data : Nat} (at_ : t.serving = .more c count data) (mutex : t.mutex = none)
    (caller : t.caller = .idle) : ∃ u, Leads code t [] u ∧ u.Between ∧ u.view = t.view.doSome c count := by
  have handed := doSome_view (t := t) c count data
  obtain ⟨readBuffer, ops, queue, eq, _⟩ := doSome_eq (w := t) c count data
  have more : t.serviceStep code = some { t with readBuffer, ops, queue, serving := .idle } := by
    simp only [serviceStep, at_, eq]
  rw [eq] at handed
  exact ⟨_, Leads.service more .refl, ⟨mutex, caller, rfl⟩, handed⟩

theorem decided_leads (code : Code κ) {c : Cont κ} {err : ErrorCode} (at_ : t.serving = .decide c err) (mutex : t.mutex = none)
    (caller : t.caller = .idle) :
    ∃ u, Leads code t [] u ∧ u.Between ∧
      u.view = if !err.failed && t.slot.processed < t.slot.requestedSize
        then t.view.doSome c (t.slot.requestedSize - t.slot.processed) else t.view.finish := by
  by_cases goesOn : (!err.failed && decide (t.slot.processed < t.slot.requestedSize)) = true
  · obtain ⟨data, more⟩ : ∃ data, t.serviceStep code =
        some { t with serving := .more c (t.slot.requestedSize - t.slot.processed) data } := by
      simp only [serviceStep, at_, goesOn, ↓reduceIte]
      exact ⟨_, rfl⟩
    obtain ⟨u, leads, between, seen⟩ := more_leads code (t := { t with
      serving := .more c (t.slot.requestedSize - t.slot.processed) data }) rfl mutex caller
    exact ⟨u, Leads.service more leads, between, by rw [if_pos goesOn]; exact seen⟩
  · have ends : t.serviceStep code = some { t with serving := .finish c err } := by
      simp only [serviceStep, at_, goesOn, Bool.false_eq_true, ↓reduceIte]
    obtain ⟨u, leads, between, seen⟩ := ended_leads code (t := { t with serving := .finish c err }) rfl mutex caller
    exact ⟨u, Leads.service ends leads, between, by rw [if_neg goesOn]; exact seen⟩

theorem resume_leads (code : Code κ) {c : Cont κ} {err : ErrorCode} {bytes : List UInt8} (at_ : t.serving = .check c err bytes)
    (mutex : t.mutex = none) (caller : t.caller = .idle) :
    ∃ u, Leads code t [] u ∧ u.Between ∧ u.view = t.view.resume code c err bytes := by
  by_cases current : c.id = t.slot.id
  · have checked : t.serviceStep code = some { t with serving := .count c err bytes } := by
      simp only [serviceStep, at_, Slot.idOk_iff.mpr current, ↓reduceIte]
    have counted : serviceStep code { t with serving := .count c err bytes } =
        some (countStep code c err bytes { t with serving := .count c err bytes }) := rfl
    have first {u : Threads κ}
        (rest : Leads code (countStep code c err bytes { t with serving := .count c err bytes }) [] u) :
        Leads code t [] u := Leads.service checked (Leads.service counted rest)
    have same : c.id = t.view.slot.id := current
    unfold View.resume
    rw [if_neg (not_not_intro same)]
    unfold countStep at first
    split
    · rename_i single
      rw [if_pos single] at first
      obtain ⟨u, leads, between, seen⟩ := ended_leads code (t := { t with
        slot := { t.slot with processed := bytes.length }, serving := .finish c err }) rfl mutex caller
      exact ⟨u, first leads, between, seen⟩
    · rename_i several
      rw [if_neg several] at first
      split
      · rename_i i rest found
        rw [found] at first
        obtain ⟨u, leads, between, seen⟩ := ended_leads code (t := { t with
          slot := { t.slot with processed := t.slot.processed + i }
          readBuffer := t.readBuffer ++ rest
          serving := .finish c err }) rfl mutex caller
        exact ⟨u, first leads, between, seen⟩
      · rename_i none
        rw [none] at first
        obtain ⟨u, leads, between, seen⟩ := decided_leads code (t := { t with
          slot := { t.slot with processed := t.slot.processed + bytes.length }, serving := .decide c err }) rfl mutex caller
        exact ⟨u, first leads, between, seen⟩
  · have stale : t.serviceStep code = some { t with serving := .idle } := by
      simp only [serviceStep, at_, mt Slot.idOk_iff.mp current, Bool.false_eq_true, ↓reduceIte]
    have other : c.id ≠ t.view.slot.id := current
    refine ⟨_, Leads.service stale .refl, ⟨mutex, caller, rfl⟩, ?_⟩
    rw [View.resume, if_pos other]
    rfl

theorem timeout_leads (code : Code κ) {id : UInt32} (at_ : t.serving = .timeCheck id) (mutex : t.mutex = none)
    (caller : t.caller = .idle) : ∃ u, Leads code t [] u ∧ u.Between ∧ u.view = t.view.timeoutReached id := by
  by_cases current : id = t.slot.id
  · have checked : t.serviceStep code = some { t with serving := .flag id } := by
      simp only [serviceStep, at_, Slot.idOk_iff.mpr current, ↓reduceIte]
    have same : id = t.view.slot.id := current
    have ended := finish_view (t := { t with slot := { t.slot with waiterNotified := true }, serving := .timeUp id }) id .success
    obtain ⟨posted, endings, eq⟩ :=
      finish_eq (w := { t with slot := { t.slot with waiterNotified := true }, serving := .timeUp id }) id .success
    have finish : serviceStep code { t with slot := { t.slot with waiterNotified := true }, serving := .timeUp id } =
        some { t with slot := { t.slot with waiterNotified := true, id := 0 }, posted, endings, serving := .idle } := by
      simp only [serviceStep, eq]
    rw [eq] at ended
    refine ⟨_, Leads.service checked (Leads.service rfl (Leads.service finish .refl)), ⟨mutex, caller, rfl⟩, ?_⟩
    rw [View.timeoutReached, if_neg (not_not_intro same)]
    exact ended
  · have stale : t.serviceStep code = some { t with serving := .idle } := by
      simp only [serviceStep, at_, mt Slot.idOk_iff.mp current, Bool.false_eq_true, ↓reduceIte]
    have other : id ≠ t.view.slot.id := current
    refine ⟨_, Leads.service stale .refl, ⟨mutex, caller, rfl⟩, ?_⟩
    rw [View.timeoutReached, if_pos other]
    rfl

end Threads

end RtacAsio
