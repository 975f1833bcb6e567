import RtacAsio.Reader.Loops
import RtacAsio.Threads.Carried

/-!
No synchronous call waits for ever: what both threads still have to do is counted, whatever their
interleaving was.
-/

namespace RtacAsio
open Lib

/-- A completion without bytes and without an error. -/
def fruitless (err : ErrorCode) (bytes : List UInt8) : Bool := bytes.isEmpty && !err.failed

namespace Caller
variable {κ : Type}

/-- The call is about to find out whether it has been notified. -/
def rechecks : Caller κ → Bool
  | .test _ | .relock _ => true
  | _ => false

/-- The requests that the call has yet to open. -/
def toOpen : Caller κ → Nat
  | .lock _ | .open_ _ _ => 1
  | _ => 0

/-- No less than the steps until the call returns, and than what it hands over makes necessary. -/
def rank (notified : Bool) : Caller κ → Nat
  | .idle => 0
  | .result _ => 1
  | .test _ => if notified then 2 else 4
  | .relock _ => if notified then 3 else 4
  | .blocked _ => 4
  | .reset _ => 5
  | .some_ .. => 19
  | .bind .. => 20
  | .args _ | .finish _ => 21
  | .scan .. => 22
  | .look _ => 23
  | .open_ request _ => 42 + 7 * request.size
  | .lock request => 43 + 7 * request.size

theorem rank_notified (notified : Bool) (caller : Caller κ) : caller.rank true ≤ caller.rank notified := by
  cases caller <;> cases notified <;> simp [rank]

end Caller

namespace Serving
variable {κ : Type}

/-- The same for the handler under way, while `missing` bytes are missing of the request `id`. One
that came without bytes goes on if any are. -/
def rank (id : UInt32) (missing : Nat) : Serving κ → Nat
  | .idle => 0
  | .check c err bytes => if fruitless err bytes then (if c.id = id ∧ 0 < missing then 12 else 4) else 5
  | .count _ err bytes => if fruitless err bytes then (if 0 < missing then 11 else 3) else 4
  | .decide _ err => if err.failed = false ∧ 0 < missing then 10 else 2
  | .more _ n _ => if n = 0 then 14 else 9
  | .finish _ _ => 1
  | .timeCheck _ => 3
  | .flag _ => 2
  | .timeUp _ => 1
  | .callback _ => 3
  | .notify _ => 2

@[simp] theorem rank_idle (id : UInt32) (missing : Nat) : (Serving.idle : Serving κ).rank id missing = 0 := rfl

/-- Bytes counted elsewhere leave less to do. -/
theorem rank_mono (id : UInt32) {missing missing' : Nat} (fewer : missing' ≤ missing) (serving : Serving κ) :
    serving.rank id missing' ≤ serving.rank id missing := by
  cases serving with
  | check | count | decide =>
    simp only [rank]
    grind
  | _ => exact Nat.le_refl _

/-- What the calling thread does to the request under it costs a handler at most another round. -/
theorem rank_raise (id id' : UInt32) (missing missing' : Nat) (serving : Serving κ) :
    serving.rank id' missing' ≤ serving.rank id missing + 8 := by
  cases serving with
  | check | count | decide =>
    simp only [rank]
    split_ifs <;> omega
  | _ => exact Nat.le_add_right ..

end Serving

namespace Threads
variable {κ : Type} {code : Code κ} {w w' : Threads κ} {e : ThreadEvent κ}

/-- A stream that is asked for bytes moves some of them, or fails. -/
def Undisturbed (w : Threads κ) : ThreadEvent κ → Prop
  | .call _ _ => False
  | .complete i err bytes => fruitless err bytes = true → ∀ c, w.ops[i]? = some c → c.id = w.slot.id →
      w.slot.requestedSize ≤ w.slot.processed
  | .expire => w.waits ≠ []
  | _ => True

/-- The wait ends before the call has been notified, and it waits again. -/
def Spurious (w : Threads κ) : ThreadEvent κ → Prop
  | .wake => w.slot.waiterNotified = false
  | .caller => w.slot.waiterNotified = false ∧ w.caller.rechecks = true
  | _ => False

/-- Every call has returned, and nothing is under way or locked. -/
structure Rests (w : Threads κ) : Prop where
  caller : w.caller = .idle
  mutex : w.mutex = none
  serving : w.serving = .idle
  id : w.slot.id = 0
  ops : w.ops = []
  queue : w.queue = []
  waits : w.waits = []
  fired : w.fired = []
  posted : w.posted = []

def missing (w : Threads κ) : Nat := w.slot.requestedSize - w.slot.processed

def queued (bytes : List UInt8) : Nat := if bytes = [] then 13 else 6

/-- What the stream and the service hold. -/
def underWay (w : Threads κ) : Nat :=
  7 * w.ops.length + (w.queue.map fun p => queued p.2).sum + 4 * w.posted.length + 5 * w.waits.length + 4 * w.fired.length

def toDo (w : Threads κ) : Nat :=
  w.caller.rank w.slot.waiterNotified + w.serving.rank w.slot.id w.missing + w.underWay + 7 * w.missing +
    if w.slot.id = 0 then 0 else 5

/-! ### Every step leaves less to do -/

theorem doSome_weight (c : Cont κ) (count data : Nat) :
    ∃ readBuffer ops queue, w.doSome c count data = { w with readBuffer, ops, queue } ∧
      underWay { w with readBuffer, ops, queue } ≤ w.underWay + if count = 0 then 13 else 7 := by
  unfold doSome
  split
  · rename_i b buffer left
    refine ⟨_, w.ops, _, rfl, ?_⟩
    rw [StreamReader.copyLoop_eq count data b buffer 0 (Nat.zero_le _), left]
    simp only [underWay, List.map_append, List.sum_append, List.map_cons, List.map_nil, List.sum_cons, List.sum_nil, queued]
    by_cases none : count = 0
    · simp [none]
      omega
    · simp [none]
      omega
  · refine ⟨w.readBuffer, _, w.queue, rfl, ?_⟩
    simp only [underWay, List.length_append, List.length_singleton]
    split <;> omega

theorem finish_less (id : UInt32) (err : ErrorCode) :
    ∃ posted endings, w.finish id err = { w with slot := { w.slot with id := 0 }, posted, endings } ∧
      4 * posted.length ≤ 4 * w.posted.length + if w.slot.id = 0 then 0 else 4 := by
  by_cases idle : w.slot.id = 0
  · refine ⟨w.posted, w.endings, ?_, by simp⟩
    rw [finish_idle _ _ idle, ← idle]
  · exact ⟨_, _, finish_busy id err idle, by simp [idle]; omega⟩

theorem handedOver_rank (notified : Bool) (call : Call κ) : (handedOver call).rank notified ≤ 5 := by
  unfold handedOver
  split <;> simp [Caller.rank]

theorem caller_toDo (readBuffer : List UInt8) (mutex : Option Holder) (caller : Caller κ) (bound : List (UInt32 × UInt32))
    (returns : List Return) :
    toDo { w with readBuffer, mutex, caller, bound, returns } + w.caller.rank w.slot.waiterNotified =
      w.toDo + caller.rank w.slot.waiterNotified := by
  simp only [toDo, underWay, missing]
  omega

/-- The calling thread counts a byte left over. -/
theorem scan_toDo (readBuffer : List UInt8) (caller : Caller κ) :
    toDo { w with slot := { w.slot with processed := w.slot.processed + 1 }, readBuffer, caller } +
        w.caller.rank w.slot.waiterNotified + 7 * min 1 w.missing ≤
      w.toDo + caller.rank w.slot.waiterNotified := by
  have lower : w.serving.rank w.slot.id (w.slot.requestedSize - (w.slot.processed + 1)) ≤ w.serving.rank w.slot.id w.missing :=
    Serving.rank_mono _ (Nat.sub_le_sub_left (Nat.le_add_right ..) _) w.serving
  simp only [toDo, underWay, missing] at lower ⊢
  omega

theorem arm_weight (request : Request κ) (id : UInt32) :
    ∃ waits fired, (if request.timeoutMillis > 0 then [Effect.arm (κ := κ) request.timeoutMillis id] else []).foldl perform w =
      { w with waits, fired } ∧ 5 * waits.length + 4 * fired.length ≤ 5 * w.waits.length + 4 * w.fired.length + 5 := by
  split
  · refine ⟨_, _, rfl, ?_⟩
    simp only [List.length_append, List.length_map, List.length_singleton]
    omega
  · exact ⟨w.waits, w.fired, rfl, Nat.le_add_right ..⟩

theorem open_less {request : Request κ} {sync : Bool} (at_ : w.caller = .open_ request sync) :
    (w.openStep code request sync).toDo < w.toDo := by
  have here : w.caller.rank w.slot.waiterNotified = 42 + 7 * request.size := by rw [at_]; rfl
  by_cases idle : w.slot.id = 0
  · obtain ⟨waits, fired, armed, few⟩ := arm_weight (w := w) (passed request sync) (w.slot.counter + 1)
    have raise := Serving.rank_raise w.slot.id (w.slot.counter + 1) w.missing (passed request sync).size w.serving
    have size : (passed request sync).size = request.size := rfl
    simp only [openStep, Slot.newRequest_idle _ idle, armed, ↓reduceIte]
    have next (call : Call κ) : (if (code.delimiter request.kind).isSome then Caller.look call else .args call).rank
        w.slot.waiterNotified ≤ 23 := by
      split <;> simp [Caller.rank]
    have next := next ⟨request, sync, w.slot.counter + 1⟩
    have opened : (if w.slot.counter + 1 = 0 then 0 else 5) ≤ 5 := by split <;> omega
    simp only [toDo, underWay, missing, Nat.sub_zero, size, idle, ↓reduceIte] at raise ⊢
    omega
  · simp only [openStep, Slot.newRequest_busy _ idle, Bool.false_eq_true, ↓reduceIte]
    have change := caller_toDo (w := w) w.readBuffer (if sync then none else w.mutex) .idle w.bound w.returns
    have there : (Caller.idle : Caller κ).rank w.slot.waiterNotified = 0 := rfl
    omega

theorem finish_toDo (id : UInt32) (err : ErrorCode) (caller : Caller κ) :
    toDo { w.finish id err with caller } + w.caller.rank w.slot.waiterNotified ≤
      w.toDo + caller.rank w.slot.waiterNotified + 8 := by
  obtain ⟨posted, endings, eq, few⟩ := finish_less (w := w) id err
  have raise := Serving.rank_raise w.slot.id 0 w.missing w.missing w.serving
  rw [eq]
  simp only [toDo, underWay, missing, ↓reduceIte] at raise ⊢
  split_ifs at few ⊢ <;> omega

/-- A step of the calling thread: what it does to the slot costs the handler under way a round more
at most, and nothing if it only counts bytes. -/
theorem caller_less (taken : w.callerStep code = some w') :
    w'.toDo ≤ w.toDo ∧ (¬ w.Spurious .caller → w'.toDo < w.toDo) := by
  have strict (less : w'.toDo < w.toDo) : w'.toDo ≤ w.toDo ∧ (¬ w.Spurious .caller → w'.toDo < w.toDo) :=
    ⟨Nat.le_of_lt less, fun _ => less⟩
  cases at_ : w.caller with
  | idle => simp [callerStep, at_] at taken
  | blocked own => simp [callerStep, at_] at taken
  | lock request =>
    simp only [callerStep, at_, Option.ite_none_right_eq_some, Option.some.injEq] at taken
    obtain ⟨_, rfl⟩ := taken
    have change := caller_toDo (w := w) w.readBuffer (some .caller) (.open_ request true) w.bound w.returns
    simp only [at_, Caller.rank] at change
    exact strict (by omega)
  | open_ request sync =>
    simp only [callerStep, at_, Option.some.injEq] at taken
    subst taken
    exact strict (open_less at_)
  | look call =>
    simp only [callerStep, at_] at taken
    split at taken <;> obtain rfl := Option.some.inj taken
    · have change := caller_toDo (w := w) w.readBuffer w.mutex (.args call) w.bound w.returns
      simp only [at_, Caller.rank] at change
      exact strict (by omega)
    · rename_i c buffer left
      have change := caller_toDo (w := w) buffer w.mutex (.scan call c) w.bound w.returns
      simp only [at_, Caller.rank] at change
      exact strict (by omega)
  | scan call c =>
    simp only [callerStep, at_] at taken
    split at taken
    · obtain rfl := Option.some.inj taken
      have change := scan_toDo (w := w) w.readBuffer (.finish call)
      simp only [at_, Caller.rank] at change
      exact strict (by omega)
    · rename_i goes
      have short : 0 < w.missing := by
        simp only [not_or, Nat.not_le, ge_iff_le] at goes
        unfold missing
        omega
      split at taken <;> obtain rfl := Option.some.inj taken
      · have change := scan_toDo (w := w) w.readBuffer (.args call)
        simp only [at_, Caller.rank] at change
        exact strict (by omega)
      · rename_i next buffer left
        have change := scan_toDo (w := w) buffer (.scan call next)
        simp only [at_, Caller.rank] at change
        exact strict (by omega)
  | finish call =>
    simp only [callerStep, at_, Option.some.injEq] at taken
    subst taken
    have change := finish_toDo (w := w) call.own .success (handedOver call)
    have handed := handedOver_rank w.slot.waiterNotified call
    have here : w.caller.rank w.slot.waiterNotified = 21 := by rw [at_]; rfl
    refine strict (Nat.lt_of_add_lt_add_right (Nat.lt_of_le_of_lt change ?_))
    omega
  | args call =>
    simp only [callerStep, at_, Option.some.injEq] at taken
    subst taken
    have change := caller_toDo (w := w) w.readBuffer w.mutex (.bind call w.slot.requestedSize
      (if (code.delimiter call.request.kind).isSome then w.slot.data + w.slot.processed else w.slot.data)) w.bound w.returns
    simp only [at_, Caller.rank] at change
    exact strict (by omega)
  | bind call count data =>
    simp only [callerStep, at_, Option.some.injEq] at taken
    subst taken
    have change := caller_toDo (w := w) w.readBuffer w.mutex (.some_ call count data w.slot.id)
      (w.bound ++ [(call.own, w.slot.id)]) w.returns
    simp only [at_, Caller.rank] at change
    exact strict (by omega)
  | some_ call count data id =>
    obtain ⟨readBuffer, ops, queue, eq, few⟩ := doSome_weight (w := w) ⟨call.request.kind, id⟩ count data
    simp only [callerStep, at_, eq, Option.some.injEq] at taken
    subst taken
    have handed := handedOver_rank w.slot.waiterNotified call
    have here : w.caller.rank w.slot.waiterNotified = 19 := by rw [at_]; rfl
    have most : (if count = 0 then 13 else 7) ≤ 13 := by split <;> omega
    apply strict
    simp only [toDo, underWay, missing] at few ⊢
    omega
  | reset own =>
    simp only [callerStep, at_, Option.some.injEq] at taken
    subst taken
    apply strict
    simp only [toDo, underWay, missing, at_, Caller.rank, Bool.false_eq_true, ↓reduceIte]
    omega
  | test own =>
    simp only [callerStep, at_] at taken
    split at taken <;> obtain rfl := Option.some.inj taken
    · rename_i set
      have change := caller_toDo (w := w) w.readBuffer w.mutex (.result own) w.bound w.returns
      simp only [at_, Caller.rank, set, ↓reduceIte] at change
      exact strict (by omega)
    · rename_i unset
      have change := caller_toDo (w := w) w.readBuffer none (.blocked own) w.bound w.returns
      simp only [at_, Caller.rank, unset, Bool.false_eq_true, ↓reduceIte] at change
      exact ⟨by omega, fun real => (real ⟨by simpa using unset, by rw [at_]; rfl⟩).elim⟩
  | relock own =>
    simp only [callerStep, at_, Option.ite_none_right_eq_some, Option.some.injEq] at taken
    obtain ⟨_, rfl⟩ := taken
    have change := caller_toDo (w := w) w.readBuffer (some .caller) (.test own) w.bound w.returns
    by_cases set : w.slot.waiterNotified = true
    · simp only [at_, Caller.rank, set, ↓reduceIte] at change
      exact strict (by omega)
    · simp only [at_, Caller.rank, set, Bool.false_eq_true, ↓reduceIte] at change
      exact ⟨by omega, fun real => (real ⟨by simpa using set, by rw [at_]; rfl⟩).elim⟩
  | result own =>
    simp only [callerStep, at_, Option.some.injEq] at taken
    subst taken
    have change := caller_toDo (w := w) w.readBuffer none .idle w.bound
      (w.returns ++ [⟨own, w.slot.id, w.slot.processed⟩])
    simp only [at_, Caller.rank] at change
    exact strict (by omega)

theorem serving_toDo (readBuffer : List UInt8) (mutex : Option Holder) (serving : Serving κ) :
    toDo { w with readBuffer, mutex, serving } + w.serving.rank w.slot.id w.missing =
      w.toDo + serving.rank w.slot.id w.missing := by
  simp only [toDo, underWay, missing]
  omega

/-- The flag can only spare the calling thread a round. -/
theorem notified_toDo (mutex : Option Holder) (serving : Serving κ) :
    toDo { w with slot := { w.slot with waiterNotified := true }, mutex, serving } + w.serving.rank w.slot.id w.missing ≤
      w.toDo + serving.rank w.slot.id w.missing := by
  have spared := Caller.rank_notified w.slot.waiterNotified w.caller
  simp only [toDo, underWay, missing]
  omega

theorem ended_toDo (id : UInt32) (err : ErrorCode) :
    toDo { w.finish id err with serving := .idle } + w.serving.rank w.slot.id w.missing ≤ w.toDo := by
  obtain ⟨posted, endings, eq, few⟩ := finish_less (w := w) id err
  rw [eq]
  simp only [toDo, underWay, missing, Serving.rank_idle, ↓reduceIte]
  by_cases idle : w.slot.id = 0 <;> simp only [idle, ↓reduceIte] at few ⊢ <;> omega

/-- What a continuation counts is worth more than another round of it. -/
theorem count_less {c : Cont κ} {err : ErrorCode} {bytes : List UInt8} (plain : code.single c.kind = false)
    (at_ : w.serving = .count c err bytes) : (w.countStep code c err bytes).toDo < w.toDo := by
  unfold countStep
  rw [plain, if_neg Bool.false_ne_true]
  split
  · have here : 2 < w.serving.rank w.slot.id w.missing := by
      rw [at_, Serving.rank]
      split_ifs <;> omega
    simp only [toDo, underWay, missing, Serving.rank] at here ⊢
    omega
  · have counted : (Serving.decide c err).rank w.slot.id (w.missing - bytes.length) + 7 * (w.missing - bytes.length) <
        w.serving.rank w.slot.id w.missing + 7 * w.missing := by
      rw [at_]
      simp only [Serving.rank]
      by_cases failed : err.failed = true
      · simp only [fruitless, failed, Bool.not_true, Bool.and_false, Bool.true_eq_false, Bool.false_eq_true, false_and,
          ↓reduceIte]
        omega
      · cases bytes with
        | nil =>
          simp only [fruitless, failed, List.isEmpty_nil, Bool.not_false, Bool.and_self, List.length_nil, Nat.sub_zero,
            true_and, ↓reduceIte]
          split_ifs <;> omega
        | cons b bytes =>
          simp only [fruitless, failed, List.isEmpty_cons, Bool.false_and, Bool.false_eq_true, true_and, List.length_cons,
            ↓reduceIte]
          split_ifs <;> omega
    simp only [toDo, underWay, missing, Nat.sub_sub] at counted ⊢
    omega

theorem service_less (plain : Plain code w) (taken : w.serviceStep code = some w') : w'.toDo < w.toDo := by
  cases at_ : w.serving with
  | idle => simp [serviceStep, at_] at taken
  | check c err bytes =>
    simp only [serviceStep, at_, Option.some.injEq] at taken
    subst taken
    split
    · rename_i current
      have change := serving_toDo (w := w) w.readBuffer w.mutex (.count c err bytes)
      simp only [at_, Serving.rank, Slot.idOk_iff.mp current, true_and] at change
      split_ifs at change <;> omega
    · have change := serving_toDo (w := w) w.readBuffer w.mutex .idle
      simp only [at_, Serving.rank] at change
      split_ifs at change <;> omega
  | count c err bytes =>
    simp only [serviceStep, at_, Option.some.injEq] at taken
    subst taken
    exact count_less (plain.flight c (Or.inr (by rw [at_]; rfl))) at_
  | decide c err =>
    simp only [serviceStep, at_] at taken
    split at taken <;> obtain rfl := Option.some.inj taken
    · rename_i goes
      have change := serving_toDo (w := w) w.readBuffer w.mutex
        (.more c (w.slot.requestedSize - w.slot.processed) (w.slot.data + w.slot.processed))
      simp only [Bool.and_eq_true, Bool.not_eq_true', decide_eq_true_eq] at goes
      have short : 0 < w.missing := Nat.sub_pos_of_lt goes.2
      have some_ : w.slot.requestedSize - w.slot.processed ≠ 0 := Nat.sub_ne_zero_of_lt goes.2
      simp only [at_, Serving.rank, goes.1, short, some_, and_self, ↓reduceIte] at change
      omega
    · have change := serving_toDo (w := w) w.readBuffer w.mutex (.finish c err)
      simp only [at_, Serving.rank] at change
      split_ifs at change <;> omega
  | more c count data =>
    obtain ⟨readBuffer, ops, queue, eq, few⟩ := doSome_weight (w := w) c count data
    simp only [serviceStep, at_, eq, Option.some.injEq] at taken
    subst taken
    simp only [toDo, underWay, missing, at_, Serving.rank] at few ⊢
    split_ifs at few ⊢ <;> omega
  | finish c err =>
    simp only [serviceStep, at_, Option.some.injEq] at taken
    subst taken
    have change := ended_toDo (w := w) c.id err
    have here : w.serving.rank w.slot.id w.missing = 1 := by rw [at_]; rfl
    exact Nat.lt_of_lt_of_le (Nat.lt_add_of_pos_right (by omega)) change
  | timeCheck id =>
    simp only [serviceStep, at_, Option.some.injEq] at taken
    subst taken
    have change (serving : Serving κ) := serving_toDo (w := w) w.readBuffer w.mutex serving
    split
    · have change := change (.flag id)
      simp only [at_, Serving.rank] at change
      omega
    · have change := change .idle
      simp only [at_, Serving.rank] at change
      omega
  | flag id =>
    simp only [serviceStep, at_, Option.some.injEq] at taken
    subst taken
    have change := notified_toDo (w := w) w.mutex (.timeUp id)
    simp only [at_, Serving.rank] at change
    omega
  | timeUp id =>
    simp only [serviceStep, at_, Option.some.injEq] at taken
    subst taken
    have change := ended_toDo (w := w) id .success
    have here : w.serving.rank w.slot.id w.missing = 1 := by rw [at_]; rfl
    exact Nat.lt_of_lt_of_le (Nat.lt_add_of_pos_right (by omega)) change
  | callback id =>
    simp only [serviceStep, at_, Option.ite_none_right_eq_some, Option.some.injEq] at taken
    obtain ⟨_, rfl⟩ := taken
    have change := serving_toDo (w := w) w.readBuffer (some .service) (.notify id)
    simp only [at_, Serving.rank] at change
    omega
  | notify id =>
    simp only [serviceStep, at_, Option.some.injEq] at taken
    subst taken
    have change := notified_toDo (w := w) none .idle
    simp only [at_, Serving.rank] at change
    omega

theorem erased_length {α : Type} {l : List α} {x : α} {i : Nat} (found : l[i]? = some x) :
    (l.eraseIdx i).length + 1 = l.length := by
  obtain ⟨inside, _⟩ := List.getElem?_eq_some_iff.mp found
  rw [List.length_eraseIdx_of_lt inside]
  omega

/-- No step leaves more to do, and one that is not spurious leaves less. -/
theorem step_less (plain : Plain code w) (allowed : w.Undisturbed e) (taken : w.step code e = some w') :
    w'.toDo ≤ w.toDo ∧ (¬ w.Spurious e → w'.toDo < w.toDo) := by
  have strict (less : w'.toDo < w.toDo) : w'.toDo ≤ w.toDo ∧ (¬ w.Spurious e → w'.toDo < w.toDo) :=
    ⟨Nat.le_of_lt less, fun _ => less⟩
  cases e with
  | call => exact allowed.elim
  | caller => exact caller_less taken
  | service => exact strict (service_less plain taken)
  | wake =>
    simp only [step] at taken
    split at taken
    · rename_i own at_
      obtain rfl := Option.some.inj taken
      have change := caller_toDo (w := w) w.readBuffer w.mutex (.relock own) w.bound w.returns
      by_cases set : w.slot.waiterNotified = true
      · simp only [at_, Caller.rank, set, ↓reduceIte] at change
        exact strict (by omega)
      · simp only [at_, Caller.rank, set, Bool.false_eq_true, ↓reduceIte] at change
        exact ⟨by omega, fun real => (real (Bool.eq_false_iff.mpr set)).elim⟩
    · cases taken
  | complete i err bytes =>
    simp only [step] at taken
    split at taken
    · rename_i c at_ found
      obtain rfl := Option.some.inj taken
      apply strict
      have fewer := erased_length found
      have next : (Serving.check c err bytes).rank w.slot.id w.missing ≤ 5 := by
        simp only [Serving.rank]
        by_cases none : fruitless err bytes = true
        · have whole : ¬ (c.id = w.slot.id ∧ 0 < w.missing) := by
            rintro ⟨same, short⟩
            exact Nat.ne_of_gt short (Nat.sub_eq_zero_of_le (allowed none c found same))
          simp [none, whole]
        · simp [none]
      simp only [toDo, underWay, at_, Serving.rank_idle]
      simp only [missing] at next ⊢
      omega
    · cases taken
  | deliver i =>
    simp only [step] at taken
    split at taken
    · rename_i c bytes at_ found
      obtain rfl := Option.some.inj taken
      apply strict
      obtain ⟨inside, eq⟩ := List.getElem?_eq_some_iff.mp found
      have fewer := ((List.getElem_cons_eraseIdx_perm inside).map fun p : Cont κ × List UInt8 => queued p.2).sum_nat
      simp only [List.map_cons, List.sum_cons, eq] at fewer
      have next : (Serving.check c .success bytes).rank w.slot.id w.missing < queued bytes := by
        simp only [Serving.rank, fruitless, queued, ErrorCode.failed]
        cases bytes <;> simp
        split_ifs <;> omega
      simp only [toDo, underWay, at_, Serving.rank_idle]
      simp only [missing] at next ⊢
      omega
    · cases taken
  | timer i =>
    simp only [step] at taken
    split at taken
    · rename_i id err at_ found
      obtain rfl := Option.some.inj taken
      apply strict
      have fewer := erased_length found
      simp only [toDo, underWay, missing, at_, Serving.rank]
      omega
    · cases taken
  | callback i =>
    simp only [step] at taken
    split at taken
    · rename_i id callback at_ found
      obtain rfl := Option.some.inj taken
      apply strict
      have fewer := erased_length found
      have next : (if callback = syncCallback then Serving.callback (κ := κ) id else .idle).rank w.slot.id w.missing ≤ 3 := by
        split <;> simp [Serving.rank]
      simp only [toDo, underWay, missing, at_, Serving.rank_idle] at next ⊢
      omega
    · cases taken
  | expire =>
    obtain rfl := Option.some.inj taken
    apply strict
    have some_ : 0 < w.waits.length := List.length_pos_iff.mpr allowed
    simp only [toDo, underWay, missing, List.length_append, List.length_map, List.length_nil]
    omega

/-! ### Until the call has returned, there is a step to take -/

theorem callerStep_goes (code : Code κ) (free : w.mutex = none ∨ w.caller.holds = true) (under : w.caller ≠ .idle)
    (awake : ∀ own, w.caller ≠ .blocked own) : ∃ w', w.callerStep code = some w' := by
  apply Option.isSome_iff_exists.mp
  cases at_ : w.caller with
  | idle => exact (under at_).elim
  | blocked own => exact (awake own at_).elim
  | lock request | relock own =>
    have free : w.mutex = none := free.resolve_right (by simp [at_, Caller.holds])
    simp [callerStep, at_, free]
  | look call | test own =>
    simp only [callerStep, at_]
    split <;> rfl
  | scan call c =>
    simp only [callerStep, at_]
    split
    · rfl
    · split <;> rfl
  | _ => simp [callerStep, at_]

theorem serviceStep_goes (code : Code κ) (under : w.serving ≠ .idle) (free : ∀ id, w.serving = .callback id → w.mutex = none) :
    ∃ w', w.serviceStep code = some w' := by
  apply Option.isSome_iff_exists.mp
  cases at_ : w.serving with
  | idle => exact (under at_).elim
  | callback id => simp [serviceStep, at_, free id at_]
  | decide c err =>
    simp only [serviceStep, at_]
    split <;> rfl
  | _ => simp [serviceStep, at_]

/-- A call that waits while the stream and the service hold nothing has been notified. -/
theorem Heard.set (h : Heard w) (carried : Carried w) {own : UInt32} (under : w.caller.own = some own)
    (waits : w.caller.waiting = true) (serving : w.serving = .idle) (posted : w.posted = []) (none : ∀ c, ¬ w.Flight c) :
    w.slot.waiterNotified = true := by
  rcases h.heard own under with same | (waits' | runs | runs) | ⟨_, set⟩
  · rcases carried (by rw [same]; exact h.own own under) with brings | ⟨c, in_, _⟩
    · cases at_ : w.caller <;> simp_all [Caller.brings, Caller.waiting]
    · exact (none c in_).elim
  · simp [posted] at waits'
  · simp [serving] at runs
  · simp [serving] at runs
  · exact set

theorem service_goes (held : Held w) (under : w.serving ≠ .idle) :
    ∃ u, Works (step code) Undisturbed Spurious w 1 u := by
  by_cases free : ∀ id, w.serving = .callback id → w.mutex = none
  · obtain ⟨w', taken⟩ := serviceStep_goes code under free
    exact ⟨w', .one (e := .service) trivial id taken⟩
  · -- The callback waits for the mutex, which the call has locked until it blocks.
    push Not at free
    obtain ⟨id, at_, locked⟩ := free
    have holder : w.mutex = some .caller := by
      cases eq : w.mutex with
      | none => exact (locked eq).elim
      | some holder =>
        cases holder with
        | caller => rfl
        | service => simpa [at_, Serving.notifies] using held.service eq
    have holds := held.caller holder
    obtain ⟨w', taken⟩ := callerStep_goes code (Or.inr holds) (by rintro eq; simp [eq, Caller.holds] at holds)
      (by rintro own eq; simp [eq, Caller.holds] at holds)
    by_cases real : w.Spurious .caller
    · obtain ⟨unset, rechecks⟩ := real
      obtain ⟨own, tests⟩ : ∃ own, w.caller = .test own := by
        cases eq : w.caller <;> simp_all [Caller.rechecks, Caller.holds]
      have blocks : w.step code .caller = some { w with mutex := none, caller := .blocked own } := by
        simp [step, callerStep, tests, unset]
      have locks : Threads.step code { w with mutex := none, caller := .blocked own } .service =
          some { w with mutex := some .service, caller := .blocked own, serving := .notify id } := by
        simp [step, serviceStep, at_]
      exact ⟨_, .work (.idle (e := .caller) .refl trivial ⟨unset, rechecks⟩ blocks) (e := .service) trivial not_false locks⟩
    · exact ⟨w', .one (e := .caller) trivial real taken⟩

/-- What the stream or the service holds can be run by an idle service. -/
theorem handler_goes (code : Code κ) (idle : w.serving = .idle) :
    (∃ u, Works (step code) Undisturbed Spurious w 1 u) ∨
      w.ops = [] ∧ w.queue = [] ∧ w.waits = [] ∧ w.fired = [] ∧ w.posted = [] := by
  cases ops : w.ops with
  | cons c rest =>
    refine Or.inl ⟨_, .one (e := .complete 0 .success [0]) ?_ not_false (by simp [step, idle, ops]; rfl)⟩
    simp [Undisturbed, fruitless]
  | nil =>
  cases queue : w.queue with
  | cons p rest => exact Or.inl ⟨_, .one (e := .deliver 0) trivial not_false (by simp [step, idle, queue]; rfl)⟩
  | nil =>
  cases fired : w.fired with
  | cons p rest => exact Or.inl ⟨_, .one (e := .timer 0) trivial not_false (by simp [step, idle, fired]; rfl)⟩
  | nil =>
  cases posted : w.posted with
  | cons p rest => exact Or.inl ⟨_, .one (e := .callback 0) trivial not_false (by simp [step, idle, posted]; rfl)⟩
  | nil =>
  cases waits : w.waits with
  | cons id rest =>
    exact Or.inl ⟨_, .one (e := .expire) (by simp [Undisturbed, waits]) not_false rfl⟩
  | nil => exact Or.inr ⟨rfl, rfl, rfl, rfl, rfl⟩

/-- The call goes on when it is the only one that can. -/
theorem alone_goes (h : Heard w) (carried : Carried w) (held : Held w) (idle : w.serving = .idle) (posted : w.posted = [])
    (none : ∀ c, ¬ w.Flight c) (under : w.caller ≠ .idle) : ∃ u, Works (step code) Undisturbed Spurious w 1 u := by
  have notified : ∀ own, w.caller.own = some own → w.caller.waiting = true → w.slot.waiterNotified = true :=
    fun own under waits => h.set carried under waits idle posted none
  have free : w.mutex = Option.none ∨ w.caller.holds = true := by
    cases eq : w.mutex with
    | none => exact Or.inl rfl
    | some holder =>
      cases holder with
      | caller => exact Or.inr (held.caller eq)
      | service => simpa [idle, Serving.notifies] using held.service eq
  by_cases blocked : ∃ own, w.caller = .blocked own
  · obtain ⟨own, at_⟩ := blocked
    have set := notified own (by rw [at_]; rfl) (by rw [at_]; rfl)
    exact ⟨_, .one (e := .wake) trivial (by simp [Spurious, set]) (by simp [step, at_]; rfl)⟩
  · obtain ⟨w', taken⟩ := callerStep_goes code free under fun own eq => blocked ⟨own, eq⟩
    refine ⟨w', .one (e := .caller) trivial ?_ taken⟩
    rintro ⟨unset, rechecks⟩
    cases at_ : w.caller with
    | test own | relock own =>
      simp [notified own (by rw [at_]; rfl) (by rw [at_]; rfl)] at unset
    | _ => simp [at_, Caller.rechecks] at rechecks

/-- What keeps synchronous calls going. -/
structure Going (code : Code κ) (w : Threads κ) : Prop where
  heard : Heard w
  carried : Carried w
  plain : Plain code w
  held : Held w

theorem Going.goes (h : Going code w) : w.Rests ∨ ∃ u, Works (step code) Undisturbed Spurious w 1 u := by
  by_cases idle : w.serving = .idle
  · rcases handler_goes code idle with more | ⟨ops, queue, waits, fired, posted⟩
    · exact Or.inr more
    · have none : ∀ c, ¬ w.Flight c := by simp [Flight, ops, queue, idle, Serving.cont]
      by_cases returned : w.caller = .idle
      · refine Or.inl ⟨returned, ?_, idle, ?_, ops, queue, waits, fired, posted⟩
        · cases locked : w.mutex with
          | none => rfl
          | some holder =>
            cases holder with
            | caller =>
              have holds := h.held.caller locked
              simp [returned, Caller.holds] at holds
            | service =>
              have notifies := h.held.service locked
              simp [idle, Serving.notifies] at notifies
        · by_contra busy
          rcases h.carried busy with brings | ⟨c, in_, _⟩
          · simp [returned, Caller.brings] at brings
          · exact none c in_
      · exact Or.inr (alone_goes h.heard h.carried h.held idle posted none returned)
  · exact Or.inr (service_goes h.held idle)

theorem step_going (h : Going code w) (scenario : Synchronous code e) (taken : w.step code e = some w')
    (bounded : w'.accepted < 2 ^ 32) : Going code w' :=
  ⟨step_heard h.heard scenario taken bounded, step_carried h.carried taken, step_plain h.plain scenario taken,
    step_held h.held h.heard.sync scenario taken⟩

theorem fresh_going (fresh : w.Fresh) : Going code w := by
  refine ⟨fresh_heard fresh, fun busy => (busy fresh.id).elim, ?_, ?_⟩
  · rw [fresh.start]
    exact ⟨by simp [Caller.request], by simp [Flight, Serving.cont]⟩
  · rw [fresh.start]
    exact ⟨by simp, by simp⟩

/-- Without further calls, the request of the one under way is the last. -/
theorem step_toOpen (allowed : w.Undisturbed e) (taken : w.step code e = some w') :
    w'.accepted + w'.caller.toOpen ≤ w.accepted + w.caller.toOpen := by
  cases step_move taken with
  | call => exact allowed.elim
  | opened request sync slot waits fired call at_ =>
    rw [at_]
    dsimp only
    split <;> exact Nat.le_refl _
  | finish call at_ =>
    obtain ⟨posted, endings, eq⟩ := finish_eq (w := w) call.own .success
    rw [eq, handedOver]
    split <;> exact Nat.le_add_right ..
  | finished c err at_ =>
    obtain ⟨posted, endings, eq⟩ := finish_eq (w := w) c.id err
    rw [eq]
  | timeUp id at_ =>
    obtain ⟨posted, endings, eq⟩ := finish_eq (w := w) id .success
    rw [eq]
  | some_ call count data id readBuffer ops queue at_ =>
    rw [handedOver]
    split <;> exact Nat.le_add_right ..
  | lock request at_ => simp [at_, Caller.toOpen]
  | _ => simp [Caller.toOpen]

end Threads

open Threads

/-- Synchronous calls, any interleaving, and any state that it has led to: if the stream moves some
of the bytes that it is asked for, or fails, the call under way returns, and nothing is left behind.
Nothing but spurious wake-ups can go on for ever; and no other call can be made meanwhile. -/
theorem calls_return {κ : Type} {code : Code κ} {w t : Threads κ} {es : List (ThreadEvent κ)} (fresh : w.Fresh)
    (run : Steps (step code) (fun _ e => Synchronous code e) w es t) (bounded : t.accepted + t.caller.toOpen < 2 ^ 32) :
    Advances (step code) Undisturbed Spurious t Rests := by
  have going : t.accepted < 2 ^ 32 → Going code t := run.invariant (P := fun t => t.accepted < 2 ^ 32 → Going code t)
    (fun _ => fresh_going fresh) fun u e v before scenario taken bounded =>
      step_going (before (Nat.lt_of_le_of_lt (step_accepted taken) bounded)) scenario taken bounded
  refine advances_of_measure toDo (I := fun t => Going code t ∧ t.accepted + t.caller.toOpen < 2 ^ 32)
    ⟨going (Nat.lt_of_add_right_lt bounded), bounded⟩ ?_ fun t h => h.1.goes
  rintro t e u ⟨going, bounded⟩ allowed taken
  have bounded' := Nat.lt_of_le_of_lt (step_toOpen allowed taken) bounded
  have scenario : Synchronous code e := by cases e with
    | call => exact allowed.elim
    | _ => trivial
  exact ⟨⟨step_going going scenario taken (Nat.lt_of_add_right_lt bounded'), bounded'⟩, step_less going.plain allowed taken⟩

/-- A read whose request the timer has ended before the call blocks, with the continuation still in
the stream; and a write of which the stream has taken one byte of two. -/
theorem calls_return_blocked :
    (∃ es t, Steps (step readerCode) (fun _ e => Synchronous readerCode e) { slot := StreamReader.blank.toSlot } es t ∧
      t.caller = .blocked 1 ∧ t.slot.id = 0 ∧ t.ops.length = 1 ∧
        Advances (step readerCode) Undisturbed Spurious t Rests) ∧
    (∃ es t, Steps (step writerCode) (fun _ e => Synchronous writerCode e) { slot := StreamWriter.blank.toSlot } es t ∧
      t.caller = .blocked 1 ∧ t.slot.id = 1 ∧ t.ops.length = 1 ∧
        Advances (step writerCode) Undisturbed Spurious t Rests) := by
  constructor
  · obtain ⟨t, run, seen⟩ : ∃ t, Steps (step readerCode) (fun _ e => Synchronous readerCode e)
        { slot := StreamReader.blank.toSlot }
        [.call { kind := .read, size := 4, data := 0, callback := 1, timeoutMillis := 1 } true,
          .caller, .caller, .caller, .caller, .caller, .expire, .timer 0, .service, .service, .service,
          .caller, .caller] t ∧
        (t.caller, t.slot.id, t.ops.length, t.accepted) = (.blocked 1, 0, 1, 1) := exists_of_exec (by decide)
    simp only [Prod.mk.injEq] at seen
    obtain ⟨at_, id, ops, accepted⟩ := seen
    exact ⟨_, t, run, at_, id, ops, calls_return ⟨rfl, rfl, rfl⟩ run (by rw [at_, accepted]; decide)⟩
  · obtain ⟨t, run, seen⟩ : ∃ t, Steps (step writerCode) (fun _ e => Synchronous writerCode e)
        { slot := StreamWriter.blank.toSlot }
        [.call { kind := .write, size := 2, data := 0, callback := 1 } true,
          .caller, .caller, .caller, .caller, .caller, .complete 0 .success [1], .service, .service, .service,
          .service, .caller, .caller] t ∧
        (t.caller, t.slot.id, t.ops.length, t.accepted) = (.blocked 1, 1, 1, 1) := exists_of_exec (by decide)
    simp only [Prod.mk.injEq] at seen
    obtain ⟨at_, id, ops, accepted⟩ := seen
    exact ⟨_, t, run, at_, id, ops, calls_return ⟨rfl, rfl, rfl⟩ run (by rw [at_, accepted]; decide)⟩

end RtacAsio
