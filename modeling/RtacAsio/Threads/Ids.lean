import RtacAsio.Threads.Moves

/-! The ids of the requests under two threads: which of them are bound, checked and in flight. -/

namespace RtacAsio
open Lib

/-- The bytes left over complete a request: one of them is the delimiter, or the last it asks for. -/
def completes (delimiter : Option Int8) (requestedSize : Nat) : List UInt8 → Nat → Bool
  | [], _ => false
  | c :: rest, processed =>
    decide (some c.toInt8 = delimiter ∨ processed + 1 ≥ requestedSize) ||
      completes delimiter requestedSize rest (processed + 1)

/-- The id assigned by a call that has yet to finish its request or to hand it over. -/
def Caller.opening : Caller κ → Option UInt32
  | .look call | .scan call _ | .finish call | .args call | .bind call _ _ | .some_ call _ _ _ => some call.own
  | _ => none

namespace Serving

def cont : Serving κ → Option (Cont κ)
  | .check c _ _ | .count c _ _ | .decide c _ | .more c _ _ | .finish c _ => some c
  | _ => none

/-- The continuation under way, after its id check. -/
def checked : Serving κ → Option (Cont κ)
  | .count c _ _ | .decide c _ | .more c _ _ | .finish c _ => some c
  | _ => none

def isTimeUp : Serving κ → Bool
  | .timeUp _ => true
  | _ => false

theorem cont_of_checked {serving : Serving κ} {c : Cont κ} (h : serving.checked = some c) : serving.cont = some c := by
  cases serving <;> simp_all [cont, checked]

end Serving

namespace Threads
variable {κ : Type} {code : Code κ} {w w' : Threads κ} {e : ThreadEvent κ}

/-- The call under way has yet to read the id that it binds to its continuation. -/
def toBind (code : Code κ) (w : Threads κ) : Bool :=
  match w.caller with
  | .look call =>
    !completes (code.delimiter call.request.kind) w.slot.requestedSize w.readBuffer w.slot.processed
  | .scan call c =>
    !completes (code.delimiter call.request.kind) w.slot.requestedSize (c :: w.readBuffer) w.slot.processed
  | .args _ | .bind _ _ _ => true
  | _ => false

/-- `timeout_reached` does not end a request whose call has yet to read the id that it binds. -/
def EndsBound (code : Code κ) (w : Threads κ) (e : ThreadEvent κ) : Prop :=
  e = .service → w.serving.isTimeUp = true → w.slot.id = 0 ∨ w.toBind code = false

/-- The continuation `c` waits in the stream or in the service, or runs. -/
def Flight (w : Threads κ) (c : Cont κ) : Prop :=
  c ∈ w.ops ++ w.queue.map Prod.fst ∨ w.serving.cont = some c

structure Ids (code : Code κ) (w : Threads κ) : Prop where
  counted : w.slot.counter.toNat = w.accepted
  current : w.slot.id = 0 ∨ w.slot.id = w.slot.counter
  issued : ∀ c, w.Flight c → c.id ≠ 0 ∧ c.id.toNat ≤ w.accepted
  checked : ∀ c, w.serving.checked = some c → c.id = w.slot.id
  opening : ∀ own, w.caller.opening = some own →
    own = w.slot.counter ∧ own ≠ 0 ∧ ∀ c, w.Flight c → c.id ≠ own
  binds : w.slot.id = 0 → w.toBind code = false
  some_ : ∀ call count data id, w.caller = .some_ call count data id → id = call.own
  bound : ∀ b ∈ w.bound, b.2 = b.1

theorem Flight.of_checked {c : Cont κ} (h : w.serving.checked = some c) : w.Flight c :=
  Or.inr (Serving.cont_of_checked h)

/-- A continuation that has passed its check belongs to a call that has handed it over. -/
theorem Ids.handed (h : Ids code w) {c : Cont κ} (checked : w.serving.checked = some c) :
    w.caller.opening = none := by
  by_contra opening
  obtain ⟨own, opening⟩ := Option.ne_none_iff_exists'.mp opening
  obtain ⟨rfl, _, others⟩ := h.opening own opening
  have flight := Flight.of_checked checked
  have same := h.checked c checked
  rcases h.current with idle | busy
  · exact (h.issued c flight).1 (same.trans idle)
  · exact others c flight (same.trans busy)

theorem Ids.unchecked (h : Ids code w) {own : UInt32} (opening : w.caller.opening = some own) :
    w.serving.checked = none := by
  by_contra checked
  obtain ⟨c, checked⟩ := Option.ne_none_iff_exists'.mp checked
  simp [h.handed checked] at opening

theorem Ids.own_of_busy (h : Ids code w) (own : UInt32) (opening : w.caller.opening = some own)
    (busy : w.slot.id ≠ 0) : own = w.slot.id :=
  (h.opening own opening).1.trans (h.current.resolve_left busy).symm

theorem toBind_handed (handed : w.caller.opening = none) : w.toBind code = false := by
  unfold toBind
  split <;> simp_all [Caller.opening]

theorem Ids.elsewhere (h : Ids code w) {caller : Caller κ} {waiterNotified : Bool} {mutex : Option Holder}
    {returns : List Return} (away : caller.opening = none) :
    Ids code { w with slot := { w.slot with waiterNotified }, mutex, caller, returns } where
  counted := h.counted
  current := h.current
  issued := h.issued
  checked := h.checked
  opening own opening := by simp [away] at opening
  binds _ := toBind_handed away
  some_ call count data id at_ := by
    subst at_
    simp [Caller.opening] at away
  bound := h.bound

theorem Ids.advance (h : Ids code w) {caller : Caller κ} {processed : Nat} {readBuffer : List UInt8}
    {bound : List (UInt32 × UInt32)} (same : caller.opening = w.caller.opening)
    (binds : w.slot.id = 0 →
      toBind code { w with slot := { w.slot with processed }, readBuffer, caller, bound } = false)
    (some_ : ∀ call count data id, caller = .some_ call count data id → id = call.own)
    (owned : ∀ b ∈ bound, b.2 = b.1) :
    Ids code { w with slot := { w.slot with processed }, readBuffer, caller, bound } where
  counted := h.counted
  current := h.current
  issued := h.issued
  checked := h.checked
  opening own opening := h.opening own (same ▸ opening)
  binds := binds
  some_ := some_
  bound := owned

theorem Ids.serve (h : Ids code w) {serving : Serving κ} {processed : Nat} {waiterNotified : Bool}
    {readBuffer : List UInt8} {mutex : Option Holder} {ops : List (Cont κ)} {queue : List (Cont κ × List UInt8)}
    {waits : List UInt32} {fired : List (UInt32 × ErrorCode)} {posted : List (UInt32 × Callback)}
    (flight : ∀ c, c ∈ ops ++ queue.map Prod.fst ∨ serving.cont = some c → w.Flight c)
    (checked : ∀ c, serving.checked = some c → c.id = w.slot.id)
    (binds : w.slot.id = 0 →
      toBind code { w with slot := { w.slot with processed, waiterNotified }, readBuffer } = false) :
    Ids code { w with slot := { w.slot with processed, waiterNotified }, readBuffer, mutex, serving, ops, queue, waits,
                      fired, posted } where
  counted := h.counted
  current := h.current
  issued c in_ := h.issued c (flight c in_)
  checked := checked
  opening own opening := by
    obtain ⟨last, ne, others⟩ := h.opening own opening
    exact ⟨last, ne, fun c in_ => others c (flight c in_)⟩
  binds := binds
  some_ := h.some_
  bound := h.bound

theorem finish_serving (id : UInt32) (err : ErrorCode) (serving : Serving κ) :
    { w.finish id err with serving } = { w with serving }.finish id err := by
  by_cases idle : w.slot.id = 0
  · rw [finish_idle _ _ idle, finish_idle (w := { w with serving }) _ _ idle]
  · rw [finish_busy _ _ idle, finish_busy (w := { w with serving }) _ _ idle]

theorem finish_caller (id : UInt32) (err : ErrorCode) (caller : Caller κ) :
    { w.finish id err with caller } = { w with caller }.finish id err := by
  by_cases idle : w.slot.id = 0
  · rw [finish_idle _ _ idle, finish_idle (w := { w with caller }) _ _ idle]
  · rw [finish_busy _ _ idle, finish_busy (w := { w with caller }) _ _ idle]

theorem Ids.finish (h : Ids code w) (id : UInt32) (err : ErrorCode) (unchecked : w.serving.checked = none)
    (handed : w.slot.id = 0 ∨ w.toBind code = false) : Ids code (w.finish id err) := by
  by_cases idle : w.slot.id = 0
  · rwa [finish_idle _ _ idle]
  · rw [finish_busy _ _ idle]
    exact ⟨h.counted, Or.inl rfl, h.issued, by simp [unchecked], h.opening, fun _ => handed.resolve_left idle, h.some_,
      h.bound⟩

theorem handedOver_opening (call : Call κ) : (handedOver call).opening = none := by
  unfold handedOver
  split <;> rfl

theorem handedOver_some_ {call call' : Call κ} {count data : Nat} {id : UInt32} :
    handedOver call ≠ .some_ call' count data id := by
  unfold handedOver
  split <;> simp

theorem opened_ids (h : Ids code w) {slot : Slot} {waits : List UInt32} {fired : List (UInt32 × ErrorCode)}
    {call : Call κ} {caller : Caller κ} (idle : w.slot.id = 0) (counter : slot.counter = w.slot.counter + 1)
    (id : slot.id = slot.counter) (own : call.own = slot.id) (first : caller = .look call ∨ caller = .args call)
    (bounded : w.accepted + 1 < 2 ^ 32) :
    Ids code { w with slot, waits, fired, accepted := w.accepted + 1, caller } := by
  have counted : slot.counter.toNat = w.accepted + 1 := by
    rw [counter]
    exact counter_next h.counted bounded
  have ne : slot.counter ≠ 0 := by
    intro zero
    simp [zero] at counted
  refine ⟨counted, Or.inr id, fun c in_ => ?_, fun c checked => ?_, fun own' opening => ?_,
    fun zero => (ne (id ▸ zero)).elim, fun call' count data id' at_ => ?_, h.bound⟩
  · exact ⟨(h.issued c in_).1, Nat.le_succ_of_le (h.issued c in_).2⟩
  · exact ((h.issued c (.of_checked checked)).1 ((h.checked c checked).trans idle)).elim
  · obtain rfl : call.own = own' := by rcases first with rfl | rfl <;> exact Option.some.inj opening
    refine ⟨own.trans id, own.trans id ▸ ne, fun c in_ same => ?_⟩
    have below := (h.issued c in_).2
    rw [same, own, id, counted] at below
    omega
  · rcases first with rfl | rfl <;> cases at_

theorem handed_ids (h : Ids code w) {call : Call κ} {count data : Nat} {id : UInt32} {readBuffer : List UInt8}
    {ops : List (Cont κ)} {queue : List (Cont κ × List UInt8)} (at_ : w.caller = .some_ call count data id)
    (handed : ∀ c, c ∈ ops ++ queue.map Prod.fst ↔ c = ⟨call.request.kind, id⟩ ∨ c ∈ w.ops ++ w.queue.map Prod.fst) :
    Ids code { w with readBuffer, ops, queue, caller := handedOver call } := by
  obtain ⟨last, ne, _⟩ := h.opening call.own (by rw [at_]; rfl)
  have own := h.some_ _ _ _ _ at_
  have rank : call.own.toNat = w.accepted := by rw [last, h.counted]
  refine ⟨h.counted, h.current, fun c in_ => ?_, h.checked, ?_,
    fun _ => toBind_handed (handedOver_opening call), ?_, h.bound⟩
  · rcases in_ with waits | runs
    · rcases (handed c).mp waits with rfl | before
      · exact own ▸ ⟨ne, Nat.le_of_eq rank⟩
      · exact h.issued c (Or.inl before)
    · exact h.issued c (Or.inr runs)
  · simp [handedOver_opening]
  · intro call' count' data' id' at_'
    exact (handedOver_some_ at_').elim

theorem Ids.turn (h : Ids code w) {serving : Serving κ} {waiterNotified : Bool} {mutex : Option Holder}
    {waits : List UInt32} {fired : List (UInt32 × ErrorCode)} {posted : List (UInt32 × Callback)}
    (cont : serving.cont = none) :
    Ids code { w with slot := { w.slot with waiterNotified }, mutex, serving, waits, fired, posted } := by
  refine h.serve (fun c in_ => Or.inl (in_.resolve_right (by simp [cont]))) (fun c checked => ?_) h.binds
  simp [Serving.cont_of_checked checked] at cont

theorem Ids.resume (h : Ids code w) {c : Cont κ} {serving : Serving κ} {processed : Nat} {readBuffer : List UInt8}
    (checked : w.serving.checked = some c) (same : serving.checked = some c) :
    Ids code { w with slot := { w.slot with processed }, readBuffer, serving } := by
  have cont := Serving.cont_of_checked same
  refine h.serve (fun c' in_ => ?_) (fun c' now => ?_) fun _ => toBind_handed (h.handed checked)
  · rcases in_ with waits | runs
    · exact Or.inl waits
    · rw [cont] at runs
      exact Option.some.inj runs ▸ .of_checked checked
  · rw [same] at now
    exact Option.some.inj now ▸ h.checked c checked

theorem Ids.take (h : Ids code w) {c : Cont κ} {serving : Serving κ} {ops : List (Cont κ)}
    {queue : List (Cont κ × List UInt8)} (flight : w.Flight c) (cont : serving.cont = some c)
    (checked : serving.checked = some c → c.id = w.slot.id)
    (fewer : ∀ c ∈ ops ++ queue.map Prod.fst, c ∈ w.ops ++ w.queue.map Prod.fst) :
    Ids code { w with serving, ops, queue } := by
  refine h.serve (fun c' in_ => ?_) (fun c' now => ?_) h.binds
  · rcases in_ with waits | runs
    · exact Or.inl (fewer c' waits)
    · rw [cont] at runs
      exact Option.some.inj runs ▸ flight
  · obtain rfl := Option.some.inj (cont.symm.trans (Serving.cont_of_checked now))
    exact checked now

theorem mem_of_erased {ops : List (Cont κ)} {queue : List (Cont κ × List UInt8)} {c : Cont κ} (i : Nat)
    (h : c ∈ ops.eraseIdx i ++ queue.map Prod.fst ∨ c ∈ ops ++ (queue.eraseIdx i).map Prod.fst) :
    c ∈ ops ++ queue.map Prod.fst := by
  rcases h with h | h <;> rcases List.mem_append.mp h with waits | posted
  · exact List.mem_append_left _ (List.mem_of_mem_eraseIdx waits)
  · exact List.mem_append_right _ posted
  · exact List.mem_append_left _ waits
  · refine List.mem_append_right _ (List.map_subset _ ?_ posted)
    exact fun p => List.mem_of_mem_eraseIdx

theorem bound_ids (h : Ids code w) {call : Call κ} {count data : Nat} (at_ : w.caller = .bind call count data) :
    Ids code { w with
      bound := w.bound ++ [(call.own, w.slot.id)]
      caller := .some_ call count data w.slot.id } := by
  have busy : w.slot.id ≠ 0 := fun idle => by simpa [toBind, at_] using h.binds idle
  have own := h.own_of_busy call.own (by rw [at_]; rfl) busy
  refine h.advance (by rw [at_]; rfl) (fun _ => rfl) (fun call' count' data' id eq => ?_) fun b member => ?_
  · obtain ⟨rfl, _, _, rfl⟩ := Caller.some_.inj eq
    exact own.symm
  · rcases List.mem_append.mp member with old | new
    · exact h.bound b old
    · obtain rfl := List.mem_singleton.mp new
      exact own.symm

theorem step_ids (h : Ids code w) (apart : w.EndsBound code e) (taken : w.step code e = some w')
    (bounded : w'.accepted < 2 ^ 32) : Ids code w' := by
  cases step_move taken with
  | call request sync at_ => exact h.elsewhere (by cases sync <;> rfl)
  | lock => exact h.elsewhere rfl
  | opened request sync slot waits fired call at_ idle counter id callback eq =>
    have own : call.own = slot.id := by rw [eq]
    exact opened_ids h idle counter id own (by split <;> simp) bounded
  | refused => exact h.elsewhere rfl
  | lookPast call at_ empty =>
    refine h.advance (by rw [at_]; rfl) (fun idle => ?_) (by simp) h.bound
    simpa [toBind, at_, empty, completes] using h.binds idle
  | look call c buffer at_ left =>
    refine h.advance (by rw [at_]; rfl) (fun idle => ?_) (by simp) h.bound
    simpa [toBind, at_, left] using h.binds idle
  | scanned call c at_ => exact h.advance (by rw [at_]; rfl) (fun _ => rfl) (by simp) h.bound
  | scanPast call c at_ further empty =>
    refine h.advance (by rw [at_]; rfl) (fun idle => ?_) (by simp) h.bound
    simpa [toBind, at_, empty, completes, further] using h.binds idle
  | scan call c next buffer at_ further left =>
    refine h.advance (by rw [at_]; rfl) (fun idle => ?_) (by simp) h.bound
    simpa [toBind, at_, left, completes, further] using h.binds idle
  | finish call at_ =>
    have opening : w.caller.opening = some call.own := by rw [at_]; rfl
    rw [finish_caller]
    exact (h.elsewhere (handedOver_opening call)).finish _ .success (h.unchecked opening)
      (Or.inr (toBind_handed (handedOver_opening call)))
  | args call count data at_ =>
    refine h.advance (by rw [at_]; rfl) (fun idle => ?_) (by simp) h.bound
    simpa [toBind, at_] using h.binds idle
  | bind call count data at_ => exact bound_ids h at_
  | some_ call count data id readBuffer ops queue at_ handed => exact handed_ids h at_ handed
  | reset => exact h.elsewhere rfl
  | notified => exact h.elsewhere rfl
  | wait => exact h.elsewhere rfl
  | relock => exact h.elsewhere rfl
  | result => exact h.elsewhere rfl
  | wake => exact h.elsewhere rfl
  | current c err bytes at_ same =>
    have runs : w.Flight c := Or.inr (by rw [at_]; rfl)
    exact h.take runs rfl (fun _ => same) fun _ in_ => in_
  | stale => exact h.turn rfl
  | count c err bytes readBuffer processed serving at_ next =>
    exact h.resume (c := c) (by rw [at_]; rfl) (by rcases next with rfl | rfl <;> rfl)
  | decide c err serving at_ next =>
    exact h.resume (c := c) (by rw [at_]; rfl) (by rcases next with rfl | ⟨count, data, rfl⟩ <;> rfl)
  | more c count data readBuffer ops queue at_ handed =>
    have checked : w.serving.checked = some c := by rw [at_]; rfl
    refine h.serve (fun c' in_ => ?_) (by simp [Serving.checked]) fun _ =>
      toBind_handed (h.handed checked)
    rcases (handed c').mp (in_.resolve_right (by simp [Serving.cont])) with rfl | before
    · exact .of_checked checked
    · exact Or.inl before
  | finished c err at_ =>
    have checked : w.serving.checked = some c := by rw [at_]; rfl
    rw [finish_serving]
    have idle : Ids code { w with serving := .idle } := h.turn rfl
    exact idle.finish _ err rfl (Or.inr (toBind_handed (h.handed checked)))
  | expired => exact h.turn rfl
  | timeStale => exact h.turn rfl
  | flag => exact h.turn rfl
  | timeUp id at_ =>
    rw [finish_serving]
    have idle : Ids code { w with serving := .idle } := h.turn rfl
    exact idle.finish _ .success rfl (apart rfl (by rw [at_]; rfl))
  | callbackLock => exact h.turn rfl
  | notify => exact h.turn rfl
  | complete i err bytes c at_ found =>
    have waits : w.Flight c := Or.inl (List.mem_append_left _ (List.mem_of_getElem? found))
    exact h.take waits rfl (by simp [Serving.checked]) fun _ rest => mem_of_erased i (Or.inl rest)
  | deliver i c bytes at_ found =>
    have posted : c ∈ w.queue.map Prod.fst := List.mem_map.mpr ⟨_, List.mem_of_getElem? found, rfl⟩
    exact h.take (Or.inl (List.mem_append_right _ posted)) rfl (by simp [Serving.checked]) fun _ rest =>
      mem_of_erased i (Or.inr rest)
  | timer => exact h.turn rfl
  | callback i id callback at_ =>
    exact h.turn (by split <;> rfl)
  | expire => exact h.serve (fun c in_ => in_) h.checked h.binds


theorem fresh_ids (fresh : w.Fresh) : Ids code w := by
  have counter := fresh.counter
  have id := fresh.id
  rw [fresh.start]
  refine ⟨by simp [counter], Or.inl id, fun c in_ => ?_, by simp [Serving.checked], by simp [Caller.opening],
    fun _ => rfl, by simp, by simp⟩
  simp [Flight, Serving.cont] at in_

theorem step_accepted (taken : w.step code e = some w') : w.accepted ≤ w'.accepted := by
  cases step_move taken with
  | opened => exact Nat.le_succ _
  | finish | finished | timeUp => simp [finish_accepted]
  | _ => exact Nat.le_refl _

/-- What one step keeps next to the invariant, a run keeps, as long as the counter does not wrap
around. -/
theorem reachable_ids {t : Threads κ} {es : List (ThreadEvent κ)} {ok : Threads κ → ThreadEvent κ → Prop}
    {P : Threads κ → Prop} (bound : ∀ u e, ok u e → u.EndsBound code e) (start : P w)
    (keep : ∀ u e v, Ids code u → P u → ok u e → u.step code e = some v → v.accepted < 2 ^ 32 → P v)
    (fresh : w.Fresh) (run : Steps (step code) ok w es t) (bounded : t.accepted < 2 ^ 32) : Ids code t ∧ P t := by
  refine run.invariant (P := fun t => t.accepted < 2 ^ 32 → Ids code t ∧ P t) (fun _ => ⟨fresh_ids fresh, start⟩)
    (fun u e v before allowed taken bounded => ?_) bounded
  obtain ⟨ids, h⟩ := before (Nat.lt_of_le_of_lt (step_accepted taken) bounded)
  exact ⟨step_ids ids (bound u e allowed) taken bounded, keep u e v ids h allowed taken bounded⟩

end Threads

end RtacAsio
