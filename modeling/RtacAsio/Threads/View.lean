import RtacAsio.Reader.Turns
import RtacAsio.Threads.Model

/-!
What a call and what a handler does to an object and its surroundings when nothing happens in
between.
-/

namespace RtacAsio

/-- What both models have of an object and its surroundings: of a posted continuation the number of
its bytes, and of a posted callback only which one it is. -/
structure View (κ : Type) where
  slot : Slot
  readBuffer : List UInt8
  ops : List (Cont κ)
  queue : List (Cont κ × Nat)
  waits : List UInt32
  fired : List (UInt32 × ErrorCode)
  posted : List Callback
  accepted : Nat

/-- The slot as `Threads` has it, which numbers the callbacks of the synchronous calls as well. -/
def Slot.numbered (s : Slot) : Slot := { s with callback := userCallback s.callback }

namespace View
variable {κ : Type}

/-- The end of the request in progress. -/
def finish (v : View κ) : View κ :=
  if v.slot.id = 0 then v else { v with slot := { v.slot with id := 0 }, posted := v.posted ++ [v.slot.callback] }

/-- `do_read_some`, `do_write_some`. -/
def doSome (c : Cont κ) (count : Nat) (v : View κ) : View κ :=
  if v.readBuffer = [] then { v with ops := v.ops ++ [c] }
  else { v with readBuffer := v.readBuffer.drop (count + 1), queue := v.queue ++ [(c, min count v.readBuffer.length)] }

/-- The loop of `async_read_until` over the bytes `bs` left over. -/
def scanned (delimiter : Int8) (bs : List UInt8) (v : View κ) : View κ :=
  let n := StreamReader.leftoverTaken delimiter (v.slot.requestedSize - v.slot.processed) bs
  { v with slot := { v.slot with processed := v.slot.processed + n }, readBuffer := bs.drop n }

/-- `new_read`, `new_write` of an idle object. -/
def opened (q : Request κ) (v : View κ) : View κ :=
  { v with
    slot := v.slot.opened (Threads.passed q false)
    waits := if q.timeoutMillis > 0 then [v.slot.counter + 1] else v.waits
    fired := if q.timeoutMillis > 0 then v.fired ++ v.waits.map (·, .aborted) else v.fired
    accepted := v.accepted + 1 }

/-- A call. -/
def call (code : Code κ) (q : Request κ) (v : View κ) : View κ :=
  if v.slot.id ≠ 0 then v
  else
    let v := v.opened q
    match code.delimiter q.kind, v.readBuffer with
    | some delimiter, c :: buffer =>
      if StreamReader.leftoverStops delimiter q.size (c :: buffer) then (v.scanned delimiter (c :: buffer)).finish
      else (v.scanned delimiter (c :: buffer)).doSome ⟨q.kind, v.slot.id⟩ q.size
    | _, _ => v.doSome ⟨q.kind, v.slot.id⟩ q.size

/-- A continuation. -/
def resume (code : Code κ) (c : Cont κ) (err : ErrorCode) (bytes : List UInt8) (v : View κ) : View κ :=
  if c.id ≠ v.slot.id then v
  else if code.single c.kind then finish { v with slot := { v.slot with processed := bytes.length } }
  else
    match (code.delimiter c.kind).bind fun delimiter => StreamReader.searchLoop delimiter bytes 0 with
    | some (i, rest) =>
      finish { v with slot := { v.slot with processed := v.slot.processed + i }, readBuffer := v.readBuffer ++ rest }
    | none =>
      let v := { v with slot := { v.slot with processed := v.slot.processed + bytes.length } }
      if !err.failed && v.slot.processed < v.slot.requestedSize then v.doSome c (v.slot.requestedSize - v.slot.processed)
      else v.finish

/-- `timeout_reached`. -/
def timeoutReached (id : UInt32) (v : View κ) : View κ :=
  if id ≠ v.slot.id then v else finish { v with slot := { v.slot with waiterNotified := true } }

/-- The end of a turn of `c`, whose request has the callback `callback`. -/
def concluded (c : Cont κ) (callback : Callback) (next : Next) (v : View κ) : View κ :=
  match next with
  | .transfer _ _ => { v with ops := v.ops ++ [c] }
  | .postCont count => { v with queue := v.queue ++ [(c, count)] }
  | .done _ => if c.id = 0 then v else { v with posted := v.posted ++ [callback] }

/-- A turn of the request in progress that counts bytes and leaves `readBuffer`. -/
def turned (c : Cont κ) (processed : Nat) (readBuffer : List UInt8) (next : Next) (v : View κ) : View κ :=
  concluded c v.slot.callback next { v with slot := { v.slot with processed, id := next.id c.id }, readBuffer }

section Calls
variable {code : Code κ} {q : Request κ} {v : View κ}

theorem call_busy (busy : v.slot.id ≠ 0) : v.call code q = v := by
  simp only [call, busy, ne_eq, not_false_eq_true, ↓reduceIte]

/-- A call that does not enter the loop over the bytes left over. -/
theorem call_plain (idle : v.slot.id = 0) (plain : code.delimiter q.kind = none ∨ v.readBuffer = []) :
    v.call code q = (v.opened q).doSome ⟨q.kind, v.slot.counter + 1⟩ q.size := by
  simp only [call, idle, ne_eq, not_true_eq_false, ↓reduceIte]
  split
  · rename_i delimiter c buffer kind left
    rcases plain with none | empty
    · simp [none] at kind
    · simp [opened, empty] at left
  · rfl

theorem call_scan {delimiter : Int8} {c : UInt8} {buffer : List UInt8} (idle : v.slot.id = 0)
    (kind : code.delimiter q.kind = some delimiter) (left : v.readBuffer = c :: buffer) :
    v.call code q =
      if StreamReader.leftoverStops delimiter q.size (c :: buffer) then ((v.opened q).scanned delimiter (c :: buffer)).finish
      else ((v.opened q).scanned delimiter (c :: buffer)).doSome ⟨q.kind, v.slot.counter + 1⟩ q.size := by
  have left : (v.opened q).readBuffer = c :: buffer := left
  simp only [call, idle, kind, left, ne_eq, not_true_eq_false, ↓reduceIte]
  rfl

theorem scanned_opened (delimiter : Int8) (bs : List UInt8) :
    (v.opened q).scanned delimiter bs = { v.opened q with
      slot := { (v.opened q).slot with processed := StreamReader.leftoverTaken delimiter q.size bs }
      readBuffer := bs.drop (StreamReader.leftoverTaken delimiter q.size bs) } := by
  have fresh : (v.opened q).slot.processed = 0 := rfl
  have size : (v.opened q).slot.requestedSize = q.size := rfl
  simp only [scanned, fresh, size, Nat.sub_zero, Nat.zero_add]

end Calls

section Continuations
variable {code : Code κ} {c : Cont κ} {err : ErrorCode} {bytes : List UInt8} {v : View κ}

theorem resume_stale (stale : c.id ≠ v.slot.id) : v.resume code c err bytes = v := by
  rw [resume, if_pos stale]

theorem resume_single (current : c.id = v.slot.id) (single : code.single c.kind = true) :
    v.resume code c err bytes = finish { v with slot := { v.slot with processed := bytes.length } } := by
  rw [resume, if_neg (not_not_intro current), if_pos single]

theorem resume_found {i : Nat} {rest : List UInt8} (current : c.id = v.slot.id) (several : code.single c.kind = false)
    (found : (code.delimiter c.kind).bind (fun delimiter => StreamReader.searchLoop delimiter bytes 0) = some (i, rest)) :
    v.resume code c err bytes =
      finish { v with slot := { v.slot with processed := v.slot.processed + i }, readBuffer := v.readBuffer ++ rest } := by
  rw [resume, if_neg (not_not_intro current), several, if_neg Bool.false_ne_true, found]

theorem resume_ended (current : c.id = v.slot.id) (several : code.single c.kind = false)
    (none : (code.delimiter c.kind).bind (fun delimiter => StreamReader.searchLoop delimiter bytes 0) = none)
    (ends : err.failed = true ∨ v.slot.requestedSize ≤ v.slot.processed + bytes.length) :
    v.resume code c err bytes = finish { v with slot := { v.slot with processed := v.slot.processed + bytes.length } } := by
  have stops : ¬ (!err.failed && decide (v.slot.processed + bytes.length < v.slot.requestedSize)) = true := by
    simpa [or_iff_not_imp_left] using ends
  rw [resume, if_neg (not_not_intro current), several, if_neg Bool.false_ne_true, none]
  exact if_neg stops

theorem resume_more (current : c.id = v.slot.id) (several : code.single c.kind = false)
    (none : (code.delimiter c.kind).bind (fun delimiter => StreamReader.searchLoop delimiter bytes 0) = none)
    (ok : err.failed = false) (short : v.slot.processed + bytes.length < v.slot.requestedSize) :
    v.resume code c err bytes =
      doSome c (v.slot.requestedSize - (v.slot.processed + bytes.length))
        { v with slot := { v.slot with processed := v.slot.processed + bytes.length } } := by
  have goesOn : (!err.failed && decide (v.slot.processed + bytes.length < v.slot.requestedSize)) = true := by
    simp [ok, short]
  rw [resume, if_neg (not_not_intro current), several, if_neg Bool.false_ne_true, none]
  exact if_pos goesOn

end Continuations

section Turns
variable {c : Cont κ} {v : View κ}

theorem finish_turned (err : ErrorCode) (current : c.id = v.slot.id) :
    v.finish = v.turned c v.slot.processed v.readBuffer (.done err) := by
  by_cases zero : v.slot.id = 0
  · simp only [finish, turned, concluded, Next.id, current, zero, ↓reduceIte]
    rw [← zero]
  · simp only [finish, turned, concluded, Next.id, current, zero, ↓reduceIte]

theorem doSome_stream {count : Nat} (n : Nat) (dump : Option Nat) (empty : v.readBuffer = []) (current : c.id = v.slot.id) :
    v.doSome c count = v.turned c v.slot.processed [] (.transfer n dump) := by
  simp only [doSome, turned, concluded, Next.id, current, empty, ↓reduceIte]

theorem doSome_buffer {count : Nat} (left : v.readBuffer ≠ []) (current : c.id = v.slot.id) :
    v.doSome c count =
      v.turned c v.slot.processed (v.readBuffer.drop (count + 1)) (.postCont (min count v.readBuffer.length)) := by
  simp only [doSome, turned, concluded, Next.id, current, left, ↓reduceIte]

end Turns

end View

end RtacAsio
