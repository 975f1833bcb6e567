import RtacAsio.Lib.Run
import RtacAsio.Reader.Model
import RtacAsio.Writer.Model

/-!
A reader or a writer under two threads: one that calls it, and the service's, which runs stream
completions, timer handlers and posted callbacks. A step is one critical section of `readMutex_`
or `writeMutex_`, one section delimited by `mutex_` and the condition wait, or one access without
a lock. Caller memory is left out: a completion carries the bytes that it reads from there.
-/

namespace RtacAsio
open Lib

/-- What tells the calls of an object apart: the delimiter that a call looks for, and whether its
request ends with its first completion. -/
structure Code (κ : Type) where
  delimiter : κ → Option Int8
  single : κ → Bool

def readerCode : Code ReadKind where
  delimiter
    | .readUntil delimiter => some delimiter
    | _ => none
  single
    | .readSome => true
    | _ => false

def writerCode : Code WriteKind where
  delimiter _ := none
  single
    | .writeSome => true
    | .write => false

/-- A call under way. `sync` tells the calls that wait; `own` is the id that their `new_read` or
`new_write` assigned. -/
structure Call (κ : Type) where
  request : Request κ
  sync : Bool
  own : UInt32
  deriving DecidableEq

/-- The statement the calling thread executes next. -/
inductive Caller (κ : Type) where
  | idle
  /-- `std::unique_lock<std::mutex> lock(mutex_)`. -/
  | lock (request : Request κ)
  | open_ (request : Request κ) (sync : Bool)
  /-- `async_read_until`: the first byte left over, then the loop from the byte `c`. -/
  | look (call : Call κ)
  | scan (call : Call κ) (c : UInt8)
  | finish (call : Call κ)
  /-- The arguments of `do_read_some` or `do_write_some`, then the id bound to the continuation. -/
  | args (call : Call κ)
  | bind (call : Call κ) (count data : Nat)
  | some_ (call : Call κ) (count data : Nat) (id : UInt32)
  /-- `waiterNotified_ = false`. -/
  | reset (own : UInt32)
  /-- The predicate of the wait, with `mutex_` locked. -/
  | test (own : UInt32)
  | blocked (own : UInt32)
  | relock (own : UInt32)
  /-- `return processed_`. -/
  | result (own : UInt32)
  deriving DecidableEq

/-- The statement the service's thread executes next. -/
inductive Serving (κ : Type) where
  | idle
  /-- A continuation: its id check, `processed_`, whether to go on, `do_read_some`, the end. -/
  | check (c : Cont κ) (err : ErrorCode) (bytes : List UInt8)
  | count (c : Cont κ) (err : ErrorCode) (bytes : List UInt8)
  | decide (c : Cont κ) (err : ErrorCode)
  | more (c : Cont κ) (count data : Nat)
  | finish (c : Cont κ) (err : ErrorCode)
  /-- `timeout_reached`: its id check, the flag, the end. -/
  | timeCheck (id : UInt32)
  | flag (id : UInt32)
  | timeUp (id : UInt32)
  /-- `read_callback` or `write_callback` of the request `id`: the lock, the flag. -/
  | callback (id : UInt32)
  | notify (id : UInt32)
  deriving DecidableEq

inductive Holder where
  | caller
  | service
  deriving DecidableEq

/-- A request ended by an effective `finish_read` or `finish_write`, on behalf of the request
`behalf`. -/
structure Ending where
  behalf : UInt32
  ended : UInt32
  count : Nat
  deriving DecidableEq

/-- A synchronous call that returned, with `readId_` or `writeId_` at that moment. -/
structure Return where
  own : UInt32
  id : UInt32
  value : Nat
  deriving DecidableEq

/-- `posted` are the posted user callbacks, with the request they are for. The ghosts are
`accepted`, `endings`, `bound` (the id assigned and the id bound by each call) and `returns`. -/
structure Threads (κ : Type) where
  slot : Slot
  readBuffer : List UInt8 := []
  mutex : Option Holder := none
  caller : Caller κ := .idle
  serving : Serving κ := .idle
  ops : List (Cont κ) := []
  queue : List (Cont κ × List UInt8) := []
  waits : List UInt32 := []
  fired : List (UInt32 × ErrorCode) := []
  posted : List (UInt32 × Callback) := []
  accepted : Nat := 0
  endings : List Ending := []
  bound : List (UInt32 × UInt32) := []
  returns : List Return := []

inductive ThreadEvent (κ : Type) where
  | call (request : Request κ) (sync : Bool)
  | caller
  /-- The wait of the calling thread ends. -/
  | wake
  | service
  /-- The service starts the handler of a completed stream operation, of a posted continuation, of
  the timer, or a user callback. -/
  | complete (i : Nat) (err : ErrorCode) (bytes : List UInt8)
  | deliver (i : Nat)
  | timer (i : Nat)
  | callback (i : Nat)
  | expire
  deriving DecidableEq

/-- `read_callback` or `write_callback`, bound by the synchronous calls. -/
def syncCallback : Callback := 0

def userCallback (callback : Callback) : Callback := callback + 1

namespace Threads
variable {κ : Type}

/-- The request as `new_read` or `new_write` gets it. -/
def passed (request : Request κ) (sync : Bool) : Request κ :=
  { request with callback := if sync then syncCallback else userCallback request.callback }

/-- The effects of a critical section. -/
def perform (w : Threads κ) : Effect κ → Threads κ
  | .arm _ id => { w with fired := w.fired ++ w.waits.map (·, .aborted), waits := [id] }
  | .post callback _ _ => { w with posted := w.posted ++ [(w.slot.id, callback)] }
  | _ => w

/-- `finish_read`, `finish_write`, on behalf of the request `id`. -/
def finish (id : UInt32) (err : ErrorCode) (w : Threads κ) : Threads κ :=
  let out := w.slot.finish (κ := κ) err
  let w' := out.2.foldl perform w
  { w' with
    slot := out.1
    endings := if w.slot.id = 0 then w.endings else w.endings ++ [⟨id, w.slot.id, w.slot.processed⟩] }

/-- `do_read_some`, `do_write_some`. A writer has no bytes left over. -/
def doSome (c : Cont κ) (count data : Nat) (w : Threads κ) : Threads κ :=
  match w.readBuffer with
  | b :: buffer =>
    let out := StreamReader.copyLoop count data b buffer 0
    { w with readBuffer := out.2.2, queue := w.queue ++ [(c, w.readBuffer.take out.2.1)] }
  | [] => { w with ops := w.ops ++ [c] }

/-- The end of the asynchronous part of a call. -/
def handedOver (call : Call κ) : Caller κ := if call.sync then .reset call.own else .idle

/-- `new_read` or `new_write`, and what the call does first. -/
def openStep (code : Code κ) (request : Request κ) (sync : Bool) (w : Threads κ) : Threads κ :=
  let out := w.slot.newRequest (passed request sync)
  let w' := out.2.2.foldl perform w
  if out.1 then
    let call := ⟨request, sync, out.2.1.id⟩
    { w' with
      slot := out.2.1
      accepted := w.accepted + 1
      caller := if (code.delimiter request.kind).isSome then .look call else .args call }
  else { w with caller := .idle, mutex := if sync then none else w.mutex }

def callerStep (code : Code κ) (w : Threads κ) : Option (Threads κ) :=
  match w.caller with
  | .idle => none
  | .lock request =>
    if w.mutex = none then some { w with mutex := some .caller, caller := .open_ request true } else none
  | .open_ request sync => some (w.openStep code request sync)
  | .look call =>
    match w.readBuffer with
    | [] => some { w with caller := .args call }
    | c :: buffer => some { w with readBuffer := buffer, caller := .scan call c }
  | .scan call c =>
    let slot := { w.slot with processed := w.slot.processed + 1 }
    if some c.toInt8 = code.delimiter call.request.kind ∨ slot.processed ≥ slot.requestedSize then
      some { w with slot, caller := .finish call }
    else
      match w.readBuffer with
      | [] => some { w with slot, caller := .args call }
      | next :: buffer => some { w with slot, readBuffer := buffer, caller := .scan call next }
  | .finish call => some { w.finish call.own .success with caller := handedOver call }
  | .args call =>
    let data := if (code.delimiter call.request.kind).isSome then w.slot.data + w.slot.processed else w.slot.data
    some { w with caller := .bind call w.slot.requestedSize data }
  | .bind call count data =>
    some { w with bound := w.bound ++ [(call.own, w.slot.id)], caller := .some_ call count data w.slot.id }
  | .some_ call count data id =>
    some { w.doSome ⟨call.request.kind, id⟩ count data with caller := handedOver call }
  | .reset own => some { w with slot := { w.slot with waiterNotified := false }, caller := .test own }
  | .test own =>
    if w.slot.waiterNotified then some { w with caller := .result own }
    else some { w with mutex := none, caller := .blocked own }
  | .blocked _ => none
  | .relock own => if w.mutex = none then some { w with mutex := some .caller, caller := .test own } else none
  | .result own =>
    some { w with returns := w.returns ++ [⟨own, w.slot.id, w.slot.processed⟩], mutex := none, caller := .idle }

/-- What a continuation whose id was checked counts, and where it goes on. -/
def countStep (code : Code κ) (c : Cont κ) (err : ErrorCode) (bytes : List UInt8) (w : Threads κ) : Threads κ :=
  if code.single c.kind then
    { w with slot := { w.slot with processed := bytes.length }, serving := .finish c err }
  else
    match (code.delimiter c.kind).bind fun delimiter => StreamReader.searchLoop delimiter bytes 0 with
    | some (i, rest) =>
      { w with slot := { w.slot with processed := w.slot.processed + i }, readBuffer := w.readBuffer ++ rest,
               serving := .finish c err }
    | none =>
      { w with slot := { w.slot with processed := w.slot.processed + bytes.length }, serving := .decide c err }

def serviceStep (code : Code κ) (w : Threads κ) : Option (Threads κ) :=
  match w.serving with
  | .idle => none
  | .check c err bytes => some { w with serving := if w.slot.idOk c.id then .count c err bytes else .idle }
  | .count c err bytes => some (w.countStep code c err bytes)
  | .decide c err =>
    if !err.failed && w.slot.processed < w.slot.requestedSize then
      some { w with
        serving := .more c (w.slot.requestedSize - w.slot.processed) (w.slot.data + w.slot.processed) }
    else some { w with serving := .finish c err }
  | .more c count data => some { w.doSome c count data with serving := .idle }
  | .finish c err => some { w.finish c.id err with serving := .idle }
  | .timeCheck id => some { w with serving := if w.slot.idOk id then .flag id else .idle }
  | .flag id => some { w with slot := { w.slot with waiterNotified := true }, serving := .timeUp id }
  | .timeUp id => some { w.finish id .success with serving := .idle }
  | .callback id =>
    if w.mutex = none then some { w with mutex := some .service, serving := .notify id } else none
  | .notify _ => some { w with slot := { w.slot with waiterNotified := true }, mutex := none, serving := .idle }

def step (code : Code κ) (w : Threads κ) : ThreadEvent κ → Option (Threads κ)
  | .call request sync =>
    match w.caller with
    | .idle => some { w with caller := if sync then .lock request else .open_ request false }
    | _ => none
  | .caller => w.callerStep code
  | .wake =>
    match w.caller with
    | .blocked own => some { w with caller := .relock own }
    | _ => none
  | .service => w.serviceStep code
  | .complete i err bytes =>
    match w.serving, w.ops[i]? with
    | .idle, some c => some { w with ops := w.ops.eraseIdx i, serving := .check c err bytes }
    | _, _ => none
  | .deliver i =>
    match w.serving, w.queue[i]? with
    | .idle, some (c, bytes) => some { w with queue := w.queue.eraseIdx i, serving := .check c .success bytes }
    | _, _ => none
  | .timer i =>
    match w.serving, w.fired[i]? with
    | .idle, some (id, _) => some { w with fired := w.fired.eraseIdx i, serving := .timeCheck id }
    | _, _ => none
  | .callback i =>
    match w.serving, w.posted[i]? with
    | .idle, some (id, callback) =>
      some { w with posted := w.posted.eraseIdx i,
                    serving := if callback = syncCallback then .callback id else .idle }
    | _, _ => none
  | .expire => some { w with fired := w.fired ++ w.waits.map (·, .success), waits := [] }

/-- The object as its constructor leaves it, with nothing under way. -/
structure Fresh (w : Threads κ) : Prop where
  counter : w.slot.counter = 0
  id : w.slot.id = 0
  start : w = { slot := w.slot }

end Threads

end RtacAsio
