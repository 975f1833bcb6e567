import RtacAsio.Request.Turn

/-! `StreamWriter`: the two asynchronous write primitives. -/

namespace RtacAsio
open Lib

/-- The public write primitives, and the continuations named after them. -/
inductive WriteKind where
  | writeSome
  | write
  deriving DecidableEq, Repr

/-- `async_write_some` ends with its first completion. -/
def WriteKind.single : WriteKind → Bool
  | .writeSome => true
  | .write => false

/-- `txDump_` is what the open dump file has received. -/
structure StreamWriter extends Slot where
  txDump : Option (List UInt8)
  deriving DecidableEq, Repr

namespace StreamWriter

@[simp] abbrev writeCounter (t : StreamWriter) : UInt32 := t.counter
@[simp] abbrev writeId (t : StreamWriter) : UInt32 := t.id
@[simp] abbrev src (t : StreamWriter) : Nat := t.data

/-- The constructor leaves `requestedSize_`, `processed_`, `src_`, `callback_` and
`waiterNotified_` uninitialized. A dump file may have been opened since. -/
structure Created (t : StreamWriter) : Prop where
  writeCounter : t.writeCounter = 0
  writeId : t.writeId = 0

def blank : StreamWriter :=
  { counter := 0, id := 0, requestedSize := 0, processed := 0, data := 0, callback := 0, waiterNotified := false,
    txDump := none }

def newWrite (q : Request WriteKind) (t : StreamWriter) : Bool × StreamWriter × List (Effect WriteKind) :=
  let out := t.newRequest q
  (out.1, { t with toSlot := out.2.1 }, out.2.2)

def finishWrite (err : ErrorCode) (t : StreamWriter) : StreamWriter × List (Effect WriteKind) :=
  let out := t.finish err
  ({ t with toSlot := out.1 }, out.2)

def writeidOk (writeId : UInt32) (t : StreamWriter) : Bool := t.idOk writeId

def timeoutReached (writeId : UInt32) (err : ErrorCode) (t : StreamWriter) :
    StreamWriter × List (Effect WriteKind) :=
  let out := t.toSlot.timeoutReached writeId err
  ({ t with toSlot := out.1 }, out.2)

def doWriteSome (count : Nat) (data : Nat) (callback : Cont WriteKind) (t : StreamWriter) :
    List (Effect WriteKind) :=
  match t.txDump with
  | none => [.transfer count data ⟨callback, none⟩]
  | some _ => [.transfer count data ⟨callback, some data⟩]

def asyncWriteSome (q : Request WriteKind) (t : StreamWriter) : Bool × StreamWriter × List (Effect WriteKind) :=
  let (accepted, t, armed) := t.newWrite q
  if !accepted then (false, t, [])
  else (true, t, armed ++ t.doWriteSome t.requestedSize t.src ⟨.writeSome, t.writeId⟩)

def asyncWriteSomeContinue (writeId : UInt32) (err : ErrorCode) (writtenCount : Nat) (t : StreamWriter) :
    StreamWriter × List (Effect WriteKind) :=
  if !t.writeidOk writeId then (t, [])
  else { t with processed := writtenCount }.finishWrite err

def asyncWrite (q : Request WriteKind) (t : StreamWriter) : Bool × StreamWriter × List (Effect WriteKind) :=
  let (accepted, t, armed) := t.newWrite q
  if !accepted then (false, t, [])
  else (true, t, armed ++ t.doWriteSome t.requestedSize t.src ⟨.write, t.writeId⟩)

def asyncWriteContinue (writeId : UInt32) (err : ErrorCode) (writtenCount : Nat) (t : StreamWriter) :
    StreamWriter × List (Effect WriteKind) :=
  if !t.writeidOk writeId then
    -- probably a timeout was reached
    (t, [])
  else
    let t := { t with processed := t.processed + writtenCount }
    if !err.failed && t.processed < t.requestedSize then
      (t, t.doWriteSome (t.requestedSize - t.processed) (t.src + t.processed) ⟨.write, writeId⟩)
    else t.finishWrite err

def call (q : Request WriteKind) (t : StreamWriter) : Bool × StreamWriter × List (Effect WriteKind) :=
  match q.kind with
  | .writeSome => t.asyncWriteSome q
  | .write => t.asyncWrite q

def resume (c : Cont WriteKind) (err : ErrorCode) (writtenCount : Nat) (t : StreamWriter) :
    StreamWriter × List (Effect WriteKind) :=
  match c.kind with
  | .writeSome => t.asyncWriteSomeContinue c.id err writtenCount
  | .write => t.asyncWriteContinue c.id err writtenCount

end StreamWriter

def writer : Endpoint WriteKind StreamWriter where
  direction := .output
  slot t := t.toSlot
  dump t := t.txDump
  setDump d t := { t with txDump := d }
  call := StreamWriter.call
  resume c err writtenCount _ t := t.resume c err writtenCount
  timeoutReached := StreamWriter.timeoutReached
  taken _ _ := 0
  counted _ writtenCount _ _ := writtenCount

end RtacAsio
