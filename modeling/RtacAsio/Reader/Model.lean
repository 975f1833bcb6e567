import RtacAsio.Request.World

/-!
`StreamReader`: the three asynchronous read primitives over one leftover buffer.
`char` is signed, as on x86 Linux.
-/

namespace RtacAsio
open Lib

/-- The public read primitives, and the continuations named after them. -/
inductive ReadKind where
  | readSome
  | read
  | readUntil (delimiter : Int8)
  deriving DecidableEq, Repr

/-- `readBuffer_` holds the bytes left over by a read_until, `rxDump_` what the open dump file
has received. -/
structure StreamReader extends Slot where
  readBuffer : List UInt8
  rxDump : Option (List UInt8)
  deriving DecidableEq, Repr

namespace StreamReader

@[simp] abbrev readCounter (r : StreamReader) : UInt32 := r.counter
@[simp] abbrev readId (r : StreamReader) : UInt32 := r.id
@[simp] abbrev dst (r : StreamReader) : Nat := r.data

/-- The constructor leaves `requestedSize_`, `processed_`, `dst_`, `callback_` and
`waiterNotified_` uninitialized. A dump file may have been opened since. -/
structure Created (r : StreamReader) : Prop where
  readCounter : r.readCounter = 0
  readId : r.readId = 0
  readBuffer : r.readBuffer = []

def blank : StreamReader :=
  { counter := 0, id := 0, requestedSize := 0, processed := 0, data := 0, callback := 0, waiterNotified := false,
    readBuffer := [], rxDump := none }

def newRead (q : Request ReadKind) (r : StreamReader) : Bool × StreamReader × List (Effect ReadKind) :=
  let out := r.newRequest q
  (out.1, { r with toSlot := out.2.1 }, out.2.2)

def finishRead (err : ErrorCode) (r : StreamReader) : StreamReader × List (Effect ReadKind) :=
  let out := r.finish err
  ({ r with toSlot := out.1 }, out.2)

def readidOk (readId : UInt32) (r : StreamReader) : Bool := r.idOk readId

def timeoutReached (readId : UInt32) (err : ErrorCode) (r : StreamReader) :
    StreamReader × List (Effect ReadKind) :=
  let out := r.toSlot.timeoutReached readId err
  ({ r with toSlot := out.1 }, out.2)

/-- The loop of `do_read_some` from the byte `c` that `is.get()` returned: the bytes stored,
`readCount` and what stays in the buffer. -/
def copyLoop (count : Nat) (data : Nat) (c : UInt8) (buffer : List UInt8) (readCount : Nat) :
    List (Effect ReadKind) × Nat × List UInt8 :=
  if readCount < count then
    match buffer with
    -- is.eof() from here on
    | [] => ([.store (data + readCount) c], readCount + 1, [])
    | next :: rest =>
      let out := copyLoop count data next rest (readCount + 1)
      (.store (data + readCount) c :: out.1, out.2)
  else ([], readCount, buffer)

def doReadSome (count : Nat) (data : Nat) (callback : Cont ReadKind) (r : StreamReader) :
    StreamReader × List (Effect ReadKind) :=
  match r.readBuffer with
  | c :: buffer =>
    let out := copyLoop count data c buffer 0
    ({ r with readBuffer := out.2.2 }, out.1 ++ [.postCont callback .success out.2.1])
  | [] =>
    match r.rxDump with
    | none => (r, [.transfer count data ⟨callback, none⟩])
    | some _ => (r, [.transfer count data ⟨callback, some data⟩])

def asyncReadSome (q : Request ReadKind) (r : StreamReader) : Bool × StreamReader × List (Effect ReadKind) :=
  let (accepted, r, armed) := r.newRead q
  if !accepted then (false, r, [])
  else
    let (r, effects) := r.doReadSome r.requestedSize r.dst ⟨.readSome, r.readId⟩
    (true, r, armed ++ effects)

def asyncReadSomeContinue (readId : UInt32) (err : ErrorCode) (readCount : Nat) (r : StreamReader) :
    StreamReader × List (Effect ReadKind) :=
  if !r.readidOk readId then (r, [])
  else { r with processed := readCount }.finishRead err

def asyncRead (q : Request ReadKind) (r : StreamReader) : Bool × StreamReader × List (Effect ReadKind) :=
  let (accepted, r, armed) := r.newRead q
  if !accepted then (false, r, [])
  else
    let (r, effects) := r.doReadSome r.requestedSize r.dst ⟨.read, r.readId⟩
    (true, r, armed ++ effects)

def asyncReadContinue (readId : UInt32) (err : ErrorCode) (readCount : Nat) (r : StreamReader) :
    StreamReader × List (Effect ReadKind) :=
  if !r.readidOk readId then
    -- probably a timeout was reached
    (r, [])
  else
    let r := { r with processed := r.processed + readCount }
    if !err.failed && r.processed < r.requestedSize then
      r.doReadSome (r.requestedSize - r.processed) (r.dst + r.processed) ⟨.read, readId⟩
    else r.finishRead err

/-- The loop of `async_read_until` over the leftover bytes, from the byte `c` that `is.get()`
returned. It tells whether it stopped at the delimiter or at the requested size. -/
def scanLoop (delimiter : Int8) (c : UInt8) (buffer : List UInt8) (r : StreamReader) :
    Bool × StreamReader × List (Effect ReadKind) :=
  let stored := Effect.store (r.dst + r.processed) c
  let r := { r with processed := r.processed + 1, readBuffer := buffer }
  -- both sides are of type char
  if c.toInt8 = delimiter ∨ r.processed ≥ r.requestedSize then (true, r, [stored])
  else
    match buffer with
    | [] => (false, r, [stored])
    | next :: rest =>
      let out := scanLoop delimiter next rest r
      (out.1, out.2.1, stored :: out.2.2)

def asyncReadUntil (delimiter : Int8) (q : Request ReadKind) (r : StreamReader) :
    Bool × StreamReader × List (Effect ReadKind) :=
  let (accepted, r, armed) := r.newRead q
  if !accepted then (false, r, [])
  else
    match r.readBuffer with
    | c :: buffer =>
      let (found, r, stores) := r.scanLoop delimiter c buffer
      if found then
        let (r, effects) := r.finishRead .success
        (true, r, armed ++ stores ++ effects)
      else
        let (r, effects) := r.doReadSome r.requestedSize (r.dst + r.processed) ⟨.readUntil delimiter, r.readId⟩
        (true, r, armed ++ stores ++ effects)
    | [] =>
      let (r, effects) := r.doReadSome r.requestedSize (r.dst + r.processed) ⟨.readUntil delimiter, r.readId⟩
      (true, r, armed ++ effects)

/-- `data[i] == delimiter`: a `uint8_t` and a `char`, both promoted to `int`. -/
def isDelimiter (delimiter : Int8) (b : UInt8) : Bool := (b.toNat : Int) == delimiter.toInt

/-- The loop of `async_read_until_continue`: `i` after the first delimiter and the bytes that
follow it. -/
def searchLoop (delimiter : Int8) : List UInt8 → Nat → Option (Nat × List UInt8)
  | [], _ => none
  | b :: rest, i => if isDelimiter delimiter b then some (i + 1, rest) else searchLoop delimiter rest (i + 1)

def asyncReadUntilContinue (readId : UInt32) (delimiter : Int8) (err : ErrorCode) (readCount : Nat)
    (m : Memory UInt8) (r : StreamReader) : StreamReader × List (Effect ReadKind) :=
  if !r.readidOk readId then
    -- probably a timeout was reached
    (r, [])
  else
    match searchLoop delimiter (m.read (r.dst + r.processed) readCount) 0 with
    | some (i, rest) =>
      { r with readBuffer := r.readBuffer ++ rest, processed := r.processed + i }.finishRead err
    | none =>
      let r := { r with processed := r.processed + readCount }
      if err.failed || r.processed ≥ r.requestedSize then r.finishRead err
      else
        r.doReadSome (r.requestedSize - r.processed) (r.dst + r.processed) ⟨.readUntil delimiter, readId⟩

def call (q : Request ReadKind) (r : StreamReader) : Bool × StreamReader × List (Effect ReadKind) :=
  match q.kind with
  | .readSome => r.asyncReadSome q
  | .read => r.asyncRead q
  | .readUntil delimiter => r.asyncReadUntil delimiter q

def resume (c : Cont ReadKind) (err : ErrorCode) (readCount : Nat) (m : Memory UInt8) (r : StreamReader) :
    StreamReader × List (Effect ReadKind) :=
  match c.kind with
  | .readSome => r.asyncReadSomeContinue c.id err readCount
  | .read => r.asyncReadContinue c.id err readCount
  | .readUntil delimiter => r.asyncReadUntilContinue c.id delimiter err readCount m

/-- Of the leftover bytes, those up to the first delimiter, at most `size` of them but never none. -/
def leftoverTaken (delimiter : Int8) (size : Nat) : List UInt8 → Nat
  | [] => 0
  | c :: rest =>
    if c.toInt8 = delimiter ∨ size ≤ 1 then 1 else leftoverTaken delimiter (size - 1) rest + 1

/-- The bytes up to the first delimiter, all of them when there is none. -/
def throughDelimiter (delimiter : Int8) (bs : List UInt8) : Nat :=
  ((searchLoop delimiter bs 0).map Prod.fst).getD bs.length

def taken (q : Request ReadKind) (r : StreamReader) : Nat :=
  match q.kind with
  | .readUntil delimiter => leftoverTaken delimiter q.size r.readBuffer
  | _ => 0

def counted (c : Cont ReadKind) (readCount : Nat) (m : Memory UInt8) (r : StreamReader) : Nat :=
  match c.kind with
  | .readUntil delimiter => throughDelimiter delimiter (m.read (r.dst + r.processed) readCount)
  | _ => readCount

end StreamReader

def reader : Endpoint ReadKind StreamReader where
  direction := .input
  slot r := r.toSlot
  dump r := r.rxDump
  setDump d r := { r with rxDump := d }
  call := StreamReader.call
  resume := StreamReader.resume
  timeoutReached := StreamReader.timeoutReached
  taken := StreamReader.taken
  counted := StreamReader.counted

end RtacAsio
