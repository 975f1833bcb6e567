import RtacAsio.Reader.Model
import RtacAsio.Writer.Model

/-!
A `Stream` over a `StringStream`: its reader and its writer share one circular buffer, and what
the buffer posts to the service runs in any order.
-/

namespace RtacAsio
open Lib

/-- `buffer_`, a `boost::circular_buffer`, from its front on, and its capacity. -/
structure StringStream where
  buffer : List UInt8
  capacity : Nat
  deriving DecidableEq, Repr

namespace StringStream

/-- `boost::circular_buffer::push_back`, which overwrites the front of a full buffer. -/
def pushBack (b : UInt8) (s : StringStream) : StringStream :=
  if s.capacity = 0 then s
  else if s.buffer.length < s.capacity then { s with buffer := s.buffer ++ [b] }
  else { s with buffer := s.buffer.tail ++ [b] }

/-- The loop of `async_read_some`, with `n` iterations left: the memory, `readCount` and the stream. -/
def readLoop (buffer : Nat) : Nat → Nat → Memory UInt8 → StringStream → Memory UInt8 × Nat × StringStream
  | 0, readCount, m, s => (m, readCount, s)
  | n + 1, readCount, m, s =>
    match s.buffer with
    | [] => (m, readCount, s)
    | b :: rest => readLoop buffer n (readCount + 1) (m.write (buffer + readCount) [b]) { s with buffer := rest }

/-- The loop of `async_write_some`, with `n` iterations left: `writtenCount` and the stream. -/
def writeLoop (data : Nat) (m : Memory UInt8) : Nat → Nat → StringStream → Nat × StringStream
  | 0, writtenCount, s => (writtenCount, s)
  | n + 1, writtenCount, s =>
    if s.buffer.length < s.capacity then writeLoop data m n (writtenCount + 1) (s.pushBack (m (data + writtenCount)))
    else (writtenCount, s)

def asyncReadSome (bufferSize buffer : Nat) (m : Memory UInt8) (s : StringStream) :
    Memory UInt8 × Nat × StringStream :=
  readLoop buffer bufferSize 0 m s

def asyncWriteSome (count data : Nat) (m : Memory UInt8) (s : StringStream) : Nat × StringStream :=
  writeLoop data m count 0 s

end StringStream

/-- A handler posted to the service with its arguments. -/
structure Task (κ : Type) where
  handler : Handler κ
  err : ErrorCode
  count : Nat

/-- The reader or the writer with its tasks. The ghosts are `accepted`, `posts`, `done`, the bytes
that the stream moved for each request called back, and `current`, those for the one after. -/
structure Side (κ σ : Type) where
  self : σ
  tasks : List (Task κ) := []
  accepted : List (Request κ) := []
  posts : List Post := []
  done : List (List UInt8) := []
  current : List UInt8 := []

structure Shared where
  stream : StringStream
  memory : Memory UInt8

/-- `stream_->async_read_some` or `stream_->async_write_some`, with the bytes that were moved. -/
def Shared.transfer (direction : Direction) (count data : Nat) (h : Shared) : Shared × List UInt8 :=
  match direction with
  | .input =>
    let (memory, readCount, stream) := h.stream.asyncReadSome count data h.memory
    ({ stream, memory }, memory.read data readCount)
  | .output =>
    let (writtenCount, stream) := h.stream.asyncWriteSome count data h.memory
    ({ h with stream }, h.memory.read data writtenCount)

namespace Side
variable {κ σ : Type}

/-- All the bytes that the stream moved. -/
def moved (x : Side κ σ) : List UInt8 := x.done.flatten ++ x.current

/-- One effect. The requests have no timeout, so no timer is armed. -/
def perform (E : Endpoint κ σ) (x : Side κ σ × Shared) : Effect κ → Side κ σ × Shared
  | .store p b => (x.1, { x.2 with memory := x.2.memory.write p [b] })
  | .arm _ _ => x
  | .transfer count data handler =>
    let out := x.2.transfer E.direction count data
    -- the stream posts the handler with the count
    ({ x.1 with tasks := x.1.tasks ++ [⟨handler, .success, out.2.length⟩], current := x.1.current ++ out.2 }, out.1)
  | .postCont cont err count => ({ x.1 with tasks := x.1.tasks ++ [⟨⟨cont, none⟩, err, count⟩] }, x.2)
  | .post callback err count =>
    ({ x.1 with posts := x.1.posts ++ [⟨callback, err, count, x.2.memory.read (E.slot x.1.self).data count, false⟩],
                done := x.1.done ++ [x.1.current], current := [] }, x.2)

def call (E : Endpoint κ σ) (q : Request κ) (x : Side κ σ) (h : Shared) : Side κ σ × Shared :=
  let out := E.call q x.self
  let x := { x with self := out.2.1, accepted := if out.1 then x.accepted ++ [q] else x.accepted }
  out.2.2.foldl (perform E) (x, h)

/-- The service runs the task `i`. -/
def run (E : Endpoint κ σ) (i : Nat) (x : Side κ σ) (h : Shared) : Option (Side κ σ × Shared) :=
  match x.tasks[i]? with
  | none => none
  | some t =>
    let s := match t.handler.dump with
      | none => x.self
      | some data => E.dumpCallback data t.err t.count h.memory x.self
    let out := E.resume t.handler.cont t.err t.count h.memory s
    some (out.2.foldl (perform E) ({ x with self := out.1, tasks := x.tasks.eraseIdx i }, h))

end Side

/-- A `Stream` over a `StringStream`. -/
structure Pipe where
  reading : Side ReadKind StreamReader
  writing : Side WriteKind StreamWriter
  shared : Shared

inductive PipeEvent where
  | read (q : Request ReadKind)
  | write (q : Request WriteKind)
  | runRead (i : Nat)
  | runWrite (i : Nat)

namespace Pipe

def step (p : Pipe) : PipeEvent → Option Pipe
  | .read q =>
    let (reading, shared) := p.reading.call reader q p.shared
    some { p with reading, shared }
  | .write q =>
    let (writing, shared) := p.writing.call writer q p.shared
    some { p with writing, shared }
  | .runRead i => (p.reading.run reader i p.shared).map fun (reading, shared) => { p with reading, shared }
  | .runWrite i => (p.writing.run writer i p.shared).map fun (writing, shared) => { p with writing, shared }

end Pipe

end RtacAsio
