import RtacAsio.Reader.Line
import RtacAsio.Udp.Model

/-!
A `StreamReader` over a `UDPClientStream`. Where the stream still holds bytes it calls the
continuation inside its own `async_read_some`, and the continuation may call `async_read_some`
again. A step is what is executed up to the next of these calls.
-/

namespace RtacAsio
open Lib

/-- `reset`. The socket it replaces makes its outstanding receives complete with an error. -/
def UDPClientStream.reset (s : UDPClientStream α) : UDPClientStream α := s.flush

/-- A continuation that the stream called: `late` tells that its request was not in progress any
more, `ended` that it posted the callback of its request, and `left` is what the stream still
held when it called. -/
structure Delivery where
  late : Bool
  ended : Bool
  left : Nat
  deriving DecidableEq, Repr

/-- `world.ops` are the receives outstanding on the socket, and `calling` is the operation that
`stream_->async_read_some` is called for next. The ghosts are about the call or handler that is
being executed: `depth` counts the calls of the stream nested in it, `delivered` the continuations
that the stream has called in it. -/
structure DatagramReader where
  world : World ReadKind StreamReader
  stream : UDPClientStream UInt8
  calling : Option (Op ReadKind) := none
  depth : Nat := 0
  delivered : List Delivery := []

inductive DatagramReaderEvent where
  /-- A call, a posted continuation, the end of a wait or a timer handler. -/
  | reader (e : Event ReadKind)
  /-- The receive `i` completes after writing `bytes` at the start of `buffer_`. -/
  | receive (i : Nat) (err : ErrorCode) (bytes : List UInt8)
  | cut (c : Cut)
  /-- `do_read_some` calls `stream_->async_read_some`. -/
  | readSome

/-- What the stream does with its operations. -/
def Event.ofStream : Event κ → Bool
  | .move .. | .complete .. => true
  | _ => false

/-- The arguments of `async_read_some`. Its callback is the handler of the operation. -/
def Op.read (op : Op κ) : DatagramRead := ⟨op.count, op.data, 0⟩

namespace DatagramReader

/-- A call or a handler begins. -/
def entered (x : DatagramReader) : DatagramReader := { x with depth := 0, delivered := [] }

/-- The reader's own code has led to the world `w`. The operation that it added, if any, has not
reached the socket: `async_read_some` is called for it. -/
def handOver (w : World ReadKind StreamReader) (x : DatagramReader) : DatagramReader :=
  match w.ops[x.world.ops.length]? with
  | none => { x with world := w, calling := none }
  | some op => { x with world := { w with ops := x.world.ops }, calling := some op }

/-- What the stream does for the operation `op`. -/
def perform (op : Op ReadKind) (x : DatagramReader) : DatagramEffect UInt8 → DatagramReader
  | .copy buffer _ _ bytes =>
    { x with world := { x.world with memory := x.world.memory.write buffer bytes,
                                     traffic := x.world.traffic ++ [(op.id, bytes)] } }
  | .call _ err count =>
    let w := World.handle reader op.handler err count x.world
    let delivery := ⟨!x.world.self.readidOk op.id, decide (x.world.posts.length < w.posts.length), x.stream.available⟩
    { x with delivered := x.delivered ++ [delivery] }.handOver w
  | .receive _ => { x with world := { x.world with ops := x.world.ops ++ [op] } }

def after (op : Op ReadKind) (out : UDPClientStream UInt8 × List (DatagramEffect UInt8)) (x : DatagramReader) :
    DatagramReader :=
  out.2.foldl (perform op) { x with stream := out.1 }

def cut (x : DatagramReader) : Cut → DatagramReader
  | .flush => { x with world := { x.world with self := x.world.self.flush }, stream := x.stream.flush }
  | .reset => { x with world := { x.world with self := x.world.self.reset }, stream := x.stream.reset }

/-- Nothing else begins before the call or the handler that is being executed has returned. As in
`Datagrams.step`, a receive is assumed to write `buffer_` when its handler runs. -/
def step (x : DatagramReader) : DatagramReaderEvent → Option DatagramReader
  | .readSome =>
    match x.calling with
    | none => none
    | some op =>
      some ({ x with calling := none, depth := x.depth + 1 }.after op (x.stream.asyncReadSome op.read))
  | .reader e =>
    if x.calling.isSome ∨ e.ofStream then none else (x.world.step reader e).map fun w => x.entered.handOver w
  | .receive i err bytes =>
    if x.calling.isSome then none else
      match x.world.ops[i]? with
      | none => none
      | some op =>
        if bytes.length ≤ x.stream.buffer.length then
          let arrived := { x.stream with buffer := bytes ++ x.stream.buffer.drop bytes.length }
          let x := { x.entered with world := { x.world with ops := x.world.ops.eraseIdx i }, depth := 1 }
          some (x.after op (arrived.receiveContinue op.read err bytes.length))
        else none
  | .cut c => if x.calling.isSome then none else some (x.entered.cut c)

end DatagramReader

end RtacAsio
