import RtacAsio.Reader.Model

/-!
A `StreamReader` over a stream that buffers the bytes it produces, with the calls that discard
what is buffered.
-/

namespace RtacAsio
open Lib

namespace StreamReader

/-- `flush` before it calls `stream_->flush()`. -/
def flush (r : StreamReader) : StreamReader := { r with readBuffer := [] }

/-- `reset`, which only calls `stream_->reset()`. -/
def reset (r : StreamReader) : StreamReader := r

end StreamReader

inductive Cut where
  | flush | reset
  deriving DecidableEq, Repr

/-- `input` is what the stream holds of the bytes `produced` so far. -/
structure Line where
  world : World ReadKind StreamReader
  input : List UInt8 := []
  produced : List UInt8 := []

inductive LineEvent where
  /-- The stream gets bytes from its device. -/
  | produce (bytes : List UInt8)
  | reader (e : Event ReadKind)
  | cut (c : Cut)

/-- The bytes that the stream hands over. -/
def Event.moves : Event κ → List UInt8
  | .move _ bytes => bytes
  | _ => []

namespace Line

/-- The stream's own `flush` and `reset` discard its input. -/
def cut (l : Line) : Cut → Line
  | .flush => { l with world := { l.world with self := l.world.self.flush }, input := [] }
  | .reset => { l with world := { l.world with self := l.world.self.reset }, input := [] }

def step (l : Line) : LineEvent → Option Line
  | .produce bytes => some { l with input := l.input ++ bytes, produced := l.produced ++ bytes }
  | .reader e =>
    if e.moves.isPrefixOf l.input then
      (l.world.step reader e).map fun world => { l with world, input := l.input.drop e.moves.length }
    else none
  | .cut c => some (l.cut c)

end Line

/-! ### What can be seen of a run -/

/-- What the caller and the stream do, with the requests numbered from 1 on. -/
inductive Seen where
  | produce (bytes : List UInt8)
  | call (q : Request ReadKind)
  | move (n : Nat) (count : Nat)
  | complete (n : Nat) (err : ErrorCode)
  | deliver (n : Nat)
  | timer (n : Nat)
  | cut (c : Cut)

/-- The number of a request, when `base` were accepted before the first one. -/
def number (base : Nat) (id : UInt32) : Option Nat := if base < id.toNat then some (id.toNat - base) else none

/-- Nothing is seen of the handlers of earlier requests, or of a timer before its handler runs. -/
def Line.view (base : Nat) (l : Line) : LineEvent → Option Seen
  | .produce bytes => some (.produce bytes)
  | .reader (.call q) => some (.call q)
  | .reader (.move i bytes) => l.world.ops[i]?.bind fun op => (number base op.id).map (.move · bytes.length)
  | .reader (.complete i err) => l.world.ops[i]?.bind fun op => (number base op.id).map (.complete · err)
  | .reader (.deliver i) => l.world.queue[i]?.bind fun p => (number base p.cont.id).map .deliver
  | .reader .expire => none
  | .reader (.timer i) => l.world.fired[i]?.bind fun f => (number base f.1).map .timer
  | .cut c => some (.cut c)

end RtacAsio
