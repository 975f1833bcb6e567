import RtacAsio.Lib.Run
import RtacAsio.Request.Slot

/-!
`UDPClientStream`: a datagram buffer behind the stream interface, with any number of receives
outstanding. `α` is what a cell of the buffer holds. Iterators into `buffer_` are offsets from
its start.
-/

namespace RtacAsio
open Lib

structure UDPClientStream (α : Type) where
  buffer : List α
  bufferBegin : Nat
  bufferEnd : Nat
  deriving DecidableEq, Repr

/-- The arguments of `async_read_some`, which it binds into its own continuation. -/
structure DatagramRead where
  bufferSize : Nat
  buffer : Nat
  callback : Callback
  deriving DecidableEq, Repr

/-- What a call or a handler does outside of the object, in order. -/
inductive DatagramEffect (α : Type) where
  /-- `memcpy` of `count` bytes from the offset `start`. -/
  | copy (buffer : Nat) (start count : Nat) (bytes : List α)
  | call (callback : Callback) (err : ErrorCode) (count : Nat)
  /-- `socket_->async_receive` into the whole of `buffer_`. -/
  | receive (read : DatagramRead)
  deriving DecidableEq, Repr

namespace UDPClientStream
variable {α : Type}

def available (s : UDPClientStream α) : Nat := s.bufferEnd - s.bufferBegin

/-- The `count` cells from `bufferBegin_` on. -/
def front (count : Nat) (s : UDPClientStream α) : List α := (s.buffer.drop s.bufferBegin).take count

def flush (s : UDPClientStream α) : UDPClientStream α := { s with bufferBegin := 0, bufferEnd := 0 }

def asyncReadSome (read : DatagramRead) (s : UDPClientStream α) : UDPClientStream α × List (DatagramEffect α) :=
  let buffered := s.available
  if buffered > 0 then
    if read.bufferSize ≥ buffered then
      ({ s with bufferBegin := 0, bufferEnd := 0 },
        [.copy read.buffer s.bufferBegin buffered (s.front buffered), .call read.callback .success buffered])
    else
      ({ s with bufferBegin := s.bufferBegin + read.bufferSize },
        [.copy read.buffer s.bufferBegin read.bufferSize (s.front read.bufferSize),
          .call read.callback .success read.bufferSize])
  else
    -- called only when buffer empty
    (s, [.receive read])

def receiveContinue (read : DatagramRead) (err : ErrorCode) (received : Nat) (s : UDPClientStream α) :
    UDPClientStream α × List (DatagramEffect α) :=
  let s := { s with bufferEnd := s.bufferEnd + received }
  if err.failed then (s, [.call read.callback err 0]) else s.asyncReadSome read

end UDPClientStream

/-- A stream with its outstanding receives. The ghosts are `received`, every byte that a receive
brought, `gone`, the bytes taken out of the buffer with whether they were delivered or flushed,
and `log`. -/
structure Datagrams (α : Type) where
  self : UDPClientStream α
  pending : List DatagramRead := []
  received : List α := []
  gone : List (Bool × α) := []
  log : List (DatagramEffect α) := []

/-- A user callback runs inside the call that invokes it, but last: what it does itself is a
later event. -/
inductive DatagramEvent (α : Type) where
  | read (read : DatagramRead)
  /-- The receive `i` completes after writing `bytes` at the start of `buffer_`. -/
  | receive (i : Nat) (err : ErrorCode) (bytes : List α)
  | flush

namespace Datagrams
variable {α : Type}

def perform (w : Datagrams α) : DatagramEffect α → Datagrams α
  | .copy buffer start count bytes =>
    { w with gone := w.gone ++ bytes.map (true, ·), log := w.log ++ [.copy buffer start count bytes] }
  | .call callback err count => { w with log := w.log ++ [.call callback err count] }
  | .receive read => { w with pending := w.pending ++ [read], log := w.log ++ [.receive read] }

def after (w : Datagrams α) (out : UDPClientStream α × List (DatagramEffect α)) : Datagrams α :=
  out.2.foldl perform { w with self := out.1 }

/-- What the socket does when a receive completes. -/
def arrive (bytes : List α) (w : Datagrams α) : Datagrams α :=
  { w with self := { w.self with buffer := bytes ++ w.self.buffer.drop bytes.length },
           received := w.received ++ bytes }

/-- A receive writes `buffer_` when its handler runs. With several receives outstanding this is an
assumption about the socket, which could write for them in another order than their handlers run in. -/
def step (w : Datagrams α) : DatagramEvent α → Option (Datagrams α)
  | .read read => some (w.after (w.self.asyncReadSome read))
  | .receive i err bytes =>
    match w.pending[i]? with
    | none => none
    | some read =>
      if bytes.length ≤ w.self.buffer.length then
        let w := { w with pending := w.pending.eraseIdx i }.arrive bytes
        some (w.after (w.self.receiveContinue read err bytes.length))
      else none
  | .flush =>
    some { w with self := w.self.flush, gone := w.gone ++ (w.self.front w.self.available).map (false, ·) }

end Datagrams

end RtacAsio
