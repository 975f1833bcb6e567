import Mathlib.Algebra.Ring.Nat
import RtacAsio.Lib.Memory

/-!
The request fields that `StreamReader` and `StreamWriter` declare in common, and the four
member functions over them that the two classes repeat under different names. A `uint8_t*`
into caller memory is its address, a `Nat`.
-/

namespace RtacAsio
open Lib

/-- `boost::system::error_code`; the value zero is success. -/
structure ErrorCode where
  value : Int := 0
  deriving DecidableEq, Repr

/-- `ErrorCode()`. -/
def ErrorCode.success : ErrorCode := {}

/-- `boost::asio::error::operation_aborted`. -/
def ErrorCode.aborted : ErrorCode := ⟨125⟩

/-- `if(err)`. -/
def ErrorCode.failed (err : ErrorCode) : Bool := err.value != 0

/-- The user's `std::function`, known by its identity only. -/
abbrev Callback := Nat

/-- The arguments of a public asynchronous call; `kind` tells which one it is. -/
structure Request (κ : Type) where
  kind : κ
  size : Nat
  data : Nat
  callback : Callback
  timeoutMillis : Nat := 0
  deriving DecidableEq, Repr

/-- A continuation with the request id that `std::bind` stored in it. -/
structure Cont (κ : Type) where
  kind : κ
  id : UInt32
  deriving DecidableEq, Repr

/-- What is given to the stream: a continuation, or `dump_callback` around it with its `data`. -/
structure Handler (κ : Type) where
  cont : Cont κ
  dump : Option Nat
  deriving DecidableEq, Repr

/-- What a call or a handler does outside of its object, in order. -/
inductive Effect (κ : Type) where
  /-- The object itself writes a byte of caller memory. -/
  | store (p : Nat) (b : UInt8)
  /-- `timer_.expires_from_now` and `timer_.async_wait`, with the id bound to the handler. -/
  | arm (timeoutMillis : Nat) (id : UInt32)
  /-- `stream_->async_read_some` or `stream_->async_write_some`. -/
  | transfer (count : Nat) (data : Nat) (handler : Handler κ)
  /-- A continuation is posted to the service with its arguments. -/
  | postCont (cont : Cont κ) (err : ErrorCode) (count : Nat)
  /-- The user callback is posted to the service with its arguments. -/
  | post (callback : Callback) (err : ErrorCode) (count : Nat)
  deriving DecidableEq, Repr

/-- `readCounter_`, `readId_`, `requestedSize_`, `processed_`, `dst_`, `callback_` and
`waiterNotified_`; `writeCounter_`, `writeId_` and `src_` in the writer. -/
structure Slot where
  counter : UInt32
  id : UInt32
  requestedSize : Nat
  processed : Nat
  data : Nat
  callback : Callback
  waiterNotified : Bool
  deriving DecidableEq, Repr

/-- The id that a request gets next, unless the counter wraps around. -/
theorem counter_next {counter : UInt32} {n : Nat} (eq : counter.toNat = n) (bounded : n + 1 < 2 ^ 32) :
    (counter + 1).toNat = n + 1 := by
  rw [UInt32.toNat_add, eq]
  exact Nat.mod_eq_of_lt bounded

namespace Slot

/-- `new_read`, `new_write`. -/
def newRequest (q : Request κ) (s : Slot) : Bool × Slot × List (Effect κ) :=
  if s.id ≠ 0 then
    -- device busy
    (false, s, [])
  else
    let counter := s.counter + 1
    (true,
      { s with counter, id := counter, requestedSize := q.size, processed := 0, data := q.data, callback := q.callback },
      if q.timeoutMillis > 0 then [.arm q.timeoutMillis counter] else [])

/-- `finish_read`, `finish_write`. -/
def finish (err : ErrorCode) (s : Slot) : Slot × List (Effect κ) :=
  if s.id = 0 then (s, []) else ({ s with id := 0 }, [.post s.callback err s.processed])

/-- `readid_ok`, `writeid_ok`. -/
def idOk (id : UInt32) (s : Slot) : Bool := id == s.id

/-- `timeout_reached`; the error code of the timer is ignored. -/
def timeoutReached (id : UInt32) (_err : ErrorCode) (s : Slot) : Slot × List (Effect κ) :=
  if !s.idOk id then (s, []) else finish .success { s with waiterNotified := true }

variable {κ : Type} {s : Slot}

theorem newRequest_busy (q : Request κ) (busy : s.id ≠ 0) : s.newRequest q = (false, s, []) := by
  simp [newRequest, busy]

theorem newRequest_idle (q : Request κ) (idle : s.id = 0) :
    s.newRequest q = (true,
      { s with counter := s.counter + 1, id := s.counter + 1, requestedSize := q.size, processed := 0,
               data := q.data, callback := q.callback },
      if q.timeoutMillis > 0 then [.arm q.timeoutMillis (s.counter + 1)] else []) := by
  simp [newRequest, idle]

theorem finish_idle (err : ErrorCode) (idle : s.id = 0) : s.finish (κ := κ) err = (s, []) := by
  simp [finish, idle]

theorem finish_busy (err : ErrorCode) (busy : s.id ≠ 0) :
    s.finish (κ := κ) err = ({ s with id := 0 }, [.post s.callback err s.processed]) := by
  simp [finish, busy]

@[simp] theorem idOk_iff {id : UInt32} : s.idOk id = true ↔ id = s.id := by simp [idOk]

theorem timeoutReached_stale {id : UInt32} (err : ErrorCode) (stale : id ≠ s.id) :
    s.timeoutReached (κ := κ) id err = (s, []) := by
  simp [timeoutReached, idOk, stale]

theorem timeoutReached_current (err : ErrorCode) (busy : s.id ≠ 0) :
    s.timeoutReached (κ := κ) s.id err =
      ({ s with waiterNotified := true, id := 0 }, [.post s.callback .success s.processed]) := by
  simp [timeoutReached, idOk, finish, busy]

theorem timeoutReached_idle (err : ErrorCode) (idle : s.id = 0) :
    s.timeoutReached (κ := κ) s.id err = ({ s with waiterNotified := true }, []) := by
  simp [timeoutReached, idOk, finish, idle]

end Slot

end RtacAsio
