import RtacAsio.Request.Slot
import RtacAsio.Lib.Run

/-!
A request object among its surroundings: the stream operations it has outstanding, the
service's queue, the waits of its timer and the caller's memory. One call or one handler is
one step.
-/

namespace RtacAsio
open Lib

/-- Whether the stream fills the buffer of an operation or takes bytes from it. -/
inductive Direction where
  | input | output
  deriving DecidableEq

/-- The member functions of an object with one request slot. -/
structure Endpoint (κ σ : Type) where
  direction : Direction
  slot : σ → Slot
  /-- The content written so far to an open dump file. -/
  dump : σ → Option (List UInt8)
  setDump : Option (List UInt8) → σ → σ
  call : Request κ → σ → Bool × σ × List (Effect κ)
  /-- A bound continuation, called with an error code and a byte count. -/
  resume : Cont κ → ErrorCode → Nat → Memory UInt8 → σ → σ × List (Effect κ)
  timeoutReached : UInt32 → ErrorCode → σ → σ × List (Effect κ)
  /-- Specification: the bytes an accepted call counts for its request before it returns. -/
  taken : Request κ → σ → Nat
  /-- Specification: the bytes a continuation counts for its request. -/
  counted : Cont κ → Nat → Memory UInt8 → σ → Nat

/-- `dump_callback` before it calls the continuation. -/
def Endpoint.dumpCallback (E : Endpoint κ σ) (data : Nat) (err : ErrorCode) (count : Nat)
    (m : Memory UInt8) (s : σ) : σ :=
  if err.failed then s else
    match E.dump s with
    | none => s
    | some written => E.setDump (some (written ++ m.read data count)) s

/-- An operation handed to the stream. `moved` holds the bytes once the stream has moved them. -/
structure Op (κ : Type) where
  count : Nat
  data : Nat
  handler : Handler κ
  moved : Option (List UInt8) := none

def Op.id (op : Op κ) : UInt32 := op.handler.cont.id

/-- A continuation posted to the service with its arguments. -/
structure Posted (κ : Type) where
  cont : Cont κ
  err : ErrorCode
  count : Nat

/-- A posted user callback. `bytes` is what the request's buffer holds below `count` at that
moment, `expired` tells that the timer posted it. Both are ghosts. -/
structure Post where
  callback : Callback
  err : ErrorCode
  count : Nat
  bytes : List UInt8
  expired : Bool

/-- `waits` are the pending waits of the timer and `fired` its handlers that are ready to run.
The ghosts are `accepted`, `posts`, `traffic` (the bytes the stream moved, with the id of the
request whose operation moved them), `counts` (the bytes counted, with the id bound to the
handler that counted them) and `log`. -/
structure World (κ σ : Type) where
  self : σ
  memory : Memory UInt8
  ops : List (Op κ) := []
  queue : List (Posted κ) := []
  waits : List UInt32 := []
  fired : List (UInt32 × ErrorCode) := []
  accepted : List (Request κ) := []
  posts : List Post := []
  traffic : List (UInt32 × List UInt8) := []
  counts : List (UInt32 × Nat) := []
  log : List (Effect κ) := []

inductive Event (κ : Type) where
  | call (q : Request κ)
  /-- The stream moves the bytes of the outstanding operation `i`. -/
  | move (i : Nat) (bytes : List UInt8)
  /-- The outstanding operation `i` completes: its handler runs. -/
  | complete (i : Nat) (err : ErrorCode)
  | deliver (i : Nat)
  | expire
  | timer (i : Nat)

/-- A condition on the requests that are issued. -/
def Event.OnCall (p : Request κ → Prop) : Event κ → Prop
  | .call q => p q
  | _ => True

instance (p : Request κ → Prop) [DecidablePred p] (e : Event κ) : Decidable (e.OnCall p) := by
  cases e <;> simp only [Event.OnCall] <;> infer_instance

namespace World

/-- One effect, seen from outside. `expired` marks the effects of a timer handler. -/
def perform (E : Endpoint κ σ) (expired : Bool) (w : World κ σ) (e : Effect κ) : World κ σ :=
  match e with
  | .store p b => { w with memory := w.memory.write p [b], log := w.log ++ [e] }
  | .arm _ id =>
    -- expires_from_now cancels the pending waits: their handlers run with operation_aborted
    { w with fired := w.fired ++ w.waits.map (·, .aborted), waits := [id], log := w.log ++ [e] }
  | .transfer count data handler =>
    { w with ops := w.ops ++ [{ count, data, handler }], log := w.log ++ [e] }
  | .postCont cont err count => { w with queue := w.queue ++ [⟨cont, err, count⟩], log := w.log ++ [e] }
  | .post callback err count =>
    { w with posts := w.posts ++ [⟨callback, err, count, w.memory.read (E.slot w.self).data count, expired⟩],
             log := w.log ++ [e] }

def after (E : Endpoint κ σ) (expired : Bool) (w : World κ σ) (out : σ × List (Effect κ)) : World κ σ :=
  out.2.foldl (perform E expired) { w with self := out.1 }

def resume (E : Endpoint κ σ) (c : Cont κ) (err : ErrorCode) (count : Nat) (w : World κ σ) : World κ σ :=
  after E false { w with counts := w.counts ++ [(c.id, E.counted c count w.memory w.self)] }
    (E.resume c err count w.memory w.self)

/-- A stream operation's handler runs: `dump_callback` if it was bound, then the continuation. -/
def handle (E : Endpoint κ σ) (h : Handler κ) (err : ErrorCode) (count : Nat) (w : World κ σ) : World κ σ :=
  match h.dump with
  | none => w.resume E h.cont err count
  | some data =>
    resume E h.cont err count { w with self := E.dumpCallback data err count w.memory w.self }

def call (E : Endpoint κ σ) (q : Request κ) (w : World κ σ) : World κ σ :=
  let out := E.call q w.self
  if out.1 then
    after E false
      { w with accepted := w.accepted ++ [q],
               counts := w.counts ++ [((E.slot out.2.1).counter, E.taken q w.self)] } out.2
  else after E false w out.2

/-- The stream moves bytes of an operation: into the caller's buffer, or out of it. -/
def move (E : Endpoint κ σ) (i : Nat) (op : Op κ) (bytes : List UInt8) (w : World κ σ) : World κ σ :=
  { w with ops := w.ops.set i { op with moved := some bytes },
           memory := match E.direction with
             | .input => w.memory.write op.data bytes
             | .output => w.memory,
           traffic := w.traffic ++ [(op.id, bytes)] }

def step (E : Endpoint κ σ) (w : World κ σ) : Event κ → Option (World κ σ)
  | .call q => some (w.call E q)
  | .move i bytes =>
    match w.ops[i]? with
    | none => none
    | some op =>
      if op.moved.isSome then none
      else if E.direction = .output ∧ w.memory.read op.data bytes.length ≠ bytes then none
      else some (w.move E i op bytes)
  | .complete i err =>
    match w.ops[i]? with
    | none => none
    | some op =>
      match op.moved with
      | none => none
      | some bytes => some (handle E op.handler err bytes.length { w with ops := w.ops.eraseIdx i })
  | .deliver i =>
    match w.queue[i]? with
    | none => none
    | some p => some (resume E p.cont p.err p.count { w with queue := w.queue.eraseIdx i })
  | .expire => some { w with fired := w.fired ++ w.waits.map (·, .success), waits := [] }
  | .timer i =>
    match w.fired[i]? with
    | none => none
    | some (id, err) =>
      some (after E true { w with fired := w.fired.eraseIdx i } (E.timeoutReached id err w.self))

/-- A stream never moves more than it was asked for. -/
def Honest (w : World κ σ) : Event κ → Prop
  | .move i bytes =>
    match w.ops[i]? with
    | none => True
    | some op => bytes.length ≤ op.count
  | _ => True

instance (w : World κ σ) (e : Event κ) : Decidable (w.Honest e) := by
  unfold Honest
  split
  · split <;> infer_instance
  · infer_instance

def Settled (w : World κ σ) : Prop := w.accepted.length = w.posts.length

instance (w : World κ σ) : Decidable w.Settled := inferInstanceAs (Decidable (_ = _))

def moved (w : World κ σ) : List UInt8 := w.traffic.flatMap Prod.snd

def reported (w : World κ σ) : List UInt8 := w.posts.flatMap Post.bytes

end World

end RtacAsio
