import RtacAsio.Request.World

/-!
The turn of a request: what an accepted call or one of its continuations does. A turn stores
some bytes and ends in exactly one way (`Next`). `Lawful` says that of every member function
of an endpoint, and the lemmas after it turn the effects of a turn into the next world.
-/

namespace RtacAsio
open Lib

def storesFrom (p : Nat) : List UInt8 → List (Effect κ)
  | [] => []
  | b :: rest => .store p b :: storesFrom (p + 1) rest

/-- How a turn ends: with an operation given to the stream, with a continuation posted to the
service, or with the end of the request. -/
inductive Next where
  | transfer (count : Nat) (dump : Option Nat)
  | postCont (count : Nat)
  | done (err : ErrorCode)

namespace Next

/-- `id` is the request's id. The finish guard posts nothing for the id 0. -/
def effects (s : Slot) (c : Cont κ) : Next → List (Effect κ)
  | .transfer count dump => [.transfer count (s.data + s.processed) ⟨c, dump⟩]
  | .postCont count => [.postCont c .success count]
  | .done err => if c.id = 0 then [] else [.post s.callback err s.processed]

/-- `readId_` at the end of the turn. -/
def id (id : UInt32) : Next → UInt32
  | .done _ => 0
  | _ => id

end Next

theorem Next.effects_congr {s s' : Slot} (c : Cont κ) (next : Next) (data : s.data = s'.data)
    (processed : s.processed = s'.processed) (callback : s.callback = s'.callback) :
    next.effects s c = next.effects s' c := by
  cases next <;> simp only [Next.effects, data, processed, callback]

def armed (q : Request κ) (id : UInt32) : List (Effect κ) :=
  if q.timeoutMillis > 0 then [.arm q.timeoutMillis id] else []

def Slot.opened (q : Request κ) (s : Slot) : Slot :=
  { s with counter := s.counter + 1, id := s.counter + 1, requestedSize := q.size, processed := 0,
           data := q.data, callback := q.callback }

/-- The end of a writer's turn that leaves the slot `s`: it posts no continuation, and asks the stream
for no more than what is missing. -/
structure Next.Writes (s : Slot) (next : Next) : Prop where
  noPost : ∀ count, next ≠ .postCont count
  fits : ∀ count dump, next = .transfer count dump → s.processed + count ≤ s.requestedSize

/-- `effects` and `slot` are those of a turn of `c` that started from the slot `s`. A writer
stores nothing. -/
def IsTurn (direction : Direction) (c : Cont κ) (s : Slot) (next : Next) (slot : Slot)
    (effects : List (Effect κ)) : Prop :=
  slot = { s with processed := slot.processed, id := next.id c.id } ∧
    ∃ p bs, effects = storesFrom p bs ++ next.effects slot c ∧
      (direction = .output → bs = [] ∧ next.Writes slot)

/-- `single` tells the kinds whose request ends with its first completion. -/
structure Lawful (E : Endpoint κ σ) (single : κ → Bool) : Prop where
  call_busy : ∀ q s, (E.slot s).id ≠ 0 → E.call q s = (false, s, [])
  call_idle : ∀ q s, (E.slot s).id = 0 → ∃ s' next turn,
    E.call q s = (true, s', armed q ((E.slot s).counter + 1) ++ turn) ∧
    IsTurn E.direction ⟨q.kind, (E.slot s).counter + 1⟩ ((E.slot s).opened q) next (E.slot s') turn ∧
    (E.slot s').processed = E.taken q s ∧
    (single q.kind = true → E.taken q s = 0) ∧ (∀ err, next = .done err → err = .success)
  resume_stale : ∀ c err n m s, c.id ≠ (E.slot s).id → E.resume c err n m s = (s, [])
  resume_current : ∀ c err n m s, c.id = (E.slot s).id → ∃ s' next turn,
    E.resume c err n m s = (s', turn) ∧ IsTurn E.direction c (E.slot s) next (E.slot s') turn ∧
    (single c.kind = true → next = .done err) ∧
    ((single c.kind = true → (E.slot s).processed = 0) →
      (E.slot s').processed = (E.slot s).processed + E.counted c n m s) ∧
    (∀ err', next = .done err' → err' = err)
  timeout_stale : ∀ id err s, id ≠ (E.slot s).id → E.timeoutReached id err s = (s, [])
  timeout_current : ∀ err s, (E.slot s).id ≠ 0 → ∃ s',
    E.timeoutReached (E.slot s).id err s = (s', [.post (E.slot s).callback .success (E.slot s).processed]) ∧
    E.slot s' = { E.slot s with waiterNotified := true, id := 0 }
  setDump_slot : ∀ d s, E.slot (E.setDump d s) = E.slot s
  setDump_setDump : ∀ d d' s, E.setDump d (E.setDump d' s) = E.setDump d s

end RtacAsio
