import RtacAsio.Request.Slot

/-! The keep-alive `deadline_timer` of `AsyncService`: all of its handlers are `timer_callback`. -/

namespace RtacAsio

/-- `pending` counts the waits, `ready` holds the error codes of the handlers to run. -/
structure Timer where
  pending : Nat := 0
  ready : List ErrorCode := []
  deriving DecidableEq, Repr

namespace Timer

/-- The handlers of the pending waits run with `operation_aborted`. -/
def cancel (t : Timer) : Timer :=
  { pending := 0, ready := t.ready ++ List.replicate t.pending .aborted }

/-- Setting the expiry time cancels the pending waits. -/
def expiresFromNow (t : Timer) : Timer := t.cancel

def asyncWait (t : Timer) : Timer := { t with pending := t.pending + 1 }

/-- `AsyncService::timer_callback`, which ignores its error code. -/
def timerCallback (_err : ErrorCode) (t : Timer) : Timer := t.expiresFromNow.asyncWait

def handle (t : Timer) : Option Timer :=
  match t.ready with
  | [] => none
  | err :: rest => some ({ t with ready := rest }.timerCallback err)

def expire (t : Timer) : Timer :=
  { pending := 0, ready := t.ready ++ List.replicate t.pending .success }

/-- The handlers that are waiting or ready to run. -/
def chains (t : Timer) : Nat := t.pending + t.ready.length

@[simp] theorem cancel_pending (t : Timer) : t.cancel.pending = 0 := rfl

@[simp] theorem cancel_chains (t : Timer) : t.cancel.chains = t.chains := by
  simp [cancel, chains, Nat.add_comm]

/-- Whatever its error code, the callback starts a wait of its own. -/
@[simp] theorem timerCallback_chains (err : ErrorCode) (t : Timer) : (t.timerCallback err).chains = t.chains + 1 := by
  have same := t.cancel_chains
  simp only [chains, cancel_pending] at same
  simp only [timerCallback, expiresFromNow, asyncWait, chains, cancel_pending]
  omega

@[simp] theorem expire_chains (t : Timer) : t.expire.chains = t.chains := by
  simp [expire, chains, Nat.add_comm]

/-- A handler that runs is replaced by the wait that it starts. -/
theorem handle_chains {t t' : Timer} (h : t.handle = some t') : t'.chains = t.chains ∧ t'.pending = 1 := by
  unfold handle at h
  split at h
  · cases h
  · rename_i err rest ready
    obtain rfl := Option.some.inj h
    refine ⟨?_, rfl⟩
    rw [timerCallback_chains]
    simp only [chains, ready, List.length_cons]
    omega

end Timer

end RtacAsio
