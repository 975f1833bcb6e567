import RtacAsio.Writer.Model

/-! `StreamWriter` as a lawful endpoint. -/

namespace RtacAsio
open Lib

namespace StreamWriter

def dumpPtr (data : Nat) (t : StreamWriter) : Option Nat := t.txDump.map fun _ => data

theorem doWriteSome_eq (count data : Nat) (c : Cont WriteKind) (t : StreamWriter) :
    t.doWriteSome count data c = [.transfer count data ⟨c, t.dumpPtr data⟩] := by
  unfold doWriteSome dumpPtr
  cases t.txDump <;> rfl

def turned (processed : Nat) (next : Next) (t : StreamWriter) : StreamWriter :=
  { t with processed, id := next.id t.id }

def opened (q : Request WriteKind) (t : StreamWriter) : StreamWriter := { t with toSlot := t.toSlot.opened q }

theorem newWrite_idle (q : Request WriteKind) {t : StreamWriter} (idle : t.writeId = 0) :
    t.newWrite q = (true, t.opened q, armed q (t.writeCounter + 1)) := by
  simp only [newWrite, Slot.newRequest_idle q idle, opened, Slot.opened, armed]

theorem finishWrite_turned (c : Cont WriteKind) (err : ErrorCode) {t : StreamWriter} (current : c.id = t.writeId) :
    t.finishWrite err = (t.turned t.processed (.done err), (Next.done err).effects t.toSlot c) := by
  by_cases zero : t.id = 0
  · have none : c.id = 0 := current.trans zero
    have same : { t.toSlot with id := 0 } = t.toSlot := by rw [← zero]
    simp [finishWrite, Slot.finish_idle err zero, turned, Next.id, Next.effects, none, same]
  · have some : ¬ c.id = 0 := by rw [current]; exact zero
    simp [finishWrite, Slot.finish_busy err zero, turned, Next.id, Next.effects, some]

theorem call_busy (q : Request WriteKind) {t : StreamWriter} (busy : t.writeId ≠ 0) : t.call q = (false, t, []) := by
  have refused : t.newWrite q = (false, t, []) := by simp [newWrite, Slot.newRequest_busy q busy]
  unfold call
  split <;> simp [asyncWriteSome, asyncWrite, refused]

theorem call_idle (q : Request WriteKind) {t : StreamWriter} (idle : t.writeId = 0) :
    t.call q = (true, t.opened q,
      armed q (t.writeCounter + 1) ++
        [.transfer q.size q.data ⟨⟨q.kind, t.writeCounter + 1⟩, t.dumpPtr q.data⟩]) := by
  have started := newWrite_idle q idle
  cases kind : q.kind with
  | writeSome =>
    simp only [call, kind, asyncWriteSome, started, doWriteSome_eq]
    rfl
  | write =>
    simp only [call, kind, asyncWrite, started, doWriteSome_eq]
    rfl

theorem resume_stale (c : Cont WriteKind) (err : ErrorCode) (n : Nat) {t : StreamWriter}
    (stale : c.id ≠ t.writeId) : t.resume c err n = (t, []) := by
  have refused : t.writeidOk c.id = false := by simpa [writeidOk, Slot.idOk] using stale
  unfold resume
  split <;> simp [asyncWriteSomeContinue, asyncWriteContinue, refused]

/-- What a continuation of the current request counts and how its turn ends. -/
inductive ResumeTurn (c : Cont WriteKind) (err : ErrorCode) (n : Nat) (t : StreamWriter) : Nat → Next → Prop where
  | writeSome : c.kind = .writeSome → ResumeTurn c err n t n (.done err)
  | ended : c.kind = .write → (err.failed = true ∨ t.requestedSize ≤ t.processed + n) →
      ResumeTurn c err n t (t.processed + n) (.done err)
  | again : c.kind = .write → err.failed = false → t.processed + n < t.requestedSize →
      ResumeTurn c err n t (t.processed + n)
        (.transfer (t.requestedSize - (t.processed + n)) (t.dumpPtr (t.src + (t.processed + n))))

theorem resume_current (c : Cont WriteKind) (err : ErrorCode) (n : Nat) {t : StreamWriter}
    (current : c.id = t.writeId) :
    ∃ processed next, ResumeTurn c err n t processed next ∧
      t.resume c err n = (t.turned processed next, next.effects { t.toSlot with processed } c) := by
  have accepted : t.writeidOk c.id = true := by simpa [writeidOk, Slot.idOk] using current
  have finished := fun processed => finishWrite_turned c err (t := { t with processed }) current
  cases kind : c.kind with
  | writeSome =>
    refine ⟨_, _, .writeSome kind, ?_⟩
    simp only [resume, kind, asyncWriteSomeContinue, accepted]
    exact finished n
  | write =>
    have bound : (⟨.write, c.id⟩ : Cont WriteKind) = c := by rw [← kind]
    by_cases goesOn : (!err.failed && decide (t.processed + n < t.requestedSize)) = true
    · simp only [Bool.and_eq_true, Bool.not_eq_true', decide_eq_true_eq] at goesOn
      refine ⟨_, _, .again kind goesOn.1 goesOn.2, ?_⟩
      simp only [resume, kind, asyncWriteContinue, accepted, goesOn, bound, doWriteSome_eq]
      rfl
    · refine ⟨_, _, .ended kind ?_, ?_⟩
      · simp only [Bool.and_eq_true, Bool.not_eq_true', decide_eq_true_eq, not_and, Nat.not_lt] at goesOn
        cases failed : err.failed with
        | true => exact Or.inl rfl
        | false => exact Or.inr (goesOn failed)
      · simp only [resume, kind, asyncWriteContinue, accepted, goesOn]
        exact finished (t.processed + n)

theorem call_writes (q : Request WriteKind) {t : StreamWriter} {dump : Option Nat} :
    Next.Writes (t.opened q).toSlot (.transfer q.size dump) := by
  refine ⟨nofun, ?_⟩
  rintro count _ eq
  obtain ⟨rfl, _⟩ := Next.transfer.inj eq
  exact Nat.le_of_eq (Nat.zero_add q.size)

theorem ResumeTurn.writes {c : Cont WriteKind} {err : ErrorCode} {n processed : Nat} {t : StreamWriter} {next : Next}
    (turn : ResumeTurn c err n t processed next) : Next.Writes (t.turned processed next).toSlot next := by
  cases turn with
  | writeSome => exact ⟨nofun, nofun⟩
  | ended => exact ⟨nofun, nofun⟩
  | again _ _ short =>
    refine ⟨nofun, ?_⟩
    rintro count _ eq
    obtain ⟨rfl, _⟩ := Next.transfer.inj eq
    exact Nat.le_of_eq (Nat.add_sub_cancel' (Nat.le_of_lt short))

theorem timeoutReached_stale {id : UInt32} {t : StreamWriter} (err : ErrorCode) (stale : id ≠ t.writeId) :
    t.timeoutReached id err = (t, []) := by
  simp only [timeoutReached, Slot.timeoutReached_stale err stale]

theorem timeoutReached_current {t : StreamWriter} (err : ErrorCode) (busy : t.writeId ≠ 0) :
    t.timeoutReached t.writeId err =
      ({ t with waiterNotified := true, id := 0 }, [.post t.callback .success t.processed]) := by
  simp only [timeoutReached, Slot.timeoutReached_current err busy]

theorem timeoutReached_idle {t : StreamWriter} (err : ErrorCode) (idle : t.writeId = 0) :
    t.timeoutReached t.writeId err = ({ t with waiterNotified := true }, []) := by
  simp only [timeoutReached, Slot.timeoutReached_idle err idle]

end StreamWriter

theorem writer_lawful : Lawful writer WriteKind.single where
  call_busy _ _ busy := StreamWriter.call_busy _ busy
  call_idle q t idle :=
    ⟨t.opened q, .transfer q.size (t.dumpPtr q.data), _, StreamWriter.call_idle q idle,
      ⟨rfl, q.data, [], rfl, fun _ => ⟨rfl, StreamWriter.call_writes q⟩⟩, rfl, fun _ => rfl, nofun⟩
  resume_stale c err n _ _ stale := StreamWriter.resume_stale c err n stale
  resume_current c err n m t current := by
    obtain ⟨processed, next, turn, eq⟩ := StreamWriter.resume_current c err n current
    refine ⟨_, next, _, eq, ⟨?_, t.src, [], ?_, fun _ => ⟨rfl, turn.writes⟩⟩, ?_, ?_, ?_⟩
    · rw [current]
      rfl
    · exact Next.effects_congr _ next rfl rfl rfl
    · intro single
      cases turn with
      | writeSome => rfl
      | ended kind => simp [kind, WriteKind.single] at single
      | again kind => simp [kind, WriteKind.single] at single
    · intro fresh
      cases turn with
      | writeSome kind =>
        have zero : t.processed = 0 := fresh (by rw [kind]; rfl)
        simp [writer, StreamWriter.turned, zero]
      | ended => rfl
      | again => rfl
    · rintro err' rfl
      cases turn <;> rfl
  timeout_stale _ err _ stale := StreamWriter.timeoutReached_stale err stale
  timeout_current err _ busy := ⟨_, StreamWriter.timeoutReached_current err busy, rfl⟩
  setDump_slot _ _ := rfl
  setDump_setDump _ _ _ := rfl

end RtacAsio
