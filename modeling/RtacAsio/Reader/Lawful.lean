import RtacAsio.Reader.Turns

/-! `StreamReader` as a lawful endpoint. -/

namespace RtacAsio
open Lib

/-- `async_read_some` ends with its first completion. -/
def ReadKind.single : ReadKind → Bool
  | .readSome => true
  | _ => false

namespace StreamReader

theorem callTurn_single {q : Request ReadKind} (r : StreamReader) (single : q.kind.single = true) : taken q r = 0 := by
  cases kind : q.kind with
  | readSome => exact taken_plain (Or.inl kind) r
  | _ => simp [kind, ReadKind.single] at single

theorem callTurn_done {q : Request ReadKind} {r : StreamReader} {bs buffer : List UInt8} {err : ErrorCode}
    (turn : CallTurn q r bs buffer (.done err)) : err = .success := by
  cases turn
  rfl

theorem resumeTurn_done {c : Cont ReadKind} {err err' : ErrorCode} {n processed : Nat} {m : Memory UInt8}
    {r : StreamReader} {bs buffer : List UInt8} (turn : ResumeTurn c err n m r processed bs buffer (.done err')) :
    err' = err := by
  cases turn with
  | again _ _ _ _ _ _ _ read => cases read
  | _ => rfl

theorem resumeTurn_single {c : Cont ReadKind} {err : ErrorCode} {n processed : Nat} {m : Memory UInt8}
    {r : StreamReader} {bs buffer : List UInt8} {next : Next} (turn : ResumeTurn c err n m r processed bs buffer next)
    (single : c.kind.single = true) : next = .done err := by
  have kind : c.kind = .readSome := by
    cases kind : c.kind with
    | readSome => rfl
    | _ => simp [kind, ReadKind.single] at single
  cases turn with
  | again _ _ _ other => exact (other kind).elim
  | _ => rfl

theorem resumeTurn_counted {c : Cont ReadKind} {err : ErrorCode} {n processed : Nat} {m : Memory UInt8}
    {r : StreamReader} {bs buffer : List UInt8} {next : Next} (turn : ResumeTurn c err n m r processed bs buffer next)
    (fresh : c.kind.single = true → r.processed = 0) : processed = r.processed + counted c n m r := by
  have absent (delimiter : Int8) (none : searchLoop delimiter (m.read (r.dst + r.processed) n) 0 = none) :
      throughDelimiter delimiter (m.read (r.dst + r.processed) n) = n := by
    simp [throughDelimiter, none]
  cases turn with
  | readSome kind => simp [counted, kind, fresh (by rw [kind]; rfl)]
  | found delimiter i rest kind search => simp only [counted, kind, throughDelimiter, search]; rfl
  | ended other none =>
    cases kind : c.kind with
    | readUntil delimiter => simp only [counted, kind, absent delimiter (none delimiter kind)]
    | _ => simp only [counted, kind]
  | again _ _ _ other none =>
    cases kind : c.kind with
    | readUntil delimiter => simp only [counted, kind, absent delimiter (none delimiter kind)]
    | _ => simp only [counted, kind]

theorem timeoutReached_stale {id : UInt32} {r : StreamReader} (err : ErrorCode) (stale : id ≠ r.readId) :
    r.timeoutReached id err = (r, []) := by
  simp only [timeoutReached, Slot.timeoutReached_stale err stale]

theorem timeoutReached_current {r : StreamReader} (err : ErrorCode) (busy : r.readId ≠ 0) :
    r.timeoutReached r.readId err =
      ({ r with waiterNotified := true, id := 0 }, [.post r.callback .success r.processed]) := by
  simp only [timeoutReached, Slot.timeoutReached_current err busy]

theorem timeoutReached_idle {r : StreamReader} (err : ErrorCode) (idle : r.readId = 0) :
    r.timeoutReached r.readId err = ({ r with waiterNotified := true }, []) := by
  simp only [timeoutReached, Slot.timeoutReached_idle err idle]

end StreamReader

theorem reader_lawful : Lawful reader ReadKind.single where
  call_busy _ _ busy := StreamReader.call_busy _ busy
  call_idle q r idle := by
    obtain ⟨bs, buffer, next, turn, eq⟩ := StreamReader.call_idle q idle
    refine ⟨_, next, _, eq, ⟨rfl, q.data, bs, ?_, nofun⟩, rfl, StreamReader.callTurn_single r, ?_⟩
    · exact congrArg _ (Next.effects_congr _ next rfl rfl rfl)
    · rintro err rfl
      exact StreamReader.callTurn_done turn
  resume_stale c err n m _ stale := StreamReader.resume_stale c err n m stale
  resume_current c err n m r current := by
    obtain ⟨processed, bs, buffer, next, turn, eq⟩ := StreamReader.resume_current c err n m current
    refine ⟨_, next, _, eq, ⟨?_, r.dst + processed, bs, ?_, nofun⟩, StreamReader.resumeTurn_single turn,
      fun fresh => StreamReader.resumeTurn_counted turn fresh, ?_⟩
    · rw [current]
      rfl
    · exact congrArg _ (Next.effects_congr _ next rfl rfl rfl)
    · rintro err' rfl
      exact StreamReader.resumeTurn_done turn
  timeout_stale _ err _ stale := StreamReader.timeoutReached_stale err stale
  timeout_current err _ busy := ⟨_, StreamReader.timeoutReached_current err busy, rfl⟩
  setDump_slot _ _ := rfl
  setDump_setDump _ _ _ := rfl

end RtacAsio
