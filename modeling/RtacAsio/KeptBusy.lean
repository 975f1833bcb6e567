import RtacAsio.Reader.Lawful
import RtacAsio.Request.Wrap
import RtacAsio.Writer.Lawful

/-! The id 0 as a request's id: once in every 2^32 requests of a reader or a writer. -/

namespace RtacAsio
open Lib World

theorem reader_lawfulIdle : LawfulIdle reader ReadKind.single where
  toLawful := reader_lawful
  timeout_idle err r idle := by
    have idle : r.readId = 0 := idle
    have flagged := StreamReader.timeoutReached_idle err idle
    rw [idle] at flagged
    exact ⟨_, flagged, rfl⟩

theorem writer_lawfulIdle : LawfulIdle writer WriteKind.single where
  toLawful := writer_lawful
  timeout_idle err t idle := by
    have idle : t.writeId = 0 := idle
    have flagged := StreamWriter.timeoutReached_idle err idle
    rw [idle] at flagged
    exact ⟨_, flagged, rfl⟩

/-- An accepted request keeps its object busy exactly when its number is not a multiple of 2^32. -/
theorem requests_keep_busy_iff {r : StreamReader} {t : StreamWriter} {m m' : Memory UInt8} {es : List (Event ReadKind)}
    {fs : List (Event WriteKind)} {w : World ReadKind StreamReader} {v : World WriteKind StreamWriter}
    (rCreated : r.Created) (tCreated : t.Created) (rx : Steps (World.step reader) Always { self := r, memory := m } es w)
    (tx : Steps (World.step writer) Always { self := t, memory := m' } fs v) (rIdle : w.self.readId = 0)
    (tIdle : v.self.writeId = 0) (p : Request ReadKind) (q : Request WriteKind) :
    (KeptBusy reader w p ↔ (w.accepted.length + 1) % 2 ^ 32 ≠ 0) ∧
      (KeptBusy writer v q ↔ (v.accepted.length + 1) % 2 ^ 32 ≠ 0) := by
  constructor
  · have counter := reachable_counter reader_lawfulIdle rCreated.readCounter rx
    exact (kept_busy_iff reader_lawfulIdle rIdle).trans (wraps_iff counter)
  · have counter := reachable_counter writer_lawfulIdle tCreated.writeCounter tx
    exact (kept_busy_iff writer_lawfulIdle tIdle).trans (wraps_iff counter)

/-- The second request after one that was called back. -/
theorem requests_keep_busy_second :
    (∃ es w, Steps (World.step reader) Always { self := .blank, memory := fun _ => 0 } es w ∧ w.accepted.length = 1 ∧
      KeptBusy reader w { kind := .read, size := 4, data := 8, callback := 2 }) ∧
    (∃ es w, Steps (World.step writer) Always { self := .blank, memory := fun _ => 0 } es w ∧ w.accepted.length = 1 ∧
      KeptBusy writer w { kind := .write, size := 4, data := 8, callback := 2 }) := by
  obtain ⟨w, rx, seen⟩ : ∃ w, Steps (World.step reader) Always { self := .blank, memory := fun _ => 0 }
      [.call { kind := .readSome, size := 4, data := 0, callback := 1 }, .move 0 [97], .complete 0 .success] w ∧
      (w.accepted.length, w.self.readId) = (1, 0) := exists_of_exec (by decide)
  obtain ⟨v, tx, seen'⟩ : ∃ v, Steps (World.step writer) Always { self := .blank, memory := fun _ => 0 }
      [.call { kind := .writeSome, size := 4, data := 0, callback := 1 }, .move 0 [0], .complete 0 .success] v ∧
      (v.accepted.length, v.self.writeId) = (1, 0) := exists_of_exec (by decide)
  simp only [Prod.mk.injEq] at seen seen'
  obtain ⟨reading, writing⟩ := requests_keep_busy_iff ⟨rfl, rfl, rfl⟩ ⟨rfl, rfl⟩ rx tx seen.2 seen'.2
    { kind := .read, size := 4, data := 8, callback := 2 } { kind := .write, size := 4, data := 8, callback := 2 }
  constructor
  · refine ⟨_, w, rx, seen.1, reading.mpr ?_⟩
    rw [seen.1]
    decide
  · refine ⟨_, v, tx, seen'.1, writing.mpr ?_⟩
    rw [seen'.1]
    decide

/-! ### As many requests as one likes -/

/-- An idle reader with nothing under way and nothing left over. -/
structure AtRest (w : World ReadKind StreamReader) : Prop where
  idle : w.self.readId = 0
  ops : w.ops = []
  readBuffer : w.self.readBuffer = []
  rxDump : w.self.rxDump = none

/-- A request of one byte and its completion, whatever its id is. -/
theorem reader_round {w : World ReadKind StreamReader} (h : AtRest w) :
    ∃ es w', Steps (World.step reader) Always w es w' ∧ w'.accepted.length = w.accepted.length + 1 ∧ AtRest w' := by
  have ran : (exec (World.step reader) Always w
      [.call { kind := .readSome, size := 1, data := 0, callback := 1 }, .move 0 [97], .complete 0 .success]).map
        (fun w' => (w'.accepted.length, w'.self.readId, w'.ops.length, w'.self.readBuffer, w'.self.rxDump)) =
      some (w.accepted.length + 1, 0, 0, [], none) := by
    obtain ⟨idle, ops, empty, closed⟩ := h
    by_cases wrapped : w.self.counter + 1 = 0
    all_goals
      simp [exec, step, call, reader, StreamReader.call, StreamReader.asyncReadSome, StreamReader.newRead_idle, idle, ops,
        StreamReader.opened, Slot.opened, armed, StreamReader.doReadSome, empty, closed, after, perform, move, handle,
        resume, StreamReader.resume, StreamReader.asyncReadSomeContinue, StreamReader.readidOk, Slot.idOk,
        StreamReader.finishRead, Slot.finish, wrapped]
  obtain ⟨w', run, seen⟩ := exists_of_exec ran
  simp only [Prod.mk.injEq, List.length_eq_zero_iff] at seen
  obtain ⟨accepted, idle, ops, empty, closed⟩ := seen
  exact ⟨_, w', run, accepted, idle, ops, empty, closed⟩

theorem reader_rounds (n : Nat) :
    ∃ es w, Steps (World.step reader) Always { self := .blank, memory := fun _ => 0 } es w ∧ w.accepted.length = n ∧
      AtRest w := by
  induction n with
  | zero => exact ⟨[], _, .refl, rfl, rfl, rfl, rfl, rfl⟩
  | succ n ih =>
    obtain ⟨es, w, run, accepted, rest⟩ := ih
    obtain ⟨fs, w', round, more, rest⟩ := reader_round rest
    exact ⟨es ++ fs, w', run.append round, by omega, rest⟩

/-- After 2^32 - 1 requests the next one gets the id 0, which is that of an idle reader. -/
theorem request_gets_id_zero :
    ∃ es w q, Steps (World.step reader) Always { self := .blank, memory := fun _ => 0 } es w ∧
      w.accepted.length = 2 ^ 32 - 1 ∧ w.self.readId = 0 ∧ newId reader w q = 0 ∧ ¬ KeptBusy reader w q := by
  obtain ⟨es, w, run, accepted, rest⟩ := reader_rounds (2 ^ 32 - 1)
  have zero : newId reader w { kind := .read, size := 1, data := 0, callback := 1 } = 0 := by
    rw [newId_idle _ rest.idle, reachable_counter reader_lawfulIdle rfl run, accepted]
    rfl
  exact ⟨es, w, _, run, accepted, rest.idle, zero, fun kept => kept.busy zero⟩

end RtacAsio
