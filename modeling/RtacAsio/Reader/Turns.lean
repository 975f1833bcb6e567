import RtacAsio.Request.Steps
import RtacAsio.Reader.Loops

/-! The turns of `StreamReader`: everything an accepted call or a continuation can do. -/

namespace RtacAsio
open Lib

namespace StreamReader

/-! ### The search of `async_read_until_continue` -/

theorem searchLoop_some {delimiter : Int8} {bs rest : List UInt8} {k i : Nat}
    (h : searchLoop delimiter bs k = some (i, rest)) :
    ∃ j, i = k + j ∧ j ≤ bs.length ∧ rest = bs.drop j := by
  induction bs generalizing k with
  | nil => simp [searchLoop] at h
  | cons b bs ih =>
    unfold searchLoop at h
    split at h
    · obtain ⟨rfl, rfl⟩ := Prod.mk.inj (Option.some.inj h)
      exact ⟨1, rfl, by simp, by simp⟩
    · obtain ⟨j, rfl, bound, eq⟩ := ih h
      exact ⟨j + 1, by omega, by simp; omega, by simp [eq]⟩

/-! ### Calls -/

def turned (processed : Nat) (buffer : List UInt8) (next : Next) (r : StreamReader) : StreamReader :=
  { r with processed, readBuffer := buffer, id := next.id r.id }

def opened (q : Request ReadKind) (r : StreamReader) : StreamReader := { r with toSlot := r.toSlot.opened q }

theorem newRead_idle (q : Request ReadKind) {r : StreamReader} (idle : r.readId = 0) :
    r.newRead q = (true, r.opened q, armed q (r.readCounter + 1)) := by
  simp only [newRead, Slot.newRequest_idle q idle, opened, Slot.opened, armed]

theorem finishRead_turned (c : Cont ReadKind) (err : ErrorCode) {r : StreamReader} (current : c.id = r.readId) :
    r.finishRead err =
      (r.turned r.processed r.readBuffer (.done err), (Next.done err).effects r.toSlot c) := by
  by_cases zero : r.id = 0
  · have none : c.id = 0 := current.trans zero
    have same : { r.toSlot with id := 0 } = r.toSlot := by rw [← zero]
    simp [finishRead, Slot.finish_idle err zero, turned, Next.id, Next.effects, none, same]
  · have some : ¬ c.id = 0 := by rw [current]; exact zero
    simp [finishRead, Slot.finish_busy err zero, turned, Next.id, Next.effects, some]

/-- How a turn ends that calls `do_read_some`. -/
inductive ReadTurn (count : Nat) (r : StreamReader) : List UInt8 → List UInt8 → Next → Prop where
  | fromStream : r.readBuffer = [] → ReadTurn count r [] [] (.transfer count (r.dumpPtr (r.dst + r.processed)))
  | fromBuffer : r.readBuffer ≠ [] →
      ReadTurn count r (r.readBuffer.take count) (r.readBuffer.drop (count + 1))
        (.postCont (min count r.readBuffer.length))

theorem doReadSome_turned (count : Nat) (c : Cont ReadKind) (r : StreamReader) :
    ∃ bs buffer next, ReadTurn count r bs buffer next ∧
      r.doReadSome count (r.dst + r.processed) c =
        (r.turned r.processed buffer next, storesFrom (r.dst + r.processed) bs ++ next.effects r.toSlot c) := by
  by_cases empty : r.readBuffer = []
  · refine ⟨_, _, _, .fromStream empty, ?_⟩
    rw [doReadSome_empty empty]
    simp [turned, Next.id, Next.effects, storesFrom, ← empty]
  · refine ⟨_, _, _, .fromBuffer empty, ?_⟩
    rw [doReadSome_buffered empty]
    simp [turned, Next.id, Next.effects]

theorem call_busy (q : Request ReadKind) {r : StreamReader} (busy : r.readId ≠ 0) :
    r.call q = (false, r, []) := by
  have refused : r.newRead q = (false, r, []) := by simp [newRead, Slot.newRequest_busy q busy]
  unfold call
  split <;> simp [asyncReadSome, asyncRead, asyncReadUntil, refused]

theorem taken_empty (q : Request ReadKind) {r : StreamReader} (empty : r.readBuffer = []) : taken q r = 0 := by
  unfold taken
  split <;> simp [empty, leftoverTaken]

theorem taken_plain {q : Request ReadKind} (plain : q.kind = .readSome ∨ q.kind = .read) (r : StreamReader) :
    taken q r = 0 := by
  rcases plain with kind | kind <;> simp [taken, kind]

/-- `async_read_some` and `async_read` differ in the continuation they bind only. -/
theorem call_plain {q : Request ReadKind} {r : StreamReader} (plain : q.kind = .readSome ∨ q.kind = .read)
    (idle : r.readId = 0) :
    r.call q =
      (true, ((r.opened q).doReadSome q.size q.data ⟨q.kind, r.readCounter + 1⟩).1,
        armed q (r.readCounter + 1) ++ ((r.opened q).doReadSome q.size q.data ⟨q.kind, r.readCounter + 1⟩).2) := by
  have started := newRead_idle q idle
  rcases plain with kind | kind
  · simp only [call, kind, asyncReadSome, started]; rfl
  · simp only [call, kind, asyncRead, started]; rfl

/-- What an accepted call stores, what it leaves in `readBuffer_` and how its turn ends. -/
inductive CallTurn (q : Request ReadKind) (r : StreamReader) : List UInt8 → List UInt8 → Next → Prop where
  | fromStream : r.readBuffer = [] → CallTurn q r [] [] (.transfer q.size (r.dumpPtr q.data))
  | fromBuffer : (q.kind = .readSome ∨ q.kind = .read) → r.readBuffer ≠ [] →
      CallTurn q r (r.readBuffer.take q.size) (r.readBuffer.drop (q.size + 1))
        (.postCont (min q.size r.readBuffer.length))
  | stopped (delimiter : Int8) : q.kind = .readUntil delimiter → r.readBuffer ≠ [] →
      leftoverStops delimiter q.size r.readBuffer = true →
      CallTurn q r (r.readBuffer.take (taken q r)) (r.readBuffer.drop (taken q r)) (.done .success)
  | scanned (delimiter : Int8) : q.kind = .readUntil delimiter → r.readBuffer ≠ [] →
      leftoverStops delimiter q.size r.readBuffer = false →
      CallTurn q r r.readBuffer [] (.transfer q.size (r.dumpPtr (q.data + r.readBuffer.length)))

theorem asyncReadUntil_idle (q : Request ReadKind) {r : StreamReader} (delimiter : Int8)
    (kind : q.kind = .readUntil delimiter) (idle : r.readId = 0) :
    ∃ bs buffer next, CallTurn q r bs buffer next ∧
      r.asyncReadUntil delimiter q = (true, (r.opened q).turned (taken q r) buffer next,
        armed q (r.readCounter + 1) ++ (storesFrom q.data bs ++
          next.effects { (r.opened q).toSlot with processed := taken q r }
            ⟨.readUntil delimiter, r.readCounter + 1⟩)) := by
  have started := newRead_idle q idle
  have amount : taken q r = leftoverTaken delimiter q.size r.readBuffer := by simp [taken, kind]
  cases buffered : r.readBuffer with
  | nil =>
    refine ⟨[], [], _, .fromStream buffered, ?_⟩
    have untaken := taken_empty q buffered
    have emptied : (r.opened q).readBuffer = [] := buffered
    simp only [asyncReadUntil, started, emptied, doReadSome_empty emptied, untaken]
    simp [turned, opened, Slot.opened, Next.id, Next.effects, storesFrom, buffered, dumpPtr]
  | cons c buffer =>
    have left : r.readBuffer ≠ [] := by simp [buffered]
    have begun : (r.opened q).readBuffer = c :: buffer := buffered
    have scan := scanLoop_eq delimiter c buffer (r.opened q)
    simp only [show (r.opened q).requestedSize - (r.opened q).processed = q.size from rfl, ← buffered,
      ← amount] at scan
    cases stop : leftoverStops delimiter q.size r.readBuffer with
    | true =>
      refine ⟨_, _, _, .stopped delimiter kind left stop, ?_⟩
      have finished := finishRead_turned ⟨.readUntil delimiter, r.readCounter + 1⟩ .success
        (r := { r.opened q with processed := taken q r, readBuffer := r.readBuffer.drop (taken q r) }) rfl
      have zero : (r.opened q).processed + taken q r = taken q r := Nat.zero_add _
      simp only [asyncReadUntil, started, begun, scan, stop, zero, finished]
      simp [turned, opened, Slot.opened]
    | false =>
      refine ⟨_, _, _, .scanned delimiter kind left stop, ?_⟩
      have all : taken q r = r.readBuffer.length := amount.trans (leftoverTaken_running stop).1
      simp only [asyncReadUntil, started, begun, scan, stop, all, List.drop_length, List.take_length,
        doReadSome_empty]
      simp [turned, opened, Slot.opened, Next.id, Next.effects, dumpPtr]

theorem call_idle (q : Request ReadKind) {r : StreamReader} (idle : r.readId = 0) :
    ∃ bs buffer next, CallTurn q r bs buffer next ∧
      r.call q = (true, (r.opened q).turned (taken q r) buffer next,
        armed q (r.readCounter + 1) ++ (storesFrom q.data bs ++
          next.effects { (r.opened q).toSlot with processed := taken q r } ⟨q.kind, r.readCounter + 1⟩)) := by
  by_cases plain : q.kind = .readSome ∨ q.kind = .read
  · have untaken := taken_plain plain r
    obtain ⟨bs, buffer, next, turn, eq⟩ := doReadSome_turned q.size ⟨q.kind, r.readCounter + 1⟩ (r.opened q)
    refine ⟨bs, buffer, next, ?_, ?_⟩
    · cases turn with
      | fromStream empty => exact .fromStream empty
      | fromBuffer left => exact .fromBuffer plain left
    · rw [call_plain plain idle, untaken]
      exact congrArg (fun out : StreamReader × List (Effect ReadKind) =>
        (true, out.1, armed q (r.readCounter + 1) ++ out.2)) eq
  · obtain ⟨delimiter, kind⟩ : ∃ delimiter, q.kind = .readUntil delimiter := by
      cases kind : q.kind with
      | readUntil delimiter => exact ⟨delimiter, rfl⟩
      | _ => simp [kind] at plain
    obtain ⟨bs, buffer, next, turn, eq⟩ := asyncReadUntil_idle q delimiter kind idle
    exact ⟨bs, buffer, next, turn, by simpa only [call, kind] using eq⟩

/-! ### Continuations -/

/-- What a continuation of the current request counts and stores, what it leaves in
`readBuffer_` and how its turn ends. -/
inductive ResumeTurn (c : Cont ReadKind) (err : ErrorCode) (n : Nat) (m : Memory UInt8) (r : StreamReader) :
    Nat → List UInt8 → List UInt8 → Next → Prop where
  | readSome : c.kind = .readSome → ResumeTurn c err n m r n [] r.readBuffer (.done err)
  | found (delimiter : Int8) (i : Nat) (rest : List UInt8) : c.kind = .readUntil delimiter →
      searchLoop delimiter (m.read (r.dst + r.processed) n) 0 = some (i, rest) →
      ResumeTurn c err n m r (r.processed + i) [] (r.readBuffer ++ rest) (.done err)
  | ended : c.kind ≠ .readSome → (∀ delimiter, c.kind = .readUntil delimiter →
      searchLoop delimiter (m.read (r.dst + r.processed) n) 0 = none) →
      (err.failed = true ∨ r.requestedSize ≤ r.processed + n) →
      ResumeTurn c err n m r (r.processed + n) [] r.readBuffer (.done err)
  | again (bs buffer : List UInt8) (next : Next) : c.kind ≠ .readSome → (∀ delimiter, c.kind = .readUntil delimiter →
      searchLoop delimiter (m.read (r.dst + r.processed) n) 0 = none) →
      err.failed = false → r.processed + n < r.requestedSize →
      ReadTurn (r.requestedSize - (r.processed + n)) { r with processed := r.processed + n } bs buffer next →
      ResumeTurn c err n m r (r.processed + n) bs buffer next

theorem resume_stale (c : Cont ReadKind) (err : ErrorCode) (n : Nat) (m : Memory UInt8) {r : StreamReader}
    (stale : c.id ≠ r.readId) : r.resume c err n m = (r, []) := by
  have refused : r.readidOk c.id = false := by simpa [readidOk, Slot.idOk] using stale
  unfold resume
  split <;> simp [asyncReadSomeContinue, asyncReadContinue, asyncReadUntilContinue, refused]

theorem resume_current (c : Cont ReadKind) (err : ErrorCode) (n : Nat) (m : Memory UInt8) {r : StreamReader}
    (current : c.id = r.readId) :
    ∃ processed bs buffer next, ResumeTurn c err n m r processed bs buffer next ∧
      r.resume c err n m = (r.turned processed buffer next,
        storesFrom (r.dst + processed) bs ++ next.effects { r.toSlot with processed } c) := by
  have accepted : r.readidOk c.id = true := by simpa [readidOk, Slot.idOk] using current
  have finished := fun processed buffer =>
    finishRead_turned c err (r := { r with processed, readBuffer := buffer }) current
  have more := fun count => doReadSome_turned count c { r with processed := r.processed + n }
  have bound (kind : ReadKind) (eq : c.kind = kind) : (⟨kind, c.id⟩ : Cont ReadKind) = c := by rw [← eq]
  cases kind : c.kind with
  | readSome =>
    refine ⟨_, _, _, _, .readSome kind, ?_⟩
    simp only [resume, kind, asyncReadSomeContinue, accepted]
    exact finished n r.readBuffer
  | read =>
    have plain : ∀ delimiter, c.kind = .readUntil delimiter →
        searchLoop delimiter (m.read (r.dst + r.processed) n) 0 = none := by simp [kind]
    by_cases goesOn : (!err.failed && decide (r.processed + n < r.requestedSize)) = true
    · obtain ⟨bs, buffer, next, turn, eq⟩ := more (r.requestedSize - (r.processed + n))
      simp only [Bool.and_eq_true, Bool.not_eq_true', decide_eq_true_eq] at goesOn
      refine ⟨_, _, _, _, .again bs buffer next (by simp [kind]) plain goesOn.1 goesOn.2 turn, ?_⟩
      simp only [resume, kind, asyncReadContinue, accepted, goesOn, bound _ kind]
      exact eq
    · refine ⟨_, _, _, _, .ended (by simp [kind]) plain ?_, ?_⟩
      · simp only [Bool.and_eq_true, Bool.not_eq_true', decide_eq_true_eq, not_and, Nat.not_lt] at goesOn
        cases failed : err.failed with
        | true => exact Or.inl rfl
        | false => exact Or.inr (goesOn failed)
      · simp only [resume, kind, asyncReadContinue, accepted, goesOn]
        exact finished (r.processed + n) r.readBuffer
  | readUntil delimiter =>
    cases search : searchLoop delimiter (m.read (r.dst + r.processed) n) 0 with
    | some hit =>
      obtain ⟨i, rest⟩ := hit
      refine ⟨_, _, _, _, .found delimiter i rest kind search, ?_⟩
      simp only [resume, kind, asyncReadUntilContinue, accepted, search]
      exact finished (r.processed + i) (r.readBuffer ++ rest)
    | none =>
      have absent : ∀ d, c.kind = .readUntil d → searchLoop d (m.read (r.dst + r.processed) n) 0 = none := by
        rintro d eq
        obtain rfl : delimiter = d := by simpa [kind] using eq
        exact search
      by_cases stop : (err.failed || decide (r.processed + n ≥ r.requestedSize)) = true
      · refine ⟨_, _, _, _, .ended (by simp [kind]) absent (by simpa using stop), ?_⟩
        simp only [resume, kind, asyncReadUntilContinue, accepted, search, stop]
        exact finished (r.processed + n) r.readBuffer
      · obtain ⟨bs, buffer, next, turn, eq⟩ := more (r.requestedSize - (r.processed + n))
        have goesOn : err.failed = false ∧ r.processed + n < r.requestedSize := by simpa using stop
        refine ⟨_, _, _, _, .again bs buffer next (by simp [kind]) absent goesOn.1 goesOn.2 turn, ?_⟩
        simp only [resume, kind, asyncReadUntilContinue, accepted, search, stop, bound _ kind]
        exact eq

end StreamReader

/-! ### Turns seen from outside -/

namespace World
variable {w : World ReadKind StreamReader}

theorem call_reader_idle (q : Request ReadKind) (idle : w.self.readId = 0) :
    ∃ bs buffer next, StreamReader.CallTurn q w.self bs buffer next ∧
      w.call reader q =
        ((({ w with accepted := w.accepted ++ [q],
                    counts := w.counts ++ [(w.self.readCounter + 1, StreamReader.taken q w.self)],
                    self := (w.self.opened q).turned (StreamReader.taken q w.self) buffer next }
            : World ReadKind StreamReader).arm q (w.self.readCounter + 1)).stored q.data bs).conclude
          { (w.self.opened q).toSlot with processed := StreamReader.taken q w.self }
          ⟨q.kind, w.self.readCounter + 1⟩ next false := by
  obtain ⟨bs, buffer, next, turn, eq⟩ := StreamReader.call_idle q idle
  refine ⟨bs, buffer, next, turn, ?_⟩
  have called : reader.call q w.self = _ := eq
  unfold World.call
  simp only [called, ↓reduceIte]
  exact after_turn rfl

theorem resume_reader_stale {c : Cont ReadKind} (err : ErrorCode) (n : Nat) (stale : c.id ≠ w.self.readId) :
    w.resume reader c err n =
      { w with counts := w.counts ++ [(c.id, StreamReader.counted c n w.memory w.self)] } := by
  have refused : reader.resume c err n w.memory w.self = _ := StreamReader.resume_stale c err n w.memory stale
  unfold World.resume
  rw [refused]
  rfl

theorem resume_reader_current {c : Cont ReadKind} (err : ErrorCode) (n : Nat) (current : c.id = w.self.readId) :
    ∃ processed bs buffer next, StreamReader.ResumeTurn c err n w.memory w.self processed bs buffer next ∧
      w.resume reader c err n =
        (({ w with counts := w.counts ++ [(c.id, StreamReader.counted c n w.memory w.self)],
                   self := w.self.turned processed buffer next }
          : World ReadKind StreamReader).stored (w.self.dst + processed) bs).conclude
            { w.self.toSlot with processed } c next false := by
  obtain ⟨processed, bs, buffer, next, turn, eq⟩ := StreamReader.resume_current c err n w.memory current
  refine ⟨processed, bs, buffer, next, turn, ?_⟩
  have resumed : reader.resume c err n w.memory w.self = _ := eq
  unfold World.resume
  simp only [resumed]
  exact after_turn_resumed rfl

/-- The dump wrapper writes to the dump file only. -/
theorem handle_reader (h : Handler ReadKind) (err : ErrorCode) (n : Nat) :
    ∃ d, w.handle reader h err n = World.resume reader h.cont err n { w with self := { w.self with rxDump := d } } := by
  unfold handle
  split
  · exact ⟨w.self.rxDump, rfl⟩
  · unfold Endpoint.dumpCallback
    split
    · exact ⟨w.self.rxDump, rfl⟩
    · split
      · exact ⟨w.self.rxDump, rfl⟩
      · exact ⟨_, rfl⟩

end World

end RtacAsio
