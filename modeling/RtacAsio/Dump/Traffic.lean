import RtacAsio.Dump.Recording
import RtacAsio.KeptBusy

/-! The dump files of `StreamReader` and of `StreamWriter`: the bytes received and the bytes sent. -/

namespace RtacAsio
open Lib

/-! ### The reader -/

instance (q : Request ReadKind) (r : StreamReader) : Decidable (StopsInLeftover q r) :=
  match kind : q.kind with
  | .readUntil delimiter =>
    decidable_of_iff (r.readBuffer ≠ [] →
      0 < q.size ∧ ((∃ c ∈ r.readBuffer.take q.size, c.toInt8 = delimiter) ∨ q.size ≤ r.readBuffer.length))
      ⟨fun stops d same => by obtain rfl := ReadKind.readUntil.inj (kind.symm.trans same); exact stops,
        fun stops => stops delimiter kind⟩
  | .readSome => .isTrue (by simp [StopsInLeftover, kind])
  | .read => .isTrue (by simp [StopsInLeftover, kind])

namespace StreamReader

/-- A call that stops inside the leftover gives the stream the start of its buffer. -/
theorem callTurn_records {q : Request ReadKind} {r : StreamReader} {bs buffer : List UInt8} {next : Next}
    (stops : StopsInLeftover q r) (turn : CallTurn q r bs buffer next) :
    Records reader r ((r.opened q).turned (taken q r) buffer next) q.data bs next := by
  obtain ⟨short, fits⟩ := callTurn_fits stops turn
  refine ⟨rfl, ?_, fits, Or.inr ⟨Nat.le_refl _, Nat.add_le_add_left short _⟩⟩
  rintro count d rfl
  cases turn with
  | fromStream empty =>
    rw [taken_empty q empty]
    rfl
  | scanned delimiter kind left running =>
    obtain ⟨positive, stops⟩ := stops delimiter kind left
    rw [(leftoverStops_iff left positive).mpr stops] at running
    contradiction

theorem resumeTurn_records {c : Cont ReadKind} {err : ErrorCode} {n processed : Nat} {m : Memory UInt8}
    {r : StreamReader} {bs buffer : List UInt8} {next : Next} (room : r.processed + n ≤ r.requestedSize)
    (turn : ResumeTurn c err n m r processed bs buffer next) :
    Records reader r (r.turned processed buffer next) (r.dst + processed) bs next := by
  obtain ⟨short, fits⟩ := resumeTurn_fits room turn
  refine ⟨rfl, ?_, fits, Or.inr ⟨Nat.le_add_right .., ?_⟩⟩
  · rintro count d rfl
    cases turn with
    | again _ _ _ _ _ _ _ read =>
      cases read
      rfl
  · show r.dst + processed + bs.length ≤ r.dst + r.requestedSize
    omega

end StreamReader

theorem reader_recorder : Recorder reader StopsInLeftover where
  call q r idle stops := by
    obtain ⟨bs, buffer, next, turn, eq⟩ := StreamReader.call_idle q idle
    refine ⟨_, next, bs, ?_, rfl, StreamReader.callTurn_records stops turn⟩
    exact eq.trans (by rw [Next.effects_congr _ next rfl rfl rfl]; rfl)
  resume c err n m r current room := by
    obtain ⟨processed, bs, buffer, next, turn, eq⟩ := StreamReader.resume_current c err n m current
    refine ⟨_, next, r.dst + processed, bs, ?_, ?_, StreamReader.resumeTurn_records room turn⟩
    · exact eq.trans (by rw [Next.effects_congr _ next rfl rfl rfl]; rfl)
    · rw [current]
      rfl
  timeout _ _ _ := rfl
  setDump _ _ := rfl

/-! ### The writer -/

theorem StreamWriter.resumeTurn_records {c : Cont WriteKind} {err : ErrorCode} {n processed : Nat} {t : StreamWriter}
    {next : Next} (room : t.processed + n ≤ t.requestedSize) (turn : ResumeTurn c err n t processed next) :
    Records writer t (t.turned processed next) 0 [] next := by
  refine ⟨rfl, ?_, ?_, Or.inl rfl⟩
  · rintro count d rfl
    cases turn
    rfl
  · show Fits t.requestedSize processed next
    cases turn with
    | writeSome => exact fits_done (by omega)
    | ended => exact fits_done room
    | again => exact fits_transfer (by omega)

theorem writer_recorder : Recorder writer fun _ _ => True where
  call q t idle _ := by
    refine ⟨t.opened q, .transfer q.size (t.dumpPtr q.data), [], StreamWriter.call_idle q idle, rfl, rfl, ?_, ?_, Or.inl rfl⟩
    · rintro _ _ ⟨⟩
      rfl
    · exact fits_transfer (Nat.le_of_eq (Nat.zero_add q.size))
  resume c err n m t current room := by
    obtain ⟨processed, next, turn, eq⟩ := StreamWriter.resume_current c err n current
    refine ⟨_, next, 0, [], ?_, ?_, StreamWriter.resumeTurn_records room turn⟩
    · exact eq.trans (by rw [Next.effects_congr _ next rfl rfl rfl]; rfl)
    · rw [current]
      rfl
  timeout _ _ _ := rfl
  setDump _ _ := rfl

/-! ### Both files -/

/-- A created reader whose dump file has been opened, before its first request. -/
def StreamReader.recording (r : StreamReader) (m : Memory UInt8) : Recording ReadKind StreamReader :=
  { world := { self := { r with rxDump := some [] }, memory := m } }

def StreamWriter.recording (t : StreamWriter) (m : Memory UInt8) : Recording WriteKind StreamWriter :=
  { world := { self := { t with txDump := some [] }, memory := m } }

/-- Each dump file holds the bytes of the completions without an error, in order. -/
theorem dumps_record_traffic {r : StreamReader} {t : StreamWriter} {m m' : Memory UInt8} {es : List (RecordingEvent ReadKind)}
    {fs : List (RecordingEvent WriteKind)} {x : Recording ReadKind StreamReader} {y : Recording WriteKind StreamWriter}
    (rCreated : r.Created) (tCreated : t.Created)
    (rx : Steps (Recording.step reader) (Recording.Allowed reader StopsInLeftover) (r.recording m) es x)
    (tx : Steps (Recording.step writer) (Recording.Allowed writer fun _ _ => True) (t.recording m') fs y) :
    x.world.self.rxDump = some x.completed ∧ y.world.self.txDump = some y.completed := by
  constructor
  · have idle : (reader.slot { r with rxDump := some [] }).id = 0 := rCreated.readId
    exact Recording.run_recorded reader_lawfulIdle reader_recorder idle rfl rx
  · have idle : (writer.slot { t with txDump := some [] }).id = 0 := tCreated.writeId
    exact Recording.run_recorded writer_lawfulIdle writer_recorder idle rfl tx

/-- The second request reads the bytes left over by the first one and is ended by its timer. What
the stream had been asked for on its behalf arrives during the third. -/
def receiving : List (RecordingEvent ReadKind) :=
  [.run (.call ⟨.readUntil 10, 4, 0, 1, 0⟩), .run (.move 0 [97, 10, 98, 99]), .run (.complete 0 .success),
    .modify 0 [7], .run (.call ⟨.read, 4, 4, 2, 5⟩), .run (.deliver 0), .run .expire, .run (.timer 0),
    .run (.call ⟨.readSome, 2, 8, 3, 0⟩), .run (.move 1 [101]), .run (.move 0 [100]), .run (.complete 0 .success),
    .run (.complete 0 .success)]

def sending : List (RecordingEvent WriteKind) :=
  [.modify 0 [1, 2, 3], .run (.call ⟨.write, 3, 0, 1, 0⟩), .run (.move 0 [1, 2]), .run (.complete 0 .success),
    .run (.move 0 [3]), .run (.complete 0 .success)]

theorem dumps_record_traffic_late : ∃ x y,
    Steps (Recording.step reader) (Recording.Allowed reader StopsInLeftover) (StreamReader.blank.recording fun _ => 0) receiving x ∧
    Steps (Recording.step writer) (Recording.Allowed writer fun _ _ => True) (StreamWriter.blank.recording fun _ => 0) sending y ∧
    x.world.self.rxDump = some [97, 10, 98, 99, 100, 101] ∧ y.world.self.txDump = some [1, 2, 3] := by
  obtain ⟨x, rx, received⟩ : ∃ x,
      Steps (Recording.step reader) (Recording.Allowed reader StopsInLeftover) (StreamReader.blank.recording fun _ => 0) receiving x ∧
        x.completed = [97, 10, 98, 99, 100, 101] := exists_of_exec (by decide)
  obtain ⟨y, tx, sent⟩ : ∃ y,
      Steps (Recording.step writer) (Recording.Allowed writer fun _ _ => True) (StreamWriter.blank.recording fun _ => 0) sending y ∧
        y.completed = [1, 2, 3] := exists_of_exec (by decide)
  obtain ⟨rxDump, txDump⟩ := dumps_record_traffic ⟨rfl, rfl, rfl⟩ ⟨rfl, rfl⟩ rx tx
  rw [received] at rxDump
  rw [sent] at txDump
  exact ⟨x, y, rx, tx, rxDump, txDump⟩

/-- The second request finds two bytes left over and still asks the stream for four: the last two of
them lie in the buffer of the third request, which has written there when `dump_callback` runs. -/
def overrunning : List (RecordingEvent ReadKind) :=
  [.run (.call ⟨.readUntil 10, 4, 0, 1, 0⟩), .run (.move 0 [97, 10, 98, 99]), .run (.complete 0 .success),
    .run (.call ⟨.readUntil 10, 4, 10, 2, 1⟩), .run .expire, .run (.timer 0), .run (.call ⟨.read, 4, 14, 3, 0⟩),
    .run (.move 0 [1, 2, 3, 4]), .run (.move 1 [5, 6, 7, 8]), .run (.complete 0 .success)]

theorem dump_records_other : ∃ x,
    Steps (Recording.step reader) (Recording.Allowed reader fun _ _ => True) (StreamReader.blank.recording fun _ => 0) overrunning x ∧
    x.completed = [97, 10, 98, 99, 1, 2, 3, 4] ∧ x.world.self.rxDump = some [97, 10, 98, 99, 1, 2, 5, 6] := by
  obtain ⟨x, run, seen⟩ : ∃ x,
      Steps (Recording.step reader) (Recording.Allowed reader fun _ _ => True) (StreamReader.blank.recording fun _ => 0) overrunning x ∧
        (x.completed, x.world.self.rxDump) = ([97, 10, 98, 99, 1, 2, 3, 4], some [97, 10, 98, 99, 1, 2, 5, 6]) :=
    exists_of_exec (by decide)
  obtain ⟨completed, dump⟩ := Prod.mk.inj seen
  exact ⟨x, run, completed, dump⟩

end RtacAsio
