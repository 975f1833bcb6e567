import RtacAsio.Lib.Run
import RtacAsio.Reader.Turns
import RtacAsio.Udp.Reader

/-! The recursion between a `StreamReader` and its `UDPClientStream` comes to an end. -/

namespace RtacAsio
open Lib World

namespace DatagramReader

/-- The call or the handler that is being executed returns after `n` more calls of the stream at most. -/
def Returns (n : Nat) (x : DatagramReader) : Prop :=
  ∃ k y, k ≤ n ∧ Steps step Always x (List.replicate k .readSome) y ∧ y.calling = none

/-- The stream is called for the request in progress, for no less than what is missing. -/
def Asks (x : DatagramReader) : Prop :=
  ∀ op, x.calling = some op → op.id = x.world.self.readId ∧
    x.world.self.requestedSize ≤ x.world.self.processed + op.count

section Proofs
variable {x : DatagramReader} {w v : World ReadKind StreamReader} {c : Cont ReadKind} {op : Op ReadKind} {s : Slot}
  {n : Nat}

/-! ### Inversion of one step -/

inductive StepCase (x : DatagramReader) : DatagramReaderEvent → DatagramReader → Prop where
  | readSome (op : Op ReadKind) : x.calling = some op →
      StepCase x .readSome ({ x with calling := none, depth := x.depth + 1 }.after op (x.stream.asyncReadSome op.read))
  | reader (e : Event ReadKind) (w : World ReadKind StreamReader) : x.calling = none → e.ofStream = false →
      x.world.step reader e = some w → StepCase x (.reader e) (x.entered.handOver w)
  | receive (i : Nat) (err : ErrorCode) (bytes : List UInt8) (op : Op ReadKind) : x.calling = none →
      x.world.ops[i]? = some op → bytes.length ≤ x.stream.buffer.length →
      StepCase x (.receive i err bytes)
        ({ x.entered with world := { x.world with ops := x.world.ops.eraseIdx i }, depth := 1 }.after op
          (UDPClientStream.receiveContinue op.read err bytes.length
            { x.stream with buffer := bytes ++ x.stream.buffer.drop bytes.length }))
  | cut (c : Cut) : x.calling = none → StepCase x (.cut c) (x.entered.cut c)

theorem step_cases {e : DatagramReaderEvent} {y : DatagramReader} (h : x.step e = some y) : StepCase x e y := by
  cases e with
  | readSome =>
    simp only [step] at h
    split at h
    · cases h
    · obtain rfl := Option.some.inj h
      exact .readSome _ ‹_›
  | reader e =>
    simp only [step] at h
    split at h
    · cases h
    · rename_i free
      obtain ⟨returned, own⟩ := not_or.mp free
      obtain ⟨w, ran, rfl⟩ := Option.map_eq_some_iff.mp h
      exact .reader e w (by simpa using returned) (by simpa using own) ran
  | receive i err bytes =>
    simp only [step] at h
    split at h
    · cases h
    · rename_i free
      split at h
      · cases h
      · rename_i op found
        obtain ⟨fits, h⟩ := Option.ite_none_right_eq_some.mp h
        obtain rfl := Option.some.inj h
        exact .receive i err bytes op (by simpa using free) found fits
  | cut c =>
    simp only [step] at h
    split at h
    · cases h
    · rename_i free
      obtain rfl := Option.some.inj h
      exact .cut c (by simpa using free)

/-! ### The end of a turn -/

@[simp] theorem handOver_depth (w : World ReadKind StreamReader) (x : DatagramReader) :
    (x.handOver w).depth = x.depth := by
  unfold handOver; split <;> rfl

@[simp] theorem handOver_delivered (w : World ReadKind StreamReader) (x : DatagramReader) :
    (x.handOver w).delivered = x.delivered := by
  unfold handOver; split <;> rfl

@[simp] theorem handOver_stream (w : World ReadKind StreamReader) (x : DatagramReader) :
    (x.handOver w).stream = x.stream := by
  unfold handOver; split <;> rfl

/-- Nothing was handed to the stream. -/
theorem handOver_same (same : w.ops = x.world.ops) : x.handOver w = { x with world := w, calling := none } := by
  simp [handOver, same]

theorem handOver_transfer {count : Nat} {dump : Option Nat} (same : v.ops = x.world.ops) :
    x.handOver (v.conclude s c (.transfer count dump) false) =
      { x with
        world := { v with log := v.log ++ [.transfer count (s.data + s.processed) ⟨c, dump⟩] }
        calling := some { count, data := s.data + s.processed, handler := ⟨c, dump⟩ } } := by
  simp [handOver, conclude, same]

theorem handOver_done {err : ErrorCode} (same : v.ops = x.world.ops) :
    (x.handOver (v.conclude s c (.done err) false)).calling = none := by
  by_cases zero : c.id = 0
  · rw [conclude_zero s err false v zero, handOver_same same]
  · rw [conclude_callback s err false v zero, handOver_same (by exact same)]

theorem asks_returned (returned : x.calling = none) : Asks x := by
  intro op called
  simp [returned] at called

theorem conclude_asks {next : Next} (same : v.ops = x.world.ops) (id : v.self.readId = next.id c.id)
    (fits : ∀ count dump, next = .transfer count dump → v.self.requestedSize ≤ v.self.processed + count) :
    Asks (x.handOver (v.conclude s c next false)) := by
  cases next with
  | transfer count dump =>
    rw [handOver_transfer same]
    rintro op called
    obtain rfl := Option.some.inj called
    exact ⟨id.symm, fits count dump rfl⟩
  | postCont count =>
    rw [handOver_same (by exact same)]
    exact asks_returned rfl
  | done err => exact asks_returned (handOver_done same)

theorem resume_fits {err : ErrorCode} {n processed count : Nat} {m : Memory UInt8} {r : StreamReader}
    {bs buffer : List UInt8} {dump : Option Nat}
    (turn : StreamReader.ResumeTurn c err n m r processed bs buffer (.transfer count dump)) :
    r.requestedSize ≤ processed + count := by
  cases turn with
  | again _ _ _ _ _ _ _ read =>
    cases read
    omega

/-- A continuation is ignored, or ends its request, or goes on to get what is missing. -/
theorem resume_cases (same : w.ops = x.world.ops) (err : ErrorCode) (n : Nat) :
    Asks (x.handOver (w.resume reader c err n)) ∧
      (c.id ≠ w.self.readId ∧ (x.handOver (w.resume reader c err n)).calling = none ∨
        c.id = w.self.readId ∧
          ((x.handOver (w.resume reader c err n)).calling = none ∧
              (c.id ≠ 0 → w.posts.length < (w.resume reader c err n).posts.length) ∨
            err.failed = false ∧ w.self.processed + n < w.self.requestedSize)) := by
  by_cases mine : c.id = w.self.readId
  · obtain ⟨processed, bs, buffer, next, turn, eq⟩ := resume_reader_current err n mine
    rw [eq]
    constructor
    · apply conclude_asks
      · exact same
      · rw [mine]
        rfl
      · rintro count dump rfl
        have fits := resume_fits turn
        exact fits
    · refine Or.inr ⟨mine, ?_⟩
      cases turn with
      | again _ _ _ _ _ ok short => exact Or.inr ⟨ok, short⟩
      | _ =>
        refine Or.inl ⟨handOver_done same, fun nonzero => ?_⟩
        rw [conclude_callback _ _ false _ nonzero]
        simp [stored]
  · rw [resume_reader_stale err n mine, handOver_same (by exact same)]
    exact ⟨asks_returned rfl, Or.inl ⟨mine, rfl⟩⟩

/-! ### The stream -/

/-- `async_read_some` starts a receive where nothing is buffered. Otherwise it delivers all it was
asked for, or all there is. -/
theorem asyncReadSome_cases (read : DatagramRead) (s : UDPClientStream UInt8) :
    s.available = 0 ∧ s.asyncReadSome read = (s, [.receive read]) ∨
      ∃ s' n bytes, 0 < s.available ∧ (n = read.bufferSize ∨ s'.available = 0) ∧
        s.asyncReadSome read = (s', [.copy read.buffer s.bufferBegin n bytes, .call read.callback .success n]) := by
  unfold UDPClientStream.asyncReadSome
  by_cases available : s.available > 0
  · right
    by_cases all : read.bufferSize ≥ s.available
    · rw [if_pos available, if_pos all]
      exact ⟨_, _, _, available, Or.inr rfl, rfl⟩
    · rw [if_pos available, if_neg all]
      exact ⟨_, _, _, available, Or.inl rfl, rfl⟩
  · left
    rw [if_neg available]
    exact ⟨by omega, rfl⟩

theorem called_asks (op : Op ReadKind) (x : DatagramReader) (callback : Callback) (err : ErrorCode) (n : Nat) :
    Asks (x.perform op (.call callback err n)) ∧
      ((x.perform op (.call callback err n)).calling = none ∨
        op.id = x.world.self.readId ∧ x.world.self.processed + n < x.world.self.requestedSize) := by
  obtain ⟨d, handled⟩ := handle_reader (w := x.world) op.handler err n
  unfold perform
  simp only [handled]
  obtain ⟨asks, cases⟩ := resume_cases (c := op.handler.cont) (x := { x with delivered := x.delivered ++ [_] })
    (w := { x.world with self := { x.world.self with rxDump := d } }) rfl err n
  refine ⟨asks, ?_⟩
  rcases cases with ⟨_, returned⟩ | ⟨mine, ⟨returned, _⟩ | ⟨_, short⟩⟩
  · exact Or.inl returned
  · exact Or.inl returned
  · exact Or.inr ⟨mine, short⟩

@[simp] theorem perform_call_stream (op : Op ReadKind) (x : DatagramReader) (callback : Callback) (err : ErrorCode)
    (n : Nat) : (x.perform op (.call callback err n)).stream = x.stream := handOver_stream ..

/-- A call of the stream is followed by one for what is missing. Where it was for what is missing
itself it leaves the stream empty, and where the stream was empty no other call follows. -/
theorem readSome_asks (called : x.calling = some op) :
    ∃ y, x.step .readSome = some y ∧ Asks y ∧ (Asks x → y.calling = none ∨ y.stream.available = 0) ∧
      (x.stream.available = 0 → y.calling = none) := by
  refine ⟨_, by simp only [step, called]; rfl, ?_⟩
  rcases asyncReadSome_cases op.read x.stream with ⟨_, eq⟩ | ⟨s', n, bytes, some, amount, eq⟩
  · rw [eq]
    exact ⟨asks_returned rfl, fun _ => Or.inl rfl, fun _ => rfl⟩
  · rw [eq]
    obtain ⟨asks, cases⟩ := called_asks op { x with
        calling := none
        depth := x.depth + 1
        stream := s'
        world := { x.world with memory := x.world.memory.write op.data bytes
                                traffic := x.world.traffic ++ [(op.id, bytes)] } } op.read.callback .success n
    refine ⟨asks, fun own => cases.imp_right fun ⟨mine, short⟩ => ?_, by omega⟩
    have missing := (own op called).2
    simp only [after, List.foldl_cons, List.foldl_nil, perform_call_stream]
    rcases amount with all | empty
    · exact absurd short (Nat.not_lt.mpr (by rwa [all]))
    · exact empty

/-! ### The end of the recursion -/

theorem returns_now (returned : x.calling = none) : x.Returns n := ⟨0, x, Nat.zero_le n, .refl, returned⟩

theorem Returns.next {y : DatagramReader} (taken : x.step .readSome = some y) (h : y.Returns n) : x.Returns (n + 1) := by
  obtain ⟨k, z, le, run, returned⟩ := h
  exact ⟨k + 1, z, Nat.succ_le_succ le, (Steps.single trivial taken).append run, returned⟩

theorem returns_of_called (called : ∀ op, x.calling = some op → ∃ y, x.step .readSome = some y ∧ y.Returns n) :
    x.Returns (n + 1) := by
  cases calling : x.calling with
  | none => exact returns_now calling
  | some op =>
    obtain ⟨y, taken, returns⟩ := called op calling
    exact returns.next taken

theorem returns_empty (empty : x.stream.available = 0) : x.Returns 1 :=
  returns_of_called fun _ called =>
    have ⟨y, taken, _, _, returned⟩ := readSome_asks called
    ⟨y, taken, returns_now (returned empty)⟩

theorem Asks.returns (asks : Asks x) : x.Returns 2 :=
  returns_of_called fun _ called =>
    have ⟨y, taken, _, emptied, _⟩ := readSome_asks called
    ⟨y, taken, (emptied asks).elim returns_now returns_empty⟩

/-- Whatever state it starts from, the recursion comes to an end. -/
theorem recursion_ends (x : DatagramReader) : x.Returns 3 :=
  returns_of_called fun _ called =>
    have ⟨y, taken, asks, _⟩ := readSome_asks called
    ⟨y, taken, asks.returns⟩

end Proofs

end DatagramReader

end RtacAsio
