import RtacAsio.KeptBusy
import RtacAsio.Lib.Simulation
import RtacAsio.Reader.Passage
import RtacAsio.StringStream.Fifo

/-!
A `Stream` over a `StringStream`, with all its primitives, their timers, `flush` and `reset`: what
the reader and the writer do to the one circular buffer.
-/

namespace RtacAsio
open Lib World

/-- The caller's memory is that of `reading`. -/
structure Loopback where
  reading : World ReadKind StreamReader
  writing : World WriteKind StreamWriter
  stream : StringStream

inductive LoopbackEvent where
  | reader (e : Event ReadKind)
  | writer (e : Event WriteKind)
  | cut (c : Cut)

/-- `StringStream` posts its callbacks with `ErrorCode()`, and moves bytes when it is called only. -/
def Event.byStringStream : Event κ → Bool
  | .move .. => false
  | .complete _ err => err == .success
  | _ => true

namespace StringStream

/-- `async_read_some` or `async_write_some`, for the operation that `w` has just added, if any. -/
def serve (E : Endpoint κ σ) (w : World κ σ) (s : StringStream) : World κ σ × StringStream :=
  match w.ops.getLast? with
  | none => (w, s)
  | some op =>
    if op.moved.isSome then (w, s)
    else
      let out := Shared.transfer E.direction op.count op.data ⟨s, w.memory⟩
      (w.move E (w.ops.length - 1) op out.2, out.1.stream)

def flush (s : StringStream) : StringStream := { s with buffer := [] }

def reset (s : StringStream) : StringStream := { s with buffer := [] }

end StringStream

namespace Loopback

def cut (x : Loopback) : Cut → Loopback
  | .flush => { x with reading := { x.reading with self := x.reading.self.flush }, stream := x.stream.flush }
  | .reset => { x with reading := { x.reading with self := x.reading.self.reset }, stream := x.stream.reset }

def step (x : Loopback) : LoopbackEvent → Option Loopback
  | .reader e =>
    if e.byStringStream then
      (x.reading.step RtacAsio.reader e).map fun w =>
        let (reading, stream) := x.stream.serve RtacAsio.reader w
        { x with reading, stream }
    else none
  | .writer e =>
    if e.byStringStream then
      ({ x.writing with memory := x.reading.memory }.step RtacAsio.writer e).map fun w =>
        let (writing, stream) := x.stream.serve RtacAsio.writer w
        { x with writing, stream }
    else none
  | .cut c => some (x.cut c)

/-- The reader's steps are restricted by `p`, and bytes are discarded only if `cuts`. -/
def Permitted (p : World ReadKind StreamReader → Event ReadKind → Prop) (cuts : Prop) (x : Loopback) : LoopbackEvent → Prop
  | .reader e => e.byStringStream = true → p x.reading e
  | .writer _ => True
  | .cut _ => cuts

instance (p : World ReadKind StreamReader → Event ReadKind → Prop) [∀ w e, Decidable (p w e)] (cuts : Prop)
    [Decidable cuts] (x : Loopback) (e : LoopbackEvent) : Decidable (Permitted p cuts x e) :=
  match e with
  | .reader e => inferInstanceAs (Decidable (e.byStringStream = true → p x.reading e))
  | .writer _ => instDecidableTrue
  | .cut _ => inferInstanceAs (Decidable cuts)

/-- The reader over a stream that gets what the writer puts into it. -/
def line (x : Loopback) : Line := { world := x.reading, input := x.stream.buffer, produced := x.writing.moved }

/-- The circular buffer has room for what it holds, and serves every operation at once. -/
structure Ready (c : Nat) (x : Loopback) : Prop where
  capacity : x.stream.capacity = c
  fits : x.stream.buffer.length ≤ c
  read : ∀ op ∈ x.reading.ops, op.moved ≠ none
  written : ∀ op ∈ x.writing.ops, op.moved ≠ none

/-! ### What the stream does for one operation -/

theorem serve_cases {E : Endpoint κ σ} {w : World κ σ} {kept new : List (Op κ)} (adds : w.ops = kept ++ new)
    (old : ∀ op ∈ kept, op.moved ≠ none) (one : new.length ≤ 1) (fresh : ∀ op ∈ new, op.moved = none) (s : StringStream) :
    w.ops = kept ∧ s.serve E w = (w, s) ∨
      ∃ op, w.ops = kept ++ [op] ∧ op.moved = none ∧ s.serve E w =
        (w.move E kept.length op (Shared.transfer E.direction op.count op.data ⟨s, w.memory⟩).2,
          (Shared.transfer E.direction op.count op.data ⟨s, w.memory⟩).1.stream) := by
  match new, one with
  | [], _ =>
    rw [List.append_nil] at adds
    refine Or.inl ⟨adds, ?_⟩
    unfold StringStream.serve
    rw [adds]
    split
    · rfl
    · rename_i op last
      have served := old op (List.mem_of_getLast? last)
      simp [Option.isSome_iff_ne_none, served]
  | [op], _ =>
    have unmoved := fresh op (List.mem_singleton_self op)
    refine Or.inr ⟨op, adds, unmoved, ?_⟩
    simp [StringStream.serve, adds, unmoved]

theorem still_of_served {e : Event κ} (served : e.byStringStream = true) : ∀ i bytes, e ≠ .move i bytes := by
  rintro i bytes rfl
  cases served

theorem moves_of_served {e : Event κ} (served : e.byStringStream = true) : e.moves = [] := by
  cases e with
  | move => cases served
  | _ => rfl

/-- The operations are all served again. -/
theorem moved_all {E : Endpoint κ σ} {w : World κ σ} {kept : List (Op κ)} {op : Op κ} (adds : w.ops = kept ++ [op])
    (old : ∀ op ∈ kept, op.moved ≠ none) (bytes : List UInt8) : ∀ op' ∈ (w.move E kept.length op bytes).ops, op'.moved ≠ none := by
  simp only [World.move, adds, List.set_append_right _ _ (Nat.le_refl _), Nat.sub_self, List.set_cons_zero,
    List.forall_mem_append, List.forall_mem_singleton]
  exact ⟨old, by simp⟩

section Steps
variable {p : World ReadKind StreamReader → Event ReadKind → Prop} {cuts : Prop} {x y : Loopback} {c : Nat}

theorem old_moved {ops kept : List (Op κ)} (all : ∀ op ∈ ops, op.moved ≠ none) (left : kept.Sublist ops) :
    ∀ op ∈ kept, op.moved ≠ none :=
  fun op member => all op (left.subset member)

/-- The reader's step, and then the bytes that the stream hands over. -/
theorem reader_matched (free : FreeStream p) (ready : x.Ready c) {e : Event ReadKind}
    (allowed : e.byStringStream = true → p x.reading e) (taken : x.step (.reader e) = some y) :
    y.Ready c ∧ ∃ gs, Steps Line.step (Line.Permitted p cuts) x.line gs y.line := by
  simp only [step, Option.ite_none_right_eq_some] at taken
  obtain ⟨served, taken⟩ := taken
  obtain ⟨w, ran, rfl⟩ := Option.map_eq_some_iff.mp taken
  obtain ⟨kept, new, adds, left, one, fresh⟩ := step_adds reader_lawfulIdle ran (still_of_served served)
  have old := old_moved ready.read left
  have first : Steps Line.step (Line.Permitted p cuts) x.line [.reader e] { x.line with world := w } := by
    refine .single (allowed served) ?_
    simp [Line.step, line, moves_of_served served, ran]
  rcases serve_cases adds old one fresh x.stream with ⟨same, eq⟩ | ⟨op, added, unmoved, eq⟩
  · rw [eq]
    exact ⟨⟨ready.capacity, ready.fits, by rwa [same], ready.written⟩, _, first⟩
  · have transfer := Shared.transfer_input op.count op.data ⟨x.stream, w.memory⟩
    rw [eq, show RtacAsio.reader.direction = .input from rfl, transfer]
    have found : w.ops[kept.length]? = some op := by rw [added, List.getElem?_concat_length]
    have second : Steps Line.step (Line.Permitted p cuts) { x.line with world := w }
        [.reader (.move kept.length (x.stream.buffer.take op.count))]
        { x.line with world := w.move RtacAsio.reader kept.length op (x.stream.buffer.take op.count),
                      input := x.stream.buffer.drop op.count } := by
      refine .single (free.move w kept.length _ ?_) ?_
      · simp only [Honest, found, List.length_take]
        exact Nat.min_le_left ..
      · have front : (x.stream.buffer.take op.count).isPrefixOf x.stream.buffer = true :=
          List.isPrefixOf_iff_prefix.mpr (List.take_prefix ..)
        have rest : x.stream.buffer.drop (x.stream.buffer.take op.count).length = x.stream.buffer.drop op.count := by
          conv_lhs => arg 2; rw [← List.take_append_drop op.count x.stream.buffer]
          exact List.drop_left ..
        simp only [Line.step, Event.moves, line, front, ↓reduceIte, rest, World.step, found, unmoved]
        rfl
    refine ⟨⟨ready.capacity, ?_, moved_all added old _, ready.written⟩, _, first.append second⟩
    exact Nat.le_trans (by simp) ready.fits

/-- What the writer puts into the buffer is what the stream of the reader gets. -/
theorem writer_matched (ready : x.Ready c) {e : Event WriteKind} (taken : x.step (.writer e) = some y) :
    y.Ready c ∧ ∃ gs, Steps Line.step (Line.Permitted p cuts) x.line gs y.line := by
  simp only [step, Option.ite_none_right_eq_some] at taken
  obtain ⟨served, taken⟩ := taken
  obtain ⟨w, ran, rfl⟩ := Option.map_eq_some_iff.mp taken
  obtain ⟨kept, new, adds, left, one, fresh⟩ := step_adds writer_lawfulIdle ran (still_of_served served)
  have old := old_moved ready.written left
  have passed : w.moved = x.writing.moved := by
    have moved := step_moved ran
    rw [moves_of_served served, List.append_nil] at moved
    exact moved
  rcases serve_cases adds old one fresh x.stream with ⟨same, eq⟩ | ⟨op, added, unmoved, eq⟩
  · rw [eq]
    refine ⟨⟨ready.capacity, ready.fits, ready.read, by rwa [same]⟩, [], ?_⟩
    simp only [line, passed]
    exact .refl
  · have fits : x.stream.buffer.length ≤ x.stream.capacity := by
      rw [ready.capacity]
      exact ready.fits
    obtain ⟨n, _, room, transfer⟩ := Shared.transfer_output (h := ⟨x.stream, w.memory⟩) op.count op.data fits
    rw [eq, show RtacAsio.writer.direction = .output from rfl, transfer]
    refine ⟨⟨ready.capacity, ?_, ready.read, moved_all added old _⟩, [.produce (w.memory.read op.data n)], ?_⟩
    · have bound := ready.fits
      have capacity := ready.capacity
      simp only [List.length_append, Memory.read_length] at room ⊢
      omega
    · have total : (w.move RtacAsio.writer kept.length op (w.memory.read op.data n)).moved =
          x.writing.moved ++ w.memory.read op.data n := by
        rw [← passed]
        simp [World.moved, World.move]
      refine .single trivial ?_
      simp only [Line.step, line, total]

/-- Every step is a run of the reader over the abstract stream. -/
theorem step_matched (free : FreeStream p) (ready : x.Ready c) {e : LoopbackEvent} (allowed : Permitted p cuts x e)
    (taken : x.step e = some y) : y.Ready c ∧ ∃ gs, Steps Line.step (Line.Permitted p cuts) x.line gs y.line := by
  cases e with
  | reader e => exact reader_matched free ready allowed taken
  | writer e => exact writer_matched ready taken
  | cut d =>
    obtain rfl := Option.some.inj taken
    refine ⟨?_, [.cut d], .single allowed ?_⟩
    · cases d <;> exact ⟨ready.capacity, Nat.zero_le c, ready.read, ready.written⟩
    · cases d <;> rfl

end Steps

/-! ### Runs -/

/-- A `Stream` as it is created, over a `StringStream` of `c` bytes. -/
def start (r : StreamReader) (t : StreamWriter) (m : Memory UInt8) (c : Nat) : Loopback :=
  { reading := { self := r, memory := m }, writing := { self := t, memory := m }, stream := ⟨[], c⟩ }

theorem start_ready (r : StreamReader) (t : StreamWriter) (m : Memory UInt8) (c : Nat) : (start r t m c).Ready c :=
  ⟨rfl, Nat.zero_le c, nofun, nofun⟩

theorem run_matched {p : World ReadKind StreamReader → Event ReadKind → Prop} {cuts : Prop} {r : StreamReader}
    {t : StreamWriter} {m : Memory UInt8} {c : Nat} {es : List LoopbackEvent} {x : Loopback} (free : FreeStream p)
    (run : Steps step (Permitted p cuts) (start r t m c) es x) :
    x.Ready c ∧ ∃ gs, Steps Line.step (Line.Permitted p cuts) { world := { self := r, memory := m } } gs x.line := by
  have simulates : Simulates step (Permitted p cuts) Line.step (Line.Permitted p cuts) fun _ x _ l => x.Ready c ∧ l = x.line := by
    rintro es x e y fs l ⟨ready, rfl⟩ allowed taken
    obtain ⟨ready', gs, matched⟩ := step_matched free ready allowed taken
    exact ⟨gs, _, matched, ready', rfl⟩
  obtain ⟨gs, l, matched, ready, rfl⟩ := simulates.run ⟨start_ready r t m c, rfl⟩ run
  exact ⟨ready, gs, matched⟩

end Loopback

open Loopback

section Results
variable {r : StreamReader} {t : StreamWriter} {m : Memory UInt8} {c : Nat} {es : List LoopbackEvent} {x : Loopback}

/-- Whatever the requests, the timers, the order of the handlers and the discards, the buffer never
holds more than `c` bytes, and the reader does what it can do over a stream that gets the bytes the
writer's side was asked to take. -/
theorem loopback_refines (run : Steps Loopback.step Always (start r t m c) es x) :
    x.Ready c ∧ ∃ gs, Steps Line.step (Line.Permitted World.Honest True) { world := { self := r, memory := m } } gs x.line := by
  apply run_matched honest_free
  refine run.weaken fun x e _ => ?_
  cases e with
  | reader e =>
    intro served
    cases e with
    | move => cases served
    | _ => trivial
  | _ => trivial

/-- What the reader was handed, followed by the buffer, is what the writer put into it, whichever
requests timed out. -/
theorem loopback_fifo (run : Steps Loopback.step (Permitted (fun _ _ => True) False) (start r t m c) es x) :
    x.reading.moved ++ x.stream.buffer = x.writing.moved := by
  obtain ⟨_, gs, matched⟩ := run_matched always_free run
  have begins : Line.Held { world := { self := r, memory := m } } := rfl
  exact matched.invariant (P := Line.Held) begins fun _ _ _ => Line.step_held

/-- A read that its timer ends over an empty buffer, a write that the capacity cuts short, and a
second read, after whose bytes there is room for the rest. -/
def contended : List LoopbackEvent :=
  [.reader (.call { kind := .read, size := 2, data := 0, callback := 1, timeoutMillis := 1 }), .reader .expire,
    .writer (.call { kind := .write, size := 3, data := 16, callback := 2 }), .reader (.timer 0),
    .reader (.complete 0 .success), .reader (.call { kind := .readUntil 10, size := 8, data := 8, callback := 3 }),
    .writer (.complete 0 .success), .reader (.complete 0 .success)]

theorem loopback_refines_contended : ∃ x, Steps Loopback.step Always (start .blank .blank (fun _ => 7) 2) contended x ∧
    x.writing.moved = [7, 7, 7] ∧ x.Ready 2 ∧ ∃ gs, Steps Line.step (Line.Permitted World.Honest True)
      { world := { self := .blank, memory := fun _ => 7 } } gs x.line := by
  obtain ⟨x, run, seen⟩ : ∃ x, Steps Loopback.step Always (start .blank .blank (fun _ => 7) 2) contended x ∧
      x.writing.moved = [7, 7, 7] := exists_of_exec (by decide)
  exact ⟨x, run, seen, loopback_refines run⟩

theorem loopback_fifo_contended : ∃ x,
    Steps Loopback.step (Permitted (fun _ _ => True) False) (start .blank .blank (fun _ => 7) 2) contended x ∧
      x.reading.moved = [7, 7, 7] ∧ x.reading.moved ++ x.stream.buffer = x.writing.moved := by
  obtain ⟨x, run, seen⟩ : ∃ x,
      Steps Loopback.step (Permitted (fun _ _ => True) False) (start .blank .blank (fun _ => 7) 2) contended x ∧
        x.reading.moved = [7, 7, 7] := exists_of_exec (by decide)
  exact ⟨x, run, seen, loopback_fifo run⟩

/-- No byte that the writer put into the buffer is lost, duplicated or reordered on its way to the
callbacks of the reader. -/
theorem loopback_passes_all (idle : r.readId = 0) (left : r.readBuffer = [])
    (run : Steps Loopback.step (Permitted Draining False) (start r t m c) es x) :
    (x.reading.self.readId = 0 ↔ x.reading.Settled) ∧
      (x.reading.self.readId = 0 →
        x.reading.reported ++ x.reading.self.readBuffer ++ x.stream.buffer = x.writing.moved) := by
  obtain ⟨_, gs, matched⟩ := run_matched draining_free run
  exact Line.passes_all idle left matched

/-- A read_some of an empty buffer, and one that takes what the buffer holds in part. -/
theorem loopback_passes_all_part : ∃ es x, Steps Loopback.step (Permitted Draining False) (start .blank .blank (fun _ => 7) 2) es x ∧
    x.reading.posts.map Post.bytes = [[], [7]] ∧
    x.reading.reported ++ x.reading.self.readBuffer ++ x.stream.buffer = x.writing.moved := by
  obtain ⟨x, run, seen⟩ : ∃ x, Steps Loopback.step (Permitted Draining False) (start .blank .blank (fun _ => 7) 2)
      [.reader (.call { kind := .readSome, size := 1, data := 0, callback := 1 }), .reader (.complete 0 .success),
        .writer (.call { kind := .writeSome, size := 3, data := 16, callback := 2 }),
        .reader (.call { kind := .readSome, size := 1, data := 0, callback := 3 }), .reader (.complete 0 .success)] x ∧
      (x.reading.self.readId, x.reading.posts.map Post.bytes) = (0, [[], [7]]) := exists_of_exec (by decide)
  simp only [Prod.mk.injEq] at seen
  exact ⟨_, x, run, seen.2, (loopback_passes_all rfl rfl run).2 seen.1⟩

end Results

end RtacAsio
