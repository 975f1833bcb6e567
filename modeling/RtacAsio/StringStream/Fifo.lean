import RtacAsio.StringStream.Sides

/-! What a `Stream` over a `StringStream` reads is what it wrote, in order. -/

namespace RtacAsio
open Lib

/-- The address is in the request's buffer. -/
def Request.Covers (q : Request κ) (a : Nat) : Prop := q.data ≤ a ∧ a < q.data + q.size

namespace Pipe

/-- Each request is made after the callback of the one before it, without a timeout, and none is
a read_until. -/
def Allowed (p : Pipe) : PipeEvent → Prop
  | .read q => p.reading.accepted.length = p.reading.posts.length ∧ q.kind.Plain ∧ q.timeoutMillis = 0
  | .write q => p.writing.accepted.length = p.writing.posts.length ∧ q.timeoutMillis = 0
  | .runRead _ => True
  | .runWrite _ => True

instance (p : Pipe) (e : PipeEvent) : Decidable (p.Allowed e) :=
  match e with
  | .read _ => inferInstanceAs (Decidable (_ ∧ _))
  | .write _ => inferInstanceAs (Decidable (_ ∧ _))
  | .runRead _ => instDecidableTrue
  | .runWrite _ => instDecidableTrue

/-- The bytes that the callbacks of the reads reported. -/
def received (p : Pipe) : List UInt8 := p.reading.posts.flatMap Post.bytes

/-- What `p` came to from a stream of capacity `c` and the memory `m`. -/
structure Fifo (c : Nat) (m : Memory UInt8) (p : Pipe) : Prop where
  capacity : p.shared.stream.capacity = c
  bounded : p.shared.stream.buffer.length ≤ c
  order : p.reading.moved ++ p.shared.stream.buffer = p.writing.moved
  /-- The callbacks of the reads report what the stream moved for them, -/
  reported : p.reading.posts.map Post.bytes = p.reading.done
  reads : ∀ (i : Nat) post, p.reading.posts[i]? = some post → ∃ q bytes, p.reading.accepted[i]? = some q ∧
    p.reading.done[i]? = some bytes ∧ Side.Whole ReadKind.single q post bytes
  /-- and the writes put what their buffers held, where no read stored anything. -/
  source : ∀ (i : Nat) q bytes, p.writing.accepted[i]? = some q →
    (p.writing.done ++ [p.writing.current])[i]? = some bytes →
    (∀ r ∈ p.reading.accepted, ∀ a, q.Covers a → ¬ r.Covers a) → bytes = m.read q.data bytes.length
  writes : ∀ (i : Nat) post, p.writing.posts[i]? = some post → ∃ q bytes, p.writing.accepted[i]? = some q ∧
    p.writing.done[i]? = some bytes ∧ Side.Whole WriteKind.single q post bytes
  beginning : p.received <+: p.writing.moved

end Pipe

/-! ### One transfer -/

namespace Shared
variable {h : Shared}

theorem transfer_input (count data : Nat) (h : Shared) :
    h.transfer .input count data =
      (⟨{ h.stream with buffer := h.stream.buffer.drop count }, h.memory.write data (h.stream.buffer.take count)⟩,
        h.stream.buffer.take count) := by
  simp only [transfer, StringStream.asyncReadSome_eq, Memory.read_write_same]

theorem transfer_output (count data : Nat) (fits : h.stream.buffer.length ≤ h.stream.capacity) :
    ∃ n, n ≤ count ∧ n ≤ h.stream.capacity - h.stream.buffer.length ∧
      h.transfer .output count data =
        ({ h with stream := { h.stream with buffer := h.stream.buffer ++ h.memory.read data n } }, h.memory.read data n) := by
  refine ⟨min count (h.stream.capacity - h.stream.buffer.length), Nat.min_le_left .., Nat.min_le_right .., ?_⟩
  simp only [transfer, StringStream.asyncWriteSome_eq count data h.memory fits]

theorem transfer_length (direction : Direction) (count data : Nat) (fits : h.stream.buffer.length ≤ h.stream.capacity) :
    (h.transfer direction count data).2.length ≤ count := by
  cases direction with
  | input =>
    rw [transfer_input, List.length_take]
    exact Nat.min_le_left ..
  | output =>
    obtain ⟨n, bound, _, eq⟩ := transfer_output count data fits
    rw [eq, Memory.read_length]
    exact bound

end Shared

/-! ### The bytes on their way -/

/-- What holds of the bytes that were moved. -/
structure Flow (c : Nat) (m : Memory UInt8) (x : Side ReadKind StreamReader) (y : Side WriteKind StreamWriter)
    (h : Shared) : Prop where
  capacity : h.stream.capacity = c
  bounded : h.stream.buffer.length ≤ c
  order : x.moved ++ h.stream.buffer = y.moved
  reported : x.posts.map Post.bytes = x.done
  stored : ∀ q, x.accepted[x.posts.length]? = some q → h.memory.read q.data x.current.length = x.current
  frame : ∀ a, (∀ r ∈ x.accepted, ¬ r.Covers a) → h.memory a = m a
  source : ∀ (i : Nat) q bytes, y.accepted[i]? = some q → (y.done ++ [y.current])[i]? = some bytes →
    (∀ r ∈ x.accepted, ∀ a, q.Covers a → ¬ r.Covers a) → bytes = m.read q.data bytes.length

namespace Flow
variable {c : Nat} {m : Memory UInt8} {x : Side ReadKind StreamReader} {y : Side WriteKind StreamWriter} {h : Shared}

section Reading
variable {q : Request ReadKind}

theorem accept_read (flow : Flow c m x y h) (none : x.current = []) (q : Request ReadKind) :
    Flow c m { x with accepted := x.accepted ++ [q] } y h where
  capacity := flow.capacity
  bounded := flow.bounded
  order := flow.order
  reported := flow.reported
  stored _ _ := by simp only [none, List.length_nil, Memory.read_zero]
  frame a outside := flow.frame a fun r member => outside r (List.mem_append_left _ member)
  source i q' bytes accepted moved apart :=
    flow.source i q' bytes accepted moved fun r member => apart r (List.mem_append_left _ member)

theorem receive (flow : Flow c m x y h) (last : x.accepted[x.posts.length]? = some q)
    (bound : x.current.length ≤ q.size) (s : StreamReader) (tasks : List (Task ReadKind)) {out : Shared × List UInt8}
    (eq : out = h.transfer .input (q.size - x.current.length) (q.data + x.current.length)) :
    Flow c m { x with self := s, tasks, current := x.current ++ out.2 } y out.1 := by
  rw [Shared.transfer_input] at eq
  subst eq
  have asked : (h.stream.buffer.take (q.size - x.current.length)).length ≤ q.size - x.current.length := by
    rw [List.length_take]
    exact Nat.min_le_left ..
  refine ⟨flow.capacity, ?_, ?_, flow.reported, ?_, ?_, flow.source⟩
  · have bounded := flow.bounded
    simp only [List.length_drop]
    omega
  · rw [← flow.order]
    simp [Side.moved]
  · intro q' found
    obtain rfl : q = q' := Option.some.inj (last.symm.trans found)
    have before := h.memory.read_write_before (h.stream.buffer.take (q.size - x.current.length))
      (Nat.le_refl (q.data + x.current.length))
    simp only [List.length_append, Memory.read_add, before, flow.stored q last, Memory.read_write_same]
  · intro a outside
    have clear := outside q (List.mem_of_getElem? last)
    rw [← flow.frame a outside]
    apply Memory.write_outside
    unfold Request.Covers at clear
    omega

theorem report (flow : Flow c m x y h) (last : x.accepted[x.posts.length]? = some q) (s : StreamReader)
    (callback : Callback) :
    Flow c m
      { x with
        self := s
        tasks := []
        posts := x.posts ++ [⟨callback, .success, x.current.length, h.memory.read q.data x.current.length, false⟩]
        done := x.done ++ [x.current]
        current := [] } y h where
  capacity := flow.capacity
  bounded := flow.bounded
  order := by simpa [Side.moved] using flow.order
  reported := by simp [flow.reported, flow.stored q last]
  stored _ _ := rfl
  frame := flow.frame
  source := flow.source

end Reading

section Writing
variable {q : Request WriteKind}

theorem accept_write (flow : Flow c m x y h) (settled : y.accepted.length = y.posts.length)
    (paired : y.done.length = y.posts.length) (none : y.current = []) (q : Request WriteKind) :
    Flow c m x { y with accepted := y.accepted ++ [q] } h where
  capacity := flow.capacity
  bounded := flow.bounded
  order := flow.order
  reported := flow.reported
  stored := flow.stored
  frame := flow.frame
  source i q' bytes accepted moved apart := by
    rcases concat_getElem? accepted with accepted | ⟨rfl, rfl⟩
    · exact flow.source i q' bytes accepted moved apart
    · rw [settled, ← paired, List.getElem?_concat_length, none] at moved
      obtain rfl := Option.some.inj moved
      rfl

theorem put (flow : Flow c m x y h) (last : y.accepted[y.posts.length]? = some q)
    (paired : y.done.length = y.posts.length) (bound : y.current.length ≤ q.size) (s : StreamWriter)
    (tasks : List (Task WriteKind)) {out : Shared × List UInt8}
    (eq : out = h.transfer .output (q.size - y.current.length) (q.data + y.current.length)) :
    Flow c m x { y with self := s, tasks, current := y.current ++ out.2 } out.1 := by
  have bounded := flow.bounded
  have capacity := flow.capacity
  obtain ⟨n, asked, room, moved⟩ := Shared.transfer_output (h := h) (q.size - y.current.length)
    (q.data + y.current.length) (by omega)
  rw [moved] at eq
  subst eq
  refine ⟨flow.capacity, ?_, ?_, flow.reported, flow.stored, flow.frame, ?_⟩
  · simp only [List.length_append, Memory.read_length]
    omega
  · have order := flow.order
    simp only [Side.moved] at order ⊢
    rw [← List.append_assoc, order, List.append_assoc]
  · intro i q' bytes accepted found apart
    rcases concat_getElem? found with found | ⟨rfl, rfl⟩
    · refine flow.source i q' bytes accepted ?_ apart
      rw [List.getElem?_append_left (List.getElem?_eq_some_iff.mp found).1]
      exact found
    · rw [paired] at accepted
      obtain rfl : q = q' := Option.some.inj (last.symm.trans accepted)
      have earlier : y.current = m.read q.data y.current.length := by
        apply flow.source y.done.length q y.current _ (by simp) apart
        rw [paired]
        exact last
      have now : h.memory.read (q.data + y.current.length) n = m.read (q.data + y.current.length) n := by
        apply Memory.read_congr
        intro a low high
        exact flow.frame a fun r member => apart r member a ⟨by omega, by omega⟩
      rw [List.length_append, Memory.read_length, Memory.read_add, ← earlier, now]

theorem close (flow : Flow c m x y h) (s : StreamWriter) (post : Post) :
    Flow c m x
      { y with
        self := s
        tasks := []
        posts := y.posts ++ [post]
        done := y.done ++ [y.current]
        current := [] } h where
  capacity := flow.capacity
  bounded := flow.bounded
  order := by simpa [Side.moved] using flow.order
  reported := flow.reported
  stored := flow.stored
  frame := flow.frame
  source i q bytes accepted moved apart := by
    rcases concat_getElem? moved with moved | ⟨_, rfl⟩
    · exact flow.source i q bytes accepted moved apart
    · rfl

end Writing

end Flow

/-! ### The steps -/

namespace Pipe
variable {c : Nat} {m : Memory UInt8} {p p' : Pipe} {e : PipeEvent}

structure Flowing (c : Nat) (m : Memory UInt8) (p : Pipe) : Prop where
  reading : p.reading.Sound reader ReadKind.single ReadKind.Plain (·.readBuffer = [])
  writing : p.writing.Sound writer WriteKind.single (fun _ => True) (fun _ => True)
  flow : Flow c m p.reading p.writing p.shared

theorem Flowing.fits (flowing : Flowing c m p) (direction : Direction) (n a : Nat) :
    (p.shared.transfer direction n a).2.length ≤ n := by
  apply Shared.transfer_length
  rw [flowing.flow.capacity]
  exact flowing.flow.bounded

theorem read_flowing (flowing : Flowing c m p) {q : Request ReadKind} (allowed : p.Allowed (.read q))
    {reading : Side ReadKind StreamReader} {shared : Shared} (taken : p.reading.call reader q p.shared = (reading, shared)) :
    Flowing c m { p with reading, shared } := by
  obtain ⟨settled, kind, untimed⟩ := allowed
  have idle := flowing.reading.idle settled
  obtain ⟨s, dump, good, slot, called⟩ := Side.call_idle reader_piecewise flowing.reading.good idle kind untimed
  rw [called, Prod.mk.injEq] at taken
  obtain ⟨rfl, rfl⟩ := taken
  refine ⟨Side.call_sound flowing.reading idle kind good slot dump (flowing.fits _ _ _), flowing.writing, ?_⟩
  have accepted := flowing.flow.accept_read idle.current q
  have last : (p.reading.accepted ++ [q])[p.reading.posts.length]? = some q := by
    rw [← settled, List.getElem?_concat_length]
  have moved := accepted.receive last (by simp [idle.current]) s
    [Side.task (p.reading.self.counter + 1) dump (p.shared.transfer .input q.size q.data).2 q] rfl
  simp only [idle.current, List.length_nil, Nat.sub_zero, Nat.add_zero, List.nil_append] at moved
  exact moved

theorem write_flowing (flowing : Flowing c m p) {q : Request WriteKind} (allowed : p.Allowed (.write q))
    {writing : Side WriteKind StreamWriter} {shared : Shared} (taken : p.writing.call writer q p.shared = (writing, shared)) :
    Flowing c m { p with writing, shared } := by
  obtain ⟨settled, untimed⟩ := allowed
  have idle := flowing.writing.idle settled
  have paired := flowing.writing.paired
  obtain ⟨s, dump, good, slot, called⟩ := Side.call_idle writer_piecewise flowing.writing.good idle trivial untimed
  rw [called, Prod.mk.injEq] at taken
  obtain ⟨rfl, rfl⟩ := taken
  refine ⟨flowing.reading, Side.call_sound flowing.writing idle trivial good slot dump (flowing.fits _ _ _), ?_⟩
  have accepted := flowing.flow.accept_write settled paired idle.current q
  have last : (p.writing.accepted ++ [q])[p.writing.posts.length]? = some q := by
    rw [← settled, List.getElem?_concat_length]
  have moved := accepted.put last paired (by simp [idle.current]) s
    [Side.task (p.writing.self.counter + 1) dump (p.shared.transfer .output q.size q.data).2 q] rfl
  simp only [idle.current, List.length_nil, Nat.sub_zero, Nat.add_zero, List.nil_append] at moved
  exact moved

theorem runRead_flowing (flowing : Flowing c m p) {i : Nat} {reading : Side ReadKind StreamReader} {shared : Shared}
    (taken : p.reading.run reader i p.shared = some (reading, shared)) : Flowing c m { p with reading, shared } := by
  obtain ⟨q, kind, serving, good, turn⟩ := flowing.reading.turn reader_piecewise taken
  refine ⟨Side.turn_sound flowing.reading kind serving good (flowing.fits _) turn, flowing.writing, ?_⟩
  cases turn with
  | more s dump out _ _ eq _ => exact flowing.flow.receive serving.last serving.bound s _ eq
  | last s _ _ => exact flowing.flow.report serving.last s q.callback
  | lost s =>
    obtain ⟨capacity, bounded, order, reported, stored, frame, source⟩ := flowing.flow
    exact ⟨capacity, bounded, order, reported, stored, frame, source⟩

theorem runWrite_flowing (flowing : Flowing c m p) {i : Nat} {writing : Side WriteKind StreamWriter} {shared : Shared}
    (taken : p.writing.run writer i p.shared = some (writing, shared)) : Flowing c m { p with writing, shared } := by
  obtain ⟨q, kind, serving, good, turn⟩ := flowing.writing.turn writer_piecewise taken
  refine ⟨flowing.reading, Side.turn_sound flowing.writing kind serving good (flowing.fits _) turn, ?_⟩
  cases turn with
  | more s dump out _ _ eq _ => exact flowing.flow.put serving.last flowing.writing.paired serving.bound s _ eq
  | last s _ _ => exact flowing.flow.close s _
  | lost s =>
    obtain ⟨capacity, bounded, order, reported, stored, frame, source⟩ := flowing.flow
    exact ⟨capacity, bounded, order, reported, stored, frame, source⟩

theorem step_flowing (flowing : Flowing c m p) (allowed : p.Allowed e) (taken : p.step e = some p') :
    Flowing c m p' := by
  cases e with
  | read q =>
    obtain rfl := Option.some.inj taken
    exact read_flowing flowing allowed rfl
  | write q =>
    obtain rfl := Option.some.inj taken
    exact write_flowing flowing allowed rfl
  | runRead i =>
    obtain ⟨⟨reading, shared⟩, ran, rfl⟩ := Option.map_eq_some_iff.mp taken
    exact runRead_flowing flowing ran
  | runWrite i =>
    obtain ⟨⟨writing, shared⟩, ran, rfl⟩ := Option.map_eq_some_iff.mp taken
    exact runWrite_flowing flowing ran

theorem Flowing.fifo (flowing : Flowing c m p) : Fifo c m p where
  capacity := flowing.flow.capacity
  bounded := flowing.flow.bounded
  order := flowing.flow.order
  reported := flowing.flow.reported
  reads _ _ posted := flowing.reading.finished posted
  source := flowing.flow.source
  writes _ _ posted := flowing.writing.finished posted
  beginning := by
    have order := flowing.flow.order
    rw [Side.moved, List.append_assoc] at order
    rw [received, List.flatMap_def, flowing.flow.reported, ← order]
    exact List.prefix_append _ _

end Pipe

open Pipe

/-- Whatever the sizes of the requests and the order in which their continuations run, what the
reads are given and what is still in the buffer is what the writes have put, and each whole
request ends with exactly its count. -/
theorem pipe_fifo {r : StreamReader} {t : StreamWriter} {c : Nat} {m : Memory UInt8} {es : List PipeEvent} {p : Pipe}
    (idle : r.readId = 0 ∧ t.writeId = 0) (empty : r.readBuffer = [])
    (run : Steps Pipe.step Pipe.Allowed ⟨{ self := r }, { self := t }, ⟨⟨[], c⟩, m⟩⟩ es p) : Fifo c m p := by
  have start : Flowing c m ⟨{ self := r }, { self := t }, ⟨⟨[], c⟩, m⟩⟩ := by
    refine ⟨⟨empty, rfl, Or.inl ⟨idle.1, rfl, rfl, rfl⟩, nofun⟩, ⟨trivial, rfl, Or.inl ⟨idle.2, rfl, rfl, rfl⟩, nofun⟩, ?_⟩
    exact ⟨rfl, Nat.zero_le _, rfl, rfl, nofun, fun _ _ => rfl, nofun⟩
  exact (run.invariant start fun _ _ _ flowing allowed taken => step_flowing flowing allowed taken).fifo

/-- Five bytes through a buffer of two, to a read of three and a read of two. Both sides poll the
stream in vain. -/
theorem pipe_fifo_pieces :
    ∃ es p, Steps Pipe.step Pipe.Allowed
        ⟨{ self := .blank }, { self := .blank }, ⟨⟨[], 2⟩, Memory.write (fun _ => 0) 0 [1, 2, 3, 4, 5]⟩⟩ es p ∧
      p.received = [1, 2, 3, 4, 5] ∧ Fifo 2 (Memory.write (fun _ => 0) 0 [1, 2, 3, 4, 5]) p := by
  obtain ⟨p, run, seen⟩ : ∃ p, Steps Pipe.step Pipe.Allowed
      ⟨{ self := .blank }, { self := .blank }, ⟨⟨[], 2⟩, Memory.write (fun _ => 0) 0 [1, 2, 3, 4, 5]⟩⟩
      [.read ⟨.read, 3, 10, 1, 0⟩, .runRead 0, .write ⟨.write, 5, 0, 2, 0⟩, .runWrite 0, .runRead 0, .runWrite 0,
        .runRead 0, .runRead 0, .runWrite 0, .read ⟨.read, 2, 20, 3, 0⟩, .runRead 0, .runWrite 0] p ∧
      p.received = [1, 2, 3, 4, 5] := exists_of_exec (by decide)
  exact ⟨_, p, run, seen, pipe_fifo ⟨rfl, rfl⟩ rfl run⟩

end RtacAsio
