import RtacAsio.KeptBusy
import RtacAsio.Reader.Turns

/-!
Conservation of the bytes that pass through `StreamReader`: what was reported to the
callbacks, followed by what is left over, against what the stream handed over.
-/

namespace RtacAsio
open Lib

/-- Requests without a timeout, each issued after the callback of the previous one, over a
stream that never moves more than it was asked for. -/
def Orderly (w : World ReadKind StreamReader) (e : Event ReadKind) : Prop :=
  e.OnCall (fun q => w.Settled ∧ q.timeoutMillis = 0) ∧ w.Honest e

/-- An `async_read_some` or `async_read` that finds bytes left over asks for all of them. -/
def Drains (w : World ReadKind StreamReader) (e : Event ReadKind) : Prop :=
  e.OnCall fun q => q.kind = .readSome ∨ q.kind = .read → w.self.readBuffer.length ≤ q.size

instance (w : World ReadKind StreamReader) (e : Event ReadKind) : Decidable (Orderly w e) :=
  inferInstanceAs (Decidable (_ ∧ _))

instance (w : World ReadKind StreamReader) (e : Event ReadKind) : Decidable (Drains w e) :=
  inferInstanceAs (Decidable (Event.OnCall _ _))

/-- The requests of which no byte is lost. -/
abbrev Draining (w : World ReadKind StreamReader) (e : Event ReadKind) : Prop :=
  Orderly w e ∧ Drains w e ∧ Numbered reader w e

section Phases
variable (w : World ReadKind StreamReader)

def InProgress : Prop := w.accepted.length = w.posts.length + 1

def progress : List UInt8 := w.memory.read w.self.dst w.self.processed

/-- A continuation of the request in progress. -/
structure Mine (c : Cont ReadKind) : Prop where
  id : c.id = w.self.readId
  fresh : c.kind = .readSome → w.self.processed = 0

/-- Where the bytes of a run are. In `stuck` the id counter has wrapped to 0 and the request
can no longer be called back. -/
inductive Phase : Prop where
  | settled : w.Settled → w.self.readId = 0 → w.ops = [] → w.queue = [] →
      w.reported ++ w.self.readBuffer = w.moved → Phase
  | waiting (op : Op ReadKind) : InProgress w → w.ops = [op] → w.queue = [] → op.moved = none →
      Mine w op.handler.cont → op.data = w.self.dst + w.self.processed → w.self.readBuffer = [] →
      w.reported ++ progress w = w.moved → Phase
  | arrived (op : Op ReadKind) (bytes : List UInt8) : InProgress w → w.ops = [op] → w.queue = [] →
      op.moved = some bytes → Mine w op.handler.cont → w.self.readBuffer = [] →
      w.memory.read (w.self.dst + w.self.processed) bytes.length = bytes →
      w.reported ++ progress w ++ bytes = w.moved → Phase
  | posted (p : Posted ReadKind) : InProgress w → w.ops = [] → w.queue = [p] → Mine w p.cont →
      (∀ delimiter, p.cont.kind ≠ .readUntil delimiter) → w.self.readBuffer = [] →
      w.reported ++ progress w ++ w.memory.read (w.self.dst + w.self.processed) p.count = w.moved → Phase
  | stuck : InProgress w → w.self.readId = 0 → w.ops = [] → w.queue = [] → Phase

end Phases

structure Conserving (w : World ReadKind StreamReader) : Prop where
  waits : w.waits = []
  fired : w.fired = []
  phase : Phase w

section Turns
variable {w : World ReadKind StreamReader} {s : Slot} {c : Cont ReadKind}

theorem conclude_transfer {count : Nat} {dump : Option Nat} (busy : InProgress w) (ops : w.ops = [])
    (queue : w.queue = []) (slot : w.self.toSlot = { s with id := c.id })
    (fresh : c.kind = .readSome → s.processed = 0) (empty : w.self.readBuffer = [])
    (bytes : w.reported ++ w.memory.read s.data s.processed = w.moved) :
    Phase (w.conclude s c (.transfer count dump) false) := by
  have data : w.self.data = s.data := by rw [slot]
  have processed : w.self.processed = s.processed := by rw [slot]
  have id : c.id = w.self.id := by rw [slot]
  refine .waiting ⟨count, s.data + s.processed, ⟨c, dump⟩, none⟩ busy ?_ queue rfl ⟨id, ?_⟩ ?_ empty ?_
  · simp [World.conclude, ops]
  · simpa [World.conclude, processed] using fresh
  · simp [World.conclude, data, processed]
  · simpa [progress, World.conclude, World.reported, World.moved, data, processed] using bytes

theorem conclude_posted {count : Nat} (busy : InProgress w) (ops : w.ops = [])
    (queue : w.queue = []) (slot : w.self.toSlot = { s with id := c.id })
    (fresh : c.kind = .readSome → s.processed = 0) (plain : ∀ delimiter, c.kind ≠ .readUntil delimiter)
    (empty : w.self.readBuffer = [])
    (bytes : w.reported ++ w.memory.read s.data s.processed ++ w.memory.read (s.data + s.processed) count =
      w.moved) :
    Phase (w.conclude s c (.postCont count) false) := by
  have data : w.self.data = s.data := by rw [slot]
  have processed : w.self.processed = s.processed := by rw [slot]
  have id : c.id = w.self.id := by rw [slot]
  refine .posted ⟨c, .success, count⟩ busy ops ?_ ⟨id, ?_⟩ plain empty ?_
  · simp [World.conclude, queue]
  · simpa [World.conclude, processed] using fresh
  · simpa [progress, World.conclude, World.reported, World.moved, data, processed] using bytes

theorem conclude_done {err : ErrorCode} (busy : InProgress w) (ops : w.ops = [])
    (queue : w.queue = []) (idle : w.self.readId = 0)
    (bytes : w.reported ++ w.memory.read s.data s.processed ++ w.self.readBuffer = w.moved) :
    Phase (w.conclude s c (.done err) false) := by
  simp only [World.conclude]
  split
  · exact .stuck busy idle ops queue
  · refine .settled ?_ idle ops queue ?_
    · simpa [World.Settled, InProgress] using busy
    · simpa [World.reported, World.moved] using bytes

theorem call_conserving {q : Request ReadKind} (h : Conserving w) (settled : w.Settled) (untimed : q.timeoutMillis = 0)
    (drains : q.kind = .readSome ∨ q.kind = .read → w.self.readBuffer.length ≤ q.size) :
    Conserving (w.call reader q) := by
  obtain ⟨waits, fired, phase⟩ := h
  have notBusy : ¬ InProgress w := by unfold World.Settled at settled; unfold InProgress; omega
  cases phase with
  | waiting _ busy => exact (notBusy busy).elim
  | arrived _ _ busy => exact (notBusy busy).elim
  | posted _ busy => exact (notBusy busy).elim
  | stuck busy => exact (notBusy busy).elim
  | settled _ idle ops queue conserved =>
    obtain ⟨bs, buffer, next, turn, eq⟩ := World.call_reader_idle q idle
    rw [eq, World.arm_untimed _ _ untimed]
    have busy : (w.accepted ++ [q]).length = w.posts.length + 1 := by
      simpa [World.Settled] using settled
    have stored : (w.memory.write q.data bs).read q.data bs.length = bs := Memory.read_write_same _ _ _
    refine ⟨(World.conclude_waits ..).trans waits, (World.conclude_fired ..).trans fired, ?_⟩
    cases turn with
    | fromStream empty =>
      refine conclude_transfer busy ops queue rfl (fun _ => StreamReader.taken_empty q empty) rfl ?_
      simpa [StreamReader.taken_empty q empty, World.stored, World.reported, World.moved, empty] using conserved
    | fromBuffer plain left =>
      have all := drains plain
      have untaken := StreamReader.taken_plain plain w.self
      have dropped : w.self.readBuffer.drop (q.size + 1) = [] := List.drop_eq_nil_of_le (by omega)
      refine conclude_posted busy ops queue rfl (fun _ => untaken) ?_ dropped ?_
      · rintro delimiter kind
        rcases plain with plain | plain <;> simp [plain] at kind
      · have copied : (w.memory.write q.data w.self.readBuffer).read q.data w.self.readBuffer.length =
            w.self.readBuffer := Memory.read_write_same _ _ _
        simpa [untaken, World.stored, World.reported, World.moved, StreamReader.opened, Slot.opened,
          List.take_of_length_le all, Nat.min_eq_right all, copied] using conserved
    | stopped delimiter kind left stop =>
      refine conclude_done busy ops queue rfl ?_
      have short : StreamReader.taken q w.self ≤ w.self.readBuffer.length := by
        simpa [StreamReader.taken, kind] using StreamReader.leftoverTaken_le delimiter q.size w.self.readBuffer
      generalize StreamReader.taken q w.self = n at short stored ⊢
      rw [List.length_take_of_le short] at stored
      simpa [World.stored, World.reported, World.moved, StreamReader.opened, Slot.opened, StreamReader.turned,
        stored] using conserved
    | scanned delimiter kind left running =>
      have all : StreamReader.taken q w.self = w.self.readBuffer.length := by
        simpa [StreamReader.taken, kind] using (StreamReader.leftoverTaken_running running).1
      refine conclude_transfer busy ops queue rfl ?_ rfl ?_
      · simp [kind]
      · simpa [all, World.stored, World.reported, World.moved, StreamReader.opened, Slot.opened, stored]
          using conserved

theorem resume_conserving {err : ErrorCode} {n : Nat} (waits : w.waits = []) (fired : w.fired = [])
    (busy : InProgress w) (ops : w.ops = []) (queue : w.queue = []) (mine : Mine w c) (empty : w.self.readBuffer = [])
    (bytes : w.reported ++ progress w ++ w.memory.read (w.self.dst + w.self.processed) n = w.moved) :
    Conserving (w.resume reader c err n) := by
  obtain ⟨processed, bs, buffer, next, turn, eq⟩ := World.resume_reader_current err n mine.id
  rw [eq]
  refine ⟨(World.conclude_waits ..).trans waits, (World.conclude_fired ..).trans fired, ?_⟩
  cases turn with
  | readSome kind =>
    refine conclude_done busy ops queue rfl ?_
    simpa [World.stored, World.reported, World.moved, StreamReader.turned, progress, mine.fresh kind, empty]
      using bytes
  | found delimiter i rest kind search =>
    refine conclude_done busy ops queue rfl ?_
    obtain ⟨j, rfl, bound, rfl⟩ := StreamReader.searchLoop_some search
    rw [Memory.read_length] at bound
    have split := List.take_append_drop j (w.memory.read (w.self.dst + w.self.processed) n)
    rw [Memory.take_read _ bound] at split
    simp only [StreamReader.dst] at split bytes
    simpa [World.stored, World.reported, World.moved, StreamReader.turned, progress, empty, Memory.read_add,
      split] using bytes
  | ended other absent stop =>
    refine conclude_done busy ops queue rfl ?_
    simpa [World.stored, World.reported, World.moved, StreamReader.turned, progress, empty, Memory.read_add]
      using bytes
  | again _ _ _ other absent _ _ read =>
    cases read with
    | fromBuffer left => exact (left empty).elim
    | fromStream =>
      refine conclude_transfer busy ops queue ?_ ?_ rfl ?_
      · simp [World.stored, StreamReader.turned, Next.id, mine.id]
      · exact fun kind => (other kind).elim
      · simpa [World.stored, World.reported, World.moved, progress, Memory.read_add] using bytes

end Turns

theorem step_conserving {w w' : World ReadKind StreamReader} {e : Event ReadKind} (h : Conserving w)
    (allowed : Orderly w e ∧ Drains w e) (taken : w.step reader e = some w') : Conserving w' := by
  obtain ⟨waits, fired, phase⟩ := h
  cases World.step_cases taken with
  | call q =>
    obtain ⟨settled, untimed⟩ := allowed.1.1
    exact call_conserving ⟨waits, fired, phase⟩ settled untimed (allowed.2)
  | move i op bytes found unmoved =>
    refine ⟨waits, fired, ?_⟩
    cases phase with
    | settled _ _ ops => simp [ops] at found
    | posted _ _ ops => simp [ops] at found
    | stuck _ _ ops => simp [ops] at found
    | arrived op' bytes' _ ops _ moved =>
      rw [ops] at found
      obtain ⟨rfl, rfl⟩ := singleton_getElem? found
      simp [moved] at unmoved
    | waiting op' busy ops queue _ mine at_ empty conserved =>
      rw [ops] at found
      obtain ⟨rfl, rfl⟩ := singleton_getElem? found
      refine .arrived { op' with moved := some bytes } bytes busy (by simp [World.move, ops]) queue rfl
        ⟨mine.id, mine.fresh⟩ empty ?_ ?_
      · simp only [World.move, reader, ← at_]
        exact Memory.read_write_same _ _ _
      · have before := Memory.read_write_before w.memory bytes (Nat.le_of_eq at_.symm)
        simp only [progress, World.reported, World.moved, World.move, reader] at conserved ⊢
        rw [before]
        simp [conserved]
  | complete i op bytes err found moved =>
    cases phase with
    | settled _ _ ops => simp [ops] at found
    | posted _ _ ops => simp [ops] at found
    | stuck _ _ ops => simp [ops] at found
    | waiting op' _ ops _ unmoved =>
      rw [ops] at found
      obtain ⟨rfl, rfl⟩ := singleton_getElem? found
      simp [moved] at unmoved
    | arrived op' bytes' busy ops queue moved' mine empty content conserved =>
      rw [ops] at found
      obtain ⟨rfl, rfl⟩ := singleton_getElem? found
      obtain rfl : bytes' = bytes := Option.some.inj (moved'.symm.trans moved)
      obtain ⟨d, eq⟩ := World.handle_reader (w := { w with ops := w.ops.eraseIdx 0 }) op'.handler err bytes'.length
      rw [eq]
      exact resume_conserving waits fired busy (by simp [ops]) queue ⟨mine.id, mine.fresh⟩ empty
        (by simpa [progress, World.reported, World.moved, content] using conserved)
  | deliver i p found =>
    cases phase with
    | settled _ _ _ queue => simp [queue] at found
    | waiting _ _ _ queue => simp [queue] at found
    | arrived _ _ _ _ queue => simp [queue] at found
    | stuck _ _ _ queue => simp [queue] at found
    | posted p' busy ops queue mine plain empty conserved =>
      rw [queue] at found
      obtain ⟨rfl, rfl⟩ := singleton_getElem? found
      exact resume_conserving waits fired busy ops (by simp [queue]) ⟨mine.id, mine.fresh⟩ empty
        (by simpa [progress, World.reported, World.moved] using conserved)
  | expire =>
    rw [World.expire_nothing waits]
    exact ⟨waits, fired, phase⟩
  | timer i id err found => simp [fired] at found

/-- Between two requests all that was handed over is reported or left over, and in the middle of one
nothing else is: the bytes are in order. -/
structure Conserved (w : World ReadKind StreamReader) : Prop where
  settled : w.self.readId = 0 ↔ w.Settled
  quiet : w.self.readId = 0 ↔ w.ops = [] ∧ w.queue = []
  bytes : w.self.readId = 0 → w.reported ++ w.self.readBuffer = w.moved
  order : w.reported ++ w.self.readBuffer <+: w.moved

theorem Conserving.conserved {w : World ReadKind StreamReader} (h : Conserving w) (pending : World.Pending reader w) :
    Conserved w := by
  obtain ⟨_, _, phase⟩ := h
  have settled : w.self.readId = 0 ↔ w.Settled := pending.settled_iff.symm
  have running (busy : InProgress w) : w.self.readId ≠ 0 := by
    intro idle
    have none := settled.mp idle
    unfold World.Settled at none
    unfold InProgress at busy
    omega
  -- While a request waits there is something that it waits for, and nothing is left over.
  have waits (busy : InProgress w) (under : w.ops ≠ [] ∨ w.queue ≠ []) (empty : w.self.readBuffer = [])
      (order : w.reported <+: w.moved) : Conserved w := by
    have busy := running busy
    refine ⟨settled, ⟨fun idle => (busy idle).elim, fun none => ?_⟩, fun idle => (busy idle).elim, ?_⟩
    · rcases under with some | some
      · exact (some none.1).elim
      · exact (some none.2).elim
    · rwa [empty, List.append_nil]
  cases phase with
  | settled _ idle ops queue conserved =>
    exact ⟨settled, ⟨fun _ => ⟨ops, queue⟩, fun _ => idle⟩, fun _ => conserved, conserved ▸ List.prefix_rfl⟩
  | waiting op busy ops _ _ _ _ empty conserved =>
    exact waits busy (Or.inl (by simp [ops])) empty ⟨_, conserved⟩
  | arrived op bytes busy ops _ _ _ empty _ conserved =>
    exact waits busy (Or.inl (by simp [ops])) empty ⟨_, by rw [← conserved, List.append_assoc]⟩
  | posted p busy _ queue _ _ empty conserved =>
    exact waits busy (Or.inr (by simp [queue])) empty ⟨_, by rw [← conserved, List.append_assoc]⟩
  | stuck busy idle => exact (running busy idle).elim

/-- No byte is lost, duplicated or reordered while the other primitives drain the leftover of a
read_until as a whole, and no request gets the id 0. -/
theorem reads_conserve_bytes {r : StreamReader} {m : Memory UInt8} {es : List (Event ReadKind)}
    {w : World ReadKind StreamReader} (idle : r.readId = 0) (empty : r.readBuffer = [])
    (run : Steps (World.step reader) Draining { self := r, memory := m } es w) : Conserved w := by
  have both : Conserving w ∧ World.Pending reader w := by
    refine run.invariant (P := fun w => Conserving w ∧ World.Pending reader w) ⟨⟨rfl, rfl, ?_⟩, ?_⟩ ?_
    · exact .settled rfl idle rfl rfl (by simp [empty, World.reported, World.moved])
    · have none : (reader.slot r).id = 0 := idle
      simp [World.Pending, none]
    · rintro t e u ⟨conserving, pending⟩ ⟨orderly, drains, numbered⟩ taken
      exact ⟨step_conserving conserving ⟨orderly, drains⟩ taken, World.step_pending reader_lawfulIdle pending numbered taken⟩
  exact both.1.conserved both.2

/-- A read_until that leaves two bytes over, and a read_some that asks for both. -/
theorem reads_conserve_bytes_drained :
    ∃ es w, Steps (World.step reader) Orderly { self := .blank, memory := fun _ => 0 } es w ∧
      w.self.readId = 0 ∧ w.moved = [97, 10, 98, 99] ∧ Conserved w := by
  obtain ⟨w, run, seen⟩ : ∃ w, Steps (World.step reader) Draining { self := .blank, memory := fun _ => 0 }
      [.call { kind := .readUntil 10, size := 4, data := 0, callback := 1 }, .move 0 [97, 10, 98, 99],
        .complete 0 .success, .call { kind := .readSome, size := 2, data := 8, callback := 2 }, .deliver 0] w ∧
      (w.self.readId, w.moved) = (0, [97, 10, 98, 99]) := exists_of_exec (by decide)
  simp only [Prod.mk.injEq] at seen
  exact ⟨_, w, run.weaken fun _ _ => And.left, seen.1, seen.2, reads_conserve_bytes rfl rfl run⟩

/-- A read_some of one byte consumes two of the leftover: the second one is lost. -/
theorem reads_lose_byte :
    ∃ es w, Steps (World.step reader) Orderly { self := .blank, memory := fun _ => 0 } es w ∧
      w.Settled ∧ w.moved = [97, 10, 98, 99] ∧ w.reported = [97, 10, 98] ∧ w.self.readBuffer = [] ∧
      w.reported ++ w.self.readBuffer ≠ w.moved := by
  obtain ⟨w, run, seen⟩ : ∃ w, Steps (World.step reader) Orderly { self := .blank, memory := fun _ => 0 }
      [.call { kind := .readUntil 10, size := 4, data := 0, callback := 1 }, .move 0 [97, 10, 98, 99],
        .complete 0 .success, .call { kind := .readSome, size := 1, data := 8, callback := 2 }, .deliver 0] w ∧
      (decide w.Settled, w.moved, w.reported, w.self.readBuffer) =
        (true, [97, 10, 98, 99], [97, 10, 98], []) := exists_of_exec (by decide)
  simp only [Prod.mk.injEq, decide_eq_true_eq] at seen
  obtain ⟨settled, moved, reported, empty⟩ := seen
  exact ⟨_, w, run, settled, moved, reported, empty, by rw [moved, reported, empty]; decide⟩

end RtacAsio
