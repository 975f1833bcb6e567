import RtacAsio.Lib.Lines
import RtacAsio.Reader.Turns

/-! One `async_read_until` over its leftover and over the bytes that the stream transfers. -/

namespace RtacAsio
open Lib

namespace StreamReader
variable {delimiter : Int8} {bs : List UInt8}

/-! ### The two comparisons with the delimiter -/

theorem toInt8_eq_iff {b : UInt8} : b.toInt8 = delimiter ↔ b = delimiter.toUInt8 := by
  constructor
  · rintro rfl
    rfl
  · rintro rfl
    rfl

theorem toInt_eq (delimiter : Int8) :
    delimiter.toInt = if 2 * delimiter.toUInt8.toNat < 256 then (delimiter.toUInt8.toNat : Int)
      else delimiter.toUInt8.toNat - 256 :=
  BitVec.toInt_eq_toNat_cond delimiter.toBitVec

theorem isDelimiter_iff (positive : 0 ≤ delimiter) {b : UInt8} :
    isDelimiter delimiter b = true ↔ b = delimiter.toUInt8 := by
  have positive : 0 ≤ delimiter.toInt := Int8.le_iff_toInt_le.mp positive
  have cond := toInt_eq delimiter
  have bound := delimiter.toUInt8.toNat_lt
  rw [isDelimiter, beq_iff_eq, ← UInt8.toNat_inj]
  split at cond <;> omega

theorem isDelimiter_negative (negative : delimiter < 0) (b : UInt8) : isDelimiter delimiter b = false := by
  have negative : delimiter.toInt < 0 := Int8.lt_iff_toInt_lt.mp negative
  rw [isDelimiter, beq_eq_false_iff_ne]
  omega

/-! ### Where the two searches stop -/

theorem searchLoop_found {k i : Nat} {rest : List UInt8} (h : searchLoop delimiter bs k = some (i, rest)) :
    ∃ body b, bs = body ++ b :: rest ∧ i = k + (body.length + 1) ∧ isDelimiter delimiter b = true ∧
      ∀ x ∈ body, isDelimiter delimiter x = false := by
  induction bs generalizing k with
  | nil => simp [searchLoop] at h
  | cons c bs ih =>
    unfold searchLoop at h
    split at h
    · rename_i found
      obtain ⟨rfl, rfl⟩ := Prod.mk.inj (Option.some.inj h)
      exact ⟨[], c, rfl, rfl, found, by simp⟩
    · rename_i other
      obtain ⟨body, b, rfl, rfl, found, none⟩ := ih h
      refine ⟨c :: body, b, rfl, by simp; omega, found, ?_⟩
      rw [List.forall_mem_cons]
      exact ⟨by simpa using other, none⟩

theorem searchLoop_none {k : Nat} (h : searchLoop delimiter bs k = none) : ∀ x ∈ bs, isDelimiter delimiter x = false := by
  induction bs generalizing k with
  | nil => simp
  | cons c bs ih =>
    unfold searchLoop at h
    split at h
    · cases h
    · rename_i other
      rw [List.forall_mem_cons]
      exact ⟨by simpa using other, ih h⟩

/-- The scan of the leftover stops after the first delimiter, or at the requested size. -/
theorem leftoverStops_at {size : Nat} (positive : 0 < size) (h : leftoverStops delimiter size bs = true) :
    (∃ body b rest, bs = body ++ b :: rest ∧ leftoverTaken delimiter size bs = body.length + 1 ∧ body.length < size ∧
      b.toInt8 = delimiter ∧ ∀ x ∈ body, x.toInt8 ≠ delimiter) ∨
    (leftoverTaken delimiter size bs = size ∧ size ≤ bs.length ∧ ∀ x ∈ bs.take size, x.toInt8 ≠ delimiter) := by
  induction bs generalizing size with
  | nil => simp [leftoverStops] at h
  | cons c bs ih =>
    by_cases found : c.toInt8 = delimiter
    · exact Or.inl ⟨[], c, bs, rfl, by simp [leftoverTaken, found], positive, found, by simp⟩
    · by_cases last : size ≤ 1
      · right
        obtain rfl : size = 1 := by omega
        simp [leftoverTaken, found]
      · obtain ⟨n, rfl⟩ : ∃ n, size = n + 1 := ⟨size - 1, by omega⟩
        simp only [leftoverStops, found, last, or_self, ↓reduceIte, Nat.add_sub_cancel] at h
        simp only [leftoverTaken, found, last, or_self, ↓reduceIte, Nat.add_sub_cancel]
        rcases ih (by omega) h with ⟨body, b, rest, rfl, taken, short, hit, none⟩ | ⟨taken, long, none⟩
        · left
          refine ⟨c :: body, b, rest, rfl, by simp [taken], by simp; omega, hit, ?_⟩
          rw [List.forall_mem_cons]
          exact ⟨found, none⟩
        · right
          refine ⟨by rw [taken], by simpa using long, ?_⟩
          rw [List.take_succ_cons, List.forall_mem_cons]
          exact ⟨found, none⟩

theorem leftoverStops_none {size : Nat} (h : leftoverStops delimiter size bs = false) :
    ∀ x ∈ bs, x.toInt8 ≠ delimiter := by
  induction bs generalizing size with
  | nil => simp
  | cons c bs ih =>
    simp only [leftoverStops, Bool.if_true_left, Bool.or_eq_false_iff, decide_eq_false_iff_not, not_or] at h
    rw [List.forall_mem_cons]
    exact ⟨h.1.1, ih h.2⟩

end StreamReader

/-! ### The request seen from outside -/

section Scans
variable {w : World ReadKind StreamReader} {q : Request ReadKind} {delimiter : Int8} {got bytes : List UInt8}

/-- The request `q` has counted `got`, which is in its buffer, and waits for the operation `op`. -/
structure Scanning (q : Request ReadKind) (delimiter : Int8) (got : List UInt8) (op : Op ReadKind)
    (w : World ReadKind StreamReader) : Prop where
  ops : w.ops = [op]
  queue : w.queue = []
  cont : op.handler.cont = ⟨.readUntil delimiter, w.self.readId⟩
  current : w.self.readId ≠ 0
  size : w.self.requestedSize = q.size
  processed : w.self.processed = got.length
  dst : w.self.dst = q.data
  callback : w.self.callback = q.callback
  target : op.data = q.data + got.length
  empty : w.self.readBuffer = []
  content : w.memory.read q.data got.length = got

/-- The request `q` has reported `bytes` after the callbacks `before` and left `left` over. -/
structure Reported (q : Request ReadKind) (bytes left : List UInt8) (before : List Post)
    (w : World ReadKind StreamReader) : Prop where
  posts : w.posts = before ++ [⟨q.callback, .success, bytes.length, bytes, false⟩]
  ops : w.ops = []
  queue : w.queue = []
  idle : w.self.readId = 0
  left : w.self.readBuffer = left

/-- What does not change while a request is in progress. -/
structure SameRequest (w w' : World ReadKind StreamReader) : Prop where
  counter : w'.self.readCounter = w.self.readCounter
  waits : w'.waits = w.waits
  fired : w'.fired = w.fired
  accepted : w'.accepted = w.accepted
  traffic : w'.traffic = w.traffic

/-- What an accepted `async_read_until` does before it returns. -/
inductive Started (q : Request ReadKind) (delimiter : Int8) (w w' : World ReadKind StreamReader) : Prop where
  | reported : StreamReader.leftoverStops delimiter q.size w.self.readBuffer = true →
      Reported q (w.self.readBuffer.take (StreamReader.leftoverTaken delimiter q.size w.self.readBuffer))
        (w.self.readBuffer.drop (StreamReader.leftoverTaken delimiter q.size w.self.readBuffer)) w.posts w' →
      Started q delimiter w w'
  | scanning (op : Op ReadKind) : StreamReader.leftoverStops delimiter q.size w.self.readBuffer = false →
      Scanning q delimiter w.self.readBuffer op w' → op.count = q.size → op.moved = none → w'.posts = w.posts →
      Started q delimiter w w'

/-- What the completion of the operation does, when it transferred `bytes`. -/
inductive Continued (q : Request ReadKind) (delimiter : Int8) (got bytes : List UInt8) (before : List Post)
    (w : World ReadKind StreamReader) : Prop where
  | found (body : List UInt8) (b : UInt8) (rest : List UInt8) : bytes = body ++ b :: rest →
      StreamReader.isDelimiter delimiter b = true → (∀ x ∈ body, StreamReader.isDelimiter delimiter x = false) →
      Reported q (got ++ body ++ [b]) rest before w → Continued q delimiter got bytes before w
  | full : (∀ x ∈ bytes, StreamReader.isDelimiter delimiter x = false) → q.size ≤ got.length + bytes.length →
      Reported q (got ++ bytes) [] before w → Continued q delimiter got bytes before w
  | scanning (op : Op ReadKind) : (∀ x ∈ bytes, StreamReader.isDelimiter delimiter x = false) →
      got.length + bytes.length < q.size → Scanning q delimiter (got ++ bytes) op w →
      op.count = q.size - (got.length + bytes.length) → op.moved = none → w.posts = before →
      Continued q delimiter got bytes before w

open World

theorem conclude_scanning {v : World ReadKind StreamReader} {s : Slot} {c : Cont ReadKind} {count : Nat}
    {dump : Option Nat} (kind : c.kind = .readUntil delimiter) (nonzero : c.id ≠ 0) (ops : v.ops = [])
    (queue : v.queue = []) (slot : v.self.toSlot = { s with id := c.id })
    (request : s.requestedSize = q.size ∧ s.data = q.data ∧ s.callback = q.callback) (processed : s.processed = got.length)
    (empty : v.self.readBuffer = []) (content : v.memory.read q.data got.length = got) :
    Scanning q delimiter got ⟨count, q.data + got.length, ⟨c, dump⟩, none⟩
      (v.conclude s c (.transfer count dump) false) := by
  obtain ⟨size, data, callback⟩ := request
  have id : v.self.readId = c.id := congrArg Slot.id slot
  refine ⟨?_, queue, ?_, id ▸ nonzero, ?_, ?_, ?_, ?_, rfl, empty, content⟩
  · simp only [conclude, ops, data, processed, List.nil_append]
  · rw [conclude_self, id, ← kind]
  · exact (congrArg Slot.requestedSize slot).trans size
  · exact (congrArg Slot.processed slot).trans processed
  · exact (congrArg Slot.data slot).trans data
  · exact (congrArg Slot.callback slot).trans callback

theorem conclude_reported {v : World ReadKind StreamReader} {s : Slot} {c : Cont ReadKind} {left : List UInt8}
    {before : List Post} (nonzero : c.id ≠ 0) (ops : v.ops = []) (queue : v.queue = []) (idle : v.self.readId = 0)
    (request : s.data = q.data ∧ s.callback = q.callback) (processed : s.processed = bytes.length)
    (content : v.memory.read q.data bytes.length = bytes) (buffer : v.self.readBuffer = left)
    (posts : v.posts = before) : Reported q bytes left before (v.conclude s c (.done .success) false) := by
  obtain ⟨data, callback⟩ := request
  rw [conclude_callback s .success false v nonzero, data, callback, processed, content, posts]
  exact ⟨rfl, ops, queue, idle, buffer⟩

theorem call_started (kind : q.kind = .readUntil delimiter) (idle : w.self.readId = 0) (ops : w.ops = [])
    (queue : w.queue = []) (fresh : w.self.readCounter + 1 ≠ 0) : Started q delimiter w (w.call reader q) := by
  have amount : StreamReader.taken q w.self = StreamReader.leftoverTaken delimiter q.size w.self.readBuffer := by
    simp only [StreamReader.taken, kind]
  obtain ⟨bs, buffer, next, turn, eq⟩ := call_reader_idle q idle
  have written (bs : List UInt8) : (w.memory.write q.data bs).read q.data bs.length = bs := Memory.read_write_same _ _ _
  rw [eq]
  cases turn with
  | fromStream empty =>
    have none : StreamReader.taken q w.self = w.self.readBuffer.length := by
      rw [StreamReader.taken_empty q empty, empty, List.length_nil]
    refine .scanning _ (by rw [empty]; rfl) (conclude_scanning kind fresh ?_ ?_ ?_ ⟨rfl, rfl, rfl⟩ none ?_ ?_) rfl rfl ?_
    · simp [World.stored, ops]
    · simp [World.stored, queue]
    · rw [stored_self, arm_self]
      rfl
    · rw [stored_self, arm_self]
      rfl
    · rw [empty, List.length_nil, Memory.read_zero]
    · simp [conclude, World.stored]
  | fromBuffer plain => rcases plain with plain | plain <;> simp [kind] at plain
  | stopped d kind' left stop =>
    obtain rfl : delimiter = d := by simpa [kind] using kind'
    have short := StreamReader.leftoverTaken_le delimiter q.size w.self.readBuffer
    apply Started.reported stop
    rw [← amount] at short ⊢
    refine conclude_reported fresh ?_ ?_ ?_ ⟨rfl, rfl⟩ (List.length_take_of_le short).symm ?_ ?_ ?_
    · simp [World.stored, ops]
    · simp [World.stored, queue]
    · rw [stored_self, arm_self]
      rfl
    · simp only [World.stored, arm_memory]
      exact written (w.self.readBuffer.take (StreamReader.taken q w.self))
    · rw [stored_self, arm_self]
      rfl
    · simp [World.stored]
  | scanned d kind' left running =>
    obtain rfl : delimiter = d := by simpa [kind] using kind'
    have all : StreamReader.taken q w.self = w.self.readBuffer.length := by
      rw [amount, (StreamReader.leftoverTaken_running running).1]
    refine .scanning _ running (conclude_scanning kind fresh ?_ ?_ ?_ ⟨rfl, rfl, rfl⟩ all ?_ ?_) rfl rfl ?_
    · simp [World.stored, ops]
    · simp [World.stored, queue]
    · rw [stored_self, arm_self]
      rfl
    · rw [stored_self, arm_self]
      rfl
    · simp only [World.stored, arm_memory]
      exact written w.self.readBuffer
    · simp [conclude, World.stored]

theorem call_moved (idle : w.self.readId = 0) : (w.call reader q).moved = w.moved := by
  obtain ⟨bs, buffer, next, turn, eq⟩ := call_reader_idle q idle
  obtain ⟨_, _, _, _, eq', _⟩ := conclude_adds { (w.self.opened q).toSlot with processed := StreamReader.taken q w.self }
    ⟨q.kind, w.self.readCounter + 1⟩ next false _
  rw [eq, eq', World.moved]
  simp only [World.stored, arm_traffic]
  rfl

theorem call_same (idle : w.self.readId = 0) (untimed : q.timeoutMillis = 0) :
    (w.call reader q).self.readCounter = w.self.readCounter + 1 ∧ (w.call reader q).accepted = w.accepted ++ [q] ∧
      (w.call reader q).waits = w.waits ∧ (w.call reader q).fired = w.fired := by
  obtain ⟨bs, buffer, next, turn, eq⟩ := call_reader_idle q idle
  rw [eq, arm_untimed _ _ untimed]
  obtain ⟨_, _, _, _, eq', _⟩ := conclude_adds { (w.self.opened q).toSlot with processed := StreamReader.taken q w.self }
    ⟨q.kind, w.self.readCounter + 1⟩ next false _
  rw [eq']
  exact ⟨rfl, rfl, rfl, rfl⟩

theorem Scanning.only {i : Nat} {op op' : Op ReadKind} (h : Scanning q delimiter got op w) (found : w.ops[i]? = some op') :
    i = 0 ∧ op = op' := by
  rw [h.ops] at found
  exact singleton_getElem? found

/-- The operation does not complete before the stream has moved its bytes. -/
theorem Scanning.waiting {i : Nat} {err : ErrorCode} {op : Op ReadKind} {w' : World ReadKind StreamReader}
    (h : Scanning q delimiter got op w) (unmoved : op.moved = none) : w.step reader (.complete i err) ≠ some w' := by
  intro taken
  cases step_cases taken with
  | complete i op' bytes _ found moved =>
    obtain ⟨rfl, rfl⟩ := h.only found
    rw [moved] at unmoved
    cases unmoved

/-- The stream puts the bytes behind those that were counted. -/
theorem Scanning.moved {op : Op ReadKind} (h : Scanning q delimiter got op w) (bytes : List UInt8) :
    Scanning q delimiter got { op with moved := some bytes } (w.move reader 0 op bytes) ∧
      (w.move reader 0 op bytes).memory.read (q.data + got.length) bytes.length = bytes := by
  have before := Memory.read_write_before w.memory bytes (Nat.le_of_eq h.target.symm)
  refine ⟨⟨by simp [move, h.ops], h.queue, h.cont, h.current, h.size, h.processed, h.dst, h.callback, h.target, h.empty,
    ?_⟩, ?_⟩
  · simp only [move, reader]
    rw [before, h.content]
  · simp only [move, reader, ← h.target]
    exact Memory.read_write_same _ _ _

theorem moved_move (i : Nat) (op : Op ReadKind) (bytes : List UInt8) :
    (w.move reader i op bytes).moved = w.moved ++ bytes := by
  simp [World.moved, move]

theorem resume_continued {op : Op ReadKind} (h : Scanning q delimiter got op w)
    (content : w.memory.read (q.data + got.length) bytes.length = bytes) :
    Continued q delimiter got bytes w.posts (World.resume reader op.handler.cont .success bytes.length { w with ops := [] }) := by
  have current : op.handler.cont.id = w.self.readId := by rw [h.cont]
  have kind : op.handler.cont.kind = .readUntil delimiter := by rw [h.cont]
  have nonzero : op.handler.cont.id ≠ 0 := current ▸ h.current
  have both (n : Nat) (prefix_ : n ≤ bytes.length) :
      w.memory.read q.data (got.length + n) = got ++ bytes.take n := by
    rw [Memory.read_add, h.content, ← Memory.take_read _ prefix_, content]
  have all : w.memory.read q.data (got ++ bytes).length = got ++ bytes := by
    rw [List.length_append, both bytes.length (Nat.le_refl _), List.take_length]
  have searched : w.memory.read (w.self.dst + w.self.processed) bytes.length = bytes := by
    rw [h.dst, h.processed, content]
  have missed (absent : ∀ d, op.handler.cont.kind = .readUntil d →
      StreamReader.searchLoop d (w.memory.read (w.self.dst + w.self.processed) bytes.length) 0 = none) :
      ∀ x ∈ bytes, StreamReader.isDelimiter delimiter x = false := by
    have none := absent delimiter kind
    rw [searched] at none
    exact StreamReader.searchLoop_none none
  obtain ⟨processed, bs, buffer, next, turn, eq⟩ :=
    resume_reader_current (w := { w with ops := [] }) .success bytes.length current
  rw [eq]
  cases turn with
  | readSome other => simp [kind] at other
  | found d i rest kind' search =>
    obtain rfl : delimiter = d := by simpa [kind] using kind'
    rw [searched] at search
    obtain ⟨body, b, split, rfl, hit, none⟩ := StreamReader.searchLoop_found search
    have taken : bytes.take (body.length + 1) = body ++ [b] := by
      rw [split, take_through]
    have size : (got ++ body ++ [b]).length = got.length + (body.length + 1) := by
      simp only [List.length_append, List.length_singleton, Nat.add_assoc]
    rw [stored_nil]
    refine .found body b rest split hit none (conclude_reported nonzero rfl h.queue rfl ⟨h.dst, h.callback⟩ ?_ ?_ ?_ rfl)
    · rw [size]
      simp [h.processed]
    · rw [size, both (body.length + 1) (by simp [split]), taken, List.append_assoc]
    · simp [StreamReader.turned, h.empty]
  | ended other absent stop =>
    have full : q.size ≤ got.length + bytes.length := by
      rw [← h.size, ← h.processed]
      exact stop.resolve_left (by decide)
    refine .full (missed absent) full (conclude_reported nonzero rfl h.queue rfl ⟨h.dst, h.callback⟩ ?_ ?_ h.empty rfl)
    · simp [h.processed]
    · simpa [World.stored] using all
  | again _ _ _ other absent _ more read =>
    have short : got.length + bytes.length < q.size := by
      rw [← h.size, ← h.processed]
      exact more
    cases read with
    | fromBuffer left => exact (left h.empty).elim
    | fromStream =>
      refine .scanning _ (missed absent) short (conclude_scanning kind nonzero rfl h.queue ?_ ⟨h.size, h.dst, h.callback⟩ ?_ rfl ?_)
        ?_ rfl rfl
      · simp [World.stored, StreamReader.turned, Next.id, current]
      · simp [h.processed]
      · simpa [World.stored] using all
      · rw [← h.size, ← h.processed]

theorem resume_same (c : Cont ReadKind) (err : ErrorCode) (n : Nat) : SameRequest w (w.resume reader c err n) := by
  by_cases current : c.id = w.self.readId
  · obtain ⟨processed, bs, buffer, next, turn, eq⟩ := resume_reader_current (w := w) err n current
    obtain ⟨_, _, _, _, eq', _⟩ := conclude_adds { w.self.toSlot with processed } c next false
      (({ w with counts := w.counts ++ [(c.id, StreamReader.counted c n w.memory w.self)],
                 self := w.self.turned processed buffer next } : World ReadKind StreamReader).stored
        (w.self.dst + processed) bs)
    rw [eq, eq']
    exact ⟨rfl, rfl, rfl, rfl, rfl⟩
  · rw [resume_reader_stale err n current]
    exact ⟨rfl, rfl, rfl, rfl, rfl⟩

/-- The operation of the request in progress completes without an error. -/
theorem complete_continued {op : Op ReadKind} {i : Nat} {w' : World ReadKind StreamReader}
    (h : Scanning q delimiter got op w) (moved : op.moved = some bytes)
    (content : w.memory.read (q.data + got.length) bytes.length = bytes)
    (taken : w.step reader (.complete i .success) = some w') :
    Continued q delimiter got bytes w.posts w' ∧ SameRequest w w' := by
  cases step_cases taken with
  | complete i op' bytes' _ found moved' =>
    obtain ⟨rfl, rfl⟩ := h.only found
    obtain rfl : bytes = bytes' := Option.some.inj (moved.symm.trans moved')
    rw [h.ops, List.eraseIdx_cons_zero]
    obtain ⟨d, eq⟩ := handle_reader (w := { w with ops := [] }) op.handler .success bytes.length
    rw [eq]
    have scanning : Scanning q delimiter got op { w with self := { w.self with rxDump := d } } :=
      ⟨h.ops, h.queue, h.cont, h.current, h.size, h.processed, h.dst, h.callback, h.target, h.empty, h.content⟩
    obtain ⟨counter, waits, fired, accepted, traffic⟩ :=
      resume_same (w := { w with ops := [], self := { w.self with rxDump := d } }) op.handler.cont .success bytes.length
    exact ⟨resume_continued scanning content, counter, waits, fired, accepted, traffic⟩

end Scans

end RtacAsio
