import RtacAsio.Reader.Lawful
import RtacAsio.StringStream.Model
import RtacAsio.Writer.Lawful

/-!
Requests that are moved piece by piece: what a `StringStream` does for one side, and what one
side makes of it, the same for the reader and the writer.
-/

namespace RtacAsio
open Lib

/-! ### The loops of the stream -/

namespace StringStream

theorem readLoop_eq (buffer n k : Nat) (m : Memory UInt8) (s : StringStream) :
    readLoop buffer n k m s =
      (m.write (buffer + k) (s.buffer.take n), k + min n s.buffer.length, { s with buffer := s.buffer.drop n }) := by
  induction n generalizing k m s with
  | zero => simp [readLoop]
  | succ n ih =>
    unfold readLoop
    split
    · rename_i empty
      cases s
      simp_all
    · rename_i b rest some
      have both := m.write_append (buffer + k) [b] (rest.take n)
      rw [List.length_singleton, List.singleton_append] at both
      rw [ih, some, List.take_succ_cons, List.drop_succ_cons, List.length_cons, both]
      simp only [Nat.add_assoc, Prod.mk.injEq, true_and, and_true]
      omega

/-- The bytes are stored in front of the reader, and taken off the front of the buffer. -/
theorem asyncReadSome_eq (bufferSize buffer : Nat) (m : Memory UInt8) (s : StringStream) :
    s.asyncReadSome bufferSize buffer m =
      (m.write buffer (s.buffer.take bufferSize), (s.buffer.take bufferSize).length,
        { s with buffer := s.buffer.drop bufferSize }) := by
  rw [asyncReadSome, readLoop_eq, List.length_take, Nat.zero_add]
  rfl

theorem pushBack_room {s : StringStream} (b : UInt8) (room : s.buffer.length < s.capacity) :
    s.pushBack b = { s with buffer := s.buffer ++ [b] } := by
  have some : s.capacity ≠ 0 := by omega
  simp [pushBack, some, room]

theorem writeLoop_eq (data : Nat) (m : Memory UInt8) (n k : Nat) (s : StringStream) (fits : s.buffer.length ≤ s.capacity) :
    writeLoop data m n k s =
      (k + min n (s.capacity - s.buffer.length),
        { s with buffer := s.buffer ++ m.read (data + k) (min n (s.capacity - s.buffer.length)) }) := by
  induction n generalizing k s with
  | zero => simp [writeLoop]
  | succ n ih =>
    unfold writeLoop
    by_cases room : s.buffer.length < s.capacity
    · obtain ⟨j, eq⟩ : ∃ j, s.capacity - s.buffer.length = j + 1 := ⟨s.capacity - s.buffer.length - 1, by omega⟩
      have longer : (s.buffer ++ [m (data + k)]).length = s.buffer.length + 1 := by
        rw [List.length_append, List.length_singleton]
      have left : s.capacity - (s.buffer ++ [m (data + k)]).length = j := by omega
      rw [if_pos room, pushBack_room _ room, ih _ _ (by simp only [longer]; omega)]
      have first : m.read (data + k) 1 = [m (data + k)] := rfl
      have both := m.read_add (data + k) 1 (min n j)
      have count : min (n + 1) (j + 1) = 1 + min n j := by omega
      simp only [left, eq, count, both, first, Nat.add_assoc, List.append_assoc]
    · have full : s.capacity - s.buffer.length = 0 := by omega
      simp [room, full]

/-- As many bytes as there is room for go behind those in the buffer, and none is overwritten. -/
theorem asyncWriteSome_eq (count data : Nat) (m : Memory UInt8) {s : StringStream}
    (fits : s.buffer.length ≤ s.capacity) :
    s.asyncWriteSome count data m =
      (min count (s.capacity - s.buffer.length),
        { s with buffer := s.buffer ++ m.read data (min count (s.capacity - s.buffer.length)) }) := by
  rw [asyncWriteSome, writeLoop_eq data m count 0 s fits, Nat.zero_add, Nat.add_zero]

end StringStream

/-- A side that asks for what is left of its request as long as something is. -/
structure Piecewise (E : Endpoint κ σ) (single : κ → Bool) (plain : κ → Prop) (ok : σ → Prop) : Prop where
  call : ∀ q s, ok s → plain q.kind → q.timeoutMillis = 0 → (E.slot s).id = 0 → ∃ s' dump,
    E.call q s = (true, s', [.transfer q.size q.data ⟨⟨q.kind, (E.slot s).counter + 1⟩, dump⟩]) ∧
    E.slot s' = (E.slot s).opened q ∧ ok s'
  last : ∀ c n m s, ok s → plain c.kind → c.id = (E.slot s).id → (single c.kind = true → (E.slot s).processed = 0) →
    (single c.kind = true ∨ (E.slot s).requestedSize ≤ (E.slot s).processed + n) → ∃ s',
    E.resume c .success n m s =
      (s', (Next.done .success).effects { E.slot s with processed := (E.slot s).processed + n } c) ∧
    E.slot s' = { E.slot s with processed := (E.slot s).processed + n, id := 0 } ∧ ok s'
  more : ∀ c n m s, ok s → plain c.kind → c.id = (E.slot s).id → single c.kind = false →
    (E.slot s).processed + n < (E.slot s).requestedSize → ∃ s' dump,
    E.resume c .success n m s =
      (s', [.transfer ((E.slot s).requestedSize - ((E.slot s).processed + n))
        ((E.slot s).data + ((E.slot s).processed + n)) ⟨c, dump⟩]) ∧
    E.slot s' = { E.slot s with processed := (E.slot s).processed + n } ∧ ok s'
  dump : ∀ d s, ok s → ok (E.setDump d s) ∧ E.slot (E.setDump d s) = E.slot s

/-- Every primitive but read_until. -/
def ReadKind.Plain (kind : ReadKind) : Prop := kind = .readSome ∨ kind = .read

instance (kind : ReadKind) : Decidable kind.Plain := inferInstanceAs (Decidable (_ ∨ _))

theorem reader_piecewise :
    Piecewise reader ReadKind.single ReadKind.Plain (fun r : StreamReader => r.readBuffer = []) where
  call q r empty plain untimed idle := by
    have called := StreamReader.call_plain (q := q) (r := r) plain idle
    rw [StreamReader.doReadSome_empty (r := r.opened q) empty] at called
    refine ⟨r.opened q, (r.opened q).dumpPtr q.data, ?_, rfl, empty⟩
    simpa [reader, armed, untimed] using called
  last c n m r empty plain current fresh ends := by
    obtain ⟨processed, bs, buffer, next, turn, eq⟩ := StreamReader.resume_current c .success n m current
    have shape : processed = r.processed + n ∧ bs = [] ∧ buffer = [] ∧ next = .done .success := by
      cases turn with
      | readSome kind =>
        have zero : r.processed = 0 := fresh (by rw [kind]; rfl)
        exact ⟨by omega, rfl, empty, rfl⟩
      | found d _ _ kind => rcases plain with plain | plain <;> simp [kind] at plain
      | ended => exact ⟨rfl, rfl, empty, rfl⟩
      | again _ _ _ other _ _ short =>
        rcases ends with single | full
        · rcases plain with plain | plain
          · exact (other plain).elim
          · simp [plain, ReadKind.single] at single
        · have full : r.requestedSize ≤ r.processed + n := full
          omega
    obtain ⟨rfl, rfl, rfl, rfl⟩ := shape
    exact ⟨_, eq, rfl, rfl⟩
  more c n m r empty plain current goesOn short := by
    have short : r.processed + n < r.requestedSize := short
    obtain ⟨processed, bs, buffer, next, turn, eq⟩ := StreamReader.resume_current c .success n m current
    cases turn with
    | readSome kind => simp [kind, ReadKind.single] at goesOn
    | found d _ _ kind => rcases plain with plain | plain <;> simp [kind] at plain
    | ended _ _ stop =>
      rcases stop with failed | full
      · cases failed
      · omega
    | again _ _ _ _ _ _ _ read =>
      cases read with
      | fromBuffer left => exact (left empty).elim
      | fromStream => exact ⟨_, _, eq, by simp [reader, StreamReader.turned, Next.id], rfl⟩
  dump _ _ empty := ⟨empty, rfl⟩

theorem writer_piecewise : Piecewise writer WriteKind.single (fun _ => True) (fun _ : StreamWriter => True) where
  call q t _ _ untimed idle := by
    have called := StreamWriter.call_idle q (t := t) idle
    refine ⟨t.opened q, t.dumpPtr q.data, ?_, rfl, trivial⟩
    simpa [writer, armed, untimed] using called
  last c n m t _ _ current fresh ends := by
    obtain ⟨processed, next, turn, eq⟩ := StreamWriter.resume_current c .success n (t := t) current
    have shape : processed = t.processed + n ∧ next = .done .success := by
      cases turn with
      | writeSome kind =>
        have zero : t.processed = 0 := fresh (by rw [kind]; rfl)
        exact ⟨by omega, rfl⟩
      | ended => exact ⟨rfl, rfl⟩
      | again kind _ short =>
        rcases ends with single | full
        · simp [kind, WriteKind.single] at single
        · have full : t.requestedSize ≤ t.processed + n := full
          omega
    obtain ⟨rfl, rfl⟩ := shape
    exact ⟨_, eq, rfl, trivial⟩
  more c n m t _ _ current goesOn short := by
    have short : t.processed + n < t.requestedSize := short
    obtain ⟨processed, next, turn, eq⟩ := StreamWriter.resume_current c .success n (t := t) current
    cases turn with
    | writeSome kind => simp [kind, WriteKind.single] at goesOn
    | ended _ stop =>
      rcases stop with failed | full
      · cases failed
      · omega
    | again => exact ⟨_, _, eq, by simp [writer, StreamWriter.turned, Next.id], trivial⟩
  dump _ _ _ := ⟨trivial, rfl⟩

end RtacAsio
