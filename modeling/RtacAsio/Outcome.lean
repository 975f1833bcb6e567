import RtacAsio.KeptBusy
import RtacAsio.Reader.Scan
import RtacAsio.Request.Finish
import RtacAsio.Request.Timeouts

/-! What the callbacks of a `StreamReader` and of a `StreamWriter` can rely on, in any run. -/

namespace RtacAsio
open Lib World

/-- The bytes that answer a read in full: whatever there was, all of them, or those up to a
delimiter unless they fill the buffer first. -/
def ReadKind.whole : ReadKind → Nat → List UInt8 → Prop
  | .readSome, _, _ => True
  | .read, size, bytes => size ≤ bytes.length
  | .readUntil delimiter, size, bytes => size ≤ bytes.length ∨ ∃ body b, bytes = body ++ [b] ∧ b.toInt8 = delimiter

def WriteKind.whole : WriteKind → Nat → List UInt8 → Prop
  | .writeSome, _, _ => True
  | .write, size, bytes => size ≤ bytes.length

theorem ReadKind.whole_full (kind : ReadKind) {size : Nat} {bytes : List UInt8} (full : size ≤ bytes.length) :
    kind.whole size bytes := by
  cases kind with
  | readSome => trivial
  | read => exact full
  | readUntil => exact Or.inl full

namespace StreamReader

theorem toInt8_of_isDelimiter {delimiter : Int8} {b : UInt8} (hit : isDelimiter delimiter b = true) :
    b.toInt8 = delimiter := by
  by_cases positive : 0 ≤ delimiter
  · exact toInt8_eq_iff.mpr ((isDelimiter_iff positive).mp hit)
  · rw [isDelimiter_negative (Int8.not_le.mp positive)] at hit
    cases hit

/-- The scan of the leftover only stops where the request is answered. -/
theorem leftover_whole {delimiter : Int8} {size : Nat} {bs : List UInt8} (some : bs ≠ [])
    (stop : leftoverStops delimiter size bs = true) :
    (ReadKind.readUntil delimiter).whole size (bs.take (leftoverTaken delimiter size bs)) := by
  by_cases positive : 0 < size
  · rcases leftoverStops_at positive stop with ⟨body, b, rest, rfl, taken, _, hit, _⟩ | ⟨taken, long, _⟩
    · exact Or.inr ⟨body, b, by rw [taken, take_through], hit⟩
    · refine Or.inl ?_
      rw [taken, List.length_take]
      omega
  · exact Or.inl (by omega)

theorem readTurn_asks {count : Nat} {r : StreamReader} {bs buffer : List UInt8} {next : Next}
    (turn : ReadTurn count r bs buffer next) : (∀ n dump, next = .transfer n dump → n = count) ∧ (∀ err, next ≠ .done err) ∧
      (0 < count → ∀ n, next = .postCont n → 0 < n) := by
  cases turn with
  | fromStream empty =>
    refine ⟨?_, nofun, nofun⟩
    rintro n dump eq
    exact (Next.transfer.inj eq).1.symm
  | fromBuffer left =>
    have some : 0 < r.readBuffer.length := List.length_pos_iff.mpr left
    refine ⟨nofun, nofun, ?_⟩
    rintro positive n eq
    have amount := Next.postCont.inj eq
    omega

end StreamReader

open StreamReader in
theorem reader_thorough : Thorough reader ReadKind.whole where
  call q r m idle := by
    obtain ⟨bs, buffer, next, turn, eq⟩ := StreamReader.call_idle q idle
    refine ⟨(r.opened q).turned (taken q r) buffer next, next, q.data, bs, ?_, rfl, ?_⟩
    · have same : next.effects { (r.opened q).toSlot with processed := taken q r } ⟨q.kind, r.readCounter + 1⟩ =
          next.effects (reader.slot ((r.opened q).turned (taken q r) buffer next)) ⟨q.kind, r.readCounter + 1⟩ :=
        Next.effects_congr _ next rfl rfl rfl
      rw [same] at eq
      exact eq
    · cases turn with
      | fromStream empty =>
        refine ⟨?_, by simp⟩
        rintro count dump eq
        obtain ⟨rfl, _⟩ := Next.transfer.inj eq
        exact Nat.le_add_left ..
      | fromBuffer plain left => exact ⟨by simp, by simp⟩
      | scanned delimiter kind left running =>
        refine ⟨?_, by simp⟩
        rintro count dump eq
        obtain ⟨rfl, _⟩ := Next.transfer.inj eq
        exact Nat.le_add_left ..
      | stopped delimiter kind left stop =>
        refine ⟨by simp, fun err _ _ => ?_⟩
        have amount : taken q r = leftoverTaken delimiter q.size r.readBuffer := by simp [taken, kind]
        have short := leftoverTaken_le delimiter q.size r.readBuffer
        have stored := m.read_write_same q.data (r.readBuffer.take (taken q r))
        rw [amount, List.length_take_of_le short] at stored
        have full := leftover_whole left stop
        rw [← stored, ← amount, ← kind] at full
        exact full
  resume c err n m r current := by
    obtain ⟨processed, bs, buffer, next, turn, eq⟩ := StreamReader.resume_current c err n m current
    refine ⟨r.turned processed buffer next, next, r.dst + processed, bs, ?_, ?_, ?_, ?_⟩
    · have same : next.effects { r.toSlot with processed } c =
          next.effects (reader.slot (r.turned processed buffer next)) c := Next.effects_congr _ next rfl rfl rfl
      rw [same] at eq
      exact eq
    · rw [current]
      rfl
    · cases turn with
      | readSome kind =>
        refine ⟨by simp, fun _ _ _ => ?_⟩
        rw [kind]
        trivial
      | found delimiter i rest kind search =>
        refine ⟨by simp, fun _ _ _ => ?_⟩
        obtain ⟨body, b, split, rfl, hit, _⟩ := searchLoop_found search
        have size := congrArg List.length split
        simp only [Memory.read_length, List.length_append, List.length_cons] at size
        have last : m.read (r.dst + r.processed) (0 + (body.length + 1)) = body ++ [b] := by
          rw [← m.take_read (n := n) (by omega), split, Nat.zero_add, take_through]
        rw [kind]
        refine Or.inr ⟨m.read r.dst r.processed ++ body, b, ?_, toInt8_of_isDelimiter hit⟩
        rw [Memory.write_nil, List.append_assoc, ← last]
        exact m.read_add ..
      | ended other absent stop =>
        refine ⟨by simp, fun err' same success => ReadKind.whole_full c.kind ?_⟩
        obtain rfl := Next.done.inj same
        have full : r.requestedSize ≤ r.processed + n := by
          rcases stop with failed | full
          · rw [success] at failed
            cases failed
          · exact full
        rw [Memory.read_length]
        exact full
      | again bs buffer next other absent success short read =>
        obtain ⟨asks, goesOn, _⟩ := readTurn_asks read
        refine ⟨fun count dump eq => ?_, fun err' eq => (goesOn err' eq).elim⟩
        obtain rfl := asks count dump eq
        have short : r.processed + n < r.requestedSize := short
        show r.requestedSize ≤ r.processed + n + (r.requestedSize - (r.processed + n))
        omega
    · intro goesOn
      cases turn with
      | again bs buffer next other absent success short read =>
        have short : r.processed + n < r.requestedSize := short
        obtain ⟨_, _, some⟩ := readTurn_asks read
        exact ⟨rfl, short, some (by omega), success⟩
      | _ => exact (goesOn _ rfl).elim

open StreamWriter in
theorem writer_thorough : Thorough writer WriteKind.whole where
  call q t m idle := by
    refine ⟨t.opened q, .transfer q.size (t.dumpPtr q.data), 0, [], StreamWriter.call_idle q idle, rfl, ?_, nofun⟩
    rintro count dump eq
    obtain ⟨rfl, _⟩ := Next.transfer.inj eq
    exact Nat.le_add_left ..
  resume c err n m t current := by
    obtain ⟨processed, next, turn, eq⟩ := StreamWriter.resume_current c err n current
    refine ⟨t.turned processed next, next, 0, [], ?_, ?_, ?_, ?_⟩
    · have same : next.effects { t.toSlot with processed } c = next.effects (writer.slot (t.turned processed next)) c :=
        Next.effects_congr _ next rfl rfl rfl
      rw [same] at eq
      exact eq
    · rw [current]
      rfl
    · cases turn with
      | writeSome kind =>
        refine ⟨nofun, fun _ _ _ => ?_⟩
        rw [kind]
        trivial
      | ended kind stop =>
        refine ⟨nofun, fun err' same success => ?_⟩
        obtain rfl := Next.done.inj same
        rw [kind]
        show t.requestedSize ≤ (Memory.read _ _ (t.processed + n)).length
        rw [Memory.read_length]
        rcases stop with failed | full
        · rw [success] at failed
          cases failed
        · exact full
      | again kind success short =>
        refine ⟨fun count dump eq => ?_, nofun⟩
        obtain ⟨rfl, _⟩ := Next.transfer.inj eq
        show t.requestedSize ≤ t.processed + n + (t.requestedSize - (t.processed + n))
        omega
    · intro goesOn
      cases turn with
      | again kind success short => exact ⟨rfl, short, nofun, success⟩
      | _ => exact (goesOn _ rfl).elim

/-! ### Results -/

/-- A callback with the success code that was not posted by the timer reports all that was asked
for: an async_read or async_write its whole size, an async_read_until a delimiter at the end or a
full buffer. Timeouts of earlier requests, late completions and errors make no difference. -/
theorem answers_whole :
    (∀ (r : StreamReader) (m : Memory UInt8) es w, r.Created →
      Steps (World.step reader) Always { self := r, memory := m } es w → w.accepted.length < 2 ^ 32 →
      Answered ReadKind.whole w) ∧
    (∀ (t : StreamWriter) (m : Memory UInt8) es w, t.Created →
      Steps (World.step writer) Always { self := t, memory := m } es w → w.accepted.length < 2 ^ 32 →
      Answered WriteKind.whole w) := by
  constructor
  · intro r m es w created run bounded
    exact reachable_answered reader_lawful reader_thorough created.readCounter created.readId run bounded
  · intro t m es w created run bounded
    exact reachable_answered writer_lawful writer_thorough created.writeCounter created.writeId run bounded

/-- A read that is answered in two pieces after one that its timer ended, and a write in two pieces. -/
theorem answers_whole_pieces :
    (∃ es w, Steps (World.step reader) Always { self := .blank, memory := fun _ => 0 } es w ∧
      w.posts.map Post.bytes = [[], [1, 2, 3]] ∧ Answered ReadKind.whole w) ∧
    (∃ es w, Steps (World.step writer) Always { self := .blank, memory := fun _ => 7 } es w ∧
      w.posts.map Post.bytes = [[7, 7, 7]] ∧ Answered WriteKind.whole w) := by
  obtain ⟨w, rx, seen⟩ : ∃ w, Steps (World.step reader) Always { self := .blank, memory := fun _ => 0 }
      [.call { kind := .read, size := 3, data := 0, callback := 1, timeoutMillis := 1 }, .expire, .timer 0,
        .call { kind := .read, size := 3, data := 8, callback := 2 }, .move 1 [1, 2], .complete 1 .success,
        .move 1 [3], .complete 1 .success] w ∧
      (w.posts.map Post.bytes, w.accepted.length) = ([[], [1, 2, 3]], 2) := exists_of_exec (by decide)
  obtain ⟨v, tx, seen'⟩ : ∃ v, Steps (World.step writer) Always { self := .blank, memory := fun _ => 7 }
      [.call { kind := .write, size := 3, data := 0, callback := 1 }, .move 0 [7, 7], .complete 0 .success,
        .move 0 [7], .complete 0 .success] v ∧
      (v.posts.map Post.bytes, v.accepted.length) = ([[7, 7, 7]], 1) := exists_of_exec (by decide)
  simp only [Prod.mk.injEq] at seen seen'
  exact ⟨⟨_, w, rx, seen.1, answers_whole.1 _ _ _ _ ⟨rfl, rfl, rfl⟩ rx (by rw [seen.2]; decide)⟩,
    ⟨_, v, tx, seen'.1, answers_whole.2 _ _ _ _ ⟨rfl, rfl⟩ tx (by rw [seen'.2]; decide)⟩⟩

/-- Whatever has happened, a stream that from now on moves something whenever it is asked for
something takes every request to its callback, and everything else to its end, in a bounded number
of steps in any order. Operations may fail, and timers may expire. -/
theorem requests_finish :
    (∀ (r : StreamReader) (m : Memory UInt8) es w, r.Created →
      Steps (World.step reader) Always { self := r, memory := m } es w → w.accepted.length < 2 ^ 32 →
      Completes (World.step reader) Cooperative w Finished) ∧
    (∀ (t : StreamWriter) (m : Memory UInt8) es w, t.Created →
      Steps (World.step writer) Always { self := t, memory := m } es w → w.accepted.length < 2 ^ 32 →
      Completes (World.step writer) Cooperative w Finished) := by
  constructor
  · intro r m es w created run bounded
    exact reachable_finishes reader_lawful reader_thorough created.readCounter created.readId run bounded
  · intro t m es w created run bounded
    exact reachable_finishes writer_lawful writer_thorough created.writeCounter created.writeId run bounded

/-- A read and a write, both timed, half done. -/
theorem requests_finish_half :
    (∃ es w, Steps (World.step reader) Always { self := .blank, memory := fun _ => 0 } es w ∧ ¬ w.Settled ∧
      Completes (World.step reader) Cooperative w Finished) ∧
    (∃ es w, Steps (World.step writer) Always { self := .blank, memory := fun _ => 7 } es w ∧ ¬ w.Settled ∧
      Completes (World.step writer) Cooperative w Finished) := by
  obtain ⟨w, rx, seen⟩ : ∃ w, Steps (World.step reader) Always { self := .blank, memory := fun _ => 0 }
      [.call { kind := .read, size := 4, data := 0, callback := 1, timeoutMillis := 9 }, .move 0 [1, 2],
        .complete 0 .success] w ∧
      (w.accepted.length, w.posts.length) = (1, 0) := exists_of_exec (by decide)
  obtain ⟨v, tx, seen'⟩ : ∃ v, Steps (World.step writer) Always { self := .blank, memory := fun _ => 7 }
      [.call { kind := .write, size := 4, data := 0, callback := 1, timeoutMillis := 9 }, .move 0 [7, 7],
        .complete 0 .success] v ∧
      (v.accepted.length, v.posts.length) = (1, 0) := exists_of_exec (by decide)
  simp only [Prod.mk.injEq] at seen seen'
  exact ⟨⟨_, w, rx, by simp [Settled, seen.1, seen.2],
      requests_finish.1 _ _ _ _ ⟨rfl, rfl, rfl⟩ rx (by rw [seen.1]; decide)⟩,
    ⟨_, v, tx, by simp [Settled, seen'.1, seen'.2],
      requests_finish.2 _ _ _ _ ⟨rfl, rfl⟩ tx (by rw [seen'.1]; decide)⟩⟩

/-- The timer never ends a request that was made without a timeout, however late the handlers of
earlier ones run. It alone is enough to end one that was made with a timeout, whatever the stream
does not do. -/
theorem timeouts_end :
    (∀ (r : StreamReader) (m : Memory UInt8) es w, r.Created →
      Steps (World.step reader) Always { self := r, memory := m } es w → w.accepted.length < 2 ^ 32 →
      w.Expirations ∧ ((∀ q, w.accepted.getLast? = some q → 0 < q.timeoutMillis) →
        Completes (World.step reader) OnlyTimer w Settled)) ∧
    (∀ (t : StreamWriter) (m : Memory UInt8) es w, t.Created →
      Steps (World.step writer) Always { self := t, memory := m } es w → w.accepted.length < 2 ^ 32 →
      w.Expirations ∧ ((∀ q, w.accepted.getLast? = some q → 0 < q.timeoutMillis) →
        Completes (World.step writer) OnlyTimer w Settled)) := by
  constructor
  · intro r m es w created run bounded
    have timeouts := reachable_timeouts reader_lawful created.readCounter created.readId run bounded
    exact ⟨timeouts.expirations, reachable_expires reader_lawful created.readCounter created.readId run bounded⟩
  · intro t m es w created run bounded
    have timeouts := reachable_timeouts writer_lawful created.writeCounter created.writeId run bounded
    exact ⟨timeouts.expirations, reachable_expires writer_lawful created.writeCounter created.writeId run bounded⟩

/-- The timer of the first request has expired when its last bytes come. The handler runs during the
second one, which has no timeout, and the third one is left to its timer. -/
theorem timeouts_end_late :
    (∃ es w, Steps (World.step reader) Always { self := .blank, memory := fun _ => 0 } es w ∧
      w.posts.map Post.expired = [false, false] ∧ ¬ w.Settled ∧ w.Expirations ∧
      Completes (World.step reader) OnlyTimer w Settled) ∧
    (∃ es w, Steps (World.step writer) Always { self := .blank, memory := fun _ => 7 } es w ∧
      w.posts.map Post.expired = [false, false] ∧ ¬ w.Settled ∧ w.Expirations ∧
      Completes (World.step writer) OnlyTimer w Settled) := by
  obtain ⟨w, rx, seen⟩ : ∃ w, Steps (World.step reader) Always { self := .blank, memory := fun _ => 0 }
      [.call { kind := .read, size := 1, data := 0, callback := 1, timeoutMillis := 9 }, .expire, .move 0 [1],
        .complete 0 .success, .call { kind := .read, size := 1, data := 0, callback := 2 }, .timer 0, .move 0 [1],
        .complete 0 .success, .call { kind := .read, size := 1, data := 0, callback := 3, timeoutMillis := 9 }] w ∧
      (w.posts.map Post.expired, w.accepted.length, w.accepted.getLast?.map Request.timeoutMillis) =
        ([false, false], 3, some 9) :=
    exists_of_exec (by decide)
  obtain ⟨v, tx, seen'⟩ : ∃ v, Steps (World.step writer) Always { self := .blank, memory := fun _ => 7 }
      [.call { kind := .write, size := 1, data := 0, callback := 1, timeoutMillis := 9 }, .expire, .move 0 [7],
        .complete 0 .success, .call { kind := .write, size := 1, data := 0, callback := 2 }, .timer 0, .move 0 [7],
        .complete 0 .success, .call { kind := .write, size := 1, data := 0, callback := 3, timeoutMillis := 9 }] v ∧
      (v.posts.map Post.expired, v.accepted.length, v.accepted.getLast?.map Request.timeoutMillis) =
        ([false, false], 3, some 9) :=
    exists_of_exec (by decide)
  simp only [Prod.mk.injEq] at seen seen'
  obtain ⟨posts, three, last⟩ := seen
  obtain ⟨posts', three', last'⟩ := seen'
  have two : w.posts.length = 2 := by simpa using congrArg List.length posts
  have two' : v.posts.length = 2 := by simpa using congrArg List.length posts'
  obtain ⟨expirations, ends⟩ := timeouts_end.1 _ _ _ _ ⟨rfl, rfl, rfl⟩ rx (by rw [three]; decide)
  obtain ⟨expirations', ends'⟩ := timeouts_end.2 _ _ _ _ ⟨rfl, rfl⟩ tx (by rw [three']; decide)
  refine ⟨⟨_, w, rx, posts, by simp [Settled, two, three], expirations, ends fun q newest => ?_⟩,
    ⟨_, v, tx, posts', by simp [Settled, two', three'], expirations', ends' fun q newest => ?_⟩⟩
  · rw [newest] at last
    have nine := Option.some.inj last
    omega
  · rw [newest] at last'
    have nine := Option.some.inj last'
    omega

end RtacAsio
