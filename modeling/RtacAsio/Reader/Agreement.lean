import RtacAsio.KeptBusy
import RtacAsio.Reader.Bounds
import RtacAsio.Reader.Scan

/-!
The two searches of `async_read_until`, over the leftover and over what the stream transfers,
against the shortest beginning that ends with the delimiter.
-/

namespace RtacAsio
open Lib World

/-- The stream hands over `B`, in any chunks but empty ones, and does nothing else. -/
def Delivers (B : List UInt8) (w : World ReadKind StreamReader) : Event ReadKind → Prop
  | .move i bytes => bytes ≠ [] ∧ w.Honest (.move i bytes) ∧ w.moved ++ bytes <+: B
  | .complete _ err => err = .success
  | _ => False

instance (B : List UInt8) (w : World ReadKind StreamReader) (e : Event ReadKind) : Decidable (Delivers B w e) :=
  match e with
  | .move _ _ => inferInstanceAs (Decidable (_ ∧ _))
  | .complete _ _ => inferInstanceAs (Decidable (_ = _))
  | .call _ | .deliver _ | .expire | .timer _ => instDecidableFalse

/-- The length of the shortest beginning of `B` that ends with the delimiter, at most `size`. -/
def shortest (delimiter : Int8) (size : Nat) (B : List UInt8) : Nat := min (B.idxOf delimiter.toUInt8 + 1) size

/-- `q` has been called back with the first `n` bytes of `all`. The others are left over, or are
what the stream, which delivers `B`, has not handed over yet. -/
structure ReportedFirst (q : Request ReadKind) (n : Nat) (all B : List UInt8) (w : World ReadKind StreamReader) : Prop where
  posts : w.posts = [⟨q.callback, .success, n, all.take n, false⟩]
  left : w.self.readBuffer ++ B.drop w.moved.length = all.drop n

/-- A read_until on `r`, whose stream delivers `B`, reports the shortest beginning of all there
is to read. -/
def ReportsShortest (q : Request ReadKind) (delimiter : Int8) (r : StreamReader) (m : Memory UInt8)
    (B : List UInt8) : Prop :=
  Completes (World.step reader) (Delivers B) (issued q r m)
    (ReportedFirst q (shortest delimiter q.size (r.readBuffer ++ B)) (r.readBuffer ++ B) B)

section Proofs
variable {delimiter : Int8} {q : Request ReadKind} {r : StreamReader} {m : Memory UInt8} {B : List UInt8}
  {w w' : World ReadKind StreamReader} {e : Event ReadKind}

/-- Without an id the request is never called back. -/
theorem issued_silent {es : List (Event ReadKind)} (idle : r.readId = 0) (wrapped : r.readCounter + 1 = 0)
    (run : Steps (World.step reader) (Delivers B) (issued q r m) es w) : w.posts = [] := by
  have start : (reader.slot (issued q r m).self).id = 0 ∧ (issued q r m).posts = [] :=
    call_silent (w := { self := r, memory := m }) q reader_lawful idle wrapped
  have silent : (reader.slot w.self).id = 0 ∧ w.posts = [] := by
    apply run.invariant (P := fun w => (reader.slot w.self).id = 0 ∧ w.posts = []) start
    rintro t e u ⟨idle, none⟩ allowed taken
    have handler : ∀ q, e ≠ .call q := by
      rintro q rfl
      exact allowed
    obtain ⟨idle', same⟩ := step_silent reader_lawfulIdle taken idle handler
    exact ⟨idle', same.trans none⟩
  exact silent.2

theorem reports_counter (idle : r.readId = 0) (h : ReportsShortest q delimiter r m B) : r.readCounter + 1 ≠ 0 := by
  intro wrapped
  obtain ⟨es, w, run, first⟩ := h.reaches
  have posts := first.posts
  simp [issued_silent idle wrapped run] at posts

/-! ### The leftover -/

theorem stops_leftover {size : Nat} {bs : List UInt8} (positive : 0 < size)
    (stop : StreamReader.leftoverStops delimiter size bs = true) :
    Stops (· == delimiter.toUInt8) size (bs.take (StreamReader.leftoverTaken delimiter size bs)) := by
  rcases StreamReader.leftoverStops_at positive stop with ⟨body, b, rest, rfl, taken, short, hit, none⟩ | ⟨taken, full, none⟩
  · rw [taken, take_through]
    refine Or.inl ⟨body, b, rfl, ?_, fun x member => ?_, short⟩
    · simpa using StreamReader.toInt8_eq_iff.mp hit
    · have other := none x member
      rw [Ne, StreamReader.toInt8_eq_iff] at other
      simpa using other
  · rw [taken]
    refine Or.inr ⟨fun x member => ?_, List.length_take_of_le full⟩
    have other := none x member
    rw [Ne, StreamReader.toInt8_eq_iff] at other
    simpa using other

theorem shortest_of_stops {size : Nat} {bs rest : List UInt8} (h : Stops (· == delimiter.toUInt8) size bs) :
    shortest delimiter size (bs ++ rest) = bs.length := by
  rw [h.length rest]
  rfl

/-- A request that stops in the leftover is called back before it returns. -/
theorem buffered_reports (kind : q.kind = .readUntil delimiter) (positive : 1 ≤ q.size) (idle : r.readId = 0)
    (fresh : r.readCounter + 1 ≠ 0)
    (enough : delimiter.toUInt8 ∈ r.readBuffer.take q.size ∨ q.size ≤ r.readBuffer.length) :
    ReportsShortest q delimiter r m [] := by
  have some : r.readBuffer ≠ [] := by
    intro none
    rw [none] at enough
    simp at enough
    omega
  have stop : StreamReader.leftoverStops delimiter q.size r.readBuffer = true := by
    rw [StreamReader.leftoverStops_iff some positive]
    exact enough.imp (fun member => ⟨_, member, StreamReader.toInt8_eq_iff.mpr rfl⟩) id
  have started : Started q delimiter { self := r, memory := m } (issued q r m) :=
    call_started (w := { self := r, memory := m }) kind idle rfl rfl fresh
  cases started with
  | scanning _ running => simp [stop] at running
  | reported _ reported =>
    have stops := stops_leftover positive stop
    have all := List.take_append_drop (StreamReader.leftoverTaken delimiter q.size r.readBuffer) r.readBuffer
    generalize r.readBuffer.take (StreamReader.leftoverTaken delimiter q.size r.readBuffer) = bytes at reported stops all
    generalize r.readBuffer.drop (StreamReader.leftoverTaken delimiter q.size r.readBuffer) = left at reported all
    have length : shortest delimiter q.size r.readBuffer = bytes.length := by
      rw [← all]
      exact shortest_of_stops stops
    refine ⟨0, fun es w run => ?_⟩
    have stays : es = [] ∧ w = issued q r m := by
      refine run.history (P := fun es w => es = [] ∧ w = issued q r m) ⟨rfl, rfl⟩ ?_
      rintro es t e u ⟨_, rfl⟩ allowed taken
      cases e with
      | move => simp [step, reported.ops] at taken
      | complete => simp [step, reported.ops] at taken
      | _ => exact allowed.elim
    obtain ⟨rfl, rfl⟩ := stays
    refine ⟨Nat.le_refl 0, Or.inl ?_⟩
    rw [List.append_nil, length, ← all]
    refine ⟨?_, ?_⟩
    · rw [List.take_left]
      exact reported.posts
    · rw [List.drop_left, reported.left]
      simp

/-! ### The stream -/

/-- A request of an empty reader after `n` events. -/
inductive Streaming (q : Request ReadKind) (delimiter : Int8) (B : List UInt8) (n : Nat)
    (w : World ReadKind StreamReader) : Prop where
  | scanning (op : Op ReadKind) (rest : List UInt8) : Scanning q delimiter w.moved op w → op.moved = none →
      op.count = q.size - w.moved.length → w.moved ++ rest = B →
      (∀ x ∈ w.moved, StreamReader.isDelimiter delimiter x = false) → w.moved.length < q.size → w.posts = [] →
      n ≤ 2 * w.moved.length → Streaming q delimiter B n w
  | arrived (got bytes : List UInt8) (op : Op ReadKind) (rest : List UInt8) : Scanning q delimiter got op w →
      op.moved = some bytes → w.memory.read (q.data + got.length) bytes.length = bytes → w.moved = got ++ bytes →
      w.moved ++ rest = B → (∀ x ∈ got, StreamReader.isDelimiter delimiter x = false) → w.moved.length ≤ q.size →
      w.posts = [] → n + 1 ≤ 2 * w.moved.length → Streaming q delimiter B n w
  | reported (bytes left rest : List UInt8) : Stops (StreamReader.isDelimiter delimiter) q.size bytes →
      Reported q bytes left [] w → w.moved = bytes ++ left → w.moved ++ rest = B → n ≤ 2 * w.moved.length →
      Streaming q delimiter B n w

theorem issued_streaming (kind : q.kind = .readUntil delimiter) (positive : 1 ≤ q.size) (idle : r.readId = 0)
    (empty : r.readBuffer = []) (fresh : r.readCounter + 1 ≠ 0) : Streaming q delimiter B 0 (issued q r m) := by
  have started : Started q delimiter { self := r, memory := m } (issued q r m) :=
    call_started (w := { self := r, memory := m }) kind idle rfl rfl fresh
  have moved : (issued q r m).moved = [] := call_moved (w := { self := r, memory := m }) idle
  cases started with
  | reported stop => simp [empty, StreamReader.leftoverStops] at stop
  | scanning op _ scanning count unmoved posts =>
    simp only [empty] at scanning
    rw [← moved] at scanning
    refine .scanning op B scanning unmoved (by simpa [moved] using count) (by simp [moved]) (by simp [moved]) ?_ posts
      (Nat.zero_le _)
    rw [moved]
    exact positive

theorem moved_streaming {n i : Nat} {op : Op ReadKind} {bytes : List UInt8} (h : Streaming q delimiter B n w)
    (found : w.ops[i]? = some op) (unmoved : op.moved = none) (allowed : Delivers B w (.move i bytes)) :
    Streaming q delimiter B (n + 1) (w.move reader i op bytes) := by
  obtain ⟨some, honest, handed⟩ := allowed
  cases h with
  | reported _ _ _ _ reported => simp [reported.ops] at found
  | arrived _ _ _ _ scanning moved =>
    obtain ⟨rfl, rfl⟩ := scanning.only found
    simp [moved] at unmoved
  | scanning op' rest scanning _ count moved none short posts steps =>
    obtain ⟨rfl, rfl⟩ := scanning.only found
    obtain ⟨rest', split⟩ := handed
    obtain ⟨scanning', content⟩ := scanning.moved bytes
    have fits : bytes.length ≤ op'.count := by simpa [Honest, scanning.ops] using honest
    have positive := List.length_pos_of_ne_nil some
    have total : (w.moved ++ bytes).length = w.moved.length + bytes.length := List.length_append
    refine .arrived w.moved bytes _ rest' scanning' rfl content (moved_move 0 op' bytes) ?_ none ?_ posts ?_
    · rwa [moved_move]
    · rw [moved_move, total]
      omega
    · rw [moved_move, total]
      omega

theorem complete_streaming {n i : Nat} (h : Streaming q delimiter B n w)
    (taken : w.step reader (.complete i .success) = some w') : Streaming q delimiter B (n + 1) w' := by
  cases h with
  | reported _ _ _ _ reported => simp [step, reported.ops] at taken
  | scanning _ _ scanning unmoved => exact (scanning.waiting unmoved taken).elim
  | arrived got bytes op rest scanning moved content total all none fits posts steps =>
    obtain ⟨goesOn, same⟩ := complete_continued scanning moved content taken
    have kept : w'.moved = w.moved := by rw [World.moved, same.traffic, World.moved]
    have both (more : List UInt8) (miss : ∀ x ∈ more, StreamReader.isDelimiter delimiter x = false) :
        ∀ x ∈ got ++ more, StreamReader.isDelimiter delimiter x = false :=
      List.forall_mem_append.mpr ⟨none, miss⟩
    have length : w.moved.length = got.length + bytes.length := by rw [total, List.length_append]
    rw [← kept] at all fits steps length total
    rw [posts] at goesOn
    cases goesOn with
    | found body b more split hit miss reported =>
      rw [split] at total length
      simp only [List.length_append, List.length_cons] at length
      refine .reported _ more rest (Or.inl ⟨got ++ body, b, rfl, hit, both body miss, ?_⟩) reported ?_ all (by omega)
      · rw [List.length_append]
        omega
      · simpa using total
    | full miss full reported =>
      refine .reported _ [] rest (Or.inr ⟨both bytes miss, ?_⟩) reported (by simpa using total) all (by omega)
      rw [List.length_append]
      omega
    | scanning op' miss short scanning' count unmoved posts' =>
      rw [← length] at short count
      refine .scanning op' rest (total ▸ scanning') unmoved count all ?_ short posts' (by omega)
      rw [total]
      exact both bytes miss

theorem step_streaming {n : Nat} (h : Streaming q delimiter B n w) (allowed : Delivers B w e)
    (taken : w.step reader e = some w') : Streaming q delimiter B (n + 1) w' := by
  cases e with
  | move i bytes =>
    cases step_cases taken with
    | move i op bytes found unmoved => exact moved_streaming h found unmoved allowed
  | complete i err =>
    obtain rfl := allowed
    exact complete_streaming h taken
  | _ => exact allowed.elim

theorem run_streaming {es : List (Event ReadKind)} (kind : q.kind = .readUntil delimiter) (positive : 1 ≤ q.size)
    (idle : r.readId = 0) (empty : r.readBuffer = []) (fresh : r.readCounter + 1 ≠ 0)
    (run : Steps (World.step reader) (Delivers B) (issued q r m) es w) : Streaming q delimiter B es.length w := by
  refine run.history (P := fun es w => Streaming q delimiter B es.length w)
    (issued_streaming kind positive idle empty fresh) ?_
  intro es t e u h allowed taken
  rw [List.length_append]
  exact step_streaming h allowed taken

/-- A search that stops reports what it stops at. -/
theorem streaming_reports (kind : q.kind = .readUntil delimiter) (positive : 1 ≤ q.size) (idle : r.readId = 0)
    (empty : r.readBuffer = []) (fresh : r.readCounter + 1 ≠ 0)
    (stops : (∃ x ∈ B, StreamReader.isDelimiter delimiter x = true) ∨ q.size ≤ B.length)
    (agrees : ∀ bytes rest, Stops (StreamReader.isDelimiter delimiter) q.size bytes → bytes ++ rest = B →
      shortest delimiter q.size B = bytes.length) : ReportsShortest q delimiter r m B := by
  refine ⟨2 * B.length, fun es w run => ?_⟩
  have streaming := run_streaming kind positive idle empty fresh run
  rw [empty, List.nil_append]
  cases streaming with
  | scanning op rest scanning unmoved count all none short posts steps =>
    have total : w.moved.length + rest.length = B.length := by rw [← all, List.length_append]
    refine ⟨by omega, Or.inr ?_⟩
    have some : rest ≠ [] := by
      rintro rfl
      rw [List.append_nil] at all
      rcases stops with ⟨x, member, hit⟩ | full
      · rw [← all] at member
        simp [none x member] at hit
      · rw [← all] at full
        omega
    obtain ⟨b, rest, rfl⟩ := List.exists_cons_of_ne_nil some
    refine ⟨.move 0 [b], w.move reader 0 op [b], ⟨by simp, ?_, rest, by simpa using all⟩, ?_⟩
    · simp only [Honest, scanning.ops, List.getElem?_cons_zero, List.length_singleton]
      omega
    · simp only [step, scanning.ops, List.getElem?_cons_zero, unmoved, reader]
      rfl
  | arrived got bytes op rest scanning moved content total all none fits posts steps =>
    have length : w.moved.length + rest.length = B.length := by rw [← all, List.length_append]
    refine ⟨by omega, Or.inr ⟨.complete 0 .success,
      handle reader op.handler .success bytes.length { w with ops := w.ops.eraseIdx 0 }, rfl, ?_⟩⟩
    simp only [step, scanning.ops, List.getElem?_cons_zero, moved]
  | reported bytes left rest stop reported total all steps =>
    have length : w.moved.length + rest.length = B.length := by rw [← all, List.length_append]
    refine ⟨by omega, Or.inl ?_⟩
    have split : bytes ++ (left ++ rest) = B := by rw [← List.append_assoc, ← total, all]
    rw [agrees bytes (left ++ rest) stop split, ← split]
    refine ⟨?_, ?_⟩
    · rw [List.take_left]
      exact reported.posts
    · rw [List.drop_left, reported.left, total, ← List.append_assoc, List.drop_left]

/-! ### Both -/

theorem stops_shortest (ascii : 0 ≤ delimiter) {size : Nat} {bytes : List UInt8}
    (h : Stops (StreamReader.isDelimiter delimiter) size bytes) (rest : List UInt8) :
    shortest delimiter size (bytes ++ rest) = bytes.length := by
  have same : StreamReader.isDelimiter delimiter = (· == delimiter.toUInt8) := by
    funext b
    rw [Bool.eq_iff_iff, StreamReader.isDelimiter_iff ascii, beq_iff_eq]
  rw [same] at h
  exact shortest_of_stops h

/-- A negative delimiter is never found in what the stream transfers. -/
theorem stops_negative (negative : delimiter < 0) {size : Nat} {bytes : List UInt8}
    (h : Stops (StreamReader.isDelimiter delimiter) size bytes) : bytes.length = size := by
  rcases h with ⟨body, b, _, hit, _⟩ | ⟨_, full⟩
  · rw [StreamReader.isDelimiter_negative negative] at hit
    cases hit
  · exact full

/-- The delimiter comes no earlier than at the requested size. -/
theorem shortest_late {size : Nat} (late : delimiter.toUInt8 ∉ B.take (size - 1)) (long : size ≤ B.length) :
    shortest delimiter size B = size := by
  have none : ∀ x ∈ B.take (size - 1), (x == delimiter.toUInt8) = false := by
    intro x member
    rw [beq_eq_false_iff_ne]
    rintro rfl
    exact late member
  have index : size - 1 ≤ B.idxOf delimiter.toUInt8 := by
    have split := findIdx_none (B.drop (size - 1)) none
    rw [List.take_append_drop, List.length_take_of_le (by omega)] at split
    rw [List.idxOf, split]
    exact Nat.le_add_right ..
  unfold shortest
  omega

theorem shortest_early {size : Nat} (early : delimiter.toUInt8 ∈ B.take (size - 1)) :
    shortest delimiter size B < size := by
  have found : (B.take (size - 1)).findIdx (· == delimiter.toUInt8) < (B.take (size - 1)).length :=
    List.findIdx_lt_length_of_exists ⟨_, early, by simp⟩
  have index : B.idxOf delimiter.toUInt8 < size - 1 := by
    have split : (B.take (size - 1) ++ B.drop (size - 1)).findIdx (· == delimiter.toUInt8) =
        (B.take (size - 1)).findIdx (· == delimiter.toUInt8) := by
      rw [List.findIdx_append, if_pos found]
    rw [List.take_append_drop] at split
    have bound := List.length_take_le (size - 1) B
    rw [List.idxOf, split]
    omega
  unfold shortest
  omega

theorem streaming_negative (kind : q.kind = .readUntil delimiter) (positive : 1 ≤ q.size) (idle : r.readId = 0)
    (empty : r.readBuffer = []) (fresh : r.readCounter + 1 ≠ 0) (negative : delimiter < 0)
    (h : ReportsShortest q delimiter r m B) : shortest delimiter q.size B = q.size := by
  obtain ⟨es, w, run, first⟩ := h.reaches
  have streaming := run_streaming kind positive idle empty fresh run
  have posts := first.posts
  rw [empty, List.nil_append] at posts
  cases streaming with
  | scanning _ _ _ _ _ _ _ _ none => simp [none] at posts
  | arrived _ _ _ _ _ _ _ _ _ _ _ none => simp [none] at posts
  | reported bytes left rest stop reported =>
    rw [reported.posts] at posts
    simp only [List.nil_append, List.cons.injEq, Post.mk.injEq, and_true, true_and] at posts
    exact posts.1.symm.trans (stops_negative negative stop)

end Proofs

/-- A read_until that does not have to wait reports the same from the leftover as from the stream
exactly when the delimiter is not negative, or does not come before the last byte asked for. -/
theorem reads_until_agree_iff (B : List UInt8) (delimiter : Int8) (q : Request ReadKind)
    (kind : q.kind = .readUntil delimiter) (positive : 1 ≤ q.size) (buffered streaming : StreamReader)
    (m m' : Memory UInt8) (idle : buffered.readId = 0) (idle' : streaming.readId = 0) (holds : buffered.readBuffer = B)
    (empty : streaming.readBuffer = []) (enough : delimiter.toUInt8 ∈ B.take q.size ∨ q.size ≤ B.length) :
    ReportsShortest q delimiter buffered m [] ∧ ReportsShortest q delimiter streaming m' B ↔
      buffered.readCounter + 1 ≠ 0 ∧ streaming.readCounter + 1 ≠ 0 ∧
        (0 ≤ delimiter ∨ delimiter.toUInt8 ∉ B.take (q.size - 1)) := by
  constructor
  · rintro ⟨fromBuffer, fromStream⟩
    refine ⟨reports_counter idle fromBuffer, reports_counter idle' fromStream, ?_⟩
    by_cases ascii : 0 ≤ delimiter
    · exact Or.inl ascii
    · right
      intro early
      have fresh := reports_counter idle' fromStream
      have size := streaming_negative kind positive idle' empty fresh (Int8.not_le.mp ascii) fromStream
      have short := shortest_early early
      omega
  · rintro ⟨fresh, fresh', delimits⟩
    refine ⟨buffered_reports kind positive idle fresh (by rwa [holds]), ?_⟩
    by_cases ascii : 0 ≤ delimiter
    · refine streaming_reports kind positive idle' empty fresh' ?_ fun bytes rest stop all => ?_
      · refine enough.imp (fun member => ⟨_, List.mem_of_mem_take member, ?_⟩) id
        exact (StreamReader.isDelimiter_iff ascii).mpr rfl
      · rw [← all]
        exact stops_shortest ascii stop rest
    · have late := delimits.resolve_left ascii
      have long : q.size ≤ B.length := by
        rcases enough with member | long
        · by_contra short
          rw [List.take_of_length_le (by omega)] at member late
          exact late member
        · exact long
      refine streaming_reports kind positive idle' empty fresh' (Or.inr long) fun bytes rest stop all => ?_
      rw [shortest_late late long]
      exact (stops_negative (Int8.not_le.mp ascii) stop).symm

/-- A newline as the second of three bytes. -/
theorem reads_until_agree_newline :
    ReportsShortest { kind := .readUntil 10, size := 4, data := 0, callback := 1 } 10
        { StreamReader.blank with readBuffer := [97, 10, 98] } (fun _ => 0) [] ∧
      ReportsShortest { kind := .readUntil 10, size := 4, data := 0, callback := 1 } 10 .blank (fun _ => 0) [97, 10, 98] :=
  (reads_until_agree_iff [97, 10, 98] 10 { kind := .readUntil 10, size := 4, data := 0, callback := 1 } rfl (by decide)
    { StreamReader.blank with readBuffer := [97, 10, 98] } .blank (fun _ => 0) (fun _ => 0) rfl rfl rfl rfl
    (by decide)).mpr (by decide)

/-- The delimiter `'\xe9'` as the first of two bytes: it is found in the leftover, and not in what the
stream transfers. -/
theorem reads_until_disagree :
    (issued { kind := .readUntil (-23), size := 2, data := 0, callback := 1 }
        { StreamReader.blank with readBuffer := [233, 1] } (fun _ => 0)).posts.map Post.bytes = [[233]] ∧
      (∃ es w, Steps (World.step reader) (Delivers [233, 1])
        (issued { kind := .readUntil (-23), size := 2, data := 0, callback := 1 } .blank fun _ => 0) es w ∧
        w.posts.map Post.bytes = [[233, 1]]) ∧
      ¬ ReportsShortest { kind := .readUntil (-23), size := 2, data := 0, callback := 1 } (-23) .blank (fun _ => 0)
        [233, 1] := by
  refine ⟨by decide, ?_, ?_⟩
  · obtain ⟨w, run, seen⟩ : ∃ w, Steps (World.step reader) (Delivers [233, 1])
        (issued { kind := .readUntil (-23), size := 2, data := 0, callback := 1 } .blank fun _ => 0)
        [.move 0 [233, 1], .complete 0 .success] w ∧ w.posts.map Post.bytes = [[233, 1]] := exists_of_exec (by decide)
    exact ⟨_, w, run, seen⟩
  · intro reports
    have size := streaming_negative rfl (by decide) rfl rfl (by decide) (by decide) reports
    exact absurd size (by decide)

end RtacAsio
