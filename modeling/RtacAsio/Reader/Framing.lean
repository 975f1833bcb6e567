import RtacAsio.Reader.Scan

/-!
`async_read_until` over and over: the lines of what the stream hands over, whatever the chunks
it comes in.
-/

namespace RtacAsio
open Lib World

/-- Requests for lines of at most `m` bytes, each issued after the callback of the previous one,
over a stream that hands over `S` without errors. -/
def LineByLine (delimiter : Int8) (m : Nat) (S : List UInt8) (w : World ReadKind StreamReader) : Event ReadKind → Prop
  | .call q => w.Settled ∧ q.kind = .readUntil delimiter ∧ q.size = m ∧ q.timeoutMillis = 0
  | .move i bytes => w.Honest (.move i bytes) ∧ w.moved ++ bytes <+: S
  | .complete _ err => err = .success
  | _ => True

instance (delimiter : Int8) (m : Nat) (S : List UInt8) (w : World ReadKind StreamReader) (e : Event ReadKind) :
    Decidable (LineByLine delimiter m S w e) :=
  match e with
  | .call _ => inferInstanceAs (Decidable (_ ∧ _))
  | .move _ _ => inferInstanceAs (Decidable (_ ∧ _))
  | .complete _ _ => inferInstanceAs (Decidable (_ = _))
  | .deliver _ | .expire | .timer _ => instDecidableTrue

/-- The lines of `S`, and what follows the last delimiter if it fills a buffer of `m` bytes. -/
def expected (delimiter : UInt8) (m : Nat) (S : List UInt8) : List (List UInt8) :=
  let (ls, tail) := lines (· == delimiter) S
  if tail.length = m then ls ++ [tail] else ls

/-- No line of `S` is longer than `m` bytes, nor what follows the last one. -/
def FitsIn (delimiter : UInt8) (m : Nat) (S : List UInt8) : Prop :=
  (∀ l ∈ (lines (· == delimiter) S).1, l.length ≤ m) ∧ (lines (· == delimiter) S).2.length ≤ m

instance (delimiter : UInt8) (m : Nat) (S : List UInt8) : Decidable (FitsIn delimiter m S) :=
  inferInstanceAs (Decidable (_ ∧ _))

/-- The requests so far have been answered with the lines of `S`, as far as they go. -/
structure Framed (delimiter : UInt8) (m : Nat) (S : List UInt8) (w : World ReadKind StreamReader) : Prop where
  reports : w.posts.map Post.bytes <+: expected delimiter m S
  counts : ∀ p ∈ w.posts, p.err = .success ∧ p.count = p.bytes.length
  /-- With all of `S` handed over, a request that waits has no line to wait for. -/
  all : w.moved = S → (∀ op ∈ w.ops, op.moved = none) →
    w.posts.map Post.bytes = (expected delimiter m S).take w.accepted.length

/-- While a request waits, one operation is under way: for what is missing of its `m` bytes, which is
something, or for more. -/
def Asking (m : Nat) (ops : List (Op ReadKind)) (w : World ReadKind StreamReader) : Prop :=
  w.posts.length < w.accepted.length →
    ∃ op, ops = [op] ∧ op.id = w.self.readId ∧ w.self.processed < m ∧ m ≤ w.self.processed + op.count

/-- Nobody calls. -/
def Awaits (delimiter : Int8) (m : Nat) (S : List UInt8) (w : World ReadKind StreamReader) (e : Event ReadKind) : Prop :=
  LineByLine delimiter m S w e ∧ ∀ q, e ≠ .call q

/-- Nothing comes of it: a chunk without bytes is moved, or reported, or the waits expire where no
request has a timeout. -/
def EmptyChunk (w : World ReadKind StreamReader) : Event ReadKind → Prop
  | .move _ bytes => bytes = []
  | .complete i _ => ∃ op, w.ops[i]? = some op ∧ op.moved = some []
  | .expire => True
  | _ => False

/-! ### The lines still to come -/

section Lines
variable {delimiter : UInt8} {m : Nat} {body rest got : List UInt8} {x : UInt8}

theorem expected_line (none : ∀ y ∈ body, y ≠ delimiter) (last : x = delimiter) :
    expected delimiter m (body ++ x :: rest) = (body ++ [x]) :: expected delimiter m rest := by
  have split := lines_line (p := (· == delimiter)) rest (by simpa using none) (by simpa using last)
  simp only [expected, split]
  split <;> rfl

theorem FitsIn.line (h : FitsIn delimiter m (body ++ x :: rest)) (none : ∀ y ∈ body, y ≠ delimiter)
    (last : x = delimiter) : body.length < m ∧ FitsIn delimiter m rest := by
  have split := lines_line (p := (· == delimiter)) rest (by simpa using none) (by simpa using last)
  obtain ⟨short, tail⟩ := h
  rw [split] at short tail
  rw [List.forall_mem_cons] at short
  obtain ⟨first, others⟩ := short
  rw [List.length_append, List.length_singleton] at first
  exact ⟨by omega, others, tail⟩

theorem expected_open (none : ∀ y ∈ got, y ≠ delimiter) (short : got.length < m) : expected delimiter m got = [] := by
  have split := lines_tail (p := (· == delimiter)) (s := got) (by simpa using none)
  have other : got.length ≠ m := by omega
  simp [expected, split, other]

/-- A full buffer without a delimiter is all there is. -/
theorem FitsIn.full (h : FitsIn delimiter m (got ++ rest)) (none : ∀ y ∈ got, y ≠ delimiter) (full : m ≤ got.length) :
    rest = [] ∧ expected delimiter m (got ++ rest) = [got] := by
  rcases lines_cases (· == delimiter) rest with more | ⟨body, x, later, rfl, more, last⟩
  · have all : ∀ y ∈ got ++ rest, y ≠ delimiter :=
      List.forall_mem_append.mpr ⟨none, fun y member => by simpa using more y member⟩
    have split := lines_tail (p := (· == delimiter)) (s := got ++ rest) (by simpa using all)
    have bound := h.2
    rw [split, List.length_append] at bound
    obtain rfl : rest = [] := List.eq_nil_of_length_eq_zero (by omega)
    rw [List.append_nil] at split ⊢
    have same : got.length = m := by
      simp at bound
      omega
    refine ⟨rfl, ?_⟩
    simp [expected, split, same]
  · have all : ∀ y ∈ got ++ body, y ≠ delimiter :=
      List.forall_mem_append.mpr ⟨none, fun y member => by simpa using more y member⟩
    rw [← List.append_assoc] at h
    have short := (h.line all (by simpa using last)).1
    rw [List.length_append] at short
    omega

end Lines

/-- Where the bytes of `S` are: reported as `lines`, in the request in progress or in the
leftover, and still in the stream. -/
inductive Stage (delimiter : Int8) (m : Nat) (S : List UInt8) (w : World ReadKind StreamReader) : Prop where
  | idle (rest : List UInt8) : w.Settled → w.self.readId = 0 → w.ops = [] → w.queue = [] → w.moved ++ rest = S →
      FitsIn delimiter.toUInt8 m (w.self.readBuffer ++ rest) →
      expected delimiter.toUInt8 m S =
        w.posts.map Post.bytes ++ expected delimiter.toUInt8 m (w.self.readBuffer ++ rest) → Stage delimiter m S w
  | scanning (q : Request ReadKind) (got : List UInt8) (op : Op ReadKind) (rest : List UInt8) :
      w.accepted.length = w.posts.length + 1 → Scanning q delimiter got op w → q.size = m → op.moved = none →
      w.moved ++ rest = S → (∀ x ∈ got, x ≠ delimiter.toUInt8) → got.length < m → m ≤ got.length + op.count →
      FitsIn delimiter.toUInt8 m (got ++ rest) →
      expected delimiter.toUInt8 m S = w.posts.map Post.bytes ++ expected delimiter.toUInt8 m (got ++ rest) →
      Stage delimiter m S w
  | arrived (q : Request ReadKind) (got bytes : List UInt8) (op : Op ReadKind) (rest : List UInt8) :
      w.accepted.length = w.posts.length + 1 → Scanning q delimiter got op w → q.size = m → op.moved = some bytes →
      w.memory.read (q.data + got.length) bytes.length = bytes → w.moved ++ rest = S →
      (∀ x ∈ got, x ≠ delimiter.toUInt8) → got.length < m → m ≤ got.length + op.count →
      FitsIn delimiter.toUInt8 m (got ++ bytes ++ rest) →
      expected delimiter.toUInt8 m S = w.posts.map Post.bytes ++ expected delimiter.toUInt8 m (got ++ bytes ++ rest) →
      Stage delimiter m S w

structure Framing (delimiter : Int8) (m : Nat) (S : List UInt8) (k : Nat) (w : World ReadKind StreamReader) : Prop where
  waits : w.waits = []
  fired : w.fired = []
  counter : w.self.readCounter.toNat = k + w.accepted.length
  counts : ∀ p ∈ w.posts, p.err = .success ∧ p.count = p.bytes.length
  stage : Stage delimiter m S w

section Steps
variable {delimiter : Int8} {m : Nat} {S rest bytes left : List UInt8} {q : Request ReadKind}
  {w w' : World ReadKind StreamReader}

theorem reported_stage (h : Reported q bytes left w.posts w') (busy : w'.accepted.length = w.posts.length + 1)
    (moved : w'.moved ++ rest = S) (fits : FitsIn delimiter.toUInt8 m (left ++ rest))
    (next : expected delimiter.toUInt8 m S =
      w.posts.map Post.bytes ++ ([bytes] ++ expected delimiter.toUInt8 m (left ++ rest))) :
    Stage delimiter m S w' := by
  refine .idle rest ?_ h.idle h.ops h.queue moved (by rwa [h.left]) ?_
  · rw [Settled, h.posts, busy, List.length_append, List.length_singleton]
  · rw [next, h.posts, h.left, List.map_append, List.append_assoc]
    rfl

theorem reported_counts (h : Reported q bytes left w.posts w')
    (counts : ∀ p ∈ w.posts, p.err = .success ∧ p.count = p.bytes.length) :
    ∀ p ∈ w'.posts, p.err = .success ∧ p.count = p.bytes.length := by
  rw [h.posts, List.forall_mem_append, List.forall_mem_singleton]
  exact ⟨counts, rfl, rfl⟩

/-- A delimiter ends a line, and the rest of `S` follows it. -/
theorem reported_line {got more : List UInt8} {b : UInt8} (h : Reported q (got ++ [b]) more w.posts w')
    (busy : w'.accepted.length = w.posts.length + 1) (moved : w'.moved ++ rest = S)
    (none : ∀ x ∈ got, x ≠ delimiter.toUInt8) (hit : b = delimiter.toUInt8)
    (fits : FitsIn delimiter.toUInt8 m (got ++ b :: (more ++ rest)))
    (next : expected delimiter.toUInt8 m S =
      w.posts.map Post.bytes ++ expected delimiter.toUInt8 m (got ++ b :: (more ++ rest))) : Stage delimiter m S w' := by
  apply reported_stage h busy moved (fits.line none hit).2
  rw [next, expected_line none hit]
  rfl

/-- A full buffer ends what follows the last line. -/
theorem reported_full {got more : List UInt8} (h : Reported q got more w.posts w')
    (busy : w'.accepted.length = w.posts.length + 1) (moved : w'.moved ++ rest = S) (positive : 1 ≤ m)
    (none : ∀ x ∈ got, x ≠ delimiter.toUInt8) (full : m ≤ got.length)
    (fits : FitsIn delimiter.toUInt8 m (got ++ (more ++ rest)))
    (next : expected delimiter.toUInt8 m S =
      w.posts.map Post.bytes ++ expected delimiter.toUInt8 m (got ++ (more ++ rest))) : Stage delimiter m S w' := by
  obtain ⟨nothing, one⟩ := fits.full none full
  have empty : expected delimiter.toUInt8 m ([] : List UInt8) = [] := expected_open (by simp) positive
  apply reported_stage h busy moved
  · rw [nothing]
    exact ⟨by simp [lines], by simp [lines]⟩
  · rw [next, one, nothing, empty]
    rfl

theorem call_framing {k : Nat} (h : Framing delimiter m S k w) (positive : 1 ≤ m) (settled : w.Settled)
    (kind : q.kind = .readUntil delimiter) (size : q.size = m) (untimed : q.timeoutMillis = 0)
    (bounded : k + (w.call reader q).accepted.length < 2 ^ 32) : Framing delimiter m S k (w.call reader q) := by
  have notBusy : w.accepted.length ≠ w.posts.length + 1 := by
    unfold Settled at settled
    omega
  obtain ⟨waits, fired, counter, counts, stage⟩ := h
  cases stage with
  | scanning _ _ _ _ busy => exact (notBusy busy).elim
  | arrived _ _ _ _ _ busy => exact (notBusy busy).elim
  | idle rest _ idle ops queue moved fits next =>
    obtain ⟨counter', accepted', waits', fired'⟩ := call_same idle untimed
    rw [accepted', List.length_append, List.length_singleton] at bounded
    have succ := counter_next counter bounded
    have fresh : w.self.readCounter + 1 ≠ 0 := by
      intro zero
      rw [zero] at succ
      simp at succ
    have moved' : (w.call reader q).moved ++ rest = S := by rwa [call_moved idle]
    have busy : (w.call reader q).accepted.length = w.posts.length + 1 := by
      rw [accepted', List.length_append, List.length_singleton, settled]
    have start := call_started kind idle ops queue fresh
    generalize w.call reader q = w' at start counter' accepted' waits' fired' moved' busy
    have goal (counts' : ∀ p ∈ w'.posts, p.err = .success ∧ p.count = p.bytes.length) (stage : Stage delimiter m S w') :
        Framing delimiter m S k w' := by
      refine ⟨waits'.trans waits, fired'.trans fired, ?_, counts', stage⟩
      rw [counter', accepted', List.length_append, List.length_singleton, succ, Nat.add_assoc]
    cases start with
    | reported stop reported =>
      apply goal (reported_counts reported counts)
      rw [size] at stop reported
      rcases StreamReader.leftoverStops_at positive stop with ⟨body, b, more, split, taken, _, hit, none⟩ | ⟨taken, full, none⟩
      · rw [taken, split, take_through, drop_through] at reported
        rw [split, List.append_assoc] at fits next
        refine reported_line reported busy moved' ?_ (StreamReader.toInt8_eq_iff.mp hit) fits next
        exact fun x member same => none x member (StreamReader.toInt8_eq_iff.mpr same)
      · rw [taken] at reported
        rw [← List.take_append_drop m w.self.readBuffer, List.append_assoc] at fits next
        refine reported_full reported busy moved' positive ?_ ?_ fits next
        · exact fun x member same => none x member (StreamReader.toInt8_eq_iff.mpr same)
        · rw [List.length_take_of_le full]
    | scanning op running scanning count unmoved posts =>
      rw [size] at running
      have asks : m ≤ w.self.readBuffer.length + op.count := by omega
      refine goal (by rwa [posts]) (.scanning q _ op rest (by rwa [posts]) scanning size unmoved moved' ?_ ?_ asks fits ?_)
      · exact fun x member same =>
          StreamReader.leftoverStops_none running x member (StreamReader.toInt8_eq_iff.mpr same)
      · by_cases empty : w.self.readBuffer = []
        · rw [empty, List.length_nil]
          omega
        · exact (StreamReader.leftoverTaken_running running).2 empty
      · rwa [posts]

theorem moved_framing {k i : Nat} {op : Op ReadKind} (h : Framing delimiter m S k w) (found : w.ops[i]? = some op)
    (unmoved : op.moved = none) (handed : w.moved ++ bytes <+: S) : Framing delimiter m S k (w.move reader i op bytes) := by
  obtain ⟨waits, fired, counter, counts, stage⟩ := h
  refine ⟨waits, fired, counter, counts, ?_⟩
  cases stage with
  | idle _ _ _ ops => simp [ops] at found
  | arrived _ _ _ _ _ _ scanning _ moved =>
    obtain ⟨rfl, rfl⟩ := scanning.only found
    simp [moved] at unmoved
  | scanning q got op' rest busy scanning size _ moved none short asks fits next =>
    obtain ⟨rfl, rfl⟩ := scanning.only found
    obtain ⟨rest', split⟩ := handed
    obtain rfl : rest = bytes ++ rest' := by
      rw [List.append_assoc, ← moved] at split
      exact (List.append_cancel_left split).symm
    rw [← List.append_assoc] at fits next
    obtain ⟨scanning', content⟩ := scanning.moved bytes
    refine .arrived q got bytes { op' with moved := some bytes } rest' busy scanning' size rfl content ?_ none short asks fits
      next
    rwa [moved_move]

theorem complete_framing {k i : Nat} (h : Framing delimiter m S k w) (positive : 1 ≤ m) (ascii : 0 ≤ delimiter)
    (taken : w.step reader (.complete i .success) = some w') : Framing delimiter m S k w' := by
  obtain ⟨waits, fired, counter, counts, stage⟩ := h
  cases stage with
  | idle _ _ _ ops => simp [step, ops] at taken
  | scanning _ _ _ _ _ scanning _ unmoved => exact (scanning.waiting unmoved taken).elim
  | arrived q got bytes op rest busy scanning size moved content total none short _ fits next =>
    obtain ⟨goesOn, same⟩ := complete_continued scanning moved content taken
    have busy' : w'.accepted.length = w.posts.length + 1 := by rwa [same.accepted]
    have total' : w'.moved ++ rest = S := by rwa [World.moved, same.traffic]
    have goal (counts' : ∀ p ∈ w'.posts, p.err = .success ∧ p.count = p.bytes.length) (stage : Stage delimiter m S w') :
        Framing delimiter m S k w' :=
      ⟨same.waits.trans waits, same.fired.trans fired, by rw [same.counter, same.accepted, counter], counts', stage⟩
    have other {x : UInt8} (miss : StreamReader.isDelimiter delimiter x = false) : x ≠ delimiter.toUInt8 := by
      intro eq
      rw [(StreamReader.isDelimiter_iff ascii).mpr eq] at miss
      cases miss
    have both (more : List UInt8) (miss : ∀ x ∈ more, StreamReader.isDelimiter delimiter x = false) :
        ∀ x ∈ got ++ more, x ≠ delimiter.toUInt8 :=
      List.forall_mem_append.mpr ⟨none, fun x member => other (miss x member)⟩
    cases goesOn with
    | found body b more split hit miss reported =>
      have hit : b = delimiter.toUInt8 := (StreamReader.isDelimiter_iff ascii).mp hit
      apply goal (reported_counts reported counts)
      apply reported_line reported busy' total' (both body miss) hit
      · simpa [split] using fits
      · simpa [split] using next
    | full miss full reported =>
      apply goal (reported_counts reported counts)
      refine reported_full reported busy' total' positive (both bytes miss) ?_ fits next
      rw [List.length_append, ← size]
      exact full
    | scanning op' miss short' scanning' count unmoved posts =>
      apply goal (by rwa [posts])
      refine .scanning q (got ++ bytes) op' rest (by rwa [posts]) scanning' size unmoved total' (both bytes miss) ?_ ?_ fits
        (by rwa [posts])
      · rw [List.length_append, ← size]
        exact short'
      · rw [List.length_append]
        omega

theorem step_framing {k : Nat} {e : Event ReadKind} (h : Framing delimiter m S k w) (positive : 1 ≤ m)
    (ascii : 0 ≤ delimiter) (allowed : LineByLine delimiter m S w e) (taken : w.step reader e = some w')
    (bounded : k + w'.accepted.length < 2 ^ 32) : Framing delimiter m S k w' := by
  have stage := h.stage
  cases step_cases taken with
  | call q =>
    obtain ⟨settled, kind, size, untimed⟩ := allowed
    exact call_framing h positive settled kind size untimed bounded
  | move i op bytes found unmoved => exact moved_framing h found unmoved allowed.2
  | complete i op bytes err =>
    obtain rfl := allowed
    exact complete_framing h positive ascii taken
  | deliver i p found =>
    cases stage with
    | idle _ _ _ _ queue => simp [queue] at found
    | scanning _ _ _ _ _ scanning => simp [scanning.queue] at found
    | arrived _ _ _ _ _ _ scanning => simp [scanning.queue] at found
  | expire =>
    rwa [expire_nothing h.waits]
  | timer i id err found => simp [h.fired] at found

end Steps

theorem Framing.framed {delimiter : Int8} {m k : Nat} {S : List UInt8} {w : World ReadKind StreamReader}
    (h : Framing delimiter m S k w) : Framed delimiter.toUInt8 m S w := by
  obtain ⟨_, _, _, counts, stage⟩ := h
  cases stage with
  | idle rest settled _ _ _ moved _ next =>
    refine ⟨⟨_, next.symm⟩, counts, fun _ _ => ?_⟩
    rw [next, settled, ← List.length_map (f := Post.bytes), List.take_left]
  | scanning q got op rest busy _ _ _ moved none short _ _ next =>
    refine ⟨⟨_, next.symm⟩, counts, fun all _ => ?_⟩
    obtain rfl : rest = [] := by
      rw [all] at moved
      exact List.append_right_eq_self.mp moved
    rw [next, List.append_nil, expected_open none short, List.append_nil, List.take_of_length_le]
    rw [List.length_map]
    omega
  | arrived q got bytes op rest _ scanning _ moved _ _ _ _ _ _ next =>
    refine ⟨⟨_, next.symm⟩, counts, fun _ waiting => ?_⟩
    have unmoved := waiting op (by simp [scanning.ops])
    simp [moved] at unmoved

theorem Scanning.asking {delimiter : Int8} {m : Nat} {got : List UInt8} {q : Request ReadKind} {op : Op ReadKind}
    {w : World ReadKind StreamReader} (scanning : Scanning q delimiter got op w) (short : got.length < m)
    (asks : m ≤ got.length + op.count) : Asking m w.ops w := by
  have same : op.id = w.self.readId := congrArg Cont.id scanning.cont
  have processed := scanning.processed
  exact fun _ => ⟨op, scanning.ops, same, by omega, by omega⟩

theorem Framing.asking {delimiter : Int8} {m k : Nat} {S : List UInt8} {w : World ReadKind StreamReader}
    (h : Framing delimiter m S k w) : Asking m w.ops w := by
  cases h.stage with
  | idle rest settled =>
    intro waits
    unfold Settled at settled
    omega
  | scanning _ _ _ _ _ scanning _ _ _ _ short asks => exact scanning.asking short asks
  | arrived _ _ _ _ _ _ scanning _ _ _ _ _ short asks => exact scanning.asking short asks

/-! ### A line that is there is reported -/

section Progress
variable {delimiter : Int8} {m k : Nat} {S got rest bytes : List UInt8} {w w' : World ReadKind StreamReader}
  {e : Event ReadKind} {q : Request ReadKind} {op : Op ReadKind}

/-- Whether the stream has moved bytes that it has not reported yet. -/
def inHand (w : World ReadKind StreamReader) : Nat := (w.ops.map fun op => min 1 (op.moved.getD []).length).sum

/-- No less than the number of steps to be taken for all of `S`, but for empty chunks. -/
def ahead (S : List UInt8) (w : World ReadKind StreamReader) : Nat := 2 * (S.length - w.moved.length) + inHand w

/-- The stream may move a byte for a request that waits, if `S` has another one. -/
theorem scanning_goes {b : UInt8} (scanning : Scanning q delimiter got op w) (unmoved : op.moved = none)
    (asks : 0 < op.count) (total : w.moved ++ b :: rest = S) :
    ∃ e u, Awaits delimiter m S w e ∧ ¬ EmptyChunk w e ∧ w.step reader e = some u := by
  have found : w.ops[0]? = some op := by rw [scanning.ops]; rfl
  refine ⟨.move 0 [b], w.move reader 0 op [b], ⟨⟨?_, rest, ?_⟩, by simp⟩, by simp [EmptyChunk], ?_⟩
  · simp only [Honest, found]
    exact asks
  · rw [← total, List.append_assoc]
    rfl
  · simp [step, found, unmoved, reader]

theorem Framing.goes (h : Framing delimiter m S k w)
    (line : w.accepted.length ≤ (expected delimiter.toUInt8 m S).length) :
    w.Settled ∨ ∃ u, Works (World.step reader) (Awaits delimiter m S) EmptyChunk w 1 u := by
  have more {got rest : List UInt8} (busy : w.accepted.length = w.posts.length + 1) (none : ∀ x ∈ got, x ≠ delimiter.toUInt8)
      (short : got.length < m)
      (next : expected delimiter.toUInt8 m S = w.posts.map Post.bytes ++ expected delimiter.toUInt8 m (got ++ rest)) :
      ∃ b rest', rest = b :: rest' := by
    apply List.exists_cons_of_ne_nil
    rintro rfl
    rw [next, List.append_nil, expected_open none short, List.append_nil, List.length_map, busy] at line
    omega
  cases h.stage with
  | idle _ settled => exact Or.inl settled
  | scanning q got op rest busy scanning size unmoved total none short asks _ next =>
    obtain ⟨b, rest', rfl⟩ := more busy none short next
    obtain ⟨e, u, allowed, works, taken⟩ := scanning_goes (m := m) scanning unmoved (by omega) total
    exact Or.inr ⟨u, .one allowed works taken⟩
  | arrived q got bytes op rest busy scanning size moved content total none short asks _ next =>
    have found : w.ops[0]? = some op := by rw [scanning.ops]; rfl
    obtain ⟨w', taken⟩ : ∃ w', w.step reader (.complete 0 .success) = some w' := by simp [step, found, moved]
    have awaits : Awaits delimiter m S w (.complete 0 .success) := ⟨rfl, by simp⟩
    right
    by_cases nothing : bytes = []
    · -- The chunk was empty: the request asks again, and the next one need not be.
      subst nothing
      rw [List.append_nil] at next
      obtain ⟨b, rest', rfl⟩ := more busy none short next
      obtain ⟨goesOn, same⟩ := complete_continued scanning moved content taken
      cases goesOn with
      | found body b more split => simp at split
      | full _ full =>
        rw [List.length_nil] at full
        omega
      | scanning op' _ short' scanning' count unmoved =>
        have total' : w'.moved ++ b :: rest' = S := by rwa [World.moved, same.traffic]
        obtain ⟨e, u, allowed, works, taken'⟩ := scanning_goes (m := m) scanning' unmoved (by omega) total'
        exact ⟨u, .work (.idle .refl awaits ⟨op, found, moved⟩ taken) allowed works taken'⟩
    · refine ⟨w', .one awaits ?_ taken⟩
      rintro ⟨op', found', empty⟩
      obtain rfl : op = op' := Option.some.inj (found.symm.trans found')
      exact nothing (Option.some.inj (moved.symm.trans empty))

theorem complete_ahead {i : Nat} (scanning : Scanning q delimiter got op w) (moved : op.moved = some bytes)
    (content : w.memory.read (q.data + got.length) bytes.length = bytes)
    (taken : w.step reader (.complete i .success) = some w') :
    w'.accepted = w.accepted ∧ ahead S w = ahead S w' + min 1 bytes.length := by
  obtain ⟨goesOn, same⟩ := complete_continued scanning moved content taken
  have none : inHand w' = 0 := by
    cases goesOn with
    | found _ _ _ _ _ _ reported => simp [inHand, reported.ops]
    | full _ _ reported => simp [inHand, reported.ops]
    | scanning op' _ _ scanning' _ unmoved => simp [inHand, scanning'.ops, unmoved]
  refine ⟨same.accepted, ?_⟩
  rw [ahead, ahead, none, World.moved, World.moved, same.traffic]
  simp [inHand, scanning.ops, moved]

theorem step_ahead (h : Framing delimiter m S k w) (allowed : Awaits delimiter m S w e) (taken : w.step reader e = some w') :
    w'.accepted = w.accepted ∧ ahead S w' ≤ ahead S w ∧ (¬ EmptyChunk w e → ahead S w' < ahead S w) := by
  have stage := h.stage
  cases step_cases taken with
  | call q => exact (allowed.2 q rfl).elim
  | move i op bytes found unmoved =>
    cases stage with
    | idle _ _ _ ops => simp [ops] at found
    | arrived _ _ _ _ _ _ scanning _ moved =>
      obtain ⟨rfl, rfl⟩ := scanning.only found
      simp [moved] at unmoved
    | scanning q got op' rest busy scanning =>
      obtain ⟨rfl, rfl⟩ := scanning.only found
      have within := allowed.1.2.length_le
      rw [List.length_append] at within
      have less : ahead S (w.move reader 0 op' bytes) = 2 * (S.length - (w.moved.length + bytes.length)) + min 1 bytes.length := by
        rw [ahead, moved_move, List.length_append]
        simp [inHand, move, scanning.ops]
      have before : ahead S w = 2 * (S.length - w.moved.length) := by simp [ahead, inHand, scanning.ops, unmoved]
      refine ⟨rfl, by omega, fun works => ?_⟩
      have some : 0 < bytes.length := List.length_pos_iff.mpr works
      omega
  | complete i op bytes err found moved =>
    obtain rfl : err = .success := allowed.1
    cases stage with
    | idle _ _ _ ops => simp [ops] at found
    | scanning _ _ _ _ _ scanning _ unmoved => exact (scanning.waiting unmoved taken).elim
    | arrived q got bytes' op' rest busy scanning _ moved' content =>
      obtain ⟨rfl, rfl⟩ := scanning.only found
      obtain rfl : bytes' = bytes := Option.some.inj (moved'.symm.trans moved)
      obtain ⟨same, less⟩ := complete_ahead (S := S) scanning moved' content taken
      refine ⟨same, by omega, fun works => ?_⟩
      have some : 0 < bytes'.length := by
        rw [List.length_pos_iff]
        rintro rfl
        exact works ⟨op', found, moved⟩
      omega
  | deliver i p found =>
    cases stage with
    | idle _ _ _ _ queue => simp [queue] at found
    | scanning _ _ _ _ _ scanning => simp [scanning.queue] at found
    | arrived _ _ _ _ _ _ scanning => simp [scanning.queue] at found
  | expire => exact ⟨rfl, Nat.le_refl _, fun works => (works trivial).elim⟩
  | timer i id err found => simp [h.fired] at found

/-- A request for which there is a line is called back. -/
theorem Framing.advances (h : Framing delimiter m S k w) (positive : 1 ≤ m) (ascii : 0 ≤ delimiter)
    (bounded : k + w.accepted.length < 2 ^ 32) (line : w.accepted.length ≤ (expected delimiter.toUInt8 m S).length) :
    Advances (World.step reader) (Awaits delimiter m S) EmptyChunk w Settled := by
  refine advances_of_measure (ahead S) (I := fun v => Framing delimiter m S k v ∧ v.accepted = w.accepted) ⟨h, rfl⟩ ?_ ?_
  · rintro t e u ⟨framing, accepted⟩ allowed taken
    obtain ⟨same, less⟩ := step_ahead framing allowed taken
    have accepted' := same.trans accepted
    exact ⟨⟨step_framing framing positive ascii allowed.1 taken (by rwa [accepted']), accepted'⟩, less⟩
  · rintro t ⟨framing, accepted⟩
    exact framing.goes (by rwa [accepted])

end Progress

theorem start_framing (delimiter : Int8) {m : Nat} {S : List UInt8} {r : StreamReader} {mem : Memory UInt8}
    {es : List (Event ReadKind)} {w : World ReadKind StreamReader} (positive : 1 ≤ m) (ascii : 0 ≤ delimiter)
    (fits : FitsIn delimiter.toUInt8 m S) (idle : r.readId = 0) (empty : r.readBuffer = [])
    (run : Steps (World.step reader) (LineByLine delimiter m S) { self := r, memory := mem } es w)
    (bounded : r.readCounter.toNat + w.accepted.length < 2 ^ 32) : Framing delimiter m S r.readCounter.toNat w := by
  have start : Framing delimiter m S r.readCounter.toNat { self := r, memory := mem } := by
    refine ⟨rfl, rfl, rfl, by simp, .idle S rfl idle rfl rfl rfl ?_ ?_⟩
    · rwa [empty]
    · rw [empty]
      rfl
  refine run.invariant
    (P := fun w => r.readCounter.toNat + w.accepted.length < 2 ^ 32 → Framing delimiter m S r.readCounter.toNat w)
    (fun _ => start) (fun t e u h allowed taken bounded => ?_) bounded
  have grows := step_accepted taken
  exact step_framing (h (by omega)) positive ascii allowed taken bounded

/-- One request reports one line of `S`, in order and whatever the chunks are, and each does for which
`S` has one. What follows the last line is reported if it fills the buffer of a request. -/
theorem reads_report_lines (delimiter : Int8) {m : Nat} {S : List UInt8} {r : StreamReader} {mem : Memory UInt8}
    {es : List (Event ReadKind)} {w : World ReadKind StreamReader} (positive : 1 ≤ m) (ascii : 0 ≤ delimiter)
    (fits : FitsIn delimiter.toUInt8 m S) (idle : r.readId = 0) (empty : r.readBuffer = [])
    (run : Steps (World.step reader) (LineByLine delimiter m S) { self := r, memory := mem } es w)
    (bounded : r.readCounter.toNat + w.accepted.length < 2 ^ 32) :
    Framed delimiter.toUInt8 m S w ∧ Asking m w.ops w ∧
      (w.accepted.length ≤ (expected delimiter.toUInt8 m S).length →
        Advances (World.step reader) (Awaits delimiter m S) EmptyChunk w Settled) := by
  have framing := start_framing delimiter positive ascii fits idle empty run bounded
  exact ⟨framing.framed, framing.asking, framing.advances positive ascii bounded⟩

/-- Two requests for lines, over chunks that hold parts of two lines, and nothing. The second one has
yet to get its last bytes. -/
theorem reads_report_lines_chunks :
    ∃ es w, Steps (World.step reader) (LineByLine 10 4 [97, 10, 98, 99, 10]) { self := .blank, memory := fun _ => 0 } es w ∧
      w.posts.map Post.bytes = [[97, 10]] ∧ ¬ w.Settled ∧ Framed (Int8.toUInt8 10) 4 [97, 10, 98, 99, 10] w ∧
      Advances (World.step reader) (Awaits 10 4 [97, 10, 98, 99, 10]) EmptyChunk w Settled := by
  obtain ⟨w, run, seen⟩ : ∃ w, Steps (World.step reader) (LineByLine 10 4 [97, 10, 98, 99, 10])
      { self := .blank, memory := fun _ => 0 }
      [.call { kind := .readUntil 10, size := 4, data := 0, callback := 1 }, .move 0 [97, 10, 98], .complete 0 .success,
        .call { kind := .readUntil 10, size := 4, data := 8, callback := 2 }, .move 0 [], .complete 0 .success] w ∧
      (w.posts.map Post.bytes, w.posts.length, w.accepted.length) = ([[97, 10]], 1, 2) := exists_of_exec (by decide)
  simp only [Prod.mk.injEq] at seen
  obtain ⟨reports, one, two⟩ := seen
  have bounded : StreamReader.blank.readCounter.toNat + w.accepted.length < 2 ^ 32 := by
    rw [two]
    decide
  obtain ⟨framed, _, advances⟩ := reads_report_lines 10 (by decide) (by decide) (by decide) rfl rfl run bounded
  exact ⟨_, w, run, reports, by simp [Settled, one, two], framed, advances (by rw [two]; decide)⟩

/-- What follows the last line is reported without a delimiter when it fills the buffer. -/
theorem reads_report_tail :
    FitsIn 10 1 [98] ∧ ∃ es w, Steps (World.step reader) (LineByLine 10 1 [98]) { self := .blank, memory := fun _ => 0 } es w ∧
      w.posts.map Post.bytes = [[98]] ∧ ¬ w.posts.map Post.bytes <+: (lines (· == 10) [98]).1 := by
  obtain ⟨w, run, seen⟩ : ∃ w, Steps (World.step reader) (LineByLine 10 1 [98]) { self := .blank, memory := fun _ => 0 }
      [.call { kind := .readUntil 10, size := 1, data := 0, callback := 1 }, .move 0 [98], .complete 0 .success] w ∧
      w.posts.map Post.bytes = [[98]] := exists_of_exec (by decide)
  exact ⟨by decide, _, w, run, seen, by rw [seen]; decide⟩

end RtacAsio
