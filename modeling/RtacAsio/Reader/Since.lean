import RtacAsio.Reader.Lawful
import RtacAsio.Reader.Session
import RtacAsio.Request.Protocol

/-!
After a call that leaves nothing buffered, a reader is the abstract reader, whatever happened
before.
-/

namespace RtacAsio
open Lib World

/-! ### Turns -/

/-- Whether the dump file is open is not seen. -/
def Next.undumped : Next → Next
  | .transfer count _ => .transfer count none
  | next => next

namespace Session
variable {q : Request ReadKind} {r : StreamReader} {bs buffer : List UInt8} {next : Next}

theorem conclude_undumped (processed : Nat) (kind : ReadKind) (next : Next) (s : Session) :
    s.conclude q processed kind next.undumped = s.conclude q processed kind next := by
  cases next <;> rfl

theorem readTurn_eq (count : Nat) (turn : StreamReader.ReadTurn count r bs buffer next) :
    readTurn count r.readBuffer = (bs, buffer, next.undumped) := by
  cases turn with
  | fromStream empty => simp [empty, readTurn, Next.undumped]
  | fromBuffer left =>
    cases eq : r.readBuffer with
    | nil => exact (left eq).elim
    | cons c buffer => rfl

theorem taken_eq (q : Request ReadKind) (r : StreamReader) : taken q r.readBuffer = StreamReader.taken q r := rfl

theorem callTurn_eq (turn : StreamReader.CallTurn q r bs buffer next) :
    callTurn q r.readBuffer = (bs, buffer, next.undumped) := by
  cases turn with
  | fromStream empty =>
    rw [empty]
    unfold callTurn
    split
    · simp [StreamReader.leftoverStops, Next.undumped]
    · rfl
  | fromBuffer plain left =>
    have turn := readTurn_eq q.size (.fromBuffer left)
    rcases plain with kind | kind <;> simpa only [callTurn, kind] using turn
  | stopped delimiter kind left stop => simp [callTurn, kind, stop, taken_eq, Next.undumped]
  | scanned delimiter kind left stop => simp [callTurn, kind, stop, Next.undumped]

theorem search_none {kind : ReadKind} {bytes : List UInt8}
    (none : ∀ delimiter, kind = .readUntil delimiter → StreamReader.searchLoop delimiter bytes 0 = none) :
    search kind bytes = .none := by
  cases kind with
  | readUntil delimiter => exact none delimiter rfl
  | _ => rfl

theorem resumeTurn_eq {c : Cont ReadKind} {err : ErrorCode} {n processed : Nat} {m : Memory UInt8}
    (turn : StreamReader.ResumeTurn c err n m r processed bs buffer next) :
    resumeTurn c.kind err n (m.read (r.dst + r.processed) n) r.requestedSize r.processed r.readBuffer =
      (processed, bs, buffer, next.undumped) := by
  cases turn with
  | readSome kind => simp [resumeTurn, search, kind, Next.undumped]
  | found delimiter i rest kind search => simp [resumeTurn, Session.search, kind, search, Next.undumped]
  | ended other none stop => simp only [resumeTurn, search_none none, other, stop, ↓reduceIte, Next.undumped]
  | again _ _ _ other none ok short read =>
    have goesOn : ¬ (err.failed = true ∨ r.requestedSize ≤ r.processed + n) := by simp [ok, short]
    have turn := readTurn_eq _ read
    simp only [resumeTurn, search_none none, other, goesOn, ↓reduceIte]
    rw [turn]

/-- What a call counts at once it has stored, and so has it what a continuation will count. -/
theorem callTurn_stored (turn : StreamReader.CallTurn q r bs buffer next) :
    StreamReader.taken q r ≤ bs.length ∧ ∀ count, next = .postCont count → StreamReader.taken q r = 0 ∧ count ≤ bs.length := by
  cases turn with
  | fromStream empty => exact ⟨Nat.le_of_eq (StreamReader.taken_empty q empty), by simp⟩
  | fromBuffer plain left =>
    have none := StreamReader.taken_plain plain r
    refine ⟨by omega, ?_⟩
    rintro count same
    obtain rfl := Next.postCont.inj same
    exact ⟨none, Nat.le_of_eq (List.length_take ..).symm⟩
  | stopped delimiter kind left stop =>
    have bound := StreamReader.leftoverTaken_le delimiter q.size r.readBuffer
    have amount : StreamReader.taken q r = StreamReader.leftoverTaken delimiter q.size r.readBuffer := by
      simp [StreamReader.taken, kind]
    refine ⟨?_, by simp⟩
    rw [List.length_take]
    omega
  | scanned delimiter kind left stop =>
    have all := (StreamReader.leftoverTaken_running stop).1
    refine ⟨Nat.le_of_eq ?_, by simp⟩
    simpa [StreamReader.taken, kind] using all

theorem resumeTurn_stored {c : Cont ReadKind} {err : ErrorCode} {n processed : Nat} {m : Memory UInt8}
    (turn : StreamReader.ResumeTurn c err n m r processed bs buffer next) :
    processed ≤ r.processed + n ∧ ∀ count, next = .postCont count → count ≤ bs.length := by
  cases turn with
  | readSome kind => exact ⟨Nat.le_add_left .., nofun⟩
  | found delimiter i rest kind search =>
    obtain ⟨j, rfl, bound, _⟩ := StreamReader.searchLoop_some search
    rw [Memory.read_length] at bound
    exact ⟨by omega, nofun⟩
  | ended => exact ⟨Nat.le_refl _, nofun⟩
  | again _ _ _ _ _ _ _ read =>
    refine ⟨Nat.le_refl _, ?_⟩
    rintro count rfl
    cases read with
    | fromBuffer left => exact Nat.le_of_eq (List.length_take ..).symm

end Session

/-! ### The reader and the abstract reader -/

/-- What the reader and its stream have in common with the abstract reader, between two turns and
within one. `base` requests were accepted before, `before` was produced and `old` was posted. -/
structure Agrees (base : Nat) (before : List UInt8) (old : List Post) (l : Line) (s : Session) : Prop where
  input : l.input = s.input
  produced : l.produced = before ++ s.produced
  buffer : l.world.self.readBuffer = s.buffer
  posts : l.world.posts = old ++ s.posts
  accepted : l.world.accepted.length = base + s.count
  holds : s.Holds l.world.memory
  ops : ∀ op ∈ l.world.ops, base < op.id.toNat ∧
    s.ops (op.id.toNat - base) = some ⟨op.handler.cont.kind, op.data, op.moved.map List.length⟩ ∧
    ∀ bytes, op.moved = some bytes → s.Covered op.data bytes.length
  queue : ∀ p ∈ l.world.queue, base < p.cont.id.toNat →
    s.queue (p.cont.id.toNat - base) = some (p.cont.kind, p.count) ∧ p.err = .success

/-- The request `q` is in progress on both sides, and `n` bytes of it were processed. -/
structure Serves (w : World ReadKind StreamReader) (s : Session) (q : Request ReadKind) (n : Nat) : Prop where
  busy : w.self.readId ≠ 0
  made : 0 < s.count
  data : w.self.dst = q.data
  size : w.self.requestedSize = q.size
  callback : w.self.callback = q.callback
  processed : w.self.processed = n
  covered : s.Covered q.data n
  posted : ∀ p ∈ w.queue, p.cont.id = w.self.readId → s.Covered (q.data + n) p.count

structure Since (base : Nat) (before : List UInt8) (old : List Post) (l : Line) (s : Session) : Prop where
  sound : Sound reader ReadKind.single l.world
  agrees : Agrees base before old l s
  phase : s.current = none ∧ l.world.self.readId = 0 ∨ ∃ q n, s.current = some (q, n) ∧ Serves l.world s q n

theorem Serves.congr {w v : World ReadKind StreamReader} {s s' : Session} {q : Request ReadKind} {n : Nat}
    (serves : Serves w s q n) (slot : v.self.toSlot = w.self.toSlot) (queue : ∀ p ∈ v.queue, p ∈ w.queue)
    (count : s'.count = s.count) (more : ∀ p k, s.Covered p k → s'.Covered p k) : Serves v s' q n := by
  have id : v.self.readId = w.self.readId := congrArg Slot.id slot
  constructor
  · rw [id]
    exact serves.busy
  · rw [count]
    exact serves.made
  · exact (congrArg Slot.data slot).trans serves.data
  · exact (congrArg Slot.requestedSize slot).trans serves.size
  · exact (congrArg Slot.callback slot).trans serves.callback
  · exact (congrArg Slot.processed slot).trans serves.processed
  · exact more _ _ serves.covered
  · exact fun p member same => more _ _ (serves.posted p (queue p member) (same.trans id))

theorem cut_sound {l : Line} (sound : Sound reader ReadKind.single l.world) (c : Cut) :
    Sound reader ReadKind.single (l.cut c).world := by
  cases c with
  | flush => exact sound.swap rfl
  | reset => exact sound.swap rfl

section Turns
variable {base : Nat} {before : List UInt8} {old : List Post} {l : Line} {s : Session} {q : Request ReadKind}

/-- The request in progress is left alone. -/
theorem Since.keep {v : World ReadKind StreamReader} {s' : Session} (since : Since base before old l s)
    (slot : v.self.toSlot = l.world.self.toSlot) (queue : ∀ p ∈ v.queue, p ∈ l.world.queue)
    (current : s'.current = s.current) (count : s'.count = s.count) (more : ∀ p k, s.Covered p k → s'.Covered p k) :
    s'.current = none ∧ v.self.readId = 0 ∨ ∃ q n, s'.current = some (q, n) ∧ Serves v s' q n := by
  have id : v.self.readId = l.world.self.readId := congrArg Slot.id slot
  rw [current]
  rcases since.phase with ⟨none, idle⟩ | ⟨q, n, some, serves⟩
  · exact Or.inl ⟨none, id.trans idle⟩
  · exact Or.inr ⟨q, n, some, serves.congr slot queue count more⟩

theorem Agrees.store (agrees : Agrees base before old l s) (p : Nat) (bs : List UInt8) :
    Agrees base before old { l with world := l.world.stored p bs } (s.store p bs) where
  input := agrees.input
  produced := agrees.produced
  buffer := agrees.buffer
  posts := agrees.posts
  accepted := agrees.accepted
  holds := agrees.holds.store p bs
  ops op member := by
    obtain ⟨since, known, covered⟩ := agrees.ops op member
    exact ⟨since, known, fun bytes moved => (covered bytes moved).store p bs⟩
  queue := agrees.queue

/-- The end of a turn of the request in progress, which has no other continuation under way. -/
theorem Agrees.conclude {c : Cont ReadKind} {next : Next} {n : Nat} (agrees : Agrees base before old l s)
    (turning : Turning reader ReadKind.single l.world c next) (made : 0 < s.count)
    (data : l.world.self.dst = q.data) (size : l.world.self.requestedSize = q.size)
    (callback : l.world.self.callback = q.callback) (processed : l.world.self.processed = n)
    (covered : s.Covered q.data n) (posted : ∀ count, next = .postCont count → s.Covered (q.data + n) count) :
    Since base before old { l with world := l.world.conclude l.world.self.toSlot c next false }
      (s.conclude q n c.kind next) := by
  have sound : Sound reader ReadKind.single (l.world.conclude l.world.self.toSlot c next false) := conclude_sound turning
  have number : c.id.toNat = base + s.count := by
    obtain ⟨q, holds⟩ := turning.holds
    rw [turning.current, holds.counter, agrees.accepted]
  have other {id : UInt32} (apart : id ≠ c.id) (since : base < id.toNat) : id.toNat - base ≠ s.count := by
    intro same
    have eq : id.toNat = c.id.toNat := by omega
    exact apart (UInt32.toNat_inj.mp eq)
  have idle (p : Posted ReadKind) (member : p ∈ l.world.queue) : p.cont.id ≠ c.id := by
    rw [turning.current]
    exact turning.alone p.cont (cont_of_posted member)
  have current (goesOn : next.id c.id = c.id) : l.world.self.readId = c.id := turning.id.trans goesOn
  have rank : c.id.toNat - base = s.count := by omega
  cases next with
  | transfer count dump =>
    have busy := current rfl
    refine ⟨sound, ⟨agrees.input, agrees.produced, agrees.buffer, agrees.posts, agrees.accepted, agrees.holds, ?_,
      agrees.queue⟩, Or.inr ⟨q, n, rfl, ?_, made, data, size, callback, processed, covered, ?_⟩⟩
    · intro op member
      rcases List.mem_append.mp member with old | new
      · obtain ⟨since, known, covered⟩ := agrees.ops op old
        refine ⟨since, ?_, covered⟩
        exact (Function.update_of_ne (other (turning.free old) since) ..).trans known
      · obtain rfl := List.mem_singleton.mp new
        refine ⟨by simp only [Op.id]; omega, ?_, nofun⟩
        simp only [Op.id, rank, Session.conclude, Function.update_self, ← data, ← processed]
        rfl
    · rw [World.conclude_self, busy]
      exact turning.ne_zero
    · intro p member same
      rw [World.conclude_self, busy] at same
      exact (idle p member same).elim
  | postCont count =>
    have busy := current rfl
    refine ⟨sound, ⟨agrees.input, agrees.produced, agrees.buffer, agrees.posts, agrees.accepted, agrees.holds,
      agrees.ops, ?_⟩, Or.inr ⟨q, n, rfl, ?_, made, data, size, callback, processed, covered, ?_⟩⟩
    · intro p member since
      rcases List.mem_append.mp member with old | new
      · obtain ⟨known, err⟩ := agrees.queue p old since
        exact ⟨(Function.update_of_ne (other (idle p old) since) ..).trans known, err⟩
      · obtain rfl := List.mem_singleton.mp new
        simp only [rank, Session.conclude, Function.update_self, and_self]
    · rw [World.conclude_self, busy]
      exact turning.ne_zero
    · intro p member same
      rw [World.conclude_self, busy] at same
      rcases List.mem_append.mp member with old | new
      · exact (idle p old same).elim
      · obtain rfl := List.mem_singleton.mp new
        exact posted count rfl
  | done err =>
    have post : (⟨l.world.self.callback, err, l.world.self.processed,
        l.world.memory.read l.world.self.dst l.world.self.processed, false⟩ : Post) =
          ⟨q.callback, err, n, s.read q.data n, false⟩ := by
      rw [data, processed, callback, Session.read_eq agrees.holds covered]
    refine ⟨sound, ?_, Or.inl ⟨rfl, ?_⟩⟩
    · rw [World.conclude_callback _ err false _ turning.ne_zero]
      refine ⟨agrees.input, agrees.produced, agrees.buffer, ?_, agrees.accepted, agrees.holds, agrees.ops, agrees.queue⟩
      simp only [Session.conclude, agrees.posts, List.append_assoc, ← post]
    · rw [World.conclude_self]
      exact turning.id

/-- A request is accepted on both sides. -/
theorem Agrees.accept (agrees : Agrees base before old l s) (q : Request ReadKind) (id : UInt32) (r : StreamReader)
    (counts : List (UInt32 × Nat)) :
    Agrees base before old
      { l with world := ({ l.world with accepted := l.world.accepted ++ [q], counts, self := r } :
        World ReadKind StreamReader).arm q id }
      { s with count := s.count + 1, buffer := r.readBuffer } := by
  obtain ⟨input, produced, _, posts, accepted, holds, ops, queue⟩ := agrees
  refine ⟨input, produced, ?_, ?_, ?_, ?_, ?_, ?_⟩
  · rw [arm_self]
  · rw [arm_posts]
    exact posts
  · rw [arm_accepted, List.length_append, accepted]
    rfl
  · rw [arm_memory]
    exact holds
  · rw [arm_ops]
    exact ops
  · rw [arm_queue]
    exact queue

theorem call_since (since : Since base before old l s) (q : Request ReadKind)
    (bounded : (l.world.call reader q).accepted.length < 2 ^ 32) :
    Since base before old { l with world := l.world.call reader q } (s.call q) := by
  rcases since.phase with ⟨none, idle⟩ | ⟨q', n, some, serves⟩
  · obtain ⟨bs, buffer, next, turn, eq⟩ := call_reader_idle q idle
    have room : l.world.accepted.length + 1 < 2 ^ 32 := by
      rw [eq] at bounded
      simpa [stored] using bounded
    have turning : Turning reader ReadKind.single
        (({ l.world with
            accepted := l.world.accepted ++ [q]
            counts := l.world.counts ++ [(l.world.self.readCounter + 1, StreamReader.taken q l.world.self)]
            self := (l.world.self.opened q).turned (StreamReader.taken q l.world.self) buffer next
          } : World ReadKind StreamReader).arm q (l.world.self.readCounter + 1)) ⟨q.kind, l.world.self.readCounter + 1⟩ next :=
      opened_turning since.sound room idle rfl rfl (StreamReader.callTurn_single l.world.self)
    obtain ⟨enough, posted⟩ := Session.callTurn_stored turn
    have called : s.call q = (Session.store q.data bs { s with count := s.count + 1, buffer }).conclude q
        (StreamReader.taken q l.world.self) q.kind next := by
      simp only [Session.call, none, ← since.agrees.buffer, Session.callTurn_eq turn, Session.conclude_undumped]
      rfl
    have agrees := since.agrees.accept q (l.world.self.readCounter + 1)
      ((l.world.self.opened q).turned (StreamReader.taken q l.world.self) buffer next)
      (l.world.counts ++ [(l.world.self.readCounter + 1, StreamReader.taken q l.world.self)])
    have covered := Session.store_covered q.data enough { s with count := s.count + 1, buffer }
    rw [eq, called, conclude_congr]
    · refine (agrees.store q.data bs).conclude (turning.stored q.data bs) (Nat.succ_pos _) ?_ ?_ ?_ ?_ covered ?_
      case refine_5 =>
        intro count same
        obtain ⟨zero, enough⟩ := posted count same
        rw [zero, Nat.add_zero]
        exact Session.store_covered q.data enough _
      all_goals
        simp only [stored_self, arm_self]
        rfl
    all_goals
      simp only [stored_self, arm_self]
      rfl
  · have refused := reader_lawful.call_busy q l.world.self serves.busy
    have same : l.world.call reader q = l.world := by simp [World.call, refused, after]
    have ignored : s.call q = s := by simp [Session.call, some]
    rw [same, ignored]
    exact since

/-- The id of the request in progress. -/
theorem Since.rank {n : Nat} (since : Since base before old l s) (serves : Serves l.world s q n) :
    l.world.self.readId.toNat = base + s.count := by
  rcases since.sound.phase with idle | ⟨⟨_, holds⟩, served⟩
  · exact (serves.busy idle.id).elim
  · have id : l.world.self.readId = l.world.self.readCounter := served.id
    have counter : l.world.self.readCounter.toNat = l.world.accepted.length := holds.counter
    rw [id, counter, since.agrees.accepted]

/-- Both sides ignore what comes for another request than the one in progress. -/
theorem Since.late (since : Since base before old l s) {id : UInt32} (after : base < id.toNat)
    (stale : id ≠ l.world.self.readId) : s.current = none ∨ id.toNat - base ≠ s.count := by
  rcases since.phase with ⟨none, _⟩ | ⟨q, n, _, serves⟩
  · exact Or.inl none
  · refine Or.inr fun same => stale (UInt32.toNat_inj.mp ?_)
    rw [since.rank serves]
    omega

theorem Since.current (since : Since base before old l s) {id : UInt32} (after : base < id.toNat)
    (current : id = l.world.self.readId) :
    ∃ q n, s.current = some (q, n) ∧ Serves l.world s q n ∧ id.toNat - base = s.count := by
  rcases since.phase with ⟨_, idle⟩ | ⟨q, n, some, serves⟩
  · rw [current, idle] at after
    exact (Nat.not_lt_zero _ after).elim
  · refine ⟨q, n, some, serves, ?_⟩
    rw [current, since.rank serves]
    omega

section Continuations
variable {e : Event ReadKind} {c : Cont ReadKind} {err : ErrorCode} {n : Nat} {v : World ReadKind StreamReader}

theorem Agrees.take (agrees : Agrees base before old l s) (from_ : Taken reader l.world e c err n v) :
    Agrees base before old { l with world := v } s := by
  obtain ⟨input, produced, buffer, posts, accepted, holds, ops, queue⟩ := agrees
  cases from_ with
  | complete i op bytes err self found moved dumped =>
    refine ⟨input, produced, ?_, posts, accepted, holds, fun op member => ops op (List.mem_of_mem_eraseIdx member), queue⟩
    rcases dumped with rfl | ⟨d, rfl⟩
    · exact buffer
    · exact buffer
  | deliver i p found =>
    exact ⟨input, produced, buffer, posts, accepted, holds, ops, fun p member => queue p (List.mem_of_mem_eraseIdx member)⟩

theorem resume_late_since (since : Since base before old l s) (from_ : Taken reader l.world e c err n v)
    (stale : c.id ≠ l.world.self.readId) : Since base before old { l with world := v.resume reader c err n } s := by
  have slot : v.self.toSlot = l.world.self.toSlot := from_.slot reader_lawful
  have id : v.self.readId = l.world.self.readId := congrArg Slot.id slot
  rw [resume_reader_stale err n (by rw [id]; exact stale)]
  obtain ⟨input, produced, buffer, posts, accepted, holds, ops, queue⟩ := since.agrees.take from_
  exact ⟨ignored_sound reader_lawful since.sound from_ stale _,
    ⟨input, produced, buffer, posts, accepted, holds, ops, queue⟩,
    since.keep slot (fun _ member => from_.queue.subset member) rfl rfl fun _ _ covered => covered⟩

/-- The continuation of the request in progress is given bytes that were moved since. -/
theorem resume_since {k : Nat} (since : Since base before old l s) (from_ : Taken reader l.world e c err n v)
    (some : s.current = some (q, k)) (serves : Serves l.world s q k) (current : c.id = l.world.self.readId)
    (moved : s.Covered (q.data + k) n) :
    Since base before old { l with world := v.resume reader c err n } (s.resume s.count c.kind err n) := by
  have slot : v.self.toSlot = l.world.self.toSlot := from_.slot reader_lawful
  have id : v.self.readId = l.world.self.readId := congrArg Slot.id slot
  have data : v.self.dst = q.data := (congrArg Slot.data slot).trans serves.data
  have count : v.self.processed = k := (congrArg Slot.processed slot).trans serves.processed
  have size : v.self.requestedSize = q.size := (congrArg Slot.requestedSize slot).trans serves.size
  have agrees := since.agrees.take from_
  obtain ⟨processed, bs, buffer, next, turn, eq⟩ := resume_reader_current err n (current.trans id.symm)
  have turned := Session.resumeTurn_eq turn
  rw [data, count, ← Session.read_eq agrees.holds moved, size, show v.self.readBuffer = s.buffer from agrees.buffer] at turned
  have resumed : s.resume s.count c.kind err n =
      (Session.store (q.data + processed) bs { s with buffer }).conclude q processed c.kind next := by
    simp only [Session.resume, some, ↓reduceIte, turned, Session.conclude_undumped]
  have turning : Turning reader ReadKind.single
      { v with
        counts := v.counts ++ [(c.id, StreamReader.counted c n v.memory v.self)]
        self := v.self.turned processed buffer next } c next := by
    refine resumed_turning since.sound from_ current ?_ ?_ (StreamReader.resumeTurn_single turn)
    · rw [← from_.slot reader_lawful, current, ← id]
      rfl
    · rw [← from_.slot reader_lawful]
      exact StreamReader.resumeTurn_counted turn
  have agreed : Agrees base before old
      { l with world := { v with
          counts := v.counts ++ [(c.id, StreamReader.counted c n v.memory v.self)]
          self := v.self.turned processed buffer next } } { s with buffer } := by
    obtain ⟨input, produced, _, posts, accepted, holds, ops, queue⟩ := agrees
    exact ⟨input, produced, rfl, posts, accepted, holds, ops, queue⟩
  obtain ⟨bound, posted⟩ := Session.resumeTurn_stored turn
  rw [count] at bound
  have covered : Session.Covered q.data processed { s with buffer } := (serves.covered.append moved).mono bound
  rw [eq, resumed, conclude_congr, data]
  · refine (agreed.store (q.data + processed) bs).conclude (turning.stored _ bs) serves.made data size ?_ rfl
      (covered.store _ bs) fun count same => Session.store_covered _ (posted count same) _
    exact (congrArg Slot.callback slot).trans serves.callback
  all_goals rfl

/-- A continuation of a request made since. -/
theorem taken_since (since : Since base before old l s) (from_ : Taken reader l.world e c err n v) (after : base < c.id.toNat)
    (moved : ∀ q k, s.current = some (q, k) → Serves l.world s q k → c.id = l.world.self.readId → s.Covered (q.data + k) n) :
    Since base before old { l with world := v.resume reader c err n } (s.resume (c.id.toNat - base) c.kind err n) := by
  by_cases current : c.id = l.world.self.readId
  · obtain ⟨q, k, some, serves, rank⟩ := since.current after current
    rw [rank]
    exact resume_since since from_ some serves current (moved q k some serves current)
  · have ignored : s.resume (c.id.toNat - base) c.kind err n = s := by
      unfold Session.resume
      rcases since.late after current with none | other
      · rw [none]
      · split
        · rfl
        · rw [if_neg other]
    rw [ignored]
    exact resume_late_since since from_ current

end Continuations

theorem complete_since {i : Nat} {op : Op ReadKind} {bytes : List UInt8} (since : Since base before old l s)
    (found : l.world.ops[i]? = some op) (moved : op.moved = some bytes) (err : ErrorCode) :
    Since base before old
      { l with world := World.handle reader op.handler err bytes.length { l.world with ops := l.world.ops.eraseIdx i } }
      (s.step (.complete (op.id.toNat - base) err)) := by
  obtain ⟨v, from_, eq⟩ := handle_taken (E := reader) found moved err
  have member := List.mem_of_getElem? found
  obtain ⟨after, known, covered⟩ := since.agrees.ops op member
  rw [moved] at known
  have step : s.step (.complete (op.id.toNat - base) err) =
      s.resume (op.id.toNat - base) op.handler.cont.kind err bytes.length := by
    simp only [Session.step, known, Option.map_some]
  rw [eq, step]
  refine taken_since since from_ after fun q k _ serves current => ?_
  -- the operation continues the request's buffer
  have target : op.data = q.data + k := by
    rcases since.sound.phase with idle | ⟨_, served⟩
    · exact (serves.busy idle.id).elim
    · have target := served.target op member (current.trans served.id)
      rw [target]
      exact congrArg₂ (· + ·) serves.data serves.processed
  rw [← target]
  exact covered bytes moved

theorem deliver_since {i : Nat} {p : Posted ReadKind} (since : Since base before old l s)
    (found : l.world.queue[i]? = some p) (after : base < p.cont.id.toNat) :
    Since base before old
      { l with world := World.resume reader p.cont p.err p.count { l.world with queue := l.world.queue.eraseIdx i } }
      (s.step (.deliver (p.cont.id.toNat - base))) := by
  have member := List.mem_of_getElem? found
  obtain ⟨known, err⟩ := since.agrees.queue p member after
  have step : s.step (.deliver (p.cont.id.toNat - base)) =
      s.resume (p.cont.id.toNat - base) p.cont.kind p.err p.count := by
    simp only [Session.step, known, err]
  rw [step]
  exact taken_since since (.deliver i p found) after fun q k _ serves current => serves.posted p member current

/-- A handler of a request made before is ignored. -/
theorem Since.outdated (since : Since base before old l s) {id : UInt32}
    (earlier : ¬ base < id.toNat) (issued : l.world.Issued id) :
    id ≠ l.world.self.readId := by
  rintro rfl
  rcases since.phase with ⟨_, idle⟩ | ⟨q, n, _, serves⟩
  · exact issued.ne_zero idle
  · have rank := since.rank serves
    have made := serves.made
    omega

theorem move_since {i : Nat} {op : Op ReadKind} {bytes : List UInt8} (since : Since base before old l s)
    (found : l.world.ops[i]? = some op) (held : bytes <+: l.input) :
    Since base before old { l with world := l.world.move reader i op bytes, input := l.input.drop bytes.length }
      (s.step (.move (op.id.toNat - base) bytes.length)) := by
  obtain ⟨input, produced, buffer, posts, accepted, holds, ops, queue⟩ := since.agrees
  obtain ⟨after, known, _⟩ := ops op (List.mem_of_getElem? found)
  have front : s.input.take bytes.length = bytes := by
    rw [← input]
    exact (List.prefix_iff_eq_take.mp held).symm
  have step : s.step (.move (op.id.toNat - base) bytes.length) =
      Session.store op.data bytes
        { s with
          input := s.input.drop bytes.length
          ops := Function.update s.ops (op.id.toNat - base) (some ⟨op.handler.cont.kind, op.data, some bytes.length⟩) } := by
    simp only [Session.step, Session.move, known, front]
  rw [step]
  refine ⟨moved_sound since.sound found, ⟨?_, produced, buffer, posts, accepted, holds.store op.data bytes, ?_, queue⟩, ?_⟩
  · rw [input]
    rfl
  · intro x member
    rcases (mem_set_iff since.sound.filed.distinct found).mp member with rfl | ⟨old, other⟩
    · refine ⟨after, Function.update_self .., ?_⟩
      intro bs same
      obtain rfl := Option.some.inj same
      exact Session.store_covered _ (Nat.le_refl _) _
    · obtain ⟨since, known, covered⟩ := ops x old
      have apart : x.id.toNat - base ≠ op.id.toNat - base := by
        intro same
        have eq : x.id.toNat = op.id.toNat := by omega
        exact other (UInt32.toNat_inj.mp eq)
      refine ⟨since, (Function.update_of_ne apart ..).trans known, fun bs moved => ?_⟩
      apply Session.Covered.store
      exact covered bs moved
  · refine since.keep rfl (fun _ member => member) rfl rfl fun p k covered => ?_
    apply Session.Covered.store
    exact covered

/-- Waits and timer handlers that were not run yet are not seen. -/
theorem Since.rearm (since : Since base before old l s) {waits : List UInt32} {fired : List (UInt32 × ErrorCode)}
    (sound : Sound reader ReadKind.single { l.world with waits, fired }) :
    Since base before old { l with world := { l.world with waits, fired } } s := by
  obtain ⟨input, produced, buffer, posts, accepted, holds, ops, queue⟩ := since.agrees
  exact ⟨sound, ⟨input, produced, buffer, posts, accepted, holds, ops, queue⟩,
    since.keep rfl (fun _ member => member) rfl rfl fun _ _ covered => covered⟩

theorem late_timer_since {i : Nat} {id : UInt32} {err : ErrorCode} {w' : World ReadKind StreamReader}
    (since : Since base before old l s) (found : l.world.fired[i]? = some (id, err))
    (taken : l.world.step reader (.timer i) = some w') (stale : id ≠ l.world.self.readId) :
    Since base before old { l with world := w' } s := by
  have timed : reader.timeoutReached id err l.world.self = _ := StreamReader.timeoutReached_stale err stale
  simp only [World.step, found, Option.some.injEq, timed, after, List.foldl_nil] at taken
  subst taken
  exact since.rearm (since.sound.rearm (since.sound.filed.fire i))

theorem timer_since {i : Nat} {id : UInt32} {err : ErrorCode} {w' : World ReadKind StreamReader}
    (since : Since base before old l s) (found : l.world.fired[i]? = some (id, err))
    (taken : l.world.step reader (.timer i) = some w') (bounded : w'.accepted.length < 2 ^ 32) (after : base < id.toNat) :
    Since base before old { l with world := w' } (s.step (.timer (id.toNat - base))) := by
  have sound := step_sound reader_lawful since.sound taken bounded
  by_cases current : id = l.world.self.readId
  · obtain ⟨input, produced, buffer, posts, accepted, holds, ops, queue⟩ := since.agrees
    obtain ⟨q, n, some, serves, rank⟩ := since.current after current
    have posted := StreamReader.timeoutReached_current (r := l.world.self) err serves.busy
    have read : l.world.memory.read l.world.self.data n = s.read q.data n := by
      rw [show l.world.self.data = q.data from serves.data, Session.read_eq holds serves.covered]
    have step : s.step (.timer (id.toNat - base)) =
        { s with current := none, posts := s.posts ++ [⟨q.callback, .success, n, s.read q.data n, true⟩] } := by
      simp only [Session.step, Session.timeoutReached, some, rank, ↓reduceIte]
    have timed : reader.timeoutReached l.world.self.readId err l.world.self = _ := posted
    simp only [World.step, found, Option.some.injEq] at taken
    rw [current] at taken
    simp only [timed, World.after, List.foldl_cons, List.foldl_nil, perform] at taken
    subst taken
    rw [step]
    refine ⟨sound, ⟨input, produced, buffer, ?_, accepted, holds, ops, queue⟩, Or.inl ⟨rfl, rfl⟩⟩
    have count : l.world.self.processed = n := serves.processed
    have callback : l.world.self.callback = q.callback := serves.callback
    simp only [posts, List.append_assoc, count, callback, ← read]
    rfl
  · have ignored : s.step (.timer (id.toNat - base)) = s := by
      simp only [Session.step, Session.timeoutReached]
      rcases since.late after current with none | other
      · rw [none]
      · split
        · rfl
        · rw [if_neg other]
    rw [ignored]
    exact late_timer_since since found taken current

theorem cut_since (since : Since base before old l s) (c : Cut) : Since base before old (l.cut c) (s.step (.cut c)) := by
  obtain ⟨input, produced, buffer, posts, accepted, holds, ops, queue⟩ := since.agrees
  cases c with
  | flush =>
    exact ⟨cut_sound since.sound .flush, ⟨rfl, produced, rfl, posts, accepted, holds, ops, queue⟩,
      since.keep rfl (fun _ member => member) rfl rfl fun _ _ covered => covered⟩
  | reset =>
    exact ⟨cut_sound since.sound .reset, ⟨rfl, produced, buffer, posts, accepted, holds, ops, queue⟩,
      since.keep rfl (fun _ member => member) rfl rfl fun _ _ covered => covered⟩

theorem reader_since {e : Event ReadKind} {w' : World ReadKind StreamReader} (since : Since base before old l s)
    (held : e.moves <+: l.input) (taken : l.world.step reader e = some w') (bounded : w'.accepted.length < 2 ^ 32) :
    Since base before old { l with world := w', input := l.input.drop e.moves.length }
      ((l.view base (.reader e)).elim s s.step) := by
  have sound := step_sound reader_lawful since.sound taken bounded
  cases step_cases taken with
  | call q => exact call_since since q bounded
  | move i op bytes found =>
    have after := (since.agrees.ops op (List.mem_of_getElem? found)).1
    simpa [Line.view, found, number, after, Event.moves] using move_since since found held
  | complete i op bytes err found moved =>
    have after := (since.agrees.ops op (List.mem_of_getElem? found)).1
    simpa [Line.view, found, number, after, Event.moves] using complete_since since found moved err
  | deliver i p found =>
    by_cases after : base < p.cont.id.toNat
    · simpa [Line.view, found, number, after, Event.moves] using deliver_since since found after
    · have issued := since.sound.filed.conts p.cont
        (cont_of_posted (List.mem_of_getElem? found))
      simpa [Line.view, found, number, after, Event.moves] using
        resume_late_since since (.deliver i p found) (since.outdated after issued)
  | expire => exact since.rearm sound
  | timer i id err found =>
    by_cases after : base < id.toNat
    · simpa [Line.view, found, number, after, Event.moves] using timer_since since found taken bounded after
    · have issued := since.sound.filed.fired _ (List.mem_of_getElem? found)
      simpa [Line.view, found, number, after, Event.moves] using
        late_timer_since since found taken (since.outdated after issued)

theorem reader_step {e : Event ReadKind} {l' : Line} (taken : l.step (.reader e) = some l') :
    ∃ w', e.moves <+: l.input ∧ l.world.step reader e = some w' ∧
      l' = { l with world := w', input := l.input.drop e.moves.length } := by
  simp only [Line.step] at taken
  split at taken
  · rename_i held
    obtain ⟨w', ran, rfl⟩ := Option.map_eq_some_iff.mp taken
    exact ⟨w', List.isPrefixOf_iff_prefix.mp held, ran, rfl⟩
  · cases taken

theorem step_since {e : LineEvent} {l' : Line} (since : Since base before old l s) (taken : l.step e = some l')
    (bounded : l'.world.accepted.length < 2 ^ 32) :
    Since base before old l' ((l.view base e).elim s s.step) := by
  cases e with
  | produce bytes =>
    obtain rfl := Option.some.inj taken
    obtain ⟨input, produced, buffer, posts, accepted, holds, ops, queue⟩ := since.agrees
    have more : l.produced ++ bytes = before ++ (s.produced ++ bytes) := by rw [produced, List.append_assoc]
    exact ⟨since.sound, ⟨congrArg (· ++ bytes) input, more, buffer, posts, accepted, holds, ops, queue⟩,
      since.keep rfl (fun _ member => member) rfl rfl fun _ _ covered => covered⟩
  | reader e =>
    obtain ⟨w', held, ran, rfl⟩ := reader_step taken
    exact reader_since since held ran bounded
  | cut c =>
    obtain rfl := Option.some.inj taken
    exact cut_since since c

end Turns

/-! ### Runs -/

theorem Line.step_accepted {l l' : Line} {e : LineEvent} (taken : l.step e = some l') :
    l.world.accepted.length ≤ l'.world.accepted.length := by
  cases e with
  | produce bytes =>
    obtain rfl := Option.some.inj taken
    exact Nat.le_refl _
  | reader e =>
    obtain ⟨w', _, ran, rfl⟩ := reader_step taken
    exact World.step_accepted ran
  | cut c =>
    obtain rfl := Option.some.inj taken
    cases c <;> exact Nat.le_refl _

theorem line_sound {r : StreamReader} {m : Memory UInt8} {input produced : List UInt8} {es : List LineEvent} {l : Line}
    (counter : r.readCounter = 0) (id : r.readId = 0)
    (run : Steps Line.step Always { world := { self := r, memory := m }, input, produced } es l)
    (bounded : l.world.accepted.length < 2 ^ 32) : Sound reader ReadKind.single l.world := by
  have start : Sound reader ReadKind.single { self := r, memory := m } :=
    reachable_sound reader_lawful counter id .refl (by simp)
  refine run.invariant (P := fun l => l.world.accepted.length < 2 ^ 32 → Sound reader ReadKind.single l.world)
    (fun _ => start) ?_ bounded
  intro l e l' ih _ taken bounded
  have sound := ih (Nat.lt_of_le_of_lt (Line.step_accepted taken) bounded)
  cases e with
  | produce bytes =>
    obtain rfl := Option.some.inj taken
    exact sound
  | reader e =>
    obtain ⟨w', _, ran, rfl⟩ := reader_step taken
    exact step_sound reader_lawful sound ran bounded
  | cut c =>
    obtain rfl := Option.some.inj taken
    exact cut_sound sound c

theorem shows_since {base : Nat} {before : List UInt8} {old : List Post} {u t : Line} {s : Session} {ls : List Seen}
    (since : Since base before old u s) (run : Shows Line.step (Line.view base) u ls t)
    (bounded : t.world.accepted.length < 2 ^ 32) : Since base before old t (ls.foldl Session.step s) := by
  have kept : t.world.accepted.length < 2 ^ 32 → Since base before old t (ls.foldl Session.step s) := by
    apply run.decides (R := fun l s => l.world.accepted.length < 2 ^ 32 → Since base before old l s) (fun _ => since)
    · intro l e l' s ih taken hidden bounded
      have stepped := step_since (ih (Nat.lt_of_le_of_lt (Line.step_accepted taken) bounded)) taken bounded
      rw [hidden] at stepped
      exact stepped
    · intro l e l' seen s ih taken shown bounded
      have stepped := step_since (ih (Nat.lt_of_le_of_lt (Line.step_accepted taken) bounded)) taken bounded
      rw [shown] at stepped
      exact stepped
  exact kept bounded

theorem Session.run_clean (ls : List Seen) {s : Session} (clean : s.Clean) : (ls.foldl step s).Clean := by
  induction ls generalizing s with
  | nil => exact clean
  | cons l ls ih => exact ih (step_clean clean l)

end RtacAsio
