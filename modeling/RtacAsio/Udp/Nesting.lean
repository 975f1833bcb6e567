import RtacAsio.Reader.Lawful
import RtacAsio.Request.Action
import RtacAsio.Udp.Recursion

/-! How deep the calls of a `StreamReader` and its `UDPClientStream` nest. -/

namespace RtacAsio
open Lib World

namespace DatagramReader

/-- No request is given the id 0. -/
def Unwrapped (x : DatagramReader) : DatagramReaderEvent → Prop
  | .reader e => e.OnCall fun _ => x.world.self.readId = 0 → x.world.self.readCounter + 1 ≠ 0
  | _ => True

instance (x : DatagramReader) (e : DatagramReaderEvent) : Decidable (x.Unwrapped e) :=
  match e with
  | .reader e => inferInstanceAs (Decidable (e.OnCall _))
  | .receive .. | .cut _ | .readSome => inferInstanceAs (Decidable True)

/-- No timer ends a request whose receive is outstanding. -/
def Punctual (x : DatagramReader) : DatagramReaderEvent → Prop
  | .reader (.timer i) =>
    ∀ op ∈ x.world.ops, op.id = x.world.self.readId → x.world.fired[i]?.map Prod.fst ≠ some op.id
  | _ => True

instance (x : DatagramReader) (e : DatagramReaderEvent) : Decidable (x.Punctual e) :=
  match e with
  | .reader (.timer _) => inferInstanceAs (Decidable (∀ op ∈ x.world.ops, _ → _))
  | .reader (.call _) | .reader (.move ..) | .reader (.complete ..) | .reader (.deliver _) | .reader .expire
  | .receive .. | .cut _ | .readSome => inferInstanceAs (Decidable True)

/-- The stream calls one continuation at most in a call or a handler. Its request is in progress, and
it ends it or leaves the stream empty for the next read. -/
structure Bounded (x : DatagramReader) : Prop where
  returns : x.Returns 2
  depth : x.depth ≤ 2
  once : x.delivered.length ≤ 1
  each : ∀ d ∈ x.delivered, d.ended = true ∨ d.left = 0
  punctual : ∀ d ∈ x.delivered, d.late = false
  socket : x.delivered ≠ [] → x.calling.isSome → x.stream.available = 0

/-- The continuations under way: with the socket, posted, or handed to the stream. -/
def conts (x : DatagramReader) : List (Cont ReadKind) := x.world.conts ++ (x.calling.map (·.handler.cont)).toList

/-- What holds of the continuations under way. A receive that is outstanding is one of the request in
progress, for no less than what is missing. -/
structure Kept (x : DatagramReader) : Prop where
  numbered : ∀ c ∈ x.conts, c.id ≠ 0 ∧ c.id ≤ x.world.self.readCounter
  distinct : (x.conts.map Cont.id).Nodup
  received : ∀ op ∈ x.world.ops, op.id = x.world.self.readId ∧
    x.world.self.requestedSize ≤ x.world.self.processed + op.count
  asks : x.Asks

/-- How far the nested calls have come. -/
inductive Phase (x : DatagramReader) : Prop where
  | returned : x.calling = none → x.depth ≤ 2 → x.delivered.length ≤ 1 →
      (∀ d ∈ x.delivered, d.ended = true ∨ d.left = 0) → Phase x
  | first (op : Op ReadKind) : x.calling = some op → x.depth = 0 → x.delivered = [] → Phase x
  | emptied (op : Op ReadKind) : x.calling = some op → x.depth = 1 → x.stream.available = 0 →
      x.delivered.length ≤ 1 → (∀ d ∈ x.delivered, d.left = 0) → Phase x

/-- The invariant. -/
structure Nested (x : DatagramReader) : Prop where
  kept : x.Kept
  punctual : ∀ d ∈ x.delivered, d.late = false
  phase : x.Phase

/-- A turn of `c`, while no other continuation of the request in progress is under way. -/
structure Running (w : World ReadKind StreamReader) (c : Cont ReadKind) : Prop where
  numbered : ∀ c' ∈ c :: w.conts, c'.id ≠ 0 ∧ c'.id ≤ w.self.readCounter
  distinct : ((c :: w.conts).map Cont.id).Nodup
  alone : w.ops = []

/-- A turn in which the stream is called for `op`, or calls its continuation. -/
structure Serving (w : World ReadKind StreamReader) (op : Op ReadKind) : Prop extends Running w op.handler.cont where
  current : op.id = w.self.readId
  own : w.self.requestedSize ≤ w.self.processed + op.count

section Proofs
variable {x : DatagramReader} {w v : World ReadKind StreamReader} {c : Cont ReadKind} {op : Op ReadKind}

/-! ### The end of a turn -/

theorem conts_returned (returned : x.calling = none) : x.conts = x.world.conts := by
  simp [DatagramReader.conts, returned]

theorem kept_returned (returned : x.calling = none)
    (numbered : ∀ c ∈ x.world.conts, c.id ≠ 0 ∧ c.id ≤ x.world.self.readCounter)
    (distinct : (x.world.conts.map Cont.id).Nodup)
    (received : ∀ op ∈ x.world.ops, op.id = x.world.self.readId ∧
      x.world.self.requestedSize ≤ x.world.self.processed + op.count) : Kept x := by
  refine ⟨?_, ?_, received, asks_returned returned⟩
  · rwa [conts_returned returned]
  · rwa [conts_returned returned]

/-- Nothing that is under way has changed. -/
theorem Kept.quiet {y : DatagramReader} (kept : Kept x) (returned : x.calling = none) (returned' : y.calling = none)
    (slot : y.world.self.toSlot = { x.world.self.toSlot with waiterNotified := y.world.self.waiterNotified })
    (ops : y.world.ops = x.world.ops) (queue : y.world.queue = x.world.queue) : Kept y := by
  obtain ⟨numbered, distinct, received, _⟩ := kept
  have conts : y.world.conts = x.world.conts := by simp only [World.conts, ops, queue]
  have counter : y.world.self.readCounter = x.world.self.readCounter := (congrArg Slot.counter slot).trans rfl
  have id : y.world.self.readId = x.world.self.readId := (congrArg Slot.id slot).trans rfl
  have size : y.world.self.requestedSize = x.world.self.requestedSize := (congrArg Slot.requestedSize slot).trans rfl
  have processed : y.world.self.processed = x.world.self.processed := (congrArg Slot.processed slot).trans rfl
  rw [conts_returned returned] at numbered distinct
  refine kept_returned returned' ?_ ?_ ?_
  · rwa [conts, counter]
  · rwa [conts]
  · rwa [ops, id, size, processed]

/-- `c` is under way again. -/
theorem Running.again (running : Running w c) (perm : x.conts.Perm (c :: w.conts)) (self : x.world.self = w.self)
    (received : ∀ op ∈ x.world.ops, op.id = w.self.readId ∧ w.self.requestedSize ≤ w.self.processed + op.count)
    (asks : Asks x) : Kept x := by
  obtain ⟨numbered, distinct, _⟩ := running
  refine ⟨?_, (perm.map Cont.id).nodup_iff.mpr distinct, ?_, asks⟩
  · rw [self]
    exact fun c' member => numbered c' (perm.mem_iff.mp member)
  · rwa [self]

theorem Running.conclude {s : Slot} {next : Next} (running : Running v c) (same : v.ops = x.world.ops)
    (id : v.self.readId = next.id c.id)
    (fits : ∀ count dump, next = .transfer count dump → v.self.requestedSize ≤ v.self.processed + count) :
    Kept (x.handOver (v.conclude s c next false)) := by
  have asks := conclude_asks (s := s) same id fits
  have none : x.world.ops = [] := same.symm.trans running.alone
  cases next with
  | transfer count dump =>
    rw [handOver_transfer same] at asks ⊢
    exact running.again (List.perm_append_singleton c v.conts) rfl (by simp [running.alone]) asks
  | postCont count =>
    rw [handOver_same (by exact same)] at asks ⊢
    refine running.again ?_ (conclude_self ..) (by simp [World.conclude, running.alone]) asks
    simpa [DatagramReader.conts, World.conts, World.conclude] using List.perm_append_singleton c v.conts
  | done err =>
    obtain ⟨numbered, distinct, alone⟩ := running
    obtain ⟨⟨nonzero, _⟩, numbered⟩ := List.forall_mem_cons.mp numbered
    rw [conclude_callback s err false v nonzero, handOver_same (by exact same)]
    exact kept_returned rfl numbered (List.nodup_cons.mp distinct).2 (by simp [alone])

/-! ### Continuations -/

theorem Running.congr (running : Running w c) (counter : v.self.readCounter = w.self.readCounter) (ops : v.ops = w.ops)
    (queue : v.queue = w.queue) : Running v c := by
  have conts : v.conts = w.conts := by simp only [World.conts, ops, queue]
  obtain ⟨numbered, distinct, alone⟩ := running
  constructor
  · rwa [conts, counter]
  · rwa [conts]
  · rwa [ops]

theorem Running.resume (err : ErrorCode) (n : Nat) (running : Running w c) (same : w.ops = x.world.ops)
    (current : c.id = w.self.readId) : Kept (x.handOver (w.resume reader c err n)) := by
  obtain ⟨processed, bs, buffer, next, turn, eq⟩ := resume_reader_current err n current
  rw [eq]
  apply Running.conclude
  · exact running.congr rfl rfl rfl
  · exact same
  · rw [current]
    rfl
  · rintro count dump rfl
    have fits := resume_fits turn
    exact fits

/-- The continuation `c` of the request in progress is taken to run. -/
theorem Kept.take (kept : Kept x) (perm : x.conts.Perm (c :: v.conts)) (self : v.self = x.world.self)
    (ops : ∀ op ∈ v.ops, op ∈ x.world.ops) (current : c.id = x.world.self.readId) : Running v c := by
  refine ⟨?_, (perm.map Cont.id).nodup_iff.mp kept.distinct, ?_⟩
  · rw [self]
    exact fun c' member => kept.numbered c' (perm.mem_iff.mpr member)
  · refine List.eq_nil_iff_forall_not_mem.mpr fun op member => ?_
    have others := ((distinct_iff perm).mp kept.distinct).1
    exact others _ (cont_of_op member) ((kept.received op (ops op member)).1.trans current.symm)

/-! ### The stream -/

theorem Serving.congr (serving : Serving w op) (self : v.self = w.self) (ops : v.ops = w.ops) (queue : v.queue = w.queue) :
    Serving v op := by
  refine ⟨serving.toRunning.congr (by rw [self]) ops queue, ?_, ?_⟩
  · rw [self]
    exact serving.current
  · rw [self]
    exact serving.own

theorem readidOk_eq (id : UInt32) (r : StreamReader) : r.readidOk id = decide (id = r.readId) := by
  simp [StreamReader.readidOk, Slot.idOk, beq_eq_decide]

/-- The stream calls the continuation of `op`, which runs first in this call or handler. -/
theorem called_nested {err : ErrorCode} {n : Nat} (callback : Callback) (serving : Serving x.world op)
    (amount : n = op.count ∨ x.stream.available = 0 ∨ err.failed = true) (none : x.delivered = [])
    (depth : x.depth = 1) : Nested (x.perform op (.call callback err n)) := by
  obtain ⟨running, current, own⟩ := serving
  obtain ⟨d, handled⟩ := handle_reader (w := x.world) op.handler err n
  unfold perform
  simp only [none, List.nil_append, handled]
  let w : World ReadKind StreamReader := { x.world with self := { x.world.self with rxDump := d } }
  let delivery : Delivery :=
    ⟨!x.world.self.readidOk op.id, decide (x.world.posts.length < (w.resume reader op.handler.cont err n).posts.length),
      x.stream.available⟩
  have nonzero : op.id ≠ 0 := (running.numbered _ (List.mem_cons_self ..)).1
  have same : w.ops = { x with delivered := [delivery] }.world.ops := rfl
  have kept : Kept (handOver _ _) := (running.congr (v := w) rfl rfl rfl).resume err n same current
  have punctual : x.world.self.readidOk op.id = true := (readidOk_eq ..).trans (decide_eq_true current)
  obtain ⟨_, cases⟩ := resume_cases (c := op.handler.cont) same err n
  rcases cases with ⟨stale, _⟩ | ⟨_, ⟨returned, ended⟩ | ⟨ok, short⟩⟩
  · exact (stale current).elim
  · refine ⟨kept, ?_, .returned returned ?_ ?_ ?_⟩
    · simp [punctual]
    · simp [depth]
    · simp
    · simp only [handOver_delivered, List.forall_mem_singleton]
      exact Or.inl (decide_eq_true (ended nonzero))
  · have emptied : x.stream.available = 0 := by
      have short : x.world.self.processed + n < x.world.self.requestedSize := short
      rcases amount with all | emptied | failed
      · omega
      · exact emptied
      · rw [failed] at ok
        cases ok
    refine ⟨kept, by simp [punctual], ?_⟩
    cases calling : (handOver _ _).calling with
    | none => exact .returned calling (by simp [depth]) (by simp) (by simp [emptied])
    | some op' => exact .emptied op' calling (by simp [depth]) (by simp [emptied]) (by simp) (by simp [emptied])

/-- The operation waits for the socket. -/
theorem received_kept (serving : Serving x.world op) (returned : x.calling = none) :
    Kept { x with world := { x.world with ops := x.world.ops ++ [op] } } := by
  refine serving.again ?_ rfl ?_ (asks_returned returned)
  · rw [conts_returned (by exact returned)]
    simp [World.conts]
  · simp only [serving.alone, List.nil_append, List.forall_mem_singleton]
    exact ⟨serving.current, serving.own⟩

/-- The stream is called for `op`, first in this call or handler. -/
theorem served_nested (s : UDPClientStream UInt8) (returned : x.calling = none) (serving : Serving x.world op)
    (none : x.delivered = []) (depth : x.depth = 1) : Nested (x.after op (s.asyncReadSome op.read)) := by
  rcases asyncReadSome_cases op.read s with ⟨_, eq⟩ | ⟨s', n, bytes, _, amount, eq⟩
  · rw [eq]
    have kept : Kept (x.after op (s, [.receive op.read])) :=
      received_kept (x := { x with stream := s }) serving returned
    refine ⟨kept, ?_, .returned returned ?_ ?_ ?_⟩
    · simp [after, perform, none]
    · simp [after, perform, depth]
    · simp [after, perform, none]
    · simp [after, perform, none]
  · rw [eq]
    exact called_nested (x := { x with
        stream := s'
        world := { x.world with memory := x.world.memory.write op.data bytes
                                traffic := x.world.traffic ++ [(op.id, bytes)] } })
      op.read.callback (serving.congr rfl rfl rfl) (amount.imp_right Or.inl) none depth

/-! ### The steps -/

/-- Only the reader has run so far. -/
theorem Kept.nested (kept : Kept x) (depth : x.depth = 0) (none : x.delivered = []) : Nested x := by
  refine ⟨kept, by simp [none], ?_⟩
  cases calling : x.calling with
  | none => exact .returned calling (by omega) (by simp [none]) (by simp [none])
  | some op => exact .first op calling depth none

theorem counter_le {counter id : UInt32} (next : counter + 1 ≠ 0) (known : id ≤ counter) : id < counter + 1 := by
  have apart : (counter + 1).toNat ≠ 0 := fun zero => next (UInt32.toNat_inj.mp zero)
  have bound := counter.toNat_lt
  rw [UInt32.le_iff_toNat_le] at known
  rw [UInt32.lt_iff_toNat_lt]
  rw [UInt32.toNat_add, UInt32.toNat_one] at apart ⊢
  omega

/-- An accepted request is given an id that no continuation under way has. -/
theorem Kept.opened (kept : Kept x) (returned : x.calling = none) (idle : x.world.self.readId = 0)
    (next : x.world.self.readCounter + 1 ≠ 0) (q : Request ReadKind) :
    Running { x.world with self := x.world.self.opened q } ⟨q.kind, x.world.self.readCounter + 1⟩ := by
  obtain ⟨numbered, distinct, received, _⟩ := kept
  rw [conts_returned returned] at numbered distinct
  refine ⟨?_, ?_, ?_⟩
  · rw [List.forall_mem_cons]
    exact ⟨⟨next, UInt32.le_refl _⟩, fun c member =>
      ⟨(numbered c member).1, UInt32.le_of_lt (counter_le next (numbered c member).2)⟩⟩
  · refine List.nodup_cons.mpr ⟨fun member => ?_, distinct⟩
    obtain ⟨c, member, same⟩ := List.mem_map.mp member
    exact UInt32.ne_of_lt (counter_le next (numbered c member).2) same
  · refine List.eq_nil_iff_forall_not_mem.mpr fun op member => ?_
    exact (numbered _ (cont_of_op member)).1 ((received op member).1.trans idle)

theorem call_kept (kept : Kept x) (returned : x.calling = none) (q : Request ReadKind)
    (next : x.world.self.readId = 0 → x.world.self.readCounter + 1 ≠ 0) :
    Kept (x.entered.handOver (x.world.call reader q)) := by
  by_cases idle : x.world.self.readId = 0
  · obtain ⟨bs, buffer, ends, turn, eq⟩ := call_reader_idle q idle
    rw [eq]
    apply Running.conclude
    · exact (kept.opened returned idle (next idle) q).congr (by simp [stored]; rfl) (by simp [stored]) (by simp [stored])
    · simp [stored, entered]
    · simp only [stored_self, arm_self]
      rfl
    · rintro count dump rfl
      simp only [stored_self, arm_self]
      cases turn <;> exact Nat.le_add_left ..
  · have refused : reader.call q x.world.self = (false, x.world.self, []) := StreamReader.call_busy q idle
    have same : x.world.call reader q = x.world := by simp [World.call, refused, World.after]
    rw [same, handOver_same (w := x.world) (x := x.entered) rfl]
    exact kept.quiet returned rfl rfl rfl rfl

theorem deliver_kept {i : Nat} {p : Posted ReadKind} (kept : Kept x) (returned : x.calling = none)
    (found : x.world.queue[i]? = some p) :
    Kept (x.entered.handOver (World.resume reader p.cont p.err p.count
      { x.world with queue := x.world.queue.eraseIdx i })) := by
  have taken : Taken reader x.world (.deliver i) p.cont p.err p.count _ := .deliver i p found
  have perm := taken.perm
  rw [← conts_returned returned] at perm
  by_cases mine : p.cont.id = x.world.self.readId
  · exact (kept.take perm rfl (fun _ member => member) mine).resume p.err p.count rfl mine
  · rw [resume_reader_stale (w := { x.world with queue := x.world.queue.eraseIdx i }) p.err p.count mine, handOver_same (by exact rfl)]
    refine kept_returned rfl ?_ ((distinct_iff perm).mp kept.distinct).2 kept.received
    exact fun c member => kept.numbered c (perm.mem_iff.mpr (List.mem_cons_of_mem _ member))

theorem timer_kept {i : Nat} {id : UInt32} {err : ErrorCode} (kept : Kept x) (returned : x.calling = none)
    (punctual : x.Punctual (.reader (.timer i))) (found : x.world.fired[i]? = some (id, err)) :
    Kept (x.entered.handOver (World.after reader true { x.world with fired := x.world.fired.eraseIdx i }
      (reader.timeoutReached id err x.world.self))) := by
  by_cases mine : id = x.world.self.readId
  · by_cases idle : x.world.self.readId = 0
    · have flagged : reader.timeoutReached x.world.self.readId err x.world.self = _ :=
        StreamReader.timeoutReached_idle err idle
      rw [mine, flagged, handOver_same (by exact rfl)]
      exact kept.quiet returned rfl rfl rfl rfl
    · have ended : reader.timeoutReached x.world.self.readId err x.world.self = _ :=
        StreamReader.timeoutReached_current err idle
      obtain ⟨numbered, distinct, received, _⟩ := kept
      rw [conts_returned returned] at numbered distinct
      rw [mine, ended, handOver_same (by exact rfl)]
      refine kept_returned rfl numbered distinct fun op member => ?_
      have own := (received op member).1
      refine (punctual op member own ?_).elim
      rw [found, own, ← mine]
      rfl
  · have ignored : reader.timeoutReached id err x.world.self = _ := StreamReader.timeoutReached_stale err mine
    rw [ignored, handOver_same (by exact rfl)]
    exact kept.quiet returned rfl rfl rfl rfl

theorem receive_nested {i : Nat} {err : ErrorCode} {received : Nat} (kept : Kept x) (returned : x.calling = none)
    (found : x.world.ops[i]? = some op) (s : UDPClientStream UInt8) :
    Nested (DatagramReader.after op (s.receiveContinue op.read err received)
      { x.entered with world := { x.world with ops := x.world.ops.eraseIdx i }, depth := 1 }) := by
  have perm := conts_eraseIdx found
  rw [← conts_returned returned] at perm
  obtain ⟨current, own⟩ := kept.received op (List.mem_of_getElem? found)
  have serving : Serving { x.world with ops := x.world.ops.eraseIdx i } op :=
    ⟨kept.take perm rfl (fun _ member => List.mem_of_mem_eraseIdx member) current, current, own⟩
  unfold UDPClientStream.receiveContinue
  split
  · rename_i failed
    exact called_nested (x := { x.entered with
        world := { x.world with ops := x.world.ops.eraseIdx i }
        stream := _
        depth := 1 }) op.read.callback serving (Or.inr (Or.inr failed)) rfl rfl
  · exact served_nested _ returned serving rfl rfl

theorem readSome_nested (nested : Nested x) (calling : x.calling = some op) :
    Nested (DatagramReader.after op (x.stream.asyncReadSome op.read)
      { x with calling := none, depth := x.depth + 1 }) := by
  obtain ⟨kept, punctual, phase⟩ := nested
  have perm : x.conts.Perm (op.handler.cont :: x.world.conts) := by
    simp [DatagramReader.conts, calling]
  obtain ⟨current, own⟩ := kept.asks op calling
  have serving : Serving x.world op := ⟨kept.take perm rfl (fun _ member => member) current, current, own⟩
  cases phase with
  | returned returned => simp [calling] at returned
  | first _ _ depth none =>
    exact served_nested x.stream rfl serving none (by simp [depth])
  | emptied _ _ depth empty once each =>
    have socket : x.stream.asyncReadSome op.read = (x.stream, [.receive op.read]) := by
      simp [UDPClientStream.asyncReadSome, empty]
    rw [socket]
    have waits : Kept (DatagramReader.after op (x.stream, [.receive op.read])
        { x with calling := none, depth := x.depth + 1 }) :=
      received_kept (x := { x with calling := none, depth := x.depth + 1 }) serving rfl
    refine ⟨waits, punctual, .returned rfl ?_ once ?_⟩
    · simp [after, perform, depth]
    · exact fun d member => Or.inr (each d member)

theorem cut_nested (kept : Kept x) (returned : x.calling = none) (c : Cut) : Nested (x.entered.cut c) := by
  apply Kept.nested
  · cases c with
    | flush => exact kept.quiet returned returned rfl rfl rfl
    | reset => exact kept.quiet returned returned rfl rfl rfl
  · cases c <;> rfl
  · cases c <;> rfl

theorem step_nested {e : DatagramReaderEvent} {y : DatagramReader} (nested : Nested x)
    (allowed : x.Unwrapped e ∧ x.Punctual e) (taken : x.step e = some y) : Nested y := by
  cases step_cases taken with
  | readSome op calling => exact readSome_nested nested calling
  | receive i err bytes op returned found => exact receive_nested nested.kept returned found _
  | cut c returned => exact cut_nested nested.kept returned c
  | reader e w returned own ran =>
    refine Kept.nested ?_ (handOver_depth ..) (handOver_delivered ..)
    cases World.step_cases ran with
    | call q => exact call_kept nested.kept returned q allowed.1
    | move => cases own
    | complete => cases own
    | deliver i p found => exact deliver_kept nested.kept returned found
    | expire =>
      rw [handOver_same (by exact rfl)]
      exact nested.kept.quiet returned rfl rfl rfl rfl
    | timer i id err found => exact timer_kept nested.kept returned allowed.2 found

theorem Nested.bounded (nested : Nested x) : Bounded x := by
  obtain ⟨kept, punctual, phase⟩ := nested
  have returns := kept.asks.returns
  cases phase with
  | returned returned depth once each =>
    exact ⟨returns, depth, once, each, punctual, fun _ called => by simp [returned] at called⟩
  | first _ _ depth none =>
    exact ⟨returns, by omega, by simp [none], by simp [none], punctual, fun some => (some none).elim⟩
  | emptied _ _ depth empty once each =>
    exact ⟨returns, by omega, once, fun d member => Or.inr (each d member), punctual, fun _ _ => empty⟩

theorem start_nested {r : StreamReader} {m : Memory UInt8} {s : UDPClientStream UInt8} :
    Nested { world := { self := r, memory := m }, stream := s } := by
  exact Kept.nested (kept_returned rfl nofun List.nodup_nil nofun) rfl rfl

end Proofs

/-- The calls that a reader and its stream nest in one call or handler are bounded. -/
theorem callbacks_bounded {r : StreamReader} {m : Memory UInt8} {s : UDPClientStream UInt8}
    {es : List DatagramReaderEvent} {x : DatagramReader}
    (run : Steps step (fun x e => x.Unwrapped e ∧ x.Punctual e) { world := { self := r, memory := m }, stream := s } es x) :
    x.Bounded := by
  have nested : x.Nested := run.invariant start_nested fun _ _ _ nested allowed taken =>
    step_nested nested allowed taken
  exact nested.bounded

/-- A request that finds its byte in the read buffer is ended by its timer before the posted
continuation runs. Then one of five bytes and a datagram of three: the stream is called for the rest
inside its own call, and goes to the socket. -/
theorem callbacks_bounded_rest :
    ∃ es x, Steps step (fun x e => x.Unwrapped e ∧ x.Punctual e)
        { world := { self := { StreamReader.blank with readBuffer := [96] }, memory := fun _ => 0 },
          stream := ⟨List.replicate 4 0, 0, 0⟩ } es x ∧
      x.world.posts.map Post.expired = [true] ∧ x.depth = 2 ∧ x.delivered = [⟨false, false, 0⟩] ∧ x.Bounded := by
  obtain ⟨x, run, seen⟩ : ∃ x, Steps step (fun x e => x.Unwrapped e ∧ x.Punctual e)
      { world := { self := { StreamReader.blank with readBuffer := [96] }, memory := fun _ => 0 },
        stream := ⟨List.replicate 4 0, 0, 0⟩ }
      [.reader (.call { kind := .read, size := 1, data := 0, callback := 1, timeoutMillis := 1 }), .reader .expire,
        .reader (.timer 0), .reader (.deliver 0),
        .reader (.call { kind := .read, size := 5, data := 0, callback := 2 }), .readSome,
        .receive 0 .success [97, 98, 99], .readSome] x ∧
      (x.world.posts.map Post.expired, x.depth, x.delivered) = ([true], 2, [⟨false, false, 0⟩]) :=
    exists_of_exec (by decide)
  simp only [Prod.mk.injEq] at seen
  obtain ⟨expired, depth, delivered⟩ := seen
  exact ⟨_, x, run, expired, depth, delivered, callbacks_bounded run⟩

/-! ### The id 0 -/

/-- A reader and its stream as they are created. -/
def created : DatagramReader :=
  { world := { self := .blank, memory := fun _ => 0 }, stream := ⟨List.replicate 1024 0, 0, 0⟩ }

/-- After `n` requests nothing is under way and nothing is left over. -/
structure Drained (n : Nat) (x : DatagramReader) : Prop where
  idle : x.world.self.readId = 0
  counter : x.world.self.readCounter = UInt32.ofNat n
  ops : x.world.ops = []
  waits : x.world.waits = []
  fired : x.world.fired = []
  punctual : ∀ p ∈ x.world.posts, p.expired = false
  readBuffer : x.world.self.readBuffer = []
  rxDump : x.world.self.rxDump = none
  returned : x.calling = none
  bufferBegin : x.stream.bufferBegin = 0
  bufferEnd : x.stream.bufferEnd = 0
  room : x.stream.buffer.length = 1024

section Rounds
variable {x : DatagramReader} {n : Nat}

-- The functions that a step calls, for the runs below.
attribute [local simp] exec step World.step World.call World.after World.perform World.resume handle reader
  StreamReader.call StreamReader.resume StreamReader.asyncRead StreamReader.newRead_idle StreamReader.opened
  Slot.opened armed StreamReader.doReadSome StreamReader.asyncReadContinue StreamReader.readidOk Slot.idOk
  StreamReader.finishRead Slot.finish StreamReader.timeoutReached Slot.timeoutReached Event.ofStream handOver after
  perform entered UDPClientStream.asyncReadSome UDPClientStream.available UDPClientStream.receiveContinue Op.read
  Op.id ErrorCode.failed ErrorCode.success

/-- A request of one byte and a datagram of one byte. -/
theorem drained_round (h : x.Drained n) : ∃ es y, Steps step Always x es y ∧ y.Drained (n + 1) := by
  obtain ⟨idle, counter, ops, waits, fired, punctual, empty, closed, returned, bufferBegin, bufferEnd, room⟩ := h
  have ran : (exec step Always x
      [.reader (.call { kind := .read, size := 1, data := 0, callback := 1 }), .readSome, .receive 0 .success [97]]).map
        (fun y => (y.world.self.readId, y.world.self.readCounter, y.world.ops, y.world.waits, y.world.fired,
          y.world.posts.all (!·.expired), y.world.self.readBuffer, y.world.self.rxDump, y.calling,
          y.stream.bufferBegin, y.stream.bufferEnd, y.stream.buffer.length)) =
      some (0, x.world.self.readCounter + 1, [], [], [], true, [], none, none, 0, 0, 1024) := by
    by_cases wrapped : x.world.self.counter + 1 = 0
    all_goals
      simpa [idle, ops, waits, fired, empty, closed, returned, bufferBegin, bufferEnd, room, wrapped] using punctual
  obtain ⟨y, run, seen⟩ := exists_of_exec ran
  simp only [Prod.mk.injEq] at seen
  obtain ⟨idle, counter', ops, waits, fired, punctual, empty, closed, returned, bufferBegin, bufferEnd, room⟩ := seen
  refine ⟨_, y, run, idle, ?_, ops, waits, fired, ?_, empty, closed, returned, bufferBegin, bufferEnd, room⟩
  · rw [counter', counter]
    exact (UInt32.ofNat_add n 1).symm
  · simpa using punctual

theorem created_drained : created.Drained 0 :=
  ⟨rfl, rfl, rfl, rfl, rfl, nofun, rfl, rfl, rfl, rfl, rfl, List.length_replicate⟩

theorem drained_rounds (n : Nat) : ∃ es x, Steps step Always created es x ∧ x.Drained n := by
  induction n with
  | zero => exact ⟨[], created, .refl, created_drained⟩
  | succ n ih =>
    obtain ⟨es, x, run, drained⟩ := ih
    obtain ⟨fs, y, round, drained⟩ := drained_round drained
    exact ⟨es ++ fs, y, run.append round, drained⟩

/-- The continuation of the request with the id 0 does not end it, and the stream keeps two bytes. -/
theorem kept_by_id_zero (h : x.Drained (2 ^ 32 - 1)) :
    ∃ es y, Steps step Always x es y ∧ (∀ p ∈ y.world.posts, p.expired = false) ∧
      y.delivered = [⟨false, false, 2⟩] := by
  obtain ⟨idle, counter, ops, waits, fired, punctual, empty, closed, returned, bufferBegin, bufferEnd, room⟩ := h
  have wrapped : x.world.self.counter + 1 = 0 := congrArg (· + 1) counter
  have ran : (exec step Always x
      [.reader (.call { kind := .read, size := 1, data := 0, callback := 1 }), .readSome,
        .receive 0 .success [97, 98, 99]]).map (fun y => (y.world.posts.all (!·.expired), y.delivered)) =
      some (true, [⟨false, false, 2⟩]) := by
    simpa [idle, ops, empty, closed, returned, bufferBegin, bufferEnd, room, wrapped] using punctual
  obtain ⟨y, run, seen⟩ := exists_of_exec ran
  obtain ⟨punctual, delivered⟩ := Prod.mk.inj seen
  exact ⟨_, y, run, by simpa using punctual, delivered⟩

/-- It passes for that of the idle reader, whose last request its timer has ended with four bytes
missing. -/
theorem twice_by_id_zero (h : x.Drained (2 ^ 32 - 1)) :
    ∃ es y, Steps step Always x es y ∧ y.world.waits = [] ∧ y.world.fired = [] ∧
      y.delivered = [⟨false, false, 2⟩, ⟨false, false, 0⟩] := by
  obtain ⟨idle, counter, ops, waits, fired, punctual, empty, closed, returned, bufferBegin, bufferEnd, room⟩ := h
  have wrapped : x.world.self.counter + 1 = 0 := congrArg (· + 1) counter
  have ran : (exec step Always x
      [.reader (.call { kind := .read, size := 1, data := 0, callback := 1 }), .readSome,
        .reader (.call { kind := .read, size := 4, data := 8, callback := 2, timeoutMillis := 1 }), .readSome,
        .reader .expire, .reader (.timer 0), .receive 0 .success [97, 98, 99], .readSome]).map
        (fun y => (y.world.waits, y.world.fired, y.delivered)) =
      some ([], [], [⟨false, false, 2⟩, ⟨false, false, 0⟩]) := by
    simp [idle, ops, waits, fired, empty, closed, returned, bufferBegin, bufferEnd, room, wrapped]
  obtain ⟨y, run, seen⟩ := exists_of_exec ran
  simp only [Prod.mk.injEq] at seen
  exact ⟨_, y, run, seen⟩

/-- A timer ends a request of one byte, and then a datagram comes for its receive. The stream keeps two
bytes. -/
theorem kept_by_late (h : x.Drained 0) :
    ∃ es y, Steps step (fun y e => y.Unwrapped e) x es y ∧ y.world.waits = [] ∧ y.world.fired = [] ∧
      y.delivered = [⟨true, false, 2⟩] := by
  obtain ⟨idle, counter, ops, waits, fired, punctual, empty, closed, returned, bufferBegin, bufferEnd, room⟩ := h
  have first : x.world.self.counter = 0 := counter
  have ran : (exec step (fun y e => y.Unwrapped e) x
      [.reader (.call { kind := .read, size := 1, data := 0, callback := 1, timeoutMillis := 1 }), .readSome,
        .reader .expire, .reader (.timer 0), .receive 0 .success [97, 98, 99]]).map
        (fun y => (y.world.waits, y.world.fired, y.delivered)) = some ([], [], [⟨true, false, 2⟩]) := by
    simp [Unwrapped, Event.OnCall, idle, ops, waits, fired, empty, closed, returned, bufferBegin, bufferEnd, room, first]
  obtain ⟨y, run, seen⟩ := exists_of_exec ran
  simp only [Prod.mk.injEq] at seen
  exact ⟨_, y, run, seen⟩

end Rounds

/-- After 2^32 - 1 requests a continuation neither ends its request nor leaves the stream empty, and
the stream can call two of them in one handler. After a timer has ended a request, its continuation
comes late and leaves bytes as well. -/
theorem callbacks_not_bounded :
    (∃ es x, Steps step Always created es x ∧ (∀ p ∈ x.world.posts, p.expired = false) ∧
      x.delivered = [⟨false, false, 2⟩] ∧ ¬ x.Bounded) ∧
    (∃ es x, Steps step Always created es x ∧ x.world.waits = [] ∧ x.world.fired = [] ∧
      x.delivered = [⟨false, false, 2⟩, ⟨false, false, 0⟩] ∧ ¬ x.Bounded) ∧
    (∃ es x, Steps step (fun x e => x.Unwrapped e) created es x ∧ x.world.waits = [] ∧ x.world.fired = [] ∧
      x.delivered = [⟨true, false, 2⟩] ∧ ¬ x.Bounded) := by
  obtain ⟨es, x, run, drained⟩ := drained_rounds (2 ^ 32 - 1)
  refine ⟨?_, ?_, ?_⟩
  · obtain ⟨fs, y, more, punctual, delivered⟩ := kept_by_id_zero drained
    refine ⟨es ++ fs, y, run.append more, punctual, delivered, fun bounded => ?_⟩
    have one := bounded.each ⟨false, false, 2⟩ (by simp [delivered])
    simp at one
  · obtain ⟨fs, y, more, waits, fired, delivered⟩ := twice_by_id_zero drained
    refine ⟨es ++ fs, y, run.append more, waits, fired, delivered, fun bounded => ?_⟩
    have once := bounded.once
    simp [delivered] at once
  · obtain ⟨fs, y, run, waits, fired, delivered⟩ := kept_by_late created_drained
    refine ⟨fs, y, run, waits, fired, delivered, fun bounded => ?_⟩
    have one := bounded.each ⟨true, false, 2⟩ (by simp [delivered])
    simp at one

end DatagramReader

end RtacAsio
