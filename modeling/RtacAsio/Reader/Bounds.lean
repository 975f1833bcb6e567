import RtacAsio.Reader.Turns

/-!
How far one request of `StreamReader` reaches into the caller's buffer: what the reader stores
itself, the ranges it gives to the stream and the count it reports.
-/

namespace RtacAsio
open Lib

/-- The effect stays inside the `q.size` bytes from `q.data` on. -/
def InBounds (q : Request ReadKind) : Effect ReadKind → Prop
  | .store p _ => q.data ≤ p ∧ p < q.data + q.size
  | .transfer count p _ => q.data ≤ p ∧ p + count ≤ q.data + q.size
  | .post _ _ count => count ≤ q.size
  | _ => True

instance (q : Request ReadKind) (e : Effect ReadKind) : Decidable (InBounds q e) := by
  cases e <;> simp only [InBounds] <;> infer_instance

/-- One request on its own, over a stream that never moves more than it was asked for. -/
def Alone (w : World ReadKind StreamReader) (e : Event ReadKind) : Prop :=
  e.OnCall (fun _ => False) ∧ w.Honest e

instance (w : World ReadKind StreamReader) (e : Event ReadKind) : Decidable (Alone w e) :=
  inferInstanceAs (Decidable (_ ∧ _))

/-- The request `q` issued on the reader `r`, with nothing else under way. -/
def issued (q : Request ReadKind) (r : StreamReader) (m : Memory UInt8) : World ReadKind StreamReader :=
  World.call reader q { self := r, memory := m }

/-- A read_until that finds bytes left over has to stop inside them. -/
def StopsInLeftover (q : Request ReadKind) (r : StreamReader) : Prop :=
  ∀ delimiter, q.kind = .readUntil delimiter → r.readBuffer ≠ [] →
    0 < q.size ∧ ((∃ c ∈ r.readBuffer.take q.size, c.toInt8 = delimiter) ∨ q.size ≤ r.readBuffer.length)

/-- What is under way for the request: nothing, one stream operation or one posted
continuation, inside what is left of the buffer. -/
inductive Room (q : Request ReadKind) (w : World ReadKind StreamReader) : Prop where
  | nothing : w.ops = [] → w.queue = [] → w.self.processed ≤ q.size → Room q w
  | op (op : Op ReadKind) : w.ops = [op] → w.queue = [] → w.self.processed + op.count ≤ q.size →
      (∀ bs, op.moved = some bs → bs.length ≤ op.count) → Room q w
  | posted (p : Posted ReadKind) : w.ops = [] → w.queue = [p] → w.self.processed + p.count ≤ q.size → Room q w

theorem Room.counted {q : Request ReadKind} {w : World ReadKind StreamReader} (h : Room q w) :
    w.self.processed ≤ q.size := by
  cases h with
  | nothing _ _ fits => exact fits
  | op _ _ _ fits _ => omega
  | posted _ _ _ fits => omega

theorem Room.congr {q : Request ReadKind} {w w' : World ReadKind StreamReader} (h : Room q w)
    (ops : w'.ops = w.ops) (queue : w'.queue = w.queue) (processed : w'.self.processed = w.self.processed) :
    Room q w' := by
  cases h with
  | nothing o u fits => exact .nothing (ops.trans o) (queue.trans u) (by omega)
  | op op o u fits moved => exact .op op (ops.trans o) (queue.trans u) (by omega) moved
  | posted p o u fits => exact .posted p (ops.trans o) (queue.trans u) (by omega)

structure Within (q : Request ReadKind) (k : UInt32) (w : World ReadKind StreamReader) : Prop where
  log : ∀ e ∈ w.log, InBounds q e
  ops : ∀ op ∈ w.ops, op.id = k
  queue : ∀ p ∈ w.queue, p.cont.id = k
  data : w.self.data = q.data
  size : w.self.requestedSize = q.size
  id : w.self.readId = k ∨ w.self.readId = 0
  room : w.self.readId = k → Room q w

theorem inBounds_stores {q : Request ReadKind} {p : Nat} {bs : List UInt8} (low : q.data ≤ p)
    (high : p + bs.length ≤ q.data + q.size) : ∀ e ∈ storesFrom p bs, InBounds q e := by
  induction bs generalizing p with
  | nil => simp [storesFrom]
  | cons b rest ih =>
    simp only [List.length_cons] at high
    intro e member
    rcases List.mem_cons.mp member with rfl | later
    · exact ⟨low, by omega⟩
    · exact ih (by omega) (by omega) e later

theorem inBounds_arm {q : Request ReadKind} {w : World ReadKind StreamReader} (id : UInt32)
    (log : ∀ e ∈ w.log, InBounds q e) : ∀ e ∈ (w.arm q id).log, InBounds q e := by
  unfold World.arm
  split
  · intro e member
    rcases List.mem_append.mp member with old | new
    · exact log e old
    · rw [List.mem_singleton.mp new]
      trivial
  · exact log

/-- With `processed` bytes counted, what a turn ends with stays below `size`. -/
structure Fits (size processed : Nat) (next : Next) : Prop where
  counted : processed ≤ size
  transfer : ∀ count dump, next = .transfer count dump → processed + count ≤ size
  post : ∀ count, next = .postCont count → processed + count ≤ size

theorem fits_done {size processed : Nat} {err : ErrorCode} (bound : processed ≤ size) :
    Fits size processed (.done err) :=
  ⟨bound, by simp, by simp⟩

theorem fits_transfer {size processed count : Nat} {dump : Option Nat} (bound : processed + count ≤ size) :
    Fits size processed (.transfer count dump) :=
  ⟨by omega, by rintro _ _ ⟨⟩; exact bound, by simp⟩

theorem fits_postCont {size processed count : Nat} (bound : processed + count ≤ size) :
    Fits size processed (.postCont count) :=
  ⟨by omega, by simp, by rintro _ ⟨⟩; exact bound⟩

theorem callTurn_fits {q : Request ReadKind} {r : StreamReader} {bs buffer : List UInt8} {next : Next}
    (stops : StopsInLeftover q r) (turn : StreamReader.CallTurn q r bs buffer next) :
    bs.length ≤ q.size ∧ Fits q.size (StreamReader.taken q r) next := by
  cases turn with
  | fromStream empty =>
    rw [StreamReader.taken_empty q empty]
    exact ⟨Nat.zero_le _, fits_transfer (by omega)⟩
  | fromBuffer plain left =>
    rw [StreamReader.taken_plain plain r]
    exact ⟨List.length_take_le _ _, fits_postCont (by omega)⟩
  | stopped delimiter kind left stop =>
    have positive := (stops delimiter kind left).1
    have bound : StreamReader.taken q r ≤ q.size := by
      have := StreamReader.leftoverTaken_bound delimiter q.size r.readBuffer
      simp only [StreamReader.taken, kind]
      omega
    exact ⟨Nat.le_trans (List.length_take_le _ _) bound, fits_done bound⟩
  | scanned delimiter kind left running =>
    obtain ⟨positive, stops⟩ := stops delimiter kind left
    simp [(StreamReader.leftoverStops_iff left positive).mpr stops] at running

theorem resumeTurn_fits {c : Cont ReadKind} {err : ErrorCode} {n processed : Nat} {m : Memory UInt8}
    {r : StreamReader} {bs buffer : List UInt8} {next : Next} (room : r.processed + n ≤ r.requestedSize)
    (turn : StreamReader.ResumeTurn c err n m r processed bs buffer next) :
    processed + bs.length ≤ r.requestedSize ∧ Fits r.requestedSize processed next := by
  cases turn with
  | readSome => exact ⟨by simp; omega, fits_done (by omega)⟩
  | found delimiter i rest _ search =>
    obtain ⟨j, rfl, bound, _⟩ := StreamReader.searchLoop_some search
    rw [Memory.read_length] at bound
    exact ⟨by simp; omega, fits_done (by omega)⟩
  | ended => exact ⟨by simp; omega, fits_done (by omega)⟩
  | again _ _ _ _ _ _ _ read =>
    cases read with
    | fromStream => exact ⟨by simp; omega, fits_transfer (by omega)⟩
    | fromBuffer => exact ⟨by simp; omega, fits_postCont (by omega)⟩

theorem conclude_within {q : Request ReadKind} {c : Cont ReadKind} {p : Nat} {bs : List UInt8} {next : Next}
    {s : Slot} {w : World ReadKind StreamReader} (log : ∀ e ∈ w.log, InBounds q e)
    (ops : w.ops = []) (queue : w.queue = []) (slot : w.self.toSlot = { s with id := next.id c.id })
    (data : s.data = q.data) (size : s.requestedSize = q.size) (low : q.data ≤ p)
    (high : p + bs.length ≤ q.data + q.size) (fits : Fits q.size s.processed next) :
    Within q c.id ((w.stored p bs).conclude s c next false) := by
  have before : ∀ e ∈ (w.stored p bs).log, InBounds q e := by
    intro e member
    rcases List.mem_append.mp member with old | new
    · exact log e old
    · exact inBounds_stores low high e new
  have data' : w.self.data = q.data := by rw [slot, ← data]
  have size' : w.self.requestedSize = q.size := by rw [slot, ← size]
  have processed' : w.self.processed = s.processed := by rw [slot]
  have id' : w.self.id = next.id c.id := by rw [slot]
  have extended : ∀ e, InBounds q e → ∀ e' ∈ (w.stored p bs).log ++ [e], InBounds q e' := by
    intro e inside e' member
    rcases List.mem_append.mp member with old | new
    · exact before e' old
    · rw [List.mem_singleton.mp new]
      exact inside
  cases next with
  | transfer count dump =>
    have room := fits.transfer count dump rfl
    refine ⟨extended _ ⟨by omega, by omega⟩, ?_, ?_, data', size', Or.inl id', fun _ => ?_⟩
    · simp [World.conclude, World.stored, ops, Op.id]
    · simp [World.conclude, World.stored, queue]
    · refine .op _ (by simp only [World.conclude, World.stored, ops]; rfl) queue ?_ (by simp)
      simpa [World.conclude, World.stored, processed'] using room
  | postCont count =>
    have room := fits.post count rfl
    refine ⟨extended _ trivial, ?_, ?_, data', size', Or.inl id', fun _ => ?_⟩
    · simp [World.conclude, World.stored, ops]
    · simp [World.conclude, World.stored, queue]
    · refine .posted _ ops (by simp only [World.conclude, World.stored, queue]; rfl) ?_
      simpa [World.conclude, World.stored, processed'] using room
  | done err =>
    have nothing : Room q (w.stored p bs) := .nothing ops queue (by simpa [World.stored, processed'] using fits.counted)
    by_cases zero : c.id = 0
    · rw [World.conclude_zero _ err false _ zero]
      exact ⟨before, by simp [World.stored, ops], by simp [World.stored, queue], data', size', Or.inr id',
        fun _ => nothing⟩
    · rw [World.conclude_callback _ err false _ zero]
      refine ⟨extended _ fits.counted, by simp [World.stored, ops], by simp [World.stored, queue], data', size', Or.inr id',
        fun current => ?_⟩
      exact (zero (current.symm.trans id')).elim

theorem issued_within {q : Request ReadKind} {r : StreamReader} {m : Memory UInt8} (idle : r.readId = 0)
    (stops : StopsInLeftover q r) : Within q (r.readCounter + 1) (issued q r m) := by
  obtain ⟨bs, buffer, next, turn, eq⟩ :=
    World.call_reader_idle (w := { self := r, memory := m }) q idle
  unfold issued
  rw [eq]
  obtain ⟨short, fits⟩ := callTurn_fits stops turn
  refine conclude_within (c := ⟨q.kind, r.readCounter + 1⟩) (inBounds_arm _ ?_) ?_ ?_ ?_ rfl rfl (Nat.le_refl _)
    (Nat.add_le_add_left short _) fits
  · simp
  · simp
  · simp
  · simp only [World.arm_self]; rfl

theorem timeoutReached_within {q : Request ReadKind} {k id : UInt32} {err : ErrorCode}
    {w : World ReadKind StreamReader} (h : Within q k w) :
    Within q k (w.after reader true (w.self.timeoutReached id err)) := by
  by_cases current : id = w.self.id
  · subst current
    by_cases zero : w.self.id = 0
    · have flagged : w.self.timeoutReached w.self.id err = ({ w.self with waiterNotified := true }, []) := by
        simp [StreamReader.timeoutReached, Slot.timeoutReached_idle err zero]
      rw [flagged]
      exact ⟨h.log, h.ops, h.queue, h.data, h.size, h.id, fun current => (h.room current).congr rfl rfl rfl⟩
    · have ended : w.self.timeoutReached w.self.id err =
          ({ w.self with waiterNotified := true, id := 0 },
            [.post w.self.callback .success w.self.processed]) := by
        simp [StreamReader.timeoutReached, Slot.timeoutReached_current err zero]
      have busy : w.self.id = k := h.id.resolve_right zero
      rw [ended]
      refine ⟨?_, h.ops, h.queue, h.data, h.size, Or.inr rfl, fun same => ?_⟩
      · intro e member
        rcases List.mem_append.mp member with old | new
        · exact h.log e old
        · rw [List.mem_singleton.mp new]
          exact (h.room busy).counted
      · exact (zero (busy.trans same.symm)).elim
  · have stale : w.self.timeoutReached id err = (w.self, []) := by
      simp [StreamReader.timeoutReached, Slot.timeoutReached_stale err current]
    rw [stale]
    exact h

theorem resume_within {q : Request ReadKind} {c : Cont ReadKind} {err : ErrorCode} {n : Nat}
    {w : World ReadKind StreamReader} (h : Within q c.id w)
    (taken : w.self.readId = c.id → w.ops = [] ∧ w.queue = [] ∧ w.self.processed + n ≤ q.size) :
    Within q c.id (w.resume reader c err n) := by
  by_cases current : c.id = w.self.readId
  · obtain ⟨ops, queue, room⟩ := taken current.symm
    obtain ⟨processed, bs, buffer, next, turn, eq⟩ := World.resume_reader_current err n current
    obtain ⟨short, fits⟩ := resumeTurn_fits (by rw [h.size]; exact room) turn
    rw [eq]
    refine conclude_within h.log ops queue ?_ h.data h.size ?_ ?_ (by rw [← h.size]; exact fits)
    · simp [StreamReader.turned, current]
    · have := h.data
      simp only [StreamReader.dst]
      omega
    · have := h.data
      have := h.size
      simp only [StreamReader.dst]
      omega
  · rw [World.resume_reader_stale err n current]
    exact ⟨h.log, h.ops, h.queue, h.data, h.size, h.id, fun same => (current same.symm).elim⟩

theorem step_within {q : Request ReadKind} {k : UInt32} {w w' : World ReadKind StreamReader} {e : Event ReadKind}
    (h : Within q k w) (alone : Alone w e) (taken : w.step reader e = some w') : Within q k w' := by
  cases World.step_cases taken with
  | call q => exact alone.1.elim
  | move i op bytes found =>
    refine ⟨h.log, ?_, h.queue, h.data, h.size, h.id, fun current => ?_⟩
    · intro op' member
      rcases List.mem_or_eq_of_mem_set member with old | rfl
      · exact h.ops op' old
      · exact h.ops op (List.mem_of_getElem? found)
    · cases h.room current with
      | nothing ops => simp [ops] at found
      | posted _ ops => simp [ops] at found
      | op op' ops queue fits _ =>
        rw [ops] at found
        obtain ⟨rfl, rfl⟩ := singleton_getElem? found
        refine .op { op' with moved := some bytes } (by simp [World.move, ops]) queue fits fun bs same => ?_
        obtain rfl := Option.some.inj same
        simpa [World.Honest, ops] using alone.2
  | complete i op bytes err found moved =>
    obtain rfl := h.ops op (List.mem_of_getElem? found)
    obtain ⟨d, eq⟩ := World.handle_reader (w := { w with ops := w.ops.eraseIdx i }) op.handler err bytes.length
    rw [eq]
    have room : w.self.readId = op.id → w.ops.eraseIdx i = [] ∧ w.queue = [] ∧
        w.self.processed + bytes.length ≤ q.size := by
      intro current
      cases h.room current with
      | nothing ops => simp [ops] at found
      | posted _ ops => simp [ops] at found
      | op op' ops queue fits bound =>
        rw [ops] at found
        obtain ⟨rfl, rfl⟩ := singleton_getElem? found
        have := bound bytes moved
        exact ⟨by simp [ops], queue, by omega⟩
    refine resume_within ⟨h.log, ?_, h.queue, h.data, h.size, h.id, fun current => ?_⟩ room
    · exact fun op' member => h.ops op' (List.mem_of_mem_eraseIdx member)
    · obtain ⟨ops, queue, fits⟩ := room current
      exact .nothing ops queue (by simp only; omega)
  | deliver i p found =>
    obtain rfl := h.queue p (List.mem_of_getElem? found)
    have room : w.self.readId = p.cont.id → w.ops = [] ∧ w.queue.eraseIdx i = [] ∧
        w.self.processed + p.count ≤ q.size := by
      intro current
      cases h.room current with
      | nothing _ queue => simp [queue] at found
      | op _ _ queue => simp [queue] at found
      | posted p' ops queue fits =>
        rw [queue] at found
        obtain ⟨rfl, rfl⟩ := singleton_getElem? found
        exact ⟨ops, by simp [queue], fits⟩
    refine resume_within ⟨h.log, h.ops, ?_, h.data, h.size, h.id, fun current => ?_⟩ room
    · exact fun p' member => h.queue p' (List.mem_of_mem_eraseIdx member)
    · obtain ⟨ops, queue, fits⟩ := room current
      exact .nothing ops queue (by simp only; omega)
  | expire => exact ⟨h.log, h.ops, h.queue, h.data, h.size, h.id, fun current => (h.room current).congr rfl rfl rfl⟩
  | timer i id err =>
    exact timeoutReached_within (w := { w with fired := w.fired.eraseIdx i })
      ⟨h.log, h.ops, h.queue, h.data, h.size, h.id, fun current => (h.room current).congr rfl rfl rfl⟩

/-- A read_until that runs past its leftover goes out of bounds in the call itself. -/
theorem issued_outside {q : Request ReadKind} {r : StreamReader} {m : Memory UInt8} (idle : r.readId = 0)
    (runs : ¬ StopsInLeftover q r) : ∃ e ∈ (issued q r m).log, ¬ InBounds q e := by
  obtain ⟨delimiter, kind, left, bad⟩ : ∃ delimiter, q.kind = .readUntil delimiter ∧ r.readBuffer ≠ [] ∧
      ¬ (0 < q.size ∧ ((∃ c ∈ r.readBuffer.take q.size, c.toInt8 = delimiter) ∨ q.size ≤ r.readBuffer.length)) := by
    simpa only [StopsInLeftover, not_forall, exists_prop] using runs
  obtain ⟨bs, buffer, next, turn, eq⟩ :=
    World.call_reader_idle (w := { self := r, memory := m }) q idle
  unfold issued
  rw [eq]
  cases turn with
  | fromStream empty => exact (left empty).elim
  | fromBuffer plain => rcases plain with plain | plain <;> simp [kind] at plain
  | stopped d kind' _ stop =>
    obtain rfl : delimiter = d := by simpa [kind] using kind'
    have none : q.size = 0 := by
      by_contra positive
      have positive : 0 < q.size := by omega
      exact bad ⟨positive, (StreamReader.leftoverStops_iff left positive).mp stop⟩
    -- the first byte is stored whatever the size is
    obtain ⟨c, rest, buffered⟩ := List.exists_cons_of_ne_nil left
    refine ⟨.store q.data c, ?_, by simp [InBounds, none]⟩
    have first : StreamReader.taken q r = 1 := by
      simp [StreamReader.taken, kind, none, buffered, StreamReader.leftoverTaken]
    have stores : Effect.store q.data c ∈
        storesFrom q.data (r.readBuffer.take (StreamReader.taken q r)) (κ := ReadKind) := by
      simp [first, buffered, storesFrom]
    simp only [World.conclude]
    split
    · exact List.mem_append_right _ stores
    · exact List.mem_append_left _ (List.mem_append_right _ stores)
  | scanned d kind' _ running =>
    have positive : 0 < r.readBuffer.length := List.length_pos_of_ne_nil left
    have all : StreamReader.taken q r = r.readBuffer.length := by
      obtain rfl : delimiter = d := by simpa [kind] using kind'
      simpa [StreamReader.taken, kind] using (StreamReader.leftoverTaken_running running).1
    refine ⟨_, List.mem_append_right _ (List.mem_singleton.mpr rfl), ?_⟩
    simp only [InBounds, all]
    simp only [StreamReader.opened, Slot.opened]
    omega

/-- A request keeps to the caller's buffer in every run exactly when it is not a read_until that
finds bytes left over and does not stop inside them. -/
theorem request_in_bounds_iff (q : Request ReadKind) (r : StreamReader) (m : Memory UInt8) (idle : r.readId = 0) :
    (∀ es w, Steps (World.step reader) Alone (issued q r m) es w → ∀ e ∈ w.log, InBounds q e) ↔
      StopsInLeftover q r := by
  constructor
  · intro safe
    by_contra runs
    obtain ⟨e, member, outside⟩ := issued_outside (m := m) idle runs
    exact outside (safe [] _ .refl e member)
  · intro stops es w run
    have start := issued_within (m := m) idle stops
    exact (run.invariant start fun _ _ _ h alone taken => step_within h alone taken).log

/-- A read_until that finds its newline in the bytes left over. -/
theorem request_in_bounds_newline :
    StopsInLeftover { kind := .readUntil 10, size := 4, data := 0, callback := 1 }
        { StreamReader.blank with readBuffer := [97, 10, 98] } ∧
    ∀ es w, Steps (World.step reader) Alone
        (issued { kind := .readUntil 10, size := 4, data := 0, callback := 1 }
          { StreamReader.blank with readBuffer := [97, 10, 98] } fun _ => 0) es w →
      ∀ e ∈ w.log, InBounds { kind := .readUntil 10, size := 4, data := 0, callback := 1 } e := by
  have stops : StopsInLeftover { kind := .readUntil 10, size := 4, data := 0, callback := 1 }
      { StreamReader.blank with readBuffer := [97, 10, 98] } := by
    rintro delimiter ⟨⟩ _
    decide
  exact ⟨stops, (request_in_bounds_iff _ _ _ rfl).mpr stops⟩

/-- With two bytes left over and no newline in them, four bytes are asked for behind them, and
six are reported for a buffer of four. -/
theorem request_past_end :
    ∃ es w, Steps (World.step reader) Alone
        (issued { kind := .readUntil 10, size := 4, data := 0, callback := 1 }
          { StreamReader.blank with readBuffer := [98, 99] } fun _ => 0) es w ∧
      w.log = [.store 0 98, .store 1 99, .transfer 4 2 ⟨⟨.readUntil 10, 1⟩, none⟩, .post 1 .success 6] ∧
      ¬ ∀ e ∈ w.log, InBounds { kind := .readUntil 10, size := 4, data := 0, callback := 1 } e := by
  obtain ⟨w, run, log⟩ : ∃ w, Steps (World.step reader) Alone
      (issued { kind := .readUntil 10, size := 4, data := 0, callback := 1 }
        { StreamReader.blank with readBuffer := [98, 99] } fun _ => 0)
      [.move 0 [100, 101, 102, 103], .complete 0 .success] w ∧
      w.log = [.store 0 98, .store 1 99, .transfer 4 2 ⟨⟨.readUntil 10, 1⟩, none⟩, .post 1 .success 6] :=
    exists_of_exec (by decide)
  exact ⟨_, w, run, log, by rw [log]; decide⟩

end RtacAsio
