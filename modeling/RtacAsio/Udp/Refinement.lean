import RtacAsio.KeptBusy
import RtacAsio.Lib.Simulation
import RtacAsio.Reader.Passage
import RtacAsio.Udp.Recursion
import RtacAsio.Udp.Window

/-!
A reader over a `UDPClientStream` refines the reader over a stream that buffers its bytes: a
datagram is what the stream gets, and the window is what it holds.
-/

namespace RtacAsio
open Lib World

namespace UDPClientStream
variable {α : Type}

/-- The bytes in `[bufferBegin_, bufferEnd_)`. -/
def window (s : UDPClientStream α) : List α := s.front s.available

/-- The stream with the receives left out. -/
def alone (s : UDPClientStream α) : Datagrams α := { self := s, received := s.window }

end UDPClientStream

theorem Datagrams.Windowed.alone {w : Datagrams α} (h : Windowed w) : Windowed w.self.alone :=
  ⟨h.order, h.bound, h.empty, rfl, nofun⟩

/-- What the caller and the service do, without the stream. -/
def LineEvent.own : LineEvent → Option LineEvent
  | .produce _ => none
  | .reader e => if e.ofStream then none else some (.reader e)
  | .cut c => some (.cut c)

namespace DatagramReaderEvent

def own : DatagramReaderEvent → Option LineEvent
  | .reader e => some (.reader e)
  | .cut c => some (.cut c)
  | _ => none

/-- The bytes of a datagram. -/
def arrival : DatagramReaderEvent → List UInt8
  | .receive _ _ bytes => bytes
  | _ => []

end DatagramReaderEvent

namespace DatagramReader

/-- The reader's own steps and the codes of the receives are restricted by `p`, and bytes are
discarded only if `cuts`. -/
def Permitted (p : World ReadKind StreamReader → Event ReadKind → Prop) (cuts : Prop) (x : DatagramReader) :
    DatagramReaderEvent → Prop
  | .reader e => e.ofStream = false → p x.world e
  | .receive i err _ => p x.world (.complete i err)
  | .cut _ => cuts
  | .readSome => True

/-- A receive completes on an empty buffer or brings nothing. -/
def OnEmpty (x : DatagramReader) : DatagramReaderEvent → Prop
  | .receive _ _ bytes => x.stream.available = 0 ∨ bytes = []
  | _ => True

instance (p : World ReadKind StreamReader → Event ReadKind → Prop) [∀ w e, Decidable (p w e)] (cuts : Prop)
    [Decidable cuts] (x : DatagramReader) (e : DatagramReaderEvent) : Decidable (Permitted p cuts x e) :=
  match e with
  | .reader e => inferInstanceAs (Decidable (e.ofStream = false → p x.world e))
  | .receive i err _ => inferInstanceAs (Decidable (p x.world (.complete i err)))
  | .cut _ => inferInstanceAs (Decidable cuts)
  | .readSome => instDecidableTrue

instance (x : DatagramReader) (e : DatagramReaderEvent) : Decidable (OnEmpty x e) :=
  match e with
  | .receive _ _ bytes => inferInstanceAs (Decidable (x.stream.available = 0 ∨ bytes = []))
  | .reader _ | .cut _ | .readSome => instDecidableTrue

/-- The reader has got as far as the one of `l`, which has the same operations in some order. -/
structure Refines (x : DatagramReader) (l : Line) : Prop where
  world : ∃ ops traffic, l.world = x.world.overStream ops traffic ∧ ops.Perm (x.world.ops ++ x.calling.toList) ∧
    traffic.flatMap Prod.snd = x.world.moved
  unmoved : ∀ op ∈ x.world.ops ++ x.calling.toList, op.moved = none
  input : l.input = x.stream.window
  stream : Datagrams.Windowed x.stream.alone

/-- The same while the stream, as `s`, is about to serve the operation `op`. -/
structure Serves (x : DatagramReader) (op : Op ReadKind) (s : UDPClientStream UInt8) (l : Line) : Prop where
  world : ∃ ops traffic, l.world = x.world.overStream ops traffic ∧ ops.Perm (op :: x.world.ops) ∧
    traffic.flatMap Prod.snd = x.world.moved
  unmoved : ∀ op' ∈ op :: x.world.ops, op'.moved = none
  input : l.input = s.window
  stream : Datagrams.Windowed s.alone

end DatagramReader

/-- Such a condition does not depend on the operations outstanding in the steps that are not the
stream's. -/
structure Indifferent (p : World ReadKind StreamReader → Event ReadKind → Prop) : Prop extends FreeStream p where
  own : ∀ w ops traffic e, e.ofStream = false → p w e → p (w.overStream ops traffic) e

namespace DatagramReader
variable {p : World ReadKind StreamReader → Event ReadKind → Prop} {cuts : Prop} {x y : DatagramReader} {l : Line}
  {op : Op ReadKind} {s : UDPClientStream UInt8}

/-! ### The stream hands bytes over -/

/-- The abstract stream moves bytes of the operation `op`, and its handler runs. -/
structure Exchange (l : Line) (op : Op ReadKind) (bytes : List UInt8) (err : ErrorCode) (l' : Line) : Prop where
  short : bytes.length ≤ op.count
  steps : ∃ j l₁, l.world.ops[j]? = some op ∧ l.step (.reader (.move j bytes)) = some l₁ ∧
    l₁.step (.reader (.complete j err)) = some l'

theorem Exchange.run {l' : Line} {bytes : List UInt8} {err : ErrorCode} (cuts : Prop) (free : FreeStream p)
    (h : Exchange l op bytes err l') {w : World ReadKind StreamReader} {i : Nat} (code : p w (.complete i err)) :
    ∃ gs, Steps Line.step (Line.Permitted p cuts) l gs l' ∧ gs.filterMap LineEvent.own = [] := by
  obtain ⟨j, l₁, found, move, complete⟩ := h.steps
  have honest : l.world.Honest (.move j bytes) := by
    simp only [Honest, found]
    exact h.short
  have first : Steps Line.step (Line.Permitted p cuts) l [.reader (.move j bytes)] l₁ :=
    .single (free.move l.world j bytes honest :) move
  have second : Steps Line.step (Line.Permitted p cuts) l₁ [.reader (.complete j err)] l' :=
    .single (free.complete w l₁.world i j err code :) complete
  exact ⟨_, first.append second, rfl⟩

theorem handOver_adds {w : World ReadKind StreamReader} {new : List (Op ReadKind)} (adds : w.ops = x.world.ops ++ new)
    (one : new.length ≤ 1) :
    x.handOver w = { x with world := { w with ops := x.world.ops }, calling := new.head? } := by
  match new, one with
  | [], _ =>
    rw [List.append_nil] at adds
    rw [handOver_same adds, ← adds]
    rfl
  | [op], _ => simp [handOver, adds]

theorem head?_toList {new : List α} (one : new.length ≤ 1) : new.head?.toList = new := by
  match new, one with
  | [], _ => rfl
  | [a], _ => rfl

/-- The operations of `w` besides an operation that it has. -/
theorem perm_eraseIdx {ops rest : List (Op ReadKind)} (perm : ops.Perm (op :: rest)) :
    ∃ j, ops[j]? = some op ∧ (ops.eraseIdx j).Perm rest := by
  obtain ⟨j, inside, rfl⟩ := List.getElem_of_mem (perm.mem_iff.mpr (List.mem_cons_self ..))
  refine ⟨j, List.getElem?_eq_getElem inside, ?_⟩
  exact ((List.getElem_cons_eraseIdx_perm inside).trans perm).cons_inv

/-- The stream calls the continuation of `op` with bytes that it had: for the abstract stream these
are moved, and the operation completes. -/
theorem called_refines (h : Serves x op s l) {bytes : List UInt8} (err : ErrorCode) (callback : Callback)
    (held : s.window = bytes ++ y.stream.window) (short : bytes.length ≤ op.count)
    (world : ∃ traffic, y.world = { x.world with memory := x.world.memory.write op.data bytes, traffic } ∧
      traffic.flatMap Prod.snd = x.world.moved ++ bytes)
    (stream : Datagrams.Windowed y.stream.alone) :
    ∃ l', Exchange l op bytes err l' ∧ Refines (y.perform op (.call callback err bytes.length)) l' ∧
      l'.produced = l.produced := by
  obtain ⟨ops, traffic, same, perm, past⟩ := h.world
  obtain ⟨traffic', world, past'⟩ := world
  obtain ⟨j, found, rest⟩ := perm_eraseIdx perm
  have unmoved := h.unmoved op (List.mem_cons_self ..)
  have found' : l.world.ops[j]? = some op := by rw [same]; exact found
  have inside : j < ops.length := (List.getElem?_eq_some_iff.mp found).1
  -- the stream moves the bytes
  let moved : World ReadKind StreamReader :=
    y.world.overStream (ops.set j { op with moved := some bytes }) (traffic ++ [(op.id, bytes)])
  let l₁ : Line := { l with world := moved, input := y.stream.window }
  have move : Line.step l (.reader (.move j bytes)) = some l₁ := by
    have front : bytes.isPrefixOf l.input = true := by
      rw [List.isPrefixOf_iff_prefix, h.input, held]
      exact List.prefix_append ..
    have left : l.input.drop bytes.length = y.stream.window := by rw [h.input, held, List.drop_left]
    simp only [Line.step, Event.moves, front, ↓reduceIte, World.step, found', unmoved, left]
    simp [l₁, moved, World.move, reader, same, world, overStream]
  -- the operation completes
  obtain ⟨s', adds⟩ := handle_adds (E := reader) op.handler err bytes.length y.world
  have one := reader_lawful.resume_one op.handler.cont err bytes.length y.world.memory s'
  have fresh := transfers_unmoved (reader.resume op.handler.cont err bytes.length y.world.memory s').2
  generalize transfers (reader.resume op.handler.cont err bytes.length y.world.memory s').2 = new at adds one fresh
  let l₂ : Line := { l₁ with
    world := (handle reader op.handler err bytes.length y.world).overStream (ops.eraseIdx j ++ new) (traffic ++ [(op.id, bytes)]) }
  have complete : Line.step l₁ (.reader (.complete j err)) = some l₂ := by
    have taken : (ops.set j { op with moved := some bytes })[j]? = some { op with moved := some bytes } :=
      List.getElem?_set_self inside
    have erased : (ops.set j { op with moved := some bytes }).eraseIdx j = ops.eraseIdx j := List.eraseIdx_set_eq ..
    have called := adds (ops.eraseIdx j) (traffic ++ [(op.id, bytes)])
    simp only [Line.step, Event.moves, List.isPrefixOf_nil_left, ↓reduceIte, World.step, l₁, moved, overStream, taken, erased,
      Option.map_some, List.length_nil, List.drop_zero]
    simp only [overStream] at called
    rw [called]
    rfl
  refine ⟨l₂, ⟨short, j, l₁, found', move, complete⟩, ?_, rfl⟩
  have ops' : y.world.ops = x.world.ops := by rw [world]
  have given (ds : List Delivery) := handOver_adds (x := { y with delivered := ds }) adds.ops one
  simp only [perform, given]
  refine ⟨⟨_, _, rfl, ?_, ?_⟩, ?_, rfl, stream⟩
  · rw [head?_toList one, ops']
    exact rest.append_right new
  · have total : (handle reader op.handler err bytes.length y.world).moved = x.world.moved ++ bytes := by
      rw [World.moved, adds.traffic, world]
      exact past'
    rw [List.flatMap_append, past, List.flatMap_singleton]
    exact total.symm
  · rw [head?_toList one, ops', List.forall_mem_append]
    exact ⟨(List.forall_mem_cons.mp h.unmoved).2, fresh⟩

theorem copied_amount {r : DatagramRead} {s' : UDPClientStream UInt8} {start n : Nat} {bytes : List UInt8}
    {rest : List (DatagramEffect UInt8)}
    (eq : s.asyncReadSome r = (s', .copy r.buffer start n bytes :: rest)) : n = min r.bufferSize s.available := by
  unfold UDPClientStream.asyncReadSome at eq
  by_cases buffered : s.available > 0
  · by_cases all : r.bufferSize ≥ s.available
    · simp only [buffered, all, ↓reduceIte, Prod.mk.injEq, List.cons.injEq, DatagramEffect.copy.injEq] at eq
      omega
    · simp only [buffered, all, ↓reduceIte, Prod.mk.injEq, List.cons.injEq, DatagramEffect.copy.injEq] at eq
      omega
  · simp [buffered] at eq

/-- The operation goes to the socket, or the stream has bytes for it. -/
theorem served_refines (h : Serves x op s l) (returned : x.calling = none) :
    (s.available = 0 ∧ (x.after op (s.asyncReadSome op.read)).calling = none ∧
        Refines (x.after op (s.asyncReadSome op.read)) l) ∨
      ∃ bytes l', (op.count ≠ 0 → bytes ≠ []) ∧ Exchange l op bytes .success l' ∧
        Refines (x.after op (s.asyncReadSome op.read)) l' ∧ l'.produced = l.produced := by
  rcases Datagrams.read_cases h.stream op.read with ⟨empty, eq⟩ | ⟨n, self', some, _, consumed, eq⟩
  · obtain ⟨ops, traffic, same, perm, past⟩ := h.world
    have eq : s.asyncReadSome op.read = (s, [.receive op.read]) := eq
    rw [eq]
    refine Or.inl ⟨empty, returned, ⟨ops, traffic, same, ?_, past⟩, ?_, h.input, h.stream⟩
    · simp only [after, perform, List.foldl_cons, List.foldl_nil, returned, Option.toList_none, List.append_nil]
      exact perm.trans (List.perm_append_singleton op x.world.ops).symm
    · simp only [after, perform, List.foldl_cons, List.foldl_nil, returned, Option.toList_none, List.append_nil,
        List.forall_mem_append, List.forall_mem_singleton]
      obtain ⟨fresh, others⟩ := List.forall_mem_cons.mp h.unmoved
      exact ⟨others, fresh⟩
  · have eq : s.asyncReadSome op.read =
        (self', [.copy op.data s.bufferBegin n (s.front n), .call 0 .success n]) := eq
    have rest : s.window = s.front n ++ self'.window := consumed.rest
    have length : (s.front n).length = n := Datagrams.front_length (Nat.le_trans consumed.within h.stream.bound)
    have stream : Datagrams.Windowed self'.alone := (consumed.windowed h.stream op.read).alone
    have amount : n = min op.count s.available := copied_amount (r := op.read) eq
    have short : n ≤ op.count := by omega
    rw [eq]
    have called := called_refines (y := x.after op (self', [.copy op.data s.bufferBegin n (s.front n)]))
      h .success 0 rest (by rw [length]; exact short)
      ⟨x.world.traffic ++ [(op.id, s.front n)], rfl, by simp [World.moved]⟩ stream
    rw [length] at called
    obtain ⟨l', exchange, refines, produced⟩ := called
    refine Or.inr ⟨_, l', fun asked nothing => ?_, exchange, refines, produced⟩
    have none : n = 0 := by rw [← length, nothing, List.length_nil]
    have some : 0 < s.available := some
    omega

/-! ### The steps -/

/-- A step of the reader, its service or its timer, whatever the stream is doing. -/
theorem own_adds {w w' : World ReadKind StreamReader} {e : Event ReadKind} (own : e.ofStream = false)
    (ran : w.step reader e = some w') :
    ∃ new, new.length ≤ 1 ∧ (∀ op ∈ new, op.moved = none) ∧
      ∀ ops traffic, (w.overStream ops traffic).step reader e = some (w'.overStream (ops ++ new) traffic) := by
  cases World.step_cases ran with
  | call q =>
    exact ⟨_, reader_lawful.call_one q w.self, transfers_unmoved _,
      fun ops traffic => congrArg some (call_adds q w ops traffic)⟩
  | move => cases own
  | complete => cases own
  | deliver i posted found =>
    refine ⟨_, reader_lawful.resume_one posted.cont posted.err posted.count w.memory w.self, transfers_unmoved _, ?_⟩
    intro ops traffic
    have resumed := resume_adds (E := reader) posted.cont posted.err posted.count { w with queue := w.queue.eraseIdx i } ops
      traffic
    simp only [overStream] at resumed
    simp only [World.step, overStream, found, resumed]
  | expire => exact ⟨[], Nat.zero_le 1, by simp, fun ops traffic => by simp [World.step, overStream]⟩
  | timer i id err found =>
    have none := reader_lawfulIdle.timeout_none id err w.self
    refine ⟨[], Nat.zero_le 1, by simp, fun ops traffic => ?_⟩
    have timed := after_over reader true ops traffic (reader.timeoutReached id err w.self)
      { w with fired := w.fired.eraseIdx i }
    rw [none] at timed
    simp only [overStream] at timed
    simp only [World.step, overStream, found, timed]

theorem reader_refines (h : Refines x l) (returned : x.calling = none) {e : Event ReadKind}
    {w : World ReadKind StreamReader} (own : e.ofStream = false) (ran : x.world.step reader e = some w) :
    ∃ l', l.step (.reader e) = some l' ∧ Refines (x.entered.handOver w) l' ∧ l'.produced = l.produced := by
  obtain ⟨ops, traffic, same, perm, past⟩ := h.world
  obtain ⟨new, one, fresh, adds⟩ := own_adds own ran
  have kept : w = w.overStream (x.world.ops ++ new) x.world.traffic := Option.some.inj (ran.symm.trans (adds x.world.ops x.world.traffic))
  have none : e.moves = [] := by cases e <;> first | rfl | cases own
  rw [returned, Option.toList_none, List.append_nil] at perm
  have unmoved := h.unmoved
  rw [returned, Option.toList_none, List.append_nil] at unmoved
  refine ⟨{ l with world := w.overStream (ops ++ new) traffic }, ?_, ?_, rfl⟩
  · simp [Line.step, none, same, adds]
  · rw [handOver_adds (x := x.entered) (congrArg World.ops kept) one]
    refine ⟨⟨_, _, rfl, ?_, ?_⟩, ?_, h.input, h.stream⟩
    · rw [head?_toList one]
      exact perm.append_right new
    · rw [past, World.moved]
      exact congrArg (·.traffic.flatMap Prod.snd) kept.symm
    · rw [head?_toList one, List.forall_mem_append]
      exact ⟨unmoved, fresh⟩

theorem readSome_serves (h : Refines x l) (called : x.calling = some op) :
    Serves { x with calling := none, depth := x.depth + 1 } op x.stream l := by
  obtain ⟨ops, traffic, same, perm, past⟩ := h.world
  have unmoved := h.unmoved
  rw [called, Option.toList_some] at perm unmoved
  have swap := List.perm_append_singleton op x.world.ops
  exact ⟨⟨ops, traffic, same, perm.trans swap, past⟩, fun op' member => unmoved op' (swap.mem_iff.mpr member), h.input,
    h.stream⟩

/-- A datagram, or an error, comes for the operation `op`. -/
theorem receive_refines (h : Refines x l) (returned : x.calling = none) {i : Nat} {err : ErrorCode} {bytes : List UInt8}
    (found : x.world.ops[i]? = some op) (fits : bytes.length ≤ x.stream.buffer.length)
    (onEmpty : x.stream.available = 0 ∨ bytes = []) (taken : x.step (.receive i err bytes) = some y) :
    ∃ l₀, l.step (.produce bytes) = some l₀ ∧
      ((err.failed = false ∧ bytes = [] ∧ x.stream.available = 0 ∧ y.calling = none ∧ Refines y l₀) ∨
        ∃ code bytes' l', (code = .success ∨ code = err) ∧ (code.failed = false → op.count ≠ 0 → bytes' ≠ []) ∧
          Exchange l₀ op bytes' code l' ∧ Refines y l' ∧ l'.produced = l₀.produced) := by
  obtain ⟨ops, traffic, same, perm, past⟩ := h.world
  rw [returned, Option.toList_none, List.append_nil] at perm
  have unmoved := h.unmoved
  rw [returned, Option.toList_none, List.append_nil] at unmoved
  have split : x.world.ops.Perm (op :: x.world.ops.eraseIdx i) := by
    obtain ⟨inside, rfl⟩ := List.getElem?_eq_some_iff.mp found
    exact (List.getElem_cons_eraseIdx_perm inside).symm
  -- the datagram reaches the buffer
  let l₀ : Line := { l with input := l.input ++ bytes, produced := l.produced ++ bytes }
  let s : UDPClientStream UInt8 :=
    { x.stream with buffer := bytes ++ x.stream.buffer.drop bytes.length, bufferEnd := x.stream.bufferEnd + bytes.length }
  have arrived := Datagrams.arrive_windowed h.stream fits onEmpty
  have window : s.window = x.stream.window ++ bytes := arrived.content
  let x₁ : DatagramReader := { x.entered with world := { x.world with ops := x.world.ops.eraseIdx i }, depth := 1 }
  have serves : Serves x₁ op s l₀ := by
    refine ⟨⟨ops, traffic, same, perm.trans split, past⟩, ?_, ?_, arrived.alone⟩
    · exact fun op' member => unmoved op' (split.mem_iff.mpr member)
    · rw [window, ← h.input]
  refine ⟨l₀, rfl, ?_⟩
  cases DatagramReader.step_cases taken with
  | receive i err bytes op' _ found' =>
    obtain rfl : op = op' := Option.some.inj (found.symm.trans found')
    unfold UDPClientStream.receiveContinue
    by_cases failed : err.failed = true
    · rw [if_pos failed]
      have nothing : x₁.world = { x₁.world with memory := x₁.world.memory.write op.data [], traffic := x.world.traffic } := by
        rw [Memory.write_nil]
      have past' : x.world.traffic.flatMap Prod.snd = x₁.world.moved ++ [] := (List.append_nil _).symm
      obtain ⟨l', exchange, refines, produced⟩ := called_refines (y := { x₁ with stream := s }) serves err 0
        (List.nil_append _).symm (Nat.zero_le _) ⟨x.world.traffic, nothing, past'⟩ arrived.alone
      exact Or.inr ⟨err, [], l', Or.inr rfl, by simp [failed], exchange, refines, produced⟩
    · rw [if_neg failed]
      rcases served_refines serves returned with ⟨empty, none, refines⟩ | ⟨bytes', l', some, exchange, refines, produced⟩
      · have order : x.stream.bufferBegin ≤ x.stream.bufferEnd := h.stream.order
        have total : x.stream.bufferEnd + bytes.length - x.stream.bufferBegin = 0 := empty
        have nothing : bytes = [] := List.eq_nil_of_length_eq_zero (by omega)
        have dry : x.stream.available = 0 := by
          unfold UDPClientStream.available
          omega
        exact Or.inl ⟨by simpa using failed, nothing, dry, none, refines⟩
      · exact Or.inr ⟨.success, bytes', l', Or.inl rfl, fun _ => some, exchange, refines, produced⟩

theorem cut_refines (h : Refines x l) (c : Cut) : Refines (x.entered.cut c) (l.cut c) := by
  obtain ⟨ops, traffic, same, perm, past⟩ := h.world
  have flushed : Datagrams.Windowed x.stream.flush.alone := (Datagrams.flush_windowed h.stream).alone
  cases c with
  | flush => exact ⟨⟨ops, traffic, by rw [Line.cut, same]; rfl, perm, past⟩, h.unmoved, rfl, flushed⟩
  | reset => exact ⟨⟨ops, traffic, by rw [Line.cut, same]; rfl, perm, past⟩, h.unmoved, rfl, flushed⟩

/-- Every step over the datagrams is a run of the abstract reader, in which the stream gets the
bytes of a datagram and moves what it delivers. -/
theorem step_refines (indifferent : Indifferent p) {e : DatagramReaderEvent} (h : Refines x l) (allowed : Permitted p cuts x e)
    (onEmpty : OnEmpty x e) (taken : x.step e = some y) :
    ∃ gs l', Steps Line.step (Line.Permitted p cuts) l gs l' ∧ Refines y l' ∧ l'.produced = l.produced ++ e.arrival ∧
      gs.filterMap LineEvent.own = e.own.toList := by
  cases DatagramReader.step_cases taken with
  | readSome op called =>
    rcases served_refines (readSome_serves h called) rfl with ⟨_, _, refines⟩ | ⟨bytes, l', _, exchange, refines, produced⟩
    · exact ⟨[], l, .refl, refines, (List.append_nil _).symm, rfl⟩
    · obtain ⟨gs, run, own⟩ := exchange.run cuts indifferent.toFreeStream (indifferent.success l.world 0)
      exact ⟨gs, l', run, refines, produced.trans (List.append_nil _).symm, own⟩
  | reader e w returned own ran =>
    obtain ⟨l', run, refines, produced⟩ := reader_refines h returned own ran
    obtain ⟨ops, traffic, same, _⟩ := h.world
    have permitted : Line.Permitted p cuts l (.reader e) := by
      simp only [Line.Permitted, same]
      exact indifferent.own x.world ops traffic e own (allowed own)
    refine ⟨_, l', .single permitted run, refines, produced.trans (List.append_nil _).symm, ?_⟩
    simp [LineEvent.own, DatagramReaderEvent.own, own]
  | receive i err bytes op returned found fits =>
    obtain ⟨l₀, arrives, served⟩ := receive_refines h returned found fits onEmpty taken
    have produce : Steps Line.step (Line.Permitted p cuts) l [.produce bytes] l₀ := .single trivial arrives
    have produced₀ : l₀.produced = l.produced ++ bytes := by
      obtain rfl := Option.some.inj arrives
      rfl
    rcases served with ⟨_, _, _, _, refines⟩ | ⟨code, bytes', l', mine, _, exchange, refines, produced⟩
    · exact ⟨_, l₀, produce, refines, produced₀, rfl⟩
    · have code_allowed : ∃ w i, p w (.complete i code) := by
        rcases mine with rfl | rfl
        · exact ⟨l.world, 0, indifferent.success l.world 0⟩
        · exact ⟨x.world, i, allowed⟩
      obtain ⟨w, j, allowed⟩ := code_allowed
      obtain ⟨gs, run, own⟩ := exchange.run cuts indifferent.toFreeStream allowed
      exact ⟨_, l', produce.append run, refines, produced.trans produced₀, by rw [List.filterMap_append, own]; rfl⟩
  | cut c =>
    have same : (l.cut c).produced = l.produced := by cases c <;> rfl
    refine ⟨[.cut c], l.cut c, .single allowed rfl, cut_refines h c, ?_, rfl⟩
    exact same.trans (List.append_nil _).symm

/-! ### The runs -/

/-- The bytes of all datagrams. -/
def arrivals (es : List DatagramReaderEvent) : List UInt8 := es.flatMap DatagramReaderEvent.arrival

/-- The two runs agree, in the events that are not the stream's too. -/
structure Tracks (es : List DatagramReaderEvent) (x : DatagramReader) (fs : List LineEvent) (l : Line) : Prop where
  refines : Refines x l
  produced : l.produced = arrivals es
  own : fs.filterMap LineEvent.own = es.filterMap DatagramReaderEvent.own

theorem Tracks.start {s : UDPClientStream UInt8} {w : World ReadKind StreamReader}
    (empty : s.bufferBegin = 0 ∧ s.bufferEnd = 0) (ops : w.ops = []) :
    Tracks [] { world := w, stream := s } [] { world := w } := by
  obtain ⟨first, last⟩ := empty
  have window : s.window = [] := by simp [UDPClientStream.window, UDPClientStream.available, UDPClientStream.front, first, last]
  refine ⟨⟨⟨[], w.traffic, ?_, ?_, rfl⟩, ?_, window.symm, ?_⟩, rfl, rfl⟩
  · rw [← ops]
    rfl
  · simp [ops]
  · simp [ops]
  · refine ⟨?_, ?_, ?_, rfl, ?_⟩ <;> simp [UDPClientStream.alone, first, last]

theorem Tracks.step (indifferent : Indifferent p) {es : List DatagramReaderEvent} {fs : List LineEvent} {e : DatagramReaderEvent}
    (h : Tracks es x fs l) (allowed : Permitted p cuts x e) (onEmpty : OnEmpty x e) (taken : x.step e = some y) :
    ∃ gs l', Steps Line.step (Line.Permitted p cuts) l gs l' ∧ Tracks (es ++ [e]) y (fs ++ gs) l' := by
  obtain ⟨gs, l', run, refines, produced, own⟩ := step_refines indifferent h.refines allowed onEmpty taken
  refine ⟨gs, l', run, refines, ?_, ?_⟩
  · rw [produced, h.produced, arrivals, arrivals, List.flatMap_append, List.flatMap_singleton]
  · rw [List.filterMap_append, List.filterMap_append, h.own, own]
    cases mine : e.own <;> simp [mine]

theorem simulates_tracks (indifferent : Indifferent p) : Simulates DatagramReader.step (fun x e => Permitted p cuts x e ∧ OnEmpty x e)
    Line.step (Line.Permitted p cuts) Tracks :=
  fun _ _ _ _ _ _ tracks both taken => tracks.step indifferent both.1 both.2 taken

/-- Where an operation is with the socket, the buffer is empty. -/
def Dry (x : DatagramReader) : Prop := x.world.ops ≠ [] → x.stream.available = 0

/-- The reader's own code leaves the receives as they are. -/
theorem perform_call_ops (callback : Callback) (err : ErrorCode) (n : Nat) :
    (x.perform op (.call callback err n)).world.ops = x.world.ops := by
  obtain ⟨s', adds⟩ := handle_adds (E := reader) op.handler err n x.world
  have one := reader_lawful.resume_one op.handler.cont err n x.world.memory s'
  have given (ds : List Delivery) := handOver_adds (x := { x with delivered := ds }) adds.ops one
  simp only [perform, given]

theorem step_dry {e : DatagramReaderEvent} (dry : Dry x) (one : x.world.ops.length ≤ 1) (taken : x.step e = some y) :
    Dry y := by
  cases DatagramReader.step_cases taken with
  | readSome op called =>
    rcases asyncReadSome_cases op.read x.stream with ⟨empty, eq⟩ | ⟨s', n, bytes, some, _, eq⟩
    · rw [eq]
      exact fun _ => empty
    · have none : x.world.ops = [] := by
        by_contra waiting
        have empty := dry waiting
        omega
      rw [eq]
      intro waiting
      refine (waiting ?_).elim
      simp only [after, List.foldl_cons, List.foldl_nil]
      rw [perform_call_ops]
      exact none
  | reader e w returned own ran =>
    obtain ⟨new, one, _, adds⟩ := own_adds own ran
    have kept : w = w.overStream (x.world.ops ++ new) x.world.traffic :=
      Option.some.inj (ran.symm.trans (adds x.world.ops x.world.traffic))
    rw [handOver_adds (x := x.entered) (congrArg World.ops kept) one]
    exact dry
  | receive i err bytes op returned found fits =>
    have none : x.world.ops.eraseIdx i = [] := by
      obtain ⟨inside, _⟩ := List.getElem?_eq_some_iff.mp found
      apply List.eq_nil_of_length_eq_zero
      rw [List.length_eraseIdx_of_lt inside]
      omega
    rw [none]
    unfold UDPClientStream.receiveContinue
    split
    · intro waiting
      refine (waiting ?_).elim
      simp only [after, List.foldl_cons, List.foldl_nil]
      rw [perform_call_ops]
    · rename_i ok
      generalize ({ x.stream with buffer := bytes ++ x.stream.buffer.drop bytes.length, bufferEnd := _ } : UDPClientStream UInt8) = s
      rcases asyncReadSome_cases op.read s with ⟨empty, eq⟩ | ⟨s', n, bytes', some, _, eq⟩
      · rw [eq]
        exact fun _ => empty
      · rw [eq]
        intro waiting
        refine (waiting ?_).elim
        simp only [after, List.foldl_cons, List.foldl_nil]
        rw [perform_call_ops]
        rfl
  | cut c =>
    intro _
    cases c <;> rfl

/-- Where the abstract reader has one operation outstanding at most, no receive completes on a
buffer that holds bytes. -/
theorem simulates_single (indifferent : Indifferent p) {u : Line}
    (single : ∀ fs l, Steps Line.step (Line.Permitted p cuts) u fs l → l.world.ops.length ≤ 1) :
    Simulates DatagramReader.step (Permitted p cuts) Line.step (Line.Permitted p cuts)
      fun es x fs l => (Tracks es x fs l ∧ Dry x) ∧ Steps Line.step (Line.Permitted p cuts) u fs l := by
  rintro es x e y fs l ⟨⟨tracks, dry⟩, run⟩ allowed taken
  have one : x.world.ops.length ≤ 1 := by
    obtain ⟨ops, traffic, same, perm, _⟩ := tracks.refines.world
    have outstanding := single fs l run
    have length := perm.length_eq
    rw [same] at outstanding
    simp only [overStream] at outstanding
    rw [List.length_append] at length
    omega
  have onEmpty : OnEmpty x e := by
    cases DatagramReader.step_cases taken with
    | receive i err bytes op _ found => exact Or.inl (dry (List.ne_nil_of_mem (List.mem_of_getElem? found)))
    | _ => trivial
  obtain ⟨gs, l', matched, tracks'⟩ := tracks.step indifferent allowed onEmpty taken
  exact ⟨gs, l', matched, ⟨tracks', step_dry dry one taken⟩, run.append matched⟩

end DatagramReader

theorem always_indifferent : Indifferent Always where
  toFreeStream := always_free
  own _ _ _ _ _ _ := trivial

theorem honest_indifferent : Indifferent World.Honest where
  toFreeStream := honest_free
  own _ _ _ e own _ := by
    cases e with
    | move => cases own
    | _ => trivial

theorem draining_indifferent : Indifferent Draining where
  toFreeStream := draining_free
  own _ _ _ e own allowed := by
    cases e with
    | move => cases own
    | call q => exact allowed
    | _ => exact ⟨⟨trivial, trivial⟩, trivial, trivial⟩

theorem lines_indifferent (delimiter : Int8) (m : Nat) : Indifferent (AsksForLines delimiter m) where
  toFreeStream := lines_free delimiter m
  own _ _ _ e own allowed := by
    cases e with
    | move => cases own
    | _ => exact allowed

open DatagramReader

section Results
variable {s : UDPClientStream UInt8} {r : StreamReader} {mem : Memory UInt8} {es : List DatagramReaderEvent}
  {x : DatagramReader}

/-- A reader over datagrams does what the reader over a stream of the same bytes can do, with the
same calls, handlers and discards in the same order, whatever timers end requests. -/
theorem datagrams_refine (empty : s.bufferBegin = 0 ∧ s.bufferEnd = 0)
    (run : Steps DatagramReader.step OnEmpty { world := { self := r, memory := mem }, stream := s } es x) :
    ∃ fs l, Steps Line.step (Line.Permitted World.Honest True) { world := { self := r, memory := mem } } fs l ∧
      Tracks es x fs l := by
  have allowed : Steps DatagramReader.step (fun x e => Permitted World.Honest True x e ∧ OnEmpty x e)
      { world := { self := r, memory := mem }, stream := s } es x := by
    refine run.weaken fun x e onEmpty => ⟨?_, onEmpty⟩
    cases e with
    | reader e =>
      intro own
      cases e with
      | move => cases own
      | _ => trivial
    | _ => trivial
  exact (simulates_tracks honest_indifferent).run (Tracks.start empty rfl) allowed

/-- Two receives outstanding, the first one of a request that its timer has ended. -/
theorem datagrams_refine_late :
    ∃ es x, Steps DatagramReader.step OnEmpty
        { world := { self := .blank, memory := fun _ => 0 }, stream := ⟨[0, 0, 0, 0], 0, 0⟩ } es x ∧
      x.world.posts.map (fun p => (p.expired, p.bytes)) = [(true, []), (false, [3])] ∧
      ∃ fs l, Steps Line.step (Line.Permitted World.Honest True) { world := { self := .blank, memory := fun _ => 0 } } fs l ∧
        Tracks es x fs l := by
  obtain ⟨x, run, seen⟩ : ∃ x, Steps DatagramReader.step OnEmpty
      { world := { self := .blank, memory := fun _ => 0 }, stream := ⟨[0, 0, 0, 0], 0, 0⟩ }
      [.reader (.call { kind := .read, size := 2, data := 0, callback := 1, timeoutMillis := 1 }), .readSome,
        .reader .expire, .reader (.timer 0), .reader (.call { kind := .readSome, size := 2, data := 8, callback := 2 }),
        .readSome, .receive 0 .success [1, 2], .receive 0 .success [3]] x ∧
      x.world.posts.map (fun p => (p.expired, p.bytes)) = [(true, []), (false, [3])] := exists_of_exec (by decide)
  exact ⟨_, x, run, seen, datagrams_refine ⟨rfl, rfl⟩ run⟩

/-- No byte of a datagram is lost, duplicated or reordered on its way to the callbacks, even if its
receive reported an error. -/
theorem datagrams_pass_all (idle : r.readId = 0) (left : r.readBuffer = []) (empty : s.bufferBegin = 0 ∧ s.bufferEnd = 0)
    (run : Steps DatagramReader.step (Permitted Draining False) { world := { self := r, memory := mem }, stream := s } es x) :
    (x.world.self.readId = 0 ↔ x.world.Settled) ∧
      (x.world.self.readId = 0 → x.world.reported ++ x.world.self.readBuffer ++ x.stream.window = arrivals es) := by
  have single : ∀ fs l, Steps Line.step (Line.Permitted Draining False) { world := { self := r, memory := mem } } fs l →
      l.world.ops.length ≤ 1 :=
    fun _ _ run => Line.outstanding_one idle left (Line.draining_orderly run)
  obtain ⟨fs, l, _, ⟨tracks, _⟩, abstract⟩ :=
    (simulates_single draining_indifferent single).run ⟨⟨Tracks.start empty rfl, fun waiting => (waiting rfl).elim⟩, .refl⟩ run
  obtain ⟨ops, traffic, same, _⟩ := tracks.refines.world
  have all := Line.passes_all idle left abstract
  rw [tracks.produced, tracks.refines.input, same] at all
  exact all

/-- A read_some that takes a datagram in part, and the bytes of a receive that failed. -/
theorem datagrams_pass_all_failed :
    ∃ es x, Steps DatagramReader.step (Permitted Draining False)
        { world := { self := .blank, memory := fun _ => 0 }, stream := ⟨[0, 0, 0, 0], 0, 0⟩ } es x ∧
      x.world.posts.map Post.bytes = [[], [1]] ∧
      x.world.reported ++ x.world.self.readBuffer ++ x.stream.window = arrivals es := by
  obtain ⟨x, run, seen⟩ : ∃ x, Steps DatagramReader.step (Permitted Draining False)
      { world := { self := .blank, memory := fun _ => 0 }, stream := ⟨[0, 0, 0, 0], 0, 0⟩ }
      [.reader (.call { kind := .readSome, size := 1, data := 0, callback := 1 }), .readSome, .receive 0 ⟨1⟩ [1, 2],
        .reader (.call { kind := .readSome, size := 1, data := 8, callback := 2 }), .readSome] x ∧
      (x.world.self.readId, x.world.posts.map Post.bytes) = (0, [[], [1]]) := exists_of_exec (by decide)
  simp only [Prod.mk.injEq] at seen
  exact ⟨_, x, run, seen.2, (datagrams_pass_all rfl rfl ⟨rfl, rfl⟩ run).2 seen.1⟩

/-- One request reports one line of the bytes of all datagrams, wherever these begin and end. -/
theorem datagrams_report_lines (delimiter : Int8) {m : Nat} (positive : 1 ≤ m) (ascii : 0 ≤ delimiter)
    (idle : r.readId = 0) (left : r.readBuffer = []) (empty : s.bufferBegin = 0 ∧ s.bufferEnd = 0)
    (run : Steps DatagramReader.step (Permitted (AsksForLines delimiter m) False)
      { world := { self := r, memory := mem }, stream := s } es x)
    (fits : FitsIn delimiter.toUInt8 m (arrivals es)) (bounded : r.readCounter.toNat + x.world.accepted.length < 2 ^ 32) :
    Framed delimiter.toUInt8 m (arrivals es) x.world ∧ Asking m (x.world.ops ++ x.calling.toList) x.world := by
  have single := fun fs l (run : Steps Line.step (Line.Permitted (AsksForLines delimiter m) False)
      { world := { self := r, memory := mem } } fs l) =>
    Line.outstanding_one idle left (run.weaken fun _ _ => Line.Permitted.mono fun _ _ => AsksForLines.orderly)
  obtain ⟨fs, l, _, ⟨tracks, _⟩, abstract⟩ := (simulates_single (lines_indifferent delimiter m) single).run
    ⟨⟨Tracks.start empty rfl, fun waiting => (waiting rfl).elim⟩, .refl⟩ run
  obtain ⟨ops, traffic, same, perm, past⟩ := tracks.refines.world
  have lines := Line.passes_lines delimiter positive ascii idle left abstract (by rwa [tracks.produced])
    (by rw [same]; exact bounded)
  rw [tracks.produced, same] at lines
  obtain ⟨framed, asking⟩ := lines
  refine ⟨⟨framed.reports, framed.counts, fun all _ => framed.all ?_ fun op member => ?_⟩, fun waits => ?_⟩
  · exact past.trans all
  · exact tracks.refines.unmoved op (perm.mem_iff.mp member)
  · obtain ⟨op, one, asks⟩ := asking waits
    obtain rfl : ops = [op] := one
    exact ⟨op, List.perm_singleton.mp perm.symm, asks⟩

/-- Two lines in two datagrams, of which the first one ends inside the second line. -/
theorem datagrams_report_lines_across :
    ∃ es x, Steps DatagramReader.step (Permitted (AsksForLines 10 4) False)
        { world := { self := .blank, memory := fun _ => 0 }, stream := ⟨[0, 0, 0, 0], 0, 0⟩ } es x ∧
      x.world.posts.map Post.bytes = [[97, 10], [98, 99, 10]] ∧ Framed (Int8.toUInt8 10) 4 (arrivals es) x.world ∧
      Asking 4 (x.world.ops ++ x.calling.toList) x.world := by
  obtain ⟨x, run, seen⟩ : ∃ x, Steps DatagramReader.step (Permitted (AsksForLines 10 4) False)
      { world := { self := .blank, memory := fun _ => 0 }, stream := ⟨[0, 0, 0, 0], 0, 0⟩ }
      [.reader (.call { kind := .readUntil 10, size := 4, data := 0, callback := 1 }), .readSome,
        .receive 0 .success [97, 10, 98], .reader (.call { kind := .readUntil 10, size := 4, data := 8, callback := 2 }),
        .readSome, .receive 0 .success [99, 10]] x ∧
      (x.world.posts.map Post.bytes, x.world.accepted.length) = ([[97, 10], [98, 99, 10]], 2) := exists_of_exec (by decide)
  simp only [Prod.mk.injEq] at seen
  have bounded : StreamReader.blank.readCounter.toNat + x.world.accepted.length < 2 ^ 32 := by
    rw [seen.2]
    decide
  exact ⟨_, x, run, seen.1,
    datagrams_report_lines 10 (by decide) (by decide) rfl rfl ⟨rfl, rfl⟩ run (by decide) bounded⟩

end Results

end RtacAsio
