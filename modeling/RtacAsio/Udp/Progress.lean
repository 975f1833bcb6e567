import RtacAsio.Outcome
import RtacAsio.Udp.Refinement

/-!
Every receive is answered by a datagram or by an error: what comes of the requests of a reader
over a `UDPClientStream`, whose stream calls the continuations inside its own functions.
-/

namespace RtacAsio
open Lib World

namespace DatagramReader

/-- Nobody calls, nothing is discarded, and no datagram overwrites bytes that are still to be read. -/
def Undisturbed (x : DatagramReader) : DatagramReaderEvent → Prop
  | .reader e => x.world.Cooperative e
  | .receive i err bytes => OnEmpty x (.receive i err bytes)
  | .cut _ => False
  | .readSome => True

/-- An empty datagram comes, and the receive is started again. -/
def Idles (x : DatagramReader) : DatagramReaderEvent → Prop
  | .receive _ err bytes => err.failed = false ∧ bytes = [] ∧ x.stream.available = 0
  | _ => False

structure Rests (x : DatagramReader) : Prop where
  world : x.world.Finished
  returned : x.calling = none

/-- The operation that is being handed to the stream is counted as one of those outstanding. -/
def toDo (x : DatagramReader) : Nat :=
  (x.world.overStream (x.world.ops ++ x.calling.toList) x.world.traffic).toDo reader + x.calling.toList.length

structure Going (x : DatagramReader) (l : Line) : Prop where
  refines : Refines x l
  regular : Regular reader ReadKind.single l.world
  buffer : x.stream.buffer ≠ []

section Steps
variable {x y : DatagramReader} {l l' : Line} {e : DatagramReaderEvent} {op : Op ReadKind}

theorem Refines.toDo (h : Refines x l) : x.toDo = l.world.toDo reader + x.calling.toList.length := by
  obtain ⟨ops, traffic, same, perm, _⟩ := h.world
  have under := (perm.map Op.weight).sum_nat
  simp only [DatagramReader.toDo, World.toDo, underWay, missing, same, overStream, under]
  rfl

theorem calling_le (x : DatagramReader) : x.calling.toList.length ≤ 1 := by
  cases x.calling <;> simp

/-- What the abstract stream does for one operation. -/
theorem Exchange.less {bytes : List UInt8} {err : ErrorCode} (h : Exchange l op bytes err l')
    (regular : Regular reader ReadKind.single l.world) (unmoved : op.moved = none) :
    Regular reader ReadKind.single l'.world ∧ l'.world.toDo reader ≤ l.world.toDo reader ∧
      ((err.failed = false → op.count ≠ 0 → bytes ≠ []) → l'.world.toDo reader + 2 ≤ l.world.toDo reader) := by
  obtain ⟨j, l₁, found, move, complete⟩ := h.steps
  obtain ⟨v, _, moved, rfl⟩ := reader_step move
  obtain ⟨w, _, taken, rfl⟩ := reader_step complete
  exact exchange_less reader_lawful reader_thorough regular found unmoved moved taken

theorem after_stream (x : DatagramReader) (out : UDPClientStream UInt8 × List (DatagramEffect UInt8)) :
    (x.after op out).stream = out.1 := by
  have kept (effects : List (DatagramEffect UInt8)) (v : DatagramReader) :
      (effects.foldl (perform op) v).stream = v.stream := by
    induction effects generalizing v with
    | nil => rfl
    | cons d rest ih =>
      rw [List.foldl_cons, ih]
      cases d with
      | call => exact perform_call_stream ..
      | _ => rfl
  exact kept out.2 _

theorem buffer_kept (taken : x.step e = some y) : y.stream.buffer.length = x.stream.buffer.length := by
  have read (s : UDPClientStream UInt8) (r : DatagramRead) : (s.asyncReadSome r).1.buffer = s.buffer := by
    simp only [UDPClientStream.asyncReadSome]
    split
    · split <;> rfl
    · rfl
  cases DatagramReader.step_cases taken with
  | readSome op called => rw [after_stream, read]
  | reader e w => rw [handOver_stream, entered]
  | receive i err bytes op returned found fits =>
    have arrived : (bytes ++ x.stream.buffer.drop bytes.length).length = x.stream.buffer.length := by
      rw [List.length_append, List.length_drop]
      omega
    rw [after_stream, UDPClientStream.receiveContinue]
    split
    · exact arrived
    · rw [read]
      exact arrived
  | cut c => cases c <;> rfl

theorem step_going (going : Going x l) (allowed : x.Undisturbed e) (taken : x.step e = some y) :
    ∃ l', Going y l' ∧ y.toDo ≤ x.toDo ∧ (¬ x.Idles e → y.toDo < x.toDo) := by
  have buffer : y.stream.buffer ≠ [] := by
    have some := List.length_pos_iff.mpr going.buffer
    rw [← buffer_kept taken] at some
    exact List.length_pos_iff.mp some
  have before := going.refines.toDo
  have most := calling_le y
  cases DatagramReader.step_cases taken with
  | readSome op called =>
    have unmoved := going.refines.unmoved op (by simp [called])
    simp only [called, Option.toList_some, List.length_singleton] at before
    rcases served_refines (readSome_serves going.refines called) rfl with
      ⟨_, none, refines⟩ | ⟨bytes, l', some, exchange, refines, _⟩
    · have after := refines.toDo
      rw [none, Option.toList_none, List.length_nil] at after
      exact ⟨l, ⟨refines, going.regular, buffer⟩, by omega, fun _ => by omega⟩
    · obtain ⟨regular, _, lower⟩ := exchange.less going.regular unmoved
      have lower := lower fun _ => some
      have after := refines.toDo
      exact ⟨l', ⟨refines, regular, buffer⟩, by omega, fun _ => by omega⟩
  | reader e w returned own ran =>
    obtain ⟨l', run, refines, _⟩ := reader_refines going.refines returned own ran
    obtain ⟨ops, traffic, same, _⟩ := going.refines.world
    obtain ⟨v, _, stepped, eq⟩ := reader_step run
    have world : l'.world = v := by rw [eq]
    have calm : l.world.Cooperative e := by
      rw [same]
      cases e with
      | move => cases own
      | _ => exact allowed
    have noCall : ∀ q, e ≠ .call q := by
      rintro q rfl
      exact allowed
    have noPoll : ¬ l.world.Polls reader e := by
      cases e with
      | complete => cases own
      | _ => exact fun polls => polls
    obtain ⟨k, lower, _, three⟩ := step_less reader_lawful reader_thorough going.regular.sound going.regular.asks calm stepped
    have three := three.resolve_left noPoll
    have regular := going.regular.step reader_lawful reader_thorough noCall stepped
    have after := refines.toDo
    rw [← world] at regular lower
    exact ⟨l', ⟨refines, regular, buffer⟩, by omega, fun _ => by omega⟩
  | receive i err bytes op returned found fits =>
    obtain ⟨l₀, arrives, served⟩ := receive_refines going.refines returned found fits allowed taken
    have world : l₀.world = l.world := by
      obtain rfl := Option.some.inj arrives
      rfl
    have regular := going.regular
    rw [← world] at regular before
    have unmoved := going.refines.unmoved op (List.mem_append_left _ (List.mem_of_getElem? found))
    rcases served with ⟨ok, nothing, dry, none, refines⟩ | ⟨code, bytes', l', _, some, exchange, refines, _⟩
    · have after := refines.toDo
      rw [none, Option.toList_none, List.length_nil] at after
      exact ⟨l₀, ⟨refines, regular, buffer⟩, by omega, fun busy => (busy ⟨ok, nothing, dry⟩).elim⟩
    · obtain ⟨regular, _, lower⟩ := exchange.less regular unmoved
      have lower := lower some
      have after := refines.toDo
      exact ⟨l', ⟨refines, regular, buffer⟩, by omega, fun _ => by omega⟩
  | cut c => exact allowed.elim

theorem receives {i : Nat} {bytes : List UInt8} (err : ErrorCode) (returned : x.calling = none) (found : x.world.ops[i]? = some op)
    (fits : bytes.length ≤ x.stream.buffer.length) : ∃ y, x.step (.receive i err bytes) = some y := by
  simp only [step, returned, found, Option.isSome_none, Bool.false_eq_true, ↓reduceIte]
  exact ⟨_, if_pos fits⟩

theorem Going.goes (going : Going x l) : x.Rests ∨ ∃ y, Works step Undisturbed Idles x 1 y := by
  cases called : x.calling with
  | some op => exact Or.inr ⟨_, .one (e := .readSome) trivial (fun idles => idles) (by simp only [step, called]; rfl)⟩
  | none =>
    have ofReader {e : Event ReadKind} {w : World ReadKind StreamReader} (own : e.ofStream = false)
        (allowed : x.world.Cooperative e) (ran : x.world.step reader e = some w) :
        ∃ y, Works step Undisturbed Idles x 1 y := by
      refine ⟨x.entered.handOver w, .one (e := .reader e) allowed (fun idles => idles) ?_⟩
      simp only [step, called, own, ran, Option.isSome_none, Bool.false_eq_true, or_self, ↓reduceIte, Option.map_some]
    cases ops : x.world.ops with
    | cons op rest =>
      right
      have room := List.length_pos_iff.mpr going.buffer
      have found : x.world.ops[0]? = some op := by rw [ops, List.getElem?_cons_zero]
      by_cases dry : x.stream.available = 0
      · obtain ⟨y, ran⟩ := receives .success called found (show [(0 : UInt8)].length ≤ _ from room)
        exact ⟨y, .one (e := .receive 0 .success [0]) (Or.inl dry) (by simp [Idles]) ran⟩
      · obtain ⟨y, ran⟩ := receives .success called found (show ([] : List UInt8).length ≤ _ from Nat.zero_le _)
        exact ⟨y, .one (e := .receive 0 .success []) (Or.inr rfl) (by simp [Idles, dry]) ran⟩
    | nil =>
      cases queue : x.world.queue with
      | cons p rest =>
        exact Or.inr (ofReader (e := .deliver 0) rfl trivial (by simp only [World.step, queue, List.getElem?_cons_zero]; rfl))
      | nil =>
        cases waits : x.world.waits with
        | cons id rest => exact Or.inr (ofReader (e := .expire) rfl (by simp [Cooperative, waits]) rfl)
        | nil =>
          cases fired : x.world.fired with
          | cons f rest =>
            exact Or.inr (ofReader (e := .timer 0) rfl trivial (by simp only [World.step, fired, List.getElem?_cons_zero]; rfl))
          | nil =>
            obtain ⟨ops', traffic, same, perm, _⟩ := going.refines.world
            rw [ops, called, Option.toList_none, List.append_nil] at perm
            have settled := going.regular.sound.settles (by rw [same]; exact perm.eq_nil) (by rw [same]; exact queue)
            rw [same] at settled
            exact Or.inl ⟨⟨settled, ops, queue, waits, fired⟩, called⟩

end Steps

/-- The abstract run has come this far in the same way. -/
theorem line_regular {r : StreamReader} {m : Memory UInt8} {fs : List LineEvent} {l : Line} (created : r.Created)
    (run : Steps Line.step Always { world := { self := r, memory := m } } fs l) (bounded : l.world.accepted.length < 2 ^ 32) :
    Regular reader ReadKind.single l.world := by
  have start : Sound reader ReadKind.single { self := r, memory := m } :=
    reachable_sound reader_lawful created.readCounter created.readId .refl (by simp)
  have both : Sound reader ReadKind.single l.world ∧ World.Asks reader l.world := by
    refine run.invariant
      (P := fun l => l.world.accepted.length < 2 ^ 32 → Sound reader ReadKind.single l.world ∧ World.Asks reader l.world)
      (fun _ => ⟨start, fun op member => (List.not_mem_nil member).elim⟩) ?_ bounded
    intro l e l' ih _ taken bounded
    obtain ⟨sound, asks⟩ := ih (Nat.lt_of_le_of_lt (Line.step_accepted taken) bounded)
    cases e with
    | produce bytes =>
      obtain rfl := Option.some.inj taken
      exact ⟨sound, asks⟩
    | reader e =>
      obtain ⟨w, _, ran, rfl⟩ := reader_step taken
      exact ⟨step_sound reader_lawful sound ran bounded, step_asks reader_lawful reader_thorough sound asks ran bounded⟩
    | cut c =>
      obtain rfl := Option.some.inj taken
      refine ⟨cut_sound sound c, ?_⟩
      cases c <;> exact asks
  exact ⟨both.1, both.2, bounded⟩

end DatagramReader

open DatagramReader

/-- Whatever has happened to a reader over datagrams, with a datagram or an error for every receive
all its requests are called back and every handler has run, in a bounded number of steps of any
order: only empty datagrams do not count. -/
theorem datagrams_finish {s : UDPClientStream UInt8} {r : StreamReader} {mem : Memory UInt8} {es : List DatagramReaderEvent}
    {x : DatagramReader} (created : r.Created) (empty : s.bufferBegin = 0 ∧ s.bufferEnd = 0) (room : s.buffer ≠ [])
    (run : Steps DatagramReader.step OnEmpty { world := { self := r, memory := mem }, stream := s } es x)
    (bounded : x.world.accepted.length < 2 ^ 32) : Advances DatagramReader.step Undisturbed Idles x Rests := by
  have buffer : x.stream.buffer.length = s.buffer.length :=
    run.invariant (P := fun x => x.stream.buffer.length = s.buffer.length) rfl fun x e y same _ taken => (buffer_kept taken).trans same
  have allowed : Steps DatagramReader.step (fun x e => Permitted Always True x e ∧ OnEmpty x e)
      { world := { self := r, memory := mem }, stream := s } es x := by
    refine run.weaken fun x e onEmpty => ⟨?_, onEmpty⟩
    cases e with
    | reader e => exact fun _ => trivial
    | _ => trivial
  obtain ⟨fs, l, abstract, tracks⟩ := (simulates_tracks always_indifferent).run (Tracks.start empty rfl) allowed
  obtain ⟨ops, traffic, same, _⟩ := tracks.refines.world
  have regular := line_regular created (abstract.weaken fun _ _ _ => trivial) (by rw [same]; exact bounded)
  have going : Going x l := ⟨tracks.refines, regular, by
    rw [← List.length_pos_iff] at room ⊢
    omega⟩
  refine advances_of_measure DatagramReader.toDo (I := fun x => ∃ l, Going x l) ⟨l, going⟩ ?_ fun x ⟨l, going⟩ => going.goes
  rintro x e y ⟨l, going⟩ allowed taken
  obtain ⟨l', going', lower⟩ := step_going going allowed taken
  exact ⟨⟨l', going'⟩, lower⟩

/-- A receive is left from a read that its timer has ended, and the next read has half of its bytes. -/
theorem datagrams_finish_half : ∃ es x, Steps DatagramReader.step OnEmpty
      { world := { self := .blank, memory := fun _ => 0 }, stream := ⟨[0, 0, 0, 0], 0, 0⟩ } es x ∧
    (x.world.ops.length, x.world.posts.map Post.expired) = (2, [true]) ∧ ¬ x.world.Settled ∧
    Advances DatagramReader.step Undisturbed Idles x Rests := by
  obtain ⟨x, run, seen⟩ : ∃ x, Steps DatagramReader.step OnEmpty
      { world := { self := .blank, memory := fun _ => 0 }, stream := ⟨[0, 0, 0, 0], 0, 0⟩ }
      [.reader (.call { kind := .read, size := 2, data := 0, callback := 1, timeoutMillis := 1 }), .readSome,
        .reader .expire, .reader (.timer 0), .reader (.call { kind := .read, size := 4, data := 8, callback := 2 }),
        .readSome, .receive 1 .success [1, 2], .readSome] x ∧
      (x.world.ops.length, x.world.posts.map Post.expired, x.world.accepted.length) = (2, [true], 2) :=
    exists_of_exec (by decide)
  simp only [Prod.mk.injEq] at seen
  obtain ⟨ops, expired, two⟩ := seen
  have one : x.world.posts.length = 1 := by simpa using congrArg List.length expired
  exact ⟨_, x, run, by rw [ops, expired], by simp [Settled, one, two],
    datagrams_finish ⟨rfl, rfl, rfl⟩ ⟨rfl, rfl⟩ (by decide) run (by rw [two]; decide)⟩

end RtacAsio
