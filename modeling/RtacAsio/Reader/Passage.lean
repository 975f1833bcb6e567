import RtacAsio.Reader.Conservation
import RtacAsio.Reader.Framing
import RtacAsio.Reader.Since
import RtacAsio.Request.Frame

/-!
The way of the bytes from a stream that buffers them to the callbacks of a reader: all of them
arrive, and line by line if lines were asked for.
-/

namespace RtacAsio
open Lib World

/-- Requests for lines of at most `m` bytes, each issued after the callback of the previous one,
over a stream without errors that never moves more than it was asked for. -/
def AsksForLines (delimiter : Int8) (m : Nat) (w : World ReadKind StreamReader) : Event ReadKind → Prop
  | .call q => w.Settled ∧ q.kind = .readUntil delimiter ∧ q.size = m ∧ q.timeoutMillis = 0
  | .move i bytes => w.Honest (.move i bytes)
  | .complete _ err => err = .success
  | _ => True

instance (delimiter : Int8) (m : Nat) (w : World ReadKind StreamReader) (e : Event ReadKind) :
    Decidable (AsksForLines delimiter m w e) :=
  match e with
  | .call _ => inferInstanceAs (Decidable (_ ∧ _))
  | .move i bytes => inferInstanceAs (Decidable (w.Honest (.move i bytes)))
  | .complete _ _ => inferInstanceAs (Decidable (_ = _))
  | .deliver _ | .expire | .timer _ => instDecidableTrue

theorem AsksForLines.orderly {delimiter : Int8} {m : Nat} {w : World ReadKind StreamReader} {e : Event ReadKind}
    (asks : AsksForLines delimiter m w e) : Orderly w e ∧ Drains w e := by
  cases e with
  | call q =>
    obtain ⟨settled, kind, _, untimed⟩ := asks
    refine ⟨⟨⟨settled, untimed⟩, trivial⟩, fun plain => ?_⟩
    rcases plain with other | other <;> simp [kind] at other
  | move i bytes => exact ⟨⟨trivial, asks⟩, trivial⟩
  | _ => exact ⟨⟨trivial, trivial⟩, trivial⟩

/-- The reader's steps are restricted by `p`, and bytes are discarded only if `cuts`. -/
def Line.Permitted (p : World ReadKind StreamReader → Event ReadKind → Prop) (cuts : Prop) (l : Line) : LineEvent → Prop
  | .produce _ => True
  | .reader e => p l.world e
  | .cut _ => cuts

/-- A condition under which the stream may move whatever it was asked for and complete without an
error, whichever the operation is. -/
structure FreeStream (p : World ReadKind StreamReader → Event ReadKind → Prop) : Prop where
  move : ∀ w i bytes, w.Honest (.move i bytes) → p w (.move i bytes)
  complete : ∀ w v i j err, p w (.complete i err) → p v (.complete j err)
  success : ∀ w i, p w (.complete i .success)

theorem always_free : FreeStream Always where
  move _ _ _ _ := trivial
  complete _ _ _ _ _ _ := trivial
  success _ _ := trivial

theorem honest_free : FreeStream World.Honest where
  move _ _ _ honest := honest
  complete _ _ _ _ _ _ := trivial
  success _ _ := trivial

theorem draining_free : FreeStream Draining where
  move _ _ _ honest := ⟨⟨trivial, honest⟩, trivial, trivial⟩
  complete _ _ _ _ _ _ := ⟨⟨trivial, trivial⟩, trivial, trivial⟩
  success _ _ := ⟨⟨trivial, trivial⟩, trivial, trivial⟩

theorem lines_free (delimiter : Int8) (m : Nat) : FreeStream (AsksForLines delimiter m) where
  move _ _ _ honest := honest
  complete _ _ _ _ _ success := success
  success _ _ := rfl

/-! ### What was handed over and what is still held -/

theorem World.step_moved {w w' : World κ σ} {E : Endpoint κ σ} {e : Event κ} (taken : w.step E e = some w') :
    w'.moved = w.moved ++ e.moves := by
  have same (traffic : w'.traffic = w.traffic) (none : e.moves = []) : w'.moved = w.moved ++ e.moves := by
    rw [World.moved, World.moved, traffic, none, List.append_nil]
  cases step_cases taken with
  | call q => exact same (call_adds q w).traffic rfl
  | move i op bytes => simp [World.moved, move, Event.moves]
  | complete i op bytes err =>
    obtain ⟨_, adds⟩ := handle_adds (E := E) op.handler err bytes.length { w with ops := w.ops.eraseIdx i }
    exact same adds.traffic rfl
  | deliver i p => exact same (resume_adds p.cont p.err p.count _).traffic rfl
  | expire => exact same rfl rfl
  | timer i id err =>
    have kept := congrArg World.traffic
      (after_over E true w.ops w.traffic (E.timeoutReached id err w.self) { w with fired := w.fired.eraseIdx i })
    exact same kept rfl

namespace Line
variable {p : World ReadKind StreamReader → Event ReadKind → Prop} {l l' : Line} {es : List LineEvent}

/-- Every byte produced was handed over or is still held. -/
def Held (l : Line) : Prop := l.world.moved ++ l.input = l.produced

theorem step_held {e : LineEvent} (held : l.Held) (allowed : l.Permitted p False e) (taken : l.step e = some l') : l'.Held := by
  unfold Held at held ⊢
  cases e with
  | produce bytes =>
    obtain rfl := Option.some.inj taken
    rw [← held, List.append_assoc]
  | reader e =>
    obtain ⟨w', ⟨rest, input⟩, ran, rfl⟩ := reader_step taken
    dsimp only
    rw [step_moved ran, ← held, ← input, List.drop_left, List.append_assoc]
  | cut c => exact allowed.elim

/-! ### All bytes -/

theorem passes_conserving {r : StreamReader} {m : Memory UInt8} (idle : r.readId = 0) (empty : r.readBuffer = [])
    (run : Steps step (Permitted (fun w e => Orderly w e ∧ Drains w e) False) { world := { self := r, memory := m } } es l) :
    Conserving l.world ∧ l.Held := by
  refine run.invariant (P := fun l => Conserving l.world ∧ l.Held) ?_ ?_
  · exact ⟨⟨rfl, rfl, .settled rfl idle rfl rfl (by simp [empty, World.reported, World.moved])⟩, rfl⟩
  · rintro l e l' ⟨conserving, held⟩ allowed taken
    refine ⟨?_, step_held held allowed taken⟩
    cases e with
    | produce bytes =>
      obtain rfl := Option.some.inj taken
      exact conserving
    | reader e =>
      obtain ⟨w', _, ran, rfl⟩ := reader_step taken
      exact step_conserving conserving allowed ran
    | cut c => exact allowed.elim

theorem Permitted.mono {q : World ReadKind StreamReader → Event ReadKind → Prop} {cuts : Prop} {e : LineEvent}
    (weaker : ∀ w e, p w e → q w e) (allowed : l.Permitted p cuts e) : l.Permitted q cuts e := by
  cases e with
  | reader e => exact weaker _ e allowed
  | _ => exact allowed

theorem outstanding_one {r : StreamReader} {m : Memory UInt8} (idle : r.readId = 0) (empty : r.readBuffer = [])
    (run : Steps step (Permitted (fun w e => Orderly w e ∧ Drains w e) False) { world := { self := r, memory := m } } es l) :
    l.world.ops.length ≤ 1 := by
  obtain ⟨⟨_, _, phase⟩, _⟩ := passes_conserving idle empty run
  cases phase with
  | settled _ _ ops => simp [ops]
  | waiting _ _ ops => simp [ops]
  | arrived _ _ _ ops => simp [ops]
  | posted _ _ ops => simp [ops]
  | stuck _ _ ops => simp [ops]

theorem draining_orderly (run : Steps step (Permitted Draining False) l es l') :
    Steps step (Permitted (fun w e => Orderly w e ∧ Drains w e) False) l es l' :=
  run.weaken fun _ _ => Permitted.mono fun _ _ ⟨orderly, drains, _⟩ => ⟨orderly, drains⟩

theorem passes_pending {r : StreamReader} {m : Memory UInt8} (idle : r.readId = 0)
    (run : Steps step (Permitted Draining False) { world := { self := r, memory := m } } es l) : Pending reader l.world := by
  have none : (reader.slot r).id = 0 := idle
  refine run.invariant (P := fun l => Pending reader l.world) (by simp [Pending, none]) fun l e l' pending allowed taken => ?_
  cases e with
  | produce bytes =>
    obtain rfl := Option.some.inj taken
    exact pending
  | reader e =>
    obtain ⟨w', _, ran, rfl⟩ := reader_step taken
    exact step_pending reader_lawfulIdle pending allowed.2.2 ran
  | cut c => exact allowed.elim

/-- No byte that the stream gets is lost, duplicated or reordered on its way to the callbacks: the
reader is idle as soon as all requests have been called back, and then each byte is in its place. -/
theorem passes_all {r : StreamReader} {m : Memory UInt8} (idle : r.readId = 0) (empty : r.readBuffer = [])
    (run : Steps step (Permitted Draining False) { world := { self := r, memory := m } } es l) :
    (l.world.self.readId = 0 ↔ l.world.Settled) ∧
      (l.world.self.readId = 0 → l.world.reported ++ l.world.self.readBuffer ++ l.input = l.produced) := by
  obtain ⟨conserving, held⟩ := passes_conserving idle empty (draining_orderly run)
  have conserved := conserving.conserved (passes_pending idle run)
  refine ⟨conserved.settled, fun idle => ?_⟩
  rw [conserved.bytes idle]
  exact held

/-! ### Lines -/

/-- A run towards `S` as long as the bytes produced are a beginning of it. -/
theorem towards {delimiter : Int8} {m : Nat} {S : List UInt8} {e : Event ReadKind} (held : l.Held)
    (far : l.produced <+: S) (handed : e.moves <+: l.input) (allowed : AsksForLines delimiter m l.world e) :
    LineByLine delimiter m S l.world e := by
  cases e with
  | move i bytes =>
    refine ⟨allowed, List.IsPrefix.trans ?_ far⟩
    rw [← show l.world.moved ++ l.input = l.produced from held]
    exact (List.prefix_append_right_inj _).mpr handed
  | _ => exact allowed

/-- One request reports one line of the bytes produced, in order and whatever the chunks are. -/
theorem passes_lines (delimiter : Int8) {m : Nat} {r : StreamReader} {mem : Memory UInt8} (positive : 1 ≤ m)
    (ascii : 0 ≤ delimiter) (idle : r.readId = 0) (empty : r.readBuffer = [])
    (run : Steps step (Permitted (AsksForLines delimiter m) False) { world := { self := r, memory := mem } } es l)
    (fits : FitsIn delimiter.toUInt8 m l.produced)
    (bounded : r.readCounter.toNat + l.world.accepted.length < 2 ^ 32) :
    Framed delimiter.toUInt8 m l.produced l.world ∧ Asking m l.world.ops l.world := by
  have framing : (∀ S, l.produced <+: S → FitsIn delimiter.toUInt8 m S →
      r.readCounter.toNat + l.world.accepted.length < 2 ^ 32 →
      Framing delimiter m S r.readCounter.toNat l.world) ∧ l.Held := by
    refine run.invariant (P := fun l => (∀ S, l.produced <+: S → FitsIn delimiter.toUInt8 m S →
      r.readCounter.toNat + l.world.accepted.length < 2 ^ 32 →
      Framing delimiter m S r.readCounter.toNat l.world) ∧ l.Held) ?_ ?_
    · refine ⟨fun S _ fits _ => ⟨rfl, rfl, rfl, by simp, .idle S rfl idle rfl rfl rfl ?_ ?_⟩, rfl⟩
      · rwa [empty]
      · rw [empty]
        rfl
    · intro l e l' ⟨framing, held⟩ allowed taken
      refine ⟨fun S far fits bounded => ?_, step_held held allowed taken⟩
      cases e with
      | produce bytes =>
        obtain rfl := Option.some.inj taken
        exact framing S ((List.prefix_append ..).trans far) fits bounded
      | reader e =>
        obtain ⟨w', handed, ran, rfl⟩ := reader_step taken
        have grows := World.step_accepted ran
        dsimp only at far bounded ⊢
        exact step_framing (framing S far fits (by omega)) positive ascii (towards held far handed allowed) ran bounded
      | cut c => exact allowed.elim
  have framing := framing.1 l.produced (List.prefix_refl _) fits bounded
  exact ⟨framing.framed, framing.asking⟩

end Line

end RtacAsio
