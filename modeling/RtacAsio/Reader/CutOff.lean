import RtacAsio.Reader.Since

/-! What `flush` and `reset` cut off. -/

namespace RtacAsio
open Lib World

namespace Line

/-- A new reader, whose dump file may be open, over a stream that may hold some input. -/
structure New (l : Line) : Prop where
  created : l.world.self.Created
  world : l.world = { self := l.world.self, memory := l.world.memory }

/-- The reader is idle after some history, with no operation outstanding, and has an id left. -/
structure Rests (l : Line) : Prop where
  reached : ∃ start es, New start ∧ Steps Line.step Always start es l
  idle : l.world.self.readId = 0
  quiet : l.world.ops = []
  room : l.world.accepted.length + 1 < 2 ^ 32

/-- What the callbacks reported between `u` and `t`. -/
def reportedSince (u t : Line) : List Post := t.world.posts.drop u.world.posts.length

def producedSince (u t : Line) : List UInt8 := t.produced.drop u.produced.length

/-- Nothing but what the stream produced since is reported from `u` on, as long as the ids do not
wrap around. -/
def Fresh (u : Line) : Prop :=
  ∀ es t, Steps Line.step Always u es t → t.world.accepted.length < 2 ^ 32 →
    ∀ p ∈ reportedSince u t, p.bytes ⊆ producedSince u t

/-- The same requests and the same behaviour of the stream lead to the same callbacks. -/
def Alike (u₁ u₂ : Line) : Prop :=
  ∀ ls t₁ t₂, Shows Line.step (Line.view u₁.world.accepted.length) u₁ ls t₁ →
    Shows Line.step (Line.view u₂.world.accepted.length) u₂ ls t₂ →
    t₁.world.accepted.length < 2 ^ 32 → t₂.world.accepted.length < 2 ^ 32 → reportedSince u₁ t₁ = reportedSince u₂ t₂

end Line

open Line

section Proofs
variable {l : Line} {c : Cut}

theorem Line.Rests.sound (rests : l.Rests) : Sound reader ReadKind.single l.world := by
  obtain ⟨⟨world, input, produced⟩, es, ⟨created, new⟩, run⟩ := rests.reached
  have room := rests.room
  have counter : world.self.readCounter = 0 := created.readCounter
  have id : world.self.readId = 0 := created.readId
  dsimp only at new
  rw [new] at run
  exact line_sound counter id run (by omega)

/-- Where the call left nothing buffered, the abstract reader starts. -/
theorem start_since (rests : l.Rests) (emptied : (l.cut c).world.self.readBuffer = []) :
    Since l.world.accepted.length l.produced l.world.posts (l.cut c) {} := by
  have room := rests.room
  have sound := rests.sound
  have same : (l.cut c).world = { l.world with self := (l.cut c).world.self } := by cases c <;> rfl
  refine ⟨cut_sound sound c, ?_, Or.inl ⟨rfl, ?_⟩⟩
  · have input : (l.cut c).input = [] := by cases c <;> rfl
    have produced : (l.cut c).produced = l.produced := by cases c <;> rfl
    refine ⟨input, by simp [produced], emptied, ?_, ?_, nofun, ?_, ?_⟩
    · rw [same]
      simp
    · rw [same]
      rfl
    · rw [same]
      simp [rests.quiet]
    · rw [same]
      intro p member since
      have issued := (sound.filed.conts p.cont (cont_of_posted member)).2
      omega
  · cases c <;> exact rests.idle

theorem reported_eq {t : Line} {ls : List Seen} (rests : l.Rests) (emptied : (l.cut c).world.self.readBuffer = [])
    (run : Shows Line.step (Line.view (l.cut c).world.accepted.length) (l.cut c) ls t)
    (bounded : t.world.accepted.length < 2 ^ 32) :
    reportedSince (l.cut c) t = (ls.foldl Session.step {}).posts ∧
      producedSince (l.cut c) t = (ls.foldl Session.step {}).produced := by
  have accepted : (l.cut c).world.accepted = l.world.accepted := by cases c <;> rfl
  have posts : (l.cut c).world.posts = l.world.posts := by cases c <;> rfl
  have produced : (l.cut c).produced = l.produced := by cases c <;> rfl
  rw [accepted] at run
  have since := shows_since (start_since rests emptied) run bounded
  constructor
  · rw [reportedSince, posts, since.agrees.posts, List.drop_left]
  · rw [producedSince, produced, since.agrees.produced, List.drop_left]

theorem cut_fresh (rests : l.Rests) (emptied : (l.cut c).world.self.readBuffer = []) : (l.cut c).Fresh := by
  intro es t run bounded p member
  obtain ⟨ls, shows⟩ := run.shows (Line.view (l.cut c).world.accepted.length)
  obtain ⟨reported, produced⟩ := reported_eq rests emptied shows bounded
  have clean : ((ls.foldl Session.step {}) : Session).Clean :=
    Session.run_clean ls ⟨List.nil_subset _, List.nil_subset _, nofun, nofun⟩
  rw [reported] at member
  rw [produced]
  exact clean.posts p member

/-- A request for one byte is served from the leftover at once. -/
theorem leftover_reported {w : World ReadKind StreamReader} {b : UInt8} {rest : List UInt8} (idle : w.self.readId = 0)
    (left : w.self.readBuffer = b :: rest) (next : w.self.readCounter + 1 ≠ 0) :
    ∃ v p, (w.call reader ⟨.readSome, 1, 0, 0, 0⟩).step reader (.deliver w.queue.length) = some v ∧
      v.posts = w.posts ++ [p] ∧ p.bytes = [b] ∧ v.accepted.length = w.accepted.length + 1 := by
  obtain ⟨bs, buffer, ends, turn, called⟩ := call_reader_idle ⟨.readSome, 1, 0, 0, 0⟩ idle
  cases turn with
  | fromStream empty => simp [left] at empty
  | stopped delimiter kind => cases kind
  | scanned delimiter kind => cases kind
  | fromBuffer =>
    rw [arm_untimed _ _ rfl] at called
    have posted : (w.call reader ⟨.readSome, 1, 0, 0, 0⟩).queue[w.queue.length]? =
        some ⟨⟨.readSome, w.self.readCounter + 1⟩, .success, 1⟩ := by
      rw [called]
      simp [left, conclude, stored]
    refine ⟨_, ⟨0, .success, 1, [b], false⟩, by simp only [World.step, posted]; rfl, ?_⟩
    obtain ⟨processed, bs, buffer, ends, turn, resumed⟩ :=
      resume_reader_current (w := { w.call reader ⟨.readSome, 1, 0, 0, 0⟩ with
        queue := (w.call reader ⟨.readSome, 1, 0, 0, 0⟩).queue.eraseIdx w.queue.length })
        (c := ⟨.readSome, w.self.readCounter + 1⟩) .success 1 (by simp only [called]; rfl)
    rw [resumed]
    cases turn with
    | readSome =>
      have written : (w.memory.write 0 [b]).read 0 1 = [b] := w.memory.read_write_same 0 [b]
      refine ⟨?_, rfl, ?_⟩
      · simp [conclude, next, called, left, stored, written, StreamReader.turned, StreamReader.opened, Slot.opened]
      · simp [conclude, next, called, stored]
    | found delimiter _ _ kind => cases kind
    | ended other => exact (other rfl).elim
    | again _ _ _ other => exact (other rfl).elim

theorem reset_stale (rests : l.Rests) (left : l.world.self.readBuffer ≠ []) : ¬ (l.cut .reset).Fresh := by
  intro fresh
  obtain ⟨b, rest, buffered⟩ := List.exists_cons_of_ne_nil left
  have room := rests.room
  have next : l.world.self.readCounter + 1 ≠ 0 := by
    have counter : l.world.self.readCounter.toNat = l.world.accepted.length := by
      rcases rests.sound.phase with idle | ⟨⟨_, holds⟩, _⟩
      · exact idle.counter
      · exact holds.counter
    have number := counter_next counter room
    intro zero
    rw [zero] at number
    exact absurd number (Nat.zero_ne_add_one _)
  obtain ⟨v, p, delivered, posts, bytes, accepted⟩ := leftover_reported rests.idle buffered next
  have called : (l.cut .reset).step (.reader (.call ⟨.readSome, 1, 0, 0, 0⟩)) =
      some { l.cut .reset with world := l.world.call reader ⟨.readSome, 1, 0, 0, 0⟩ } := rfl
  have reported : Line.step { l.cut .reset with world := l.world.call reader ⟨.readSome, 1, 0, 0, 0⟩ }
      (.reader (.deliver l.world.queue.length)) = some { l.cut .reset with world := v } := by
    simp only [Line.step, Event.moves, delivered]
    rfl
  have run : Steps Line.step Always (l.cut .reset) _ { l.cut .reset with world := v } :=
    (Steps.single trivial called).append (Steps.single trivial reported)
  have member : p ∈ reportedSince (l.cut .reset) { l.cut .reset with world := v } := by
    have since : reportedSince (l.cut .reset) { l.cut .reset with world := v } = [p] := by
      show v.posts.drop l.world.posts.length = [p]
      rw [posts, List.drop_left]
    rw [since]
    exact List.mem_singleton_self p
  have bounded : v.accepted.length < 2 ^ 32 := by omega
  have produced : p.bytes ⊆ producedSince (l.cut .reset) { l.cut .reset with world := v } := fresh _ _ run bounded p member
  have none : producedSince (l.cut .reset) { l.cut .reset with world := v } = [] := List.drop_length ..
  rw [bytes, none] at produced
  exact absurd (produced (List.mem_singleton_self b)) List.not_mem_nil

/-- flush() cuts off the past, and reset() does where no leftover is buffered. -/
theorem cut_off_iff {l₁ l₂ : Line} (rests₁ : l₁.Rests) (rests₂ : l₂.Rests) (c : Cut) :
    (l₁.cut c).Fresh ∧ (l₂.cut c).Fresh ∧ Alike (l₁.cut c) (l₂.cut c) ↔
      c = .flush ∨ l₁.world.self.readBuffer = [] ∧ l₂.world.self.readBuffer = [] := by
  constructor
  · rintro ⟨first, second, _⟩
    cases c with
    | flush => exact Or.inl rfl
    | reset =>
      refine Or.inr ⟨?_, ?_⟩
      · by_contra left
        exact reset_stale rests₁ left first
      · by_contra left
        exact reset_stale rests₂ left second
  · intro emptied
    have first : (l₁.cut c).world.self.readBuffer = [] := by
      cases c with
      | flush => rfl
      | reset =>
        rcases emptied with other | ⟨first, _⟩
        · cases other
        · exact first
    have second : (l₂.cut c).world.self.readBuffer = [] := by
      cases c with
      | flush => rfl
      | reset =>
        rcases emptied with other | ⟨_, second⟩
        · cases other
        · exact second
    refine ⟨cut_fresh rests₁ first, cut_fresh rests₂ second, ?_⟩
    intro ls t₁ t₂ run₁ run₂ bounded₁ bounded₂
    rw [(reported_eq rests₁ first run₁ bounded₁).1, (reported_eq rests₂ second run₂ bounded₂).1]

end Proofs

/-- A read_until leaves two bytes in `readBuffer_`, and three more stay in the stream. -/
def leaving : List LineEvent :=
  [.reader (.call ⟨.readUntil 10, 4, 0, 1, 0⟩), .produce [97, 10, 98, 99, 100, 101, 102],
    .reader (.move 0 [97, 10, 98, 99]), .reader (.complete 0 .success)]

def started : Line := { world := { self := .blank, memory := fun _ => 0 } }

theorem started_new : started.New := ⟨⟨rfl, rfl, rfl⟩, rfl⟩

theorem rests_of_seen {es : List LineEvent} {l : Line} {n : Nat} {left : List UInt8} (run : Steps Line.step Always started es l)
    (seen : (l.world.self.readId, l.world.ops.length, l.world.accepted.length, l.world.self.readBuffer) = (0, 0, n, left))
    (bounded : n + 1 < 2 ^ 32) : l.Rests ∧ l.world.self.readBuffer = left := by
  simp only [Prod.mk.injEq] at seen
  obtain ⟨idle, quiet, accepted, buffered⟩ := seen
  exact ⟨⟨⟨started, es, started_new, run⟩, idle, List.length_eq_zero_iff.mp quiet, by omega⟩, buffered⟩

/-- Two bytes are left over in one reader, and nothing in the other one, when both are flushed. -/
theorem cut_off_flushed : ∃ l₁ l₂, Steps Line.step Always started leaving l₁ ∧ l₁.world.self.readBuffer = [98, 99] ∧
    Steps Line.step Always started [] l₂ ∧
    (l₁.cut .flush).Fresh ∧ (l₂.cut .flush).Fresh ∧ Alike (l₁.cut .flush) (l₂.cut .flush) := by
  obtain ⟨l, run, seen⟩ : ∃ l, Steps Line.step Always started leaving l ∧
      (l.world.self.readId, l.world.ops.length, l.world.accepted.length, l.world.self.readBuffer) = (0, 0, 1, [98, 99]) :=
    exists_of_exec (by decide)
  obtain ⟨rests, left⟩ := rests_of_seen run seen (by decide)
  have new : started.Rests := ⟨⟨started, [], started_new, .refl⟩, rfl, rfl, by decide⟩
  exact ⟨l, started, run, left, .refl, (cut_off_iff rests new .flush).mpr (Or.inl rfl)⟩

/-- reset() leaves the two bytes in `readBuffer_`: a later request reports them, though the stream
produced nothing in between. -/
theorem reset_reports_past : ∃ l t, Steps Line.step Always started leaving l ∧ l.Rests ∧
    Steps Line.step Always (l.cut .reset) [.reader (.call ⟨.readSome, 4, 8, 2, 0⟩), .reader (.deliver 0)] t ∧
    (reportedSince (l.cut .reset) t).map Post.bytes = [[98, 99]] ∧ producedSince (l.cut .reset) t = [] ∧
    ¬ (l.cut .reset).Fresh := by
  have ran : ((exec Line.step Always started leaving).bind fun l =>
      (exec Line.step Always (l.cut .reset) [.reader (.call ⟨.readSome, 4, 8, 2, 0⟩), .reader (.deliver 0)]).map fun t =>
        ((l.world.self.readId, l.world.ops.length, l.world.accepted.length, l.world.self.readBuffer),
          (reportedSince (l.cut .reset) t).map Post.bytes, producedSince (l.cut .reset) t)) =
      some ((0, 0, 1, [98, 99]), [[98, 99]], []) := by decide
  obtain ⟨l, first, ran⟩ := Option.bind_eq_some_iff.mp ran
  obtain ⟨t, second, seen⟩ := Option.map_eq_some_iff.mp ran
  obtain ⟨rested, reported, produced⟩ := Prod.mk.inj seen |>.imp_right Prod.mk.inj
  obtain ⟨rests, left⟩ := rests_of_seen (steps_of_exec first) rested (by decide)
  refine ⟨l, t, steps_of_exec first, rests, steps_of_exec second, reported, produced, reset_stale rests ?_⟩
  rw [left]
  exact List.cons_ne_nil 98 [99]

end RtacAsio
