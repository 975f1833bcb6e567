import RtacAsio.Outcome
import RtacAsio.StringStream.Loopback

/-!
A `StringStream` answers every operation at once, also if it has nothing for it. The request then
asks again, as often as the service runs its handler.
-/

namespace RtacAsio
open Lib World

/-- There is nothing to be read, or no room for what is to be written. -/
def StringStream.Stuck (s : StringStream) : Direction → Prop
  | .input => s.buffer = []
  | .output => s.capacity ≤ s.buffer.length

/-- Nothing is under way but the polls of the request in progress. -/
structure World.Polling (E : Endpoint κ σ) (w : World κ σ) : Prop where
  polls : ∃ op, w.ops = [op] ∧ op.id = (E.slot w.self).id ∧ op.moved = some [] ∧ op.count ≠ 0
  queue : w.queue = []
  waits : w.waits = []
  fired : w.fired = []

theorem Shared.transfer_some {direction : Direction} {count : Nat} (data : Nat) {h : Shared}
    (fits : h.stream.buffer.length ≤ h.stream.capacity) (free : ¬ h.stream.Stuck direction) (asked : count ≠ 0) :
    (h.transfer direction count data).2 ≠ [] := by
  cases direction with
  | input =>
    rw [transfer_input]
    simp only [StringStream.Stuck] at free
    simp [free, asked]
  | output =>
    simp only [transfer, StringStream.asyncWriteSome_eq count data h.memory fits]
    simp only [StringStream.Stuck] at free
    apply List.ne_nil_of_length_pos
    rw [Memory.read_length]
    omega

/-! ### One side -/

section Side
variable {κ σ : Type} {E : Endpoint κ σ} {single : κ → Bool} {whole : κ → Nat → List UInt8 → Prop} {w v : World κ σ}
  {e : Event κ} {s : StringStream}

theorem serve_accepted : (s.serve E v).1.accepted = v.accepted := by
  unfold StringStream.serve
  split
  · rfl
  · split <;> rfl

/-- What the stream does for an operation is one step of it. -/
theorem serve_moves {kept new : List (Op κ)} (adds : v.ops = kept ++ new) (old : ∀ op ∈ kept, op.moved ≠ none)
    (one : new.length ≤ 1) (fresh : ∀ op ∈ new, op.moved = none) (fits : s.buffer.length ≤ s.capacity) :
    (s.serve E v).1 = v ∨ ∃ i op bytes, v.ops[i]? = some op ∧ op.moved = none ∧
      (s.serve E v).1 = v.move E i op bytes ∧ v.step E (.move i bytes) = some (s.serve E v).1 ∧
      (¬ s.Stuck E.direction → op.count ≠ 0 → bytes ≠ []) := by
  rcases Loopback.serve_cases (E := E) adds old one fresh s with ⟨_, eq⟩ | ⟨op, added, unmoved, eq⟩
  · exact Or.inl (congrArg Prod.fst eq)
  · have found : v.ops[kept.length]? = some op := by rw [added, List.getElem?_concat_length]
    have content (output : E.direction = .output) :
        v.memory.read op.data (Shared.transfer E.direction op.count op.data ⟨s, v.memory⟩).2.length =
          (Shared.transfer E.direction op.count op.data ⟨s, v.memory⟩).2 := by
      obtain ⟨n, _, _, transfer⟩ := Shared.transfer_output (h := ⟨s, v.memory⟩) op.count op.data fits
      rw [output, transfer, Memory.read_length]
    refine Or.inr ⟨_, op, _, found, unmoved, congrArg Prod.fst eq, ?_, fun free asked => ?_⟩
    · have allowed : ¬ (E.direction = .output ∧
          v.memory.read op.data (Shared.transfer E.direction op.count op.data ⟨s, v.memory⟩).2.length ≠
            (Shared.transfer E.direction op.count op.data ⟨s, v.memory⟩).2) := fun both => both.2 (content both.1)
      simp only [eq, World.step, found, unmoved, Option.isSome_none, Bool.false_eq_true, ↓reduceIte, allowed]
    · exact Shared.transfer_some op.data fits free asked

/-- A handler and what the stream does then: only a poll of a stream that is stuck is of no avail. -/
theorem serve_lowers (lawful : Lawful E single) (lawfulIdle : LawfulIdle E single) (thorough : Thorough E whole)
    (sound : Sound E single w) (asks : Asks E w) (all : ∀ op ∈ w.ops, op.moved ≠ none)
    (fits : s.buffer.length ≤ s.capacity) (served : e.byStringStream = true) (taken : w.step E e = some v)
    (bounded : v.accepted.length < 2 ^ 32) :
    (Sound E single (s.serve E v).1 ∧ Asks E (s.serve E v).1) ∧
      (w.Cooperative e → (s.serve E v).1.toDo E ≤ w.toDo E ∧
        (¬ (w.Polls E e ∧ s.Stuck E.direction) → (s.serve E v).1.toDo E < w.toDo E)) := by
  obtain ⟨kept, new, adds, left, one, fresh⟩ := step_adds lawfulIdle taken (Loopback.still_of_served served)
  have sound' := step_sound lawful sound taken bounded
  have asks' := step_asks lawful thorough sound asks taken bounded
  rcases serve_moves (E := E) adds (Loopback.old_moved all left) one fresh fits with same | ⟨i, op, bytes, found, unmoved, eq, moved, some⟩
  · rw [same]
    refine ⟨⟨sound', asks'⟩, fun allowed => ?_⟩
    obtain ⟨k, lower, positive, _⟩ := step_less lawful thorough sound asks allowed taken
    exact ⟨by omega, fun _ => by omega⟩
  · have small : (s.serve E v).1.accepted.length < 2 ^ 32 := by rwa [serve_accepted]
    refine ⟨⟨step_sound lawful sound' moved small, step_asks lawful thorough sound' asks' moved small⟩, fun allowed => ?_⟩
    obtain ⟨k, lower, positive, three⟩ := step_less lawful thorough sound asks allowed taken
    have change := move_toDo (E := E) bytes found
    have before : op.weight = 6 := by simp [Op.weight, unmoved]
    have after : ({ op with moved := Option.some bytes } : Op κ).weight ≤ 7 := by
      simp only [Op.weight]
      split <;> omega
    rw [eq]
    refine ⟨by omega, fun avail => ?_⟩
    by_cases free : s.Stuck E.direction
    · have three : 3 ≤ k := three.resolve_left fun polls => avail ⟨polls, free⟩
      omega
    · have less := move_less (E := E) found unmoved (some free)
      omega

/-- What is left to be done where the stream has served every operation. -/
theorem World.Sound.remains (sound : Sound E single w) (all : ∀ op ∈ w.ops, op.moved ≠ none) :
    w.Finished ∨ w.Polling E ∨
      ∃ e v, e.byStringStream = true ∧ w.Cooperative e ∧ ¬ w.Polls E e ∧ w.step E e = some v := by
  cases queue : w.queue with
  | cons p rest =>
    exact Or.inr (Or.inr ⟨.deliver 0, _, rfl, trivial, fun polls => polls, by
      simp only [step, queue, List.getElem?_cons_zero]; rfl⟩)
  | nil =>
    cases waits : w.waits with
    | cons id rest => exact Or.inr (Or.inr ⟨.expire, _, rfl, by simp [Cooperative, waits], fun polls => polls, rfl⟩)
    | nil =>
      cases fired : w.fired with
      | cons f rest =>
        exact Or.inr (Or.inr ⟨.timer 0, _, rfl, trivial, fun polls => polls, by
          simp only [step, fired, List.getElem?_cons_zero]; rfl⟩)
      | nil =>
        by_cases mere : ∀ op ∈ w.ops, op.id = (E.slot w.self).id ∧ op.moved = some [] ∧ op.count ≠ 0
        · cases ops : w.ops with
          | nil =>
            exact Or.inl ⟨sound.settles ops queue, ops, queue, waits, fired⟩
          | cons op rest =>
            -- no two operations belong to one request
            have alone : rest = [] := by
              apply List.eq_nil_iff_forall_not_mem.mpr
              intro op' member
              have distinct := sound.filed.distinct
              simp only [conts, ops, queue, List.map_cons, List.map_nil, List.append_nil, List.nodup_cons, List.mem_map] at distinct
              have mine := (mere op (by simp [ops])).1
              have yours := (mere op' (by simp [ops, member])).1
              exact distinct.1 ⟨_, ⟨op', member, rfl⟩, yours.trans mine.symm⟩
            subst alone
            exact Or.inr (Or.inl ⟨⟨op, ops, mere op (by simp [ops])⟩, queue, waits, fired⟩)
        · right
          right
          simp only [not_forall] at mere
          obtain ⟨op, member, real⟩ := mere
          obtain ⟨i, found⟩ := List.mem_iff_getElem?.mp member
          obtain ⟨bytes, moved⟩ := Option.ne_none_iff_exists'.mp (all op member)
          refine ⟨.complete i .success, _, rfl, trivial, ?_, by simp only [step, found, moved]; rfl⟩
          rintro ⟨_, op', found', polls⟩
          obtain rfl := Option.some.inj (found.symm.trans found')
          exact real polls

/-- Only a stream that is stuck leaves a side nothing to do but to poll. -/
theorem World.Sound.works (sound : Sound E single w) (all : ∀ op ∈ w.ops, op.moved ≠ none) (s : StringStream) :
    (w.Finished ∨ w.Polling E ∧ s.Stuck E.direction) ∨ ∃ e v, e.byStringStream = true ∧ w.Cooperative e ∧
      ¬ (w.Polls E e ∧ s.Stuck E.direction) ∧ w.step E e = some v := by
  rcases sound.remains all with finished | polling | ⟨e, v, served, allowed, busy, ran⟩
  · exact Or.inl (Or.inl finished)
  · by_cases stuck : s.Stuck E.direction
    · exact Or.inl (Or.inr ⟨polling, stuck⟩)
    · obtain ⟨op, ops, _, moved, _⟩ := polling.polls
      exact Or.inr ⟨.complete 0 .success, _, rfl, trivial, fun both => stuck both.2, by
        simp only [step, ops, List.getElem?_cons_zero, moved]; rfl⟩
  · exact Or.inr ⟨e, v, served, allowed, fun both => busy both.1, ran⟩

end Side

/-! ### Both sides -/

namespace Loopback

/-- Nobody calls, and nothing is discarded. -/
def Undisturbed (x : Loopback) : LoopbackEvent → Prop
  | .reader e => x.reading.Cooperative e
  | .writer e => x.writing.Cooperative e
  | .cut _ => False

/-- A request polls a stream that still has nothing for it. -/
def Idles (x : Loopback) : LoopbackEvent → Prop
  | .reader e => x.reading.Polls reader e ∧ x.stream.Stuck .input
  | .writer e => x.writing.Polls writer e ∧ x.stream.Stuck .output
  | .cut _ => False

/-- Each side has finished, or waits for the other one. -/
structure Rests (x : Loopback) : Prop where
  reading : x.reading.Finished ∨ x.reading.Polling reader ∧ x.stream.Stuck .input
  writing : x.writing.Finished ∨ x.writing.Polling writer ∧ x.stream.Stuck .output

structure Going (c : Nat) (x : Loopback) : Prop where
  ready : x.Ready c
  reading : Sound reader ReadKind.single x.reading ∧ Asks reader x.reading
  writing : Sound writer WriteKind.single x.writing ∧ Asks writer x.writing

/-- No request on either side finds the counter of ids wrapped. -/
structure Small (x : Loopback) : Prop where
  reading : x.reading.accepted.length < 2 ^ 32
  writing : x.writing.accepted.length < 2 ^ 32

def toDo (x : Loopback) : Nat := x.reading.toDo reader + x.writing.toDo writer

section Steps
variable {x y : Loopback} {c : Nat} {e : LoopbackEvent}

theorem Going.fits (going : x.Going c) : x.stream.buffer.length ≤ x.stream.capacity := by
  rw [going.ready.capacity]
  exact going.ready.fits

theorem Small.before (small : y.Small) (taken : x.step e = some y) : x.Small := by
  cases e with
  | reader e =>
    simp only [step, Option.ite_none_right_eq_some] at taken
    obtain ⟨w, ran, rfl⟩ := Option.map_eq_some_iff.mp taken.2
    have bound := small.reading
    simp only [serve_accepted] at bound
    exact ⟨Nat.lt_of_le_of_lt (step_accepted ran) bound, small.writing⟩
  | writer e =>
    simp only [step, Option.ite_none_right_eq_some] at taken
    obtain ⟨w, ran, rfl⟩ := Option.map_eq_some_iff.mp taken.2
    have bound := small.writing
    have grown := step_accepted ran
    simp only [serve_accepted] at bound
    exact ⟨small.reading, Nat.lt_of_le_of_lt grown bound⟩
  | cut d =>
    obtain rfl := Option.some.inj taken
    cases d <;> exact ⟨small.reading, small.writing⟩

theorem step_going (going : x.Going c) (taken : x.step e = some y) (small : y.Small) :
    y.Going c ∧ (x.Undisturbed e → y.toDo ≤ x.toDo ∧ (¬ x.Idles e → y.toDo < x.toDo)) := by
  have ready : y.Ready c := by
    have allowed : Permitted (fun _ _ => True) True x e := by
      cases e with
      | reader e => exact fun _ => trivial
      | writer e => trivial
      | cut d => trivial
    exact (step_matched always_free going.ready allowed taken).1
  cases e with
  | reader e =>
    simp only [step, Option.ite_none_right_eq_some] at taken
    obtain ⟨served, taken⟩ := taken
    obtain ⟨w, ran, rfl⟩ := Option.map_eq_some_iff.mp taken
    have bound := small.reading
    simp only [serve_accepted] at bound
    obtain ⟨sound, asks⟩ := going.reading
    obtain ⟨kept, lower⟩ := serve_lowers reader_lawful reader_lawfulIdle reader_thorough sound asks going.ready.read
      going.fits served ran bound
    refine ⟨⟨ready, kept, going.writing⟩, fun allowed => ?_⟩
    obtain ⟨less, lower⟩ := lower allowed
    exact ⟨Nat.add_le_add_right less _, fun busy => Nat.add_lt_add_right (lower busy) _⟩
  | writer e =>
    simp only [step, Option.ite_none_right_eq_some] at taken
    obtain ⟨served, taken⟩ := taken
    obtain ⟨w, ran, rfl⟩ := Option.map_eq_some_iff.mp taken
    have bound := small.writing
    simp only [serve_accepted] at bound
    obtain ⟨sound, asks⟩ := going.writing
    obtain ⟨kept, lower⟩ := serve_lowers writer_lawful writer_lawfulIdle writer_thorough (sound.write x.reading.memory) asks
      going.ready.written going.fits served ran bound
    refine ⟨⟨ready, going.reading, kept⟩, fun allowed => ?_⟩
    obtain ⟨less, lower⟩ := lower allowed
    exact ⟨Nat.add_le_add_left less _, fun busy => Nat.add_lt_add_left (lower busy) _⟩
  | cut d =>
    obtain rfl := Option.some.inj taken
    refine ⟨⟨ready, ?_, ?_⟩, fun allowed => allowed.elim⟩
    · cases d <;> exact ⟨going.reading.1.swap rfl, going.reading.2⟩
    · cases d <;> exact going.writing

theorem Going.goes (going : x.Going c) : x.Rests ∨ ∃ y, Works step Undisturbed Idles x 1 y := by
  rcases going.reading.1.works going.ready.read x.stream with reading | ⟨e, w, served, allowed, busy, ran⟩
  · rcases (going.writing.1.write x.reading.memory).works going.ready.written x.stream with
      writing | ⟨e, w, served, allowed, busy, ran⟩
    · refine Or.inl ⟨reading, ?_⟩
      rcases writing with finished | ⟨polling, stuck⟩
      · exact Or.inl ⟨finished.settled, finished.ops, finished.queue, finished.waits, finished.fired⟩
      · exact Or.inr ⟨⟨polling.polls, polling.queue, polling.waits, polling.fired⟩, stuck⟩
    · exact Or.inr ⟨_, .one (e := .writer e) allowed busy (by simp only [step, served, ran, ↓reduceIte, Option.map_some]; rfl)⟩
  · exact Or.inr ⟨_, .one (e := .reader e) allowed busy (by simp only [step, served, ran, ↓reduceIte, Option.map_some]; rfl)⟩

/-- An empty buffer has room. -/
theorem Rests.one (rests : x.Rests) (positive : 0 < x.stream.capacity) : x.reading.Finished ∨ x.writing.Finished := by
  rcases rests.reading with finished | ⟨_, empty⟩
  · exact Or.inl finished
  · rcases rests.writing with finished | ⟨_, full⟩
    · exact Or.inr finished
    · simp only [StringStream.Stuck] at empty full
      rw [empty, List.length_nil] at full
      omega

theorem step_undisturbed (going : x.Going c) (allowed : x.Undisturbed e) (taken : x.step e = some y) (small : x.Small) :
    y.Small := by
  cases e with
  | reader e =>
    simp only [step, Option.ite_none_right_eq_some] at taken
    obtain ⟨w, ran, rfl⟩ := Option.map_eq_some_iff.mp taken.2
    refine ⟨?_, small.writing⟩
    rcases step_accepts reader_lawful going.reading.1 ran with same | ⟨_, q, rfl, _⟩
    · simpa only [serve_accepted, same] using small.reading
    · exact allowed.elim
  | writer e =>
    simp only [step, Option.ite_none_right_eq_some] at taken
    obtain ⟨w, ran, rfl⟩ := Option.map_eq_some_iff.mp taken.2
    refine ⟨small.reading, ?_⟩
    rcases step_accepts writer_lawful (going.writing.1.write x.reading.memory) ran with same | ⟨_, q, rfl, _⟩
    · simpa only [serve_accepted, same] using small.writing
    · exact allowed.elim
  | cut d => exact allowed.elim

theorem start_going {r : StreamReader} {t : StreamWriter} (m : Memory UInt8) (c : Nat) (reads : r.Created) (writes : t.Created) :
    (start r t m c).Going c :=
  ⟨start_ready r t m c,
    ⟨reachable_sound reader_lawful reads.readCounter reads.readId .refl (by simp [start]), nofun⟩,
    ⟨reachable_sound writer_lawful writes.writeCounter writes.writeId .refl (by simp [start]), nofun⟩⟩

end Steps

end Loopback

open Loopback

section Results
variable {r : StreamReader} {t : StreamWriter} {m : Memory UInt8} {c : Nat} {es : List LoopbackEvent} {x : Loopback}

/-- In any order of the handlers, and however often they ask in vain, the reads and writes come to
where each side has called back all its requests, or waits in vain. Through a buffer with any room at
all they never block each other: one side has called back all its requests. -/
theorem loopback_advances (reads : r.Created) (writes : t.Created)
    (run : Steps Loopback.step Always (start r t m c) es x) (small : x.Small) :
    Advances Loopback.step Undisturbed Idles x fun y => y.Rests ∧ (0 < c → y.reading.Finished ∨ y.writing.Finished) := by
  have going : x.Going c := by
    refine run.invariant (P := fun x => x.Small → x.Going c) (fun _ => start_going m c reads writes) ?_ small
    intro x e y holds _ taken small
    exact (step_going (holds (small.before taken)) taken small).1
  refine advances_of_measure toDo (I := fun x => x.Going c ∧ x.Small) ⟨going, small⟩ ?_ ?_
  · rintro x e y ⟨going, small⟩ allowed taken
    have small' := step_undisturbed going allowed taken small
    obtain ⟨going', lower⟩ := step_going going taken small'
    exact ⟨⟨going', small'⟩, lower allowed⟩
  · rintro x ⟨going, small⟩
    refine going.goes.imp_left fun rests => ⟨rests, fun positive => rests.one ?_⟩
    rwa [going.ready.capacity]

/-- A read that has found the buffer empty, and a write of more than its capacity: the read is of one
byte more than are written, so it is the write that finishes. -/
theorem loopback_advances_starved : ∃ es x, Steps Loopback.step Always (start .blank .blank (fun _ => 7) 2) es x ∧
    ¬ x.reading.Settled ∧ ¬ x.writing.Settled ∧
      Advances Loopback.step Undisturbed Idles x fun y => y.Rests ∧ (0 < 2 → y.reading.Finished ∨ y.writing.Finished) := by
  obtain ⟨x, run, seen⟩ : ∃ x, Steps Loopback.step Always (start .blank .blank (fun _ => 7) 2)
      [.reader (.call { kind := .read, size := 4, data := 0, callback := 1 }),
        .writer (.call { kind := .write, size := 3, data := 16, callback := 2 }), .reader (.complete 0 .success)] x ∧
      (x.reading.accepted.length, x.reading.posts.length, x.writing.accepted.length, x.writing.posts.length) =
        (1, 0, 1, 0) := exists_of_exec (by decide)
  simp only [Prod.mk.injEq] at seen
  obtain ⟨reads, none, writes, none'⟩ := seen
  have small : x.Small := ⟨by rw [reads]; decide, by rw [writes]; decide⟩
  exact ⟨_, x, run, by simp [Settled, reads, none], by simp [Settled, writes, none'],
    loopback_advances ⟨rfl, rfl, rfl⟩ ⟨rfl, rfl⟩ run small⟩

end Results

end RtacAsio
