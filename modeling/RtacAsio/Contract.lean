import RtacAsio.Reader.Lawful
import RtacAsio.Request.Protocol
import RtacAsio.Writer.Lawful

/-! The request protocol that `StreamReader` and `StreamWriter` promise their users. -/

namespace RtacAsio
open Lib

namespace World
variable {κ σ : Type} {E : Endpoint κ σ} {single : κ → Bool} {w w' : World κ σ} {e : Event κ}

/-- The error code that the handler run by an event was called with. A call that ends its own
request and the timer report success. -/
def code (w : World κ σ) : Event κ → ErrorCode
  | .complete _ err => err
  | .deliver i => ((w.queue[i]?).map Posted.err).getD .success
  | _ => .success

/-- What a callback posted in one step carries. -/
structure Carries (w : World κ σ) (e : Event κ) (w' : World κ σ) (p : Post) : Prop where
  callback : ∃ q, w'.accepted.getLast? = some q ∧ p.callback = q.callback
  code : p.err = w.code e
  /-- The number of bytes counted for the request, whose id is its rank. -/
  count : ∀ id : UInt32, id.toNat = w'.posts.length → p.count = total id w'.counts

/-- A request was in progress before the step or was accepted in it, and none is after it. -/
def Ends (E : Endpoint κ σ) (w w' : World κ σ) : Prop :=
  (E.slot w'.self).id = 0 ∧ ((E.slot w.self).id ≠ 0 ∨ w'.accepted ≠ w.accepted)

/-- What one step keeps to. -/
structure Obeys (E : Endpoint κ σ) (w : World κ σ) (e : Event κ) (w' : World κ σ) : Prop where
  accepts : ∀ q, e = .call q → ((E.call q w.self).1 = true ↔ (E.slot w.self).id = 0)
  accepted : ∀ q, e = .call q → (E.slot w.self).id = 0 → w'.accepted = w.accepted ++ [q]
  refused : ∀ q, e = .call q → (E.slot w.self).id ≠ 0 → w' = w
  ends : Ends E w w' → ∃ p, w'.posts = w.posts ++ [p] ∧ w.Carries e w' p
  quiet : ¬ Ends E w w' → w'.posts = w.posts
  once : w'.posts.map Post.callback = (w'.accepted.take w'.posts.length).map Request.callback
  late : ∀ id, w.Runs e id → w.Ended id → Ignored E w w'
  aborted : ∀ i id err, e = .timer i → w.fired[i]? = some (id, err) → err ≠ .success → Ignored E w w'

theorem Holds.last_callback {s : Slot} {q : Request κ} (h : w.Holds s q) :
    ∃ q, w.accepted.getLast? = some q ∧ s.callback = q.callback := by
  refine ⟨q, ?_, h.callback⟩
  rw [List.getLast?_eq_getElem?, h.open_]
  exact h.last

theorem Holds.count {s : Slot} {q : Request κ} {id : UInt32} (h : w.Holds s q)
    (rank : id.toNat = w.posts.length + 1) : s.processed = total id w.counts := by
  have same : id = s.counter := UInt32.toNat_inj.mp (by rw [rank, h.counter, h.open_])
  rw [same, h.counted]

theorem conclude_posts (v : World κ σ) (e : Event κ) {c : Cont κ} {next : Next} (h : Turning E single w c next)
    (code : ∀ err, next = .done err → err = v.code e) :
    (w.conclude (E.slot w.self) c next false).posts = w.posts ∨
      ∃ p, (w.conclude (E.slot w.self) c next false).posts = w.posts ++ [p] ∧
        v.Carries e (w.conclude (E.slot w.self) c next false) p := by
  cases next with
  | transfer => exact Or.inl rfl
  | postCont => exact Or.inl rfl
  | done err =>
    obtain ⟨q, holds⟩ := h.holds
    right
    rw [conclude_callback _ err false w h.ne_zero]
    refine ⟨_, rfl, holds.last_callback, code err rfl, fun id rank => ?_⟩
    exact holds.count (by simpa using rank)

theorem step_posts (lawful : Lawful E single) (h : Sound E single w) (taken : w.step E e = some w')
    (bounded : w'.accepted.length < 2 ^ 32) :
    w'.posts = w.posts ∨ ∃ p, w'.posts = w.posts ++ [p] ∧ w.Carries e w' p := by
  have timed : ∀ f ∈ w.fired, f.1 ≠ 0 := fun f member => (h.filed.fired f member).ne_zero
  cases step_action lawful timed taken with
  | opened q s' next p bs c idle bound slot fresh code _ =>
    have turning := opened_turning h (by simpa [stored] using bounded) idle bound slot fresh
    have posted := conclude_posts w (.call q) (turning.stored p bs) code
    simpa [stored] using posted
  | resumed e c err count v s' next p bs from_ current slot adds ends code _ =>
    have posted := conclude_posts w e ((resumed_turning h from_ current slot adds ends).stored p bs)
      fun err' last => ?_
    · simpa [stored, from_.posts] using posted
    · rw [code err' last]
      cases from_ with
      | complete => rfl
      | deliver i p found => simp [World.code, found]
  | ignored e c err count v from_ =>
    exact Or.inl from_.posts
  | timedOut i err s' found busy slot =>
    obtain ⟨⟨q, holds⟩, _⟩ : (∃ q, w.Holds (E.slot w.self) q) ∧ w.Served single (E.slot w.self) := by
      rcases h.phase with idle | running
      · exact (busy idle.id).elim
      · exact running
    refine Or.inr ⟨_, rfl, holds.last_callback, rfl, fun id rank => holds.count (by simpa using rank)⟩
  | _ => exact Or.inl rfl

theorem step_accepts (lawful : Lawful E single) (h : Sound E single w) (taken : w.step E e = some w') :
    w'.accepted = w.accepted ∨
      (E.slot w.self).id = 0 ∧ ∃ q, e = .call q ∧ w'.accepted = w.accepted ++ [q] := by
  have timed : ∀ f ∈ w.fired, f.1 ≠ 0 := fun f member => (h.filed.fired f member).ne_zero
  cases step_action lawful timed taken with
  | opened q s' next p bs c idle => exact Or.inr ⟨idle, q, rfl, by simp [stored]⟩
  | resumed e c err count v s' next p bs from_ =>
    left
    cases from_ <;> simp [stored]
  | ignored e c err count v from_ =>
    left
    cases from_ <;> rfl
  | _ => exact Or.inl rfl

theorem Sound.runs_issued (h : Sound E single w) {id : UInt32} (runs : w.Runs e id) : w.Issued id := by
  cases e with
  | complete i err =>
    obtain ⟨op, found, rfl⟩ := runs
    exact h.filed.conts _ (cont_of_op (List.mem_of_getElem? found))
  | deliver i =>
    obtain ⟨p, found, rfl⟩ := runs
    exact h.filed.conts _ (cont_of_posted (List.mem_of_getElem? found))
  | timer i =>
    obtain ⟨err, found⟩ := runs
    exact h.filed.fired _ (List.mem_of_getElem? found)
  | _ => exact runs.elim

theorem call_accepts (lawful : Lawful E single) (q : Request κ) (s : σ) :
    (E.call q s).1 = true ↔ (E.slot s).id = 0 := by
  by_cases idle : (E.slot s).id = 0
  · obtain ⟨s', next, turn, eq, _⟩ := lawful.call_idle q s idle
    simp [eq, idle]
  · simp [lawful.call_busy q s idle, idle]

/-- Every step from a state where the protocol invariant holds keeps to the contract. -/
theorem step_obeys (lawful : Lawful E single) (h : Sound E single w) (taken : w.step E e = some w')
    (bounded : w'.accepted.length < 2 ^ 32) : Obeys E w e w' := by
  have after := step_sound lawful h taken bounded
  have posts := step_posts lawful h taken bounded
  have accepts := step_accepts lawful h taken
  have before := h.pending
  have pending := after.pending
  have ignored (id : UInt32) (runs : w.Runs e id) (ended : w.Ended id) : Ignored E w w' :=
    ignored_of_stale lawful (fun f member => (h.filed.fired f member).ne_zero) taken runs
      ((h.ended_iff (h.runs_issued runs)).mp ended)
  refine ⟨fun q _ => call_accepts lawful q w.self, ?_, ?_, ?_, ?_, after.filed.posted, ignored, ?_⟩
  · rintro q rfl idle
    have called := Option.some.inj taken
    obtain ⟨s', next, turn, eq, _⟩ := lawful.call_idle q w.self idle
    rw [← called, call]
    simp [eq]
  · rintro q rfl busy
    have called := Option.some.inj taken
    rw [← called, call, lawful.call_busy q w.self busy]
    rfl
  · rintro ⟨idle, running⟩
    rcases posts with same | posted
    · rw [same, if_pos idle] at pending
      rcases accepts with kept | ⟨idle', q, _, grown⟩
      · rcases running with busy | changed
        · rw [if_neg busy, ← kept, pending] at before
          omega
        · exact (changed kept).elim
      · rw [grown, List.length_append, List.length_singleton] at pending
        omega
    · exact posted
  · intro still
    rcases posts with same | ⟨p, posted, _⟩
    · exact same
    · refine (still ⟨?_, ?_⟩).elim
      · by_contra busy
        rw [posted, if_neg busy, List.length_append, List.length_singleton] at pending
        rcases accepts with kept | ⟨idle, q, _, grown⟩
        · rw [kept, before] at pending
          split at pending <;> omega
        · rw [grown, List.length_append, List.length_singleton, before, if_pos idle] at pending
          omega
      · rw [Classical.or_iff_not_imp_left]
        intro idle kept
        rw [Classical.not_not] at idle
        rw [posted, List.length_append, List.length_singleton, kept, before, if_pos idle] at pending
        omega
  · rintro i id err rfl found failed
    exact ignored id ⟨err, found⟩ (h.filed.aborted _ (List.mem_of_getElem? found) failed)

end World

open World

/-- The protocol of the reader and of the writer, for every step of every run in which the id
counter does not wrap around. -/
theorem request_protocol :
    (∀ (r : StreamReader) (m : Memory UInt8) es w e w', r.Created →
      Steps (World.step reader) Always { self := r, memory := m } es w → w.step reader e = some w' →
      w'.accepted.length < 2 ^ 32 → Obeys reader w e w') ∧
    (∀ (t : StreamWriter) (m : Memory UInt8) es w e w', t.Created →
      Steps (World.step writer) Always { self := t, memory := m } es w → w.step writer e = some w' →
      w'.accepted.length < 2 ^ 32 → Obeys writer w e w') := by
  constructor
  · intro r m es w e w' created run taken bounded
    have below := Nat.lt_of_le_of_lt (step_accepted taken) bounded
    exact step_obeys reader_lawful (reachable_sound reader_lawful created.readCounter created.readId run below) taken bounded
  · intro t m es w e w' created run taken bounded
    have below := Nat.lt_of_le_of_lt (step_accepted taken) bounded
    exact step_obeys writer_lawful (reachable_sound writer_lawful created.writeCounter created.writeId run below) taken
      bounded

/-- A write that its timer ends, and the late completion of its stream operation. -/
theorem request_protocol_timeout :
    (∃ es w e w', Steps (World.step reader) Always { self := .blank, memory := fun _ => 0 } es w ∧
      w.step reader e = some w' ∧ w'.posts.length = 1 ∧ Obeys reader w e w') ∧
    (∃ es w e w', Steps (World.step writer) Always { self := .blank, memory := fun _ => 0 } es w ∧
      w.step writer e = some w' ∧ w'.posts.length = 1 ∧ Obeys writer w e w') := by
  constructor
  · obtain ⟨w, run, seen⟩ : ∃ w, Steps (World.step reader) Always { self := .blank, memory := fun _ => 0 }
        [.call { kind := .read, size := 4, data := 0, callback := 1, timeoutMillis := 1 }, .expire, .timer 0,
          .move 0 [97]] w ∧
        ((w.step reader (.complete 0 .success)).map fun w' => (w'.posts.length, w'.accepted.length)) = some (1, 1) :=
      exists_of_exec (by decide)
    obtain ⟨w', taken, seen⟩ := Option.map_eq_some_iff.mp seen
    simp only [Prod.mk.injEq] at seen
    exact ⟨_, w, _, w', run, taken, seen.1,
      request_protocol.1 _ _ _ _ _ _ ⟨rfl, rfl, rfl⟩ run taken (by rw [seen.2]; decide)⟩
  · obtain ⟨w, run, seen⟩ : ∃ w, Steps (World.step writer) Always { self := .blank, memory := fun _ => 0 }
        [.call { kind := .write, size := 4, data := 0, callback := 1, timeoutMillis := 1 }, .expire, .timer 0,
          .move 0 [0]] w ∧
        ((w.step writer (.complete 0 .success)).map fun w' => (w'.posts.length, w'.accepted.length)) = some (1, 1) :=
      exists_of_exec (by decide)
    obtain ⟨w', taken, seen⟩ := Option.map_eq_some_iff.mp seen
    simp only [Prod.mk.injEq] at seen
    exact ⟨_, w, _, w', run, taken, seen.1,
      request_protocol.2 _ _ _ _ _ _ ⟨rfl, rfl⟩ run taken (by rw [seen.2]; decide)⟩

end RtacAsio
