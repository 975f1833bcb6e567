import RtacAsio.Request.Frame
import RtacAsio.Request.Protocol

/-!
Endpoints that go on with a request as long as something of it is missing: a request that ends
without an error and without its timer has been answered in full.
-/

namespace RtacAsio
open Lib

theorem getElem?_of_prefix {l l' : List α} {i : Nat} {x : α} (grown : l <+: l') (found : l[i]? = some x) : l'[i]? = some x := by
  obtain ⟨inside, rfl⟩ := List.getElem?_eq_some_iff.mp found
  exact List.prefix_iff_getElem?.mp grown i inside

/-- What the end of a turn says of a request, whose slot is `s` then: `whole` tells the bytes that
answer a request of a kind and a size in full. -/
structure Strives (whole : κ → Nat → List UInt8 → Prop) (kind : κ) (s : Slot) (m : Memory UInt8) (next : Next) : Prop where
  asks : ∀ count dump, next = .transfer count dump → s.requestedSize ≤ s.processed + count
  done : ∀ err, next = .done err → err.failed = false → whole kind s.requestedSize (m.read s.data s.processed)

structure Thorough (E : Endpoint κ σ) (whole : κ → Nat → List UInt8 → Prop) : Prop where
  call : ∀ q s (m : Memory UInt8), (E.slot s).id = 0 → ∃ s' next p bs,
    E.call q s = (true, s', armed q ((E.slot s).counter + 1) ++
      (storesFrom p bs ++ next.effects (E.slot s') ⟨q.kind, (E.slot s).counter + 1⟩)) ∧
    E.slot s' = { (E.slot s).opened q with processed := (E.slot s').processed, id := next.id ((E.slot s).counter + 1) } ∧
    Strives whole q.kind (E.slot s') (m.write p bs) next
  resume : ∀ c err n m s, c.id = (E.slot s).id → ∃ s' next p bs,
    E.resume c err n m s = (s', storesFrom p bs ++ next.effects (E.slot s') c) ∧
    E.slot s' = { E.slot s with processed := (E.slot s').processed, id := next.id c.id } ∧
    Strives whole c.kind (E.slot s') (m.write p bs) next ∧
    ((∀ err', next ≠ .done err') → (E.slot s').processed = (E.slot s).processed + n ∧
      (E.slot s').processed < (E.slot s).requestedSize ∧ (∀ count, next = .postCont count → 0 < count) ∧ err.failed = false)

namespace World
variable {κ σ : Type} {E : Endpoint κ σ} {single : κ → Bool} {whole : κ → Nat → List UInt8 → Prop} {w w' : World κ σ}
  {e : Event κ}

theorem call_thorough (thorough : Thorough E whole) (q : Request κ) (idle : (E.slot w.self).id = 0) :
    ∃ s' next p bs, Strives whole q.kind (E.slot s') (w.memory.write p bs) next ∧
      E.slot s' = { (E.slot w.self).opened q with
        processed := (E.slot s').processed, id := next.id ((E.slot w.self).counter + 1) } ∧
      w.call E q =
        ((({ w with accepted := w.accepted ++ [q],
                    counts := w.counts ++ [((E.slot w.self).counter + 1, E.taken q w.self)],
                    self := s' } : World κ σ).arm q ((E.slot w.self).counter + 1)).stored p bs).conclude (E.slot s')
          ⟨q.kind, (E.slot w.self).counter + 1⟩ next false := by
  obtain ⟨s', next, p, bs, eq, slot, strives⟩ := thorough.call q w.self w.memory idle
  refine ⟨s', next, p, bs, strives, slot, ?_⟩
  have counter : (E.slot s').counter = (E.slot w.self).counter + 1 := by
    rw [slot]
    rfl
  unfold call
  simp only [eq, ↓reduceIte, counter]
  rw [after_turn rfl]

theorem resume_thorough (thorough : Thorough E whole) {c : Cont κ} (err : ErrorCode) (n : Nat)
    (current : c.id = (E.slot w.self).id) :
    ∃ s' next p bs, Strives whole c.kind (E.slot s') (w.memory.write p bs) next ∧
      E.slot s' = { E.slot w.self with processed := (E.slot s').processed, id := next.id c.id } ∧
      ((∀ err', next ≠ .done err') → (E.slot s').processed = (E.slot w.self).processed + n ∧
        (E.slot s').processed < (E.slot w.self).requestedSize ∧ (∀ count, next = .postCont count → 0 < count) ∧
        err.failed = false) ∧
      w.resume E c err n =
        (({ w with counts := w.counts ++ [(c.id, E.counted c n w.memory w.self)],
                   self := s' } : World κ σ).stored p bs).conclude (E.slot s') c next false := by
  obtain ⟨s', next, p, bs, eq, slot, strives, goesOn⟩ := thorough.resume c err n w.memory w.self current
  refine ⟨s', next, p, bs, strives, slot, goesOn, ?_⟩
  unfold resume
  rw [eq, after_turn_resumed rfl]

/-- A step, with the continuations taken together. -/
inductive Stepped (E : Endpoint κ σ) (w : World κ σ) : Event κ → World κ σ → Prop where
  | call (q : Request κ) : Stepped E w (.call q) (w.call E q)
  | move (i : Nat) (op : Op κ) (bytes : List UInt8) : w.ops[i]? = some op → op.moved = none →
      Stepped E w (.move i bytes) (w.move E i op bytes)
  | resume (e : Event κ) (c : Cont κ) (err : ErrorCode) (n : Nat) (v : World κ σ) : Taken E w e c err n v →
      Stepped E w e (v.resume E c err n)
  | expire : Stepped E w .expire { w with fired := w.fired ++ w.waits.map (·, .success), waits := [] }
  | timer (i : Nat) (id : UInt32) (err : ErrorCode) : w.fired[i]? = some (id, err) →
      Stepped E w (.timer i) (after E true { w with fired := w.fired.eraseIdx i } (E.timeoutReached id err w.self))

theorem stepped (taken : w.step E e = some w') : Stepped E w e w' := by
  cases step_cases taken with
  | call q => exact .call q
  | move i op bytes found unmoved => exact .move i op bytes found unmoved
  | complete i op bytes err found moved =>
    obtain ⟨v, from_, eq⟩ := handle_taken (E := E) found moved err
    rw [eq]
    exact .resume _ _ _ _ v from_
  | deliver i p found => exact .resume _ _ _ _ _ (.deliver i p found)
  | expire => exact .expire
  | timer i id err found => exact .timer i id err found

/-! ### The primitive that a continuation belongs to -/

theorem Sound.counter (sound : Sound E single w) : (E.slot w.self).counter.toNat = w.accepted.length := by
  rcases sound.phase with idle | ⟨⟨_, holds⟩, _⟩
  · exact idle.counter
  · exact holds.counter

/-- The request that an id was given to. -/
def request (w : World κ σ) (id : UInt32) : Option (Request κ) := w.accepted[id.toNat - 1]?

/-- Every continuation under way is one of its request's primitive. -/
def Bound (w : World κ σ) : Prop := ∀ c ∈ w.conts, ∃ q, w.request c.id = some q ∧ c.kind = q.kind

/-- The end of a turn adds a continuation of the turn's own. -/
theorem of_mem_conclude (s : Slot) (c : Cont κ) (next : Next) (expired : Bool) (v : World κ σ) :
    ∀ c' ∈ (v.conclude s c next expired).conts, c' ∈ v.conts ∨ c' = c := by
  obtain ⟨ops, queue, posts, log, eq, added, posted⟩ := v.conclude_adds s c next expired
  rw [eq]
  simp only [conts, List.map_append, List.mem_append, List.mem_map]
  rintro c' ((old | ⟨op, member, rfl⟩) | (old | ⟨p, member, rfl⟩))
  · exact Or.inl (Or.inl old)
  · obtain ⟨count, dump, _, rfl⟩ := added op member
    exact Or.inr rfl
  · exact Or.inl (Or.inr old)
  · obtain ⟨count, _, rfl⟩ := posted p member
    exact Or.inr rfl

theorem step_bound (lawful : Lawful E single) (sound : Sound E single w) (bound : w.Bound) (taken : w.step E e = some w')
    (bounded : w'.accepted.length < 2 ^ 32) : w'.Bound := by
  have timed : ∀ f ∈ w.fired, f.1 ≠ 0 := fun f member => (sound.filed.fired f member).ne_zero
  cases step_action lawful timed taken with
  | refused => exact bound
  | expired => exact bound
  | timedOut => exact bound
  | late => exact bound
  | moved i op bytes found =>
    intro c member
    rw [conts_move found] at member
    exact bound c member
  | opened q s' next p bs c idle same =>
    have number : c.id.toNat = w.accepted.length + 1 := by
      rw [same]
      exact counter_next sound.counter (by simpa [stored] using bounded)
    intro c' member
    simp only [request, conclude_accepted, stored, arm_accepted]
    rcases of_mem_conclude _ _ _ _ _ c' member with old | rfl
    · obtain ⟨q', found, kind⟩ := bound c' (by simpa [conts, stored] using old)
      exact ⟨q', getElem?_of_prefix (List.prefix_append ..) found, kind⟩
    · exact ⟨q, by simp [number], by rw [same]⟩
  | resumed e c err n v s' next p bs from_ current =>
    have accepted : v.accepted = w.accepted := by cases from_ <;> rfl
    intro c' member
    simp only [request, conclude_accepted, stored, accepted]
    rcases of_mem_conclude _ _ _ _ _ c' member with old | rfl
    · exact bound c' (from_.left c' old)
    · exact bound c' from_.under
  | ignored e c err n v from_ =>
    have accepted : v.accepted = w.accepted := by cases from_ <;> rfl
    intro c' member
    simp only [request, accepted]
    exact bound c' (from_.left c' member)

/-! ### Answers -/

/-- A callback without an error that no timer posted answers its request in full. -/
def Answered (whole : κ → Nat → List UInt8 → Prop) (w : World κ σ) : Prop :=
  ∀ (i : Nat) (p : Post), w.posts[i]? = some p → p.expired = false → p.err.failed = false →
    ∃ q, w.accepted[i]? = some q ∧ p.bytes.length = p.count ∧ whole q.kind q.size p.bytes

section Answers
variable {v : World κ σ}

theorem Answered.kept (h : Answered whole w) (posts : v.posts = w.posts) (accepted : w.accepted <+: v.accepted) :
    Answered whole v := by
  intro i p found timely success
  rw [posts] at found
  obtain ⟨q, known, count, full⟩ := h i p found timely success
  exact ⟨q, getElem?_of_prefix accepted known, count, full⟩

theorem Answered.post {p : Post} (h : Answered whole w) (posts : v.posts = w.posts ++ [p]) (accepted : w.accepted <+: v.accepted)
    (new : p.expired = false → p.err.failed = false →
      ∃ q, v.accepted[w.posts.length]? = some q ∧ p.bytes.length = p.count ∧ whole q.kind q.size p.bytes) :
    Answered whole v := by
  intro i p' found timely success
  rw [posts] at found
  rcases concat_getElem? found with old | ⟨rfl, rfl⟩
  · have kept : Answered whole { v with posts := w.posts } := h.kept rfl accepted
    exact kept i p' old timely success
  · exact new timely success

/-- The end of a turn of `c`, for the request `q`. -/
theorem conclude_answered {s : Slot} {c : Cont κ} {next : Next} {q : Request κ} (h : Answered whole w)
    (strives : Strives whole c.kind s w.memory next) (kind : c.kind = q.kind) (size : s.requestedSize = q.size)
    (last : w.accepted[w.posts.length]? = some q) : Answered whole (w.conclude s c next false) := by
  have same : w.accepted <+: (w.conclude s c next false).accepted := by simp
  cases next with
  | transfer count dump => exact h.kept rfl same
  | postCont count => exact h.kept rfl same
  | done err =>
    by_cases zero : c.id = 0
    · rw [conclude_zero _ _ _ _ zero]
      exact h
    · rw [conclude_callback _ _ _ _ zero] at same ⊢
      refine h.post rfl same fun _ success => ⟨q, last, Memory.read_length .., ?_⟩
      have full := strives.done err rfl success
      rw [kind, size] at full
      exact full

theorem call_answered (lawful : Lawful E single) (thorough : Thorough E whole) (sound : Sound E single w)
    (h : Answered whole w) (q : Request κ) : Answered whole (w.call E q) := by
  by_cases idle : (E.slot w.self).id = 0
  · have settled := sound.settled_iff.mpr idle
    obtain ⟨s', next, p, bs, strives, slot, eq⟩ := call_thorough thorough q idle
    rw [eq]
    refine conclude_answered (q := q) (h.kept ?_ ?_) ?_ rfl ?_ ?_
    · simp [stored]
    · simp [stored]
    · simpa [stored] using strives
    · rw [slot]
      rfl
    · simp [stored, show w.posts.length = w.accepted.length from settled.symm]
  · have refused : w.call E q = w := by
      unfold call
      rw [lawful.call_busy q w.self idle]
      rfl
    rwa [refused]

theorem resume_answered {c : Cont κ} {err : ErrorCode} {n : Nat} (lawful : Lawful E single) (thorough : Thorough E whole)
    (sound : Sound E single w) (bound : w.Bound) (h : Answered whole w) (from_ : Taken E w e c err n v) :
    Answered whole (v.resume E c err n) := by
  have slot := from_.slot lawful
  have same : v.accepted = w.accepted ∧ v.posts = w.posts := by cases from_ <;> exact ⟨rfl, rfl⟩
  obtain ⟨accepted, posts⟩ := same
  have before : Answered whole v := h.kept posts (accepted ▸ List.prefix_refl _)
  by_cases current : c.id = (E.slot w.self).id
  · have issued := sound.filed.conts c from_.under
    obtain ⟨⟨q, holds⟩, served⟩ : (∃ q, w.Holds (E.slot w.self) q) ∧ w.Served single (E.slot w.self) := by
      rcases sound.phase with idle | busy
      · exact (issued.ne_zero (current.trans idle.id)).elim
      · exact busy
    obtain ⟨q', found, kind⟩ := bound c from_.under
    have index : c.id.toNat - 1 = w.posts.length := by
      rw [current, served.id, holds.counter, holds.open_]
      rfl
    obtain rfl : q' = q := by
      rw [request, index, holds.last] at found
      exact (Option.some.inj found).symm
    obtain ⟨s', next, p, bs, strives, slot', _, eq⟩ := resume_thorough (w := v) thorough err n (by rw [slot, current])
    rw [eq]
    refine conclude_answered (q := q') (before.kept rfl (List.prefix_refl _)) strives kind ?_ ?_
    · rw [slot', slot]
      exact holds.size
    · simp only [stored]
      rw [accepted, posts, holds.last]
  · unfold resume
    rw [lawful.resume_stale c err n v.memory v.self (by rw [slot]; exact current)]
    exact before.kept rfl (List.prefix_refl _)

theorem step_answered (lawful : Lawful E single) (thorough : Thorough E whole) (sound : Sound E single w) (bound : w.Bound)
    (h : Answered whole w) (taken : w.step E e = some w') : Answered whole w' := by
  cases stepped taken with
  | call q => exact call_answered lawful thorough sound h q
  | move => exact h.kept rfl (List.prefix_refl _)
  | resume e c err n v from_ => exact resume_answered lawful thorough sound bound h from_
  | expire => exact h.kept rfl (List.prefix_refl _)
  | timer i id err found =>
    by_cases current : id = (E.slot w.self).id
    · subst current
      have busy := (sound.filed.fired _ (List.mem_of_getElem? found)).ne_zero
      obtain ⟨s', eq, _⟩ := lawful.timeout_current err w.self busy
      rw [eq]
      exact h.post rfl (List.prefix_refl _) nofun
    · rw [lawful.timeout_stale id err w.self current]
      exact h.kept rfl (List.prefix_refl _)

theorem reachable_answered {s : σ} {m : Memory UInt8} {es : List (Event κ)} (lawful : Lawful E single)
    (thorough : Thorough E whole) (counter : (E.slot s).counter = 0) (id : (E.slot s).id = 0)
    (run : Steps (World.step E) Always { self := s, memory := m } es w) (bounded : w.accepted.length < 2 ^ 32) :
    Answered whole w := by
  have start : Sound E single { self := s, memory := m } := reachable_sound lawful counter id .refl (by simp)
  refine (run.invariant (P := fun w => w.accepted.length < 2 ^ 32 → Sound E single w ∧ w.Bound ∧ Answered whole w)
    (fun _ => ⟨start, nofun, nofun⟩) (fun w e w' ih _ taken bounded => ?_) bounded).2.2
  obtain ⟨sound, bound, answered⟩ := ih (Nat.lt_of_le_of_lt (step_accepted taken) bounded)
  exact ⟨step_sound lawful sound taken bounded, step_bound lawful sound bound taken bounded,
    step_answered lawful thorough sound bound answered taken⟩

end Answers

end World

end RtacAsio
