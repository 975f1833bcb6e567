import RtacAsio.Request.Steps

/-!
Inversion of the steps of a lawful endpoint: a call is refused or opens a request, a handler
belongs to the request in progress or is ignored.
-/

namespace RtacAsio
open Lib

namespace World
variable {κ σ : Type} {E : Endpoint κ σ} {single : κ → Bool} {w w' : World κ σ} {e : Event κ}

/-- The continuations under way: in the stream or in the service's queue. -/
def conts (w : World κ σ) : List (Cont κ) := w.ops.map (·.handler.cont) ++ w.queue.map Posted.cont

theorem cont_of_op {op : Op κ} (member : op ∈ w.ops) : op.handler.cont ∈ w.conts :=
  List.mem_append_left _ (List.mem_map_of_mem member)

theorem cont_of_posted {p : Posted κ} (member : p ∈ w.queue) : p.cont ∈ w.conts :=
  List.mem_append_right _ (List.mem_map_of_mem member)

theorem conts_eraseIdx {i : Nat} {op : Op κ} (found : w.ops[i]? = some op) :
    w.conts.Perm (op.handler.cont :: conts { w with ops := w.ops.eraseIdx i }) := by
  obtain ⟨inside, rfl⟩ := List.getElem?_eq_some_iff.mp found
  have split := ((List.getElem_cons_eraseIdx_perm inside).symm.map (·.handler.cont)).append_right
    (w.queue.map Posted.cont)
  simpa [conts] using split

theorem distinct_iff {cs cs' : List (Cont κ)} {c : Cont κ} (perm : cs.Perm (c :: cs')) :
    (cs.map Cont.id).Nodup ↔ (∀ c' ∈ cs', c'.id ≠ c.id) ∧ (cs'.map Cont.id).Nodup := by
  rw [(perm.map Cont.id).nodup_iff, List.map_cons, List.nodup_cons]
  apply and_congr_left'
  simp

/-- The continuation `c` is taken off the stream or out of the queue to run with `err` and
`count`; `v` is what is left. -/
inductive Taken (E : Endpoint κ σ) (w : World κ σ) : Event κ → Cont κ → ErrorCode → Nat → World κ σ → Prop where
  | complete (i : Nat) (op : Op κ) (bytes : List UInt8) (err : ErrorCode) (s : σ) : w.ops[i]? = some op →
      op.moved = some bytes → (s = w.self ∨ ∃ d, s = E.setDump d w.self) →
      Taken E w (.complete i err) op.handler.cont err bytes.length { w with ops := w.ops.eraseIdx i, self := s }
  | deliver (i : Nat) (p : Posted κ) : w.queue[i]? = some p →
      Taken E w (.deliver i) p.cont p.err p.count { w with queue := w.queue.eraseIdx i }

inductive Action (E : Endpoint κ σ) (single : κ → Bool) (w : World κ σ) : Event κ → World κ σ → Prop where
  | refused (q : Request κ) : (E.slot w.self).id ≠ 0 → Action E single w (.call q) w
  | opened (q : Request κ) (s' : σ) (next : Next) (p : Nat) (bs : List UInt8) (c : Cont κ) :
      (E.slot w.self).id = 0 → c = ⟨q.kind, (E.slot w.self).counter + 1⟩ →
      E.slot s' = { (E.slot w.self).opened q with processed := E.taken q w.self, id := next.id c.id } →
      (single q.kind = true → E.taken q w.self = 0) → (∀ err, next = .done err → err = .success) →
      (E.direction = .output → bs = [] ∧ next.Writes (E.slot s')) →
      Action E single w (.call q)
        ((({ w with accepted := w.accepted ++ [q], counts := w.counts ++ [(c.id, E.taken q w.self)],
                    self := s' } : World κ σ).arm q c.id).stored p bs |>.conclude (E.slot s') c next false)
  | moved (i : Nat) (op : Op κ) (bytes : List UInt8) : w.ops[i]? = some op → op.moved = none →
      (E.direction = .output → w.memory.read op.data bytes.length = bytes) →
      Action E single w (.move i bytes) (w.move E i op bytes)
  | resumed (e : Event κ) (c : Cont κ) (err : ErrorCode) (count : Nat) (v : World κ σ) (s' : σ) (next : Next)
      (p : Nat) (bs : List UInt8) : Taken E w e c err count v → c.id = (E.slot w.self).id →
      E.slot s' = { E.slot w.self with processed := (E.slot s').processed, id := next.id c.id } →
      ((single c.kind = true → (E.slot w.self).processed = 0) →
        (E.slot s').processed = (E.slot w.self).processed + E.counted c count v.memory v.self) →
      (single c.kind = true → next = .done err) → (∀ err', next = .done err' → err' = err) →
      (E.direction = .output → bs = [] ∧ next.Writes (E.slot s')) →
      Action E single w e
        ((({ v with counts := v.counts ++ [(c.id, E.counted c count v.memory v.self)],
                    self := s' } : World κ σ).stored p bs).conclude (E.slot s') c next false)
  | ignored (e : Event κ) (c : Cont κ) (err : ErrorCode) (count : Nat) (v : World κ σ) : Taken E w e c err count v →
      c.id ≠ (E.slot w.self).id →
      Action E single w e { v with counts := v.counts ++ [(c.id, E.counted c count v.memory v.self)] }
  | expired : Action E single w .expire { w with fired := w.fired ++ w.waits.map (·, .success), waits := [] }
  | timedOut (i : Nat) (err : ErrorCode) (s' : σ) : w.fired[i]? = some ((E.slot w.self).id, err) →
      (E.slot w.self).id ≠ 0 → E.slot s' = { E.slot w.self with waiterNotified := true, id := 0 } →
      Action E single w (.timer i)
        { w with
          fired := w.fired.eraseIdx i
          self := s'
          posts := w.posts ++ [⟨(E.slot w.self).callback, .success, (E.slot w.self).processed,
            w.memory.read (E.slot w.self).data (E.slot w.self).processed, true⟩]
          log := w.log ++ [.post (E.slot w.self).callback .success (E.slot w.self).processed] }
  | late (i : Nat) (id : UInt32) (err : ErrorCode) : w.fired[i]? = some (id, err) → id ≠ (E.slot w.self).id →
      Action E single w (.timer i) { w with fired := w.fired.eraseIdx i }

section Handlers
variable {c : Cont κ} {err : ErrorCode} {count : Nat} {v : World κ σ}

theorem Taken.slot (lawful : Lawful E single) (h : Taken E w e c err count v) :
    E.slot v.self = E.slot w.self := by
  cases h with
  | complete i op bytes err s found moved dumped =>
    rcases dumped with rfl | ⟨d, rfl⟩
    · rfl
    · exact lawful.setDump_slot d w.self
  | deliver => rfl

theorem Taken.perm (h : Taken E w e c err count v) : (conts w).Perm (c :: conts v) := by
  cases h with
  | complete i op bytes err s found => exact conts_eraseIdx found
  | deliver i p found =>
    obtain ⟨inside, rfl⟩ := List.getElem?_eq_some_iff.mp found
    have split := ((List.getElem_cons_eraseIdx_perm inside).symm.map Posted.cont).append_left
      (w.ops.map (·.handler.cont))
    exact split.trans List.perm_middle

theorem Taken.under (h : Taken E w e c err count v) : c ∈ w.conts :=
  h.perm.mem_iff.mpr (List.mem_cons_self ..)

theorem Taken.left (h : Taken E w e c err count v) : ∀ c' ∈ v.conts, c' ∈ w.conts :=
  fun _ member => h.perm.mem_iff.mpr (List.mem_cons_of_mem c member)

theorem Taken.ops (h : Taken E w e c err count v) : v.ops.Sublist w.ops := by
  cases h with
  | complete => exact List.eraseIdx_sublist ..
  | deliver => exact List.Sublist.refl _

theorem Taken.queue (h : Taken E w e c err count v) : v.queue.Sublist w.queue := by
  cases h with
  | complete => exact List.Sublist.refl _
  | deliver => exact List.eraseIdx_sublist ..

theorem Taken.memory (h : Taken E w e c err count v) : v.memory = w.memory := by
  cases h <;> rfl

theorem Taken.posts (h : Taken E w e c err count v) : v.posts = w.posts := by
  cases h <;> rfl

theorem resume_action (lawful : Lawful E single) (h : Taken E w e c err count v) :
    Action E single w e (v.resume E c err count) := by
  have same := h.slot lawful
  by_cases current : c.id = (E.slot w.self).id
  · obtain ⟨s', next, turn, eq, ⟨slot, p, bs, effects, silent⟩, ends, adds, code⟩ :=
      lawful.resume_current c err count v.memory v.self (by rw [same, current])
    rw [same] at slot adds
    unfold resume
    rw [eq, effects, after_turn_resumed rfl]
    exact .resumed e c err count v s' next p bs h current slot adds ends code silent
  · have refused := lawful.resume_stale c err count v.memory v.self (by rw [same]; exact current)
    unfold resume
    rw [refused]
    exact .ignored e c err count v h current

theorem dumpCallback_cases (data : Nat) (err : ErrorCode) (count : Nat) (m : Memory UInt8) (s : σ) :
    E.dumpCallback data err count m s = s ∨ ∃ d, E.dumpCallback data err count m s = E.setDump d s := by
  unfold Endpoint.dumpCallback
  split
  · exact Or.inl rfl
  · split
    · exact Or.inl rfl
    · exact Or.inr ⟨_, rfl⟩

/-- `dump_callback` runs the continuation on an object that differs in its dump file only. -/
theorem handle_taken {i : Nat} {op : Op κ} {bytes : List UInt8} (found : w.ops[i]? = some op)
    (moved : op.moved = some bytes) (err : ErrorCode) :
    ∃ v, Taken E w (.complete i err) op.handler.cont err bytes.length v ∧
      handle E op.handler err bytes.length { w with ops := w.ops.eraseIdx i } =
        v.resume E op.handler.cont err bytes.length := by
  unfold handle
  split
  · exact ⟨_, .complete i op bytes err w.self found moved (Or.inl rfl), rfl⟩
  · exact ⟨_, .complete i op bytes err _ found moved (dumpCallback_cases ..), rfl⟩

theorem handle_action (lawful : Lawful E single) {i : Nat} {op : Op κ} {bytes : List UInt8}
    (found : w.ops[i]? = some op) (moved : op.moved = some bytes) :
    Action E single w (.complete i err)
      (handle E op.handler err bytes.length { w with ops := w.ops.eraseIdx i }) := by
  obtain ⟨v, from_, eq⟩ := handle_taken (E := E) found moved err
  rw [eq]
  exact resume_action lawful from_

end Handlers

theorem call_action (lawful : Lawful E single) (q : Request κ) : Action E single w (.call q) (w.call E q) := by
  by_cases idle : (E.slot w.self).id = 0
  · obtain ⟨s', next, turn, eq, ⟨slot, p, bs, effects, silent⟩, processed, single, code⟩ :=
      lawful.call_idle q w.self idle
    have counter : (E.slot s').counter = (E.slot w.self).counter + 1 := by rw [slot]; rfl
    unfold call
    simp only [eq, ↓reduceIte, counter]
    rw [effects, after_turn rfl]
    exact .opened q s' next p bs _ idle rfl (by rw [← processed]; exact slot) single code silent
  · unfold call
    rw [lawful.call_busy q w.self idle]
    exact .refused q idle

theorem step_action_of (lawful : Lawful E single) (taken : w.step E e = some w')
    (timed : ∀ i err, e = .timer i → w.fired[i]? = some ((E.slot w.self).id, err) → (E.slot w.self).id ≠ 0) :
    Action E single w e w' := by
  cases step_cases taken with
  | call q => exact call_action lawful q
  | move i op bytes found unmoved output => exact .moved i op bytes found unmoved output
  | complete i op bytes err found moved => exact handle_action lawful found moved
  | deliver i p found => exact resume_action lawful (.deliver i p found)
  | expire => exact .expired
  | timer i id err found =>
    by_cases current : id = (E.slot w.self).id
    · subst current
      have busy := timed i err rfl found
      obtain ⟨s', eq, slot⟩ := lawful.timeout_current err w.self busy
      have data : (E.slot s').data = (E.slot w.self).data := by rw [slot]
      rw [eq]
      simp only [after, List.foldl_cons, List.foldl_nil, perform, data]
      exact .timedOut i err s' found busy slot
    · rw [lawful.timeout_stale id err w.self current]
      exact .late i id err found current

theorem step_action (lawful : Lawful E single) (timed : ∀ f ∈ w.fired, f.1 ≠ 0) (taken : w.step E e = some w') :
    Action E single w e w' :=
  step_action_of lawful taken fun _ _ _ found => timed _ (List.mem_of_getElem? found)

/-! ### Handlers that come late -/

/-- The event runs a handler that this id is bound to. -/
def Runs (w : World κ σ) : Event κ → UInt32 → Prop
  | .complete i _, id => ∃ op, w.ops[i]? = some op ∧ op.id = id
  | .deliver i, id => ∃ p, w.queue[i]? = some p ∧ p.cont.id = id
  | .timer i, id => ∃ err, w.fired[i]? = some (id, err)
  | _, _ => False

/-- The object is the same but for its dump file, and nothing was done outside of it. -/
structure Ignored (E : Endpoint κ σ) (w w' : World κ σ) : Prop where
  object : E.setDump none w'.self = E.setDump none w.self
  memory : w'.memory = w.memory
  posts : w'.posts = w.posts
  log : w'.log = w.log

theorem Taken.runs {c : Cont κ} {err : ErrorCode} {count : Nat} {v : World κ σ} {id : UInt32}
    (h : Taken E w e c err count v) (runs : w.Runs e id) : c.id = id := by
  cases h with
  | complete i op bytes err s found =>
    obtain ⟨op', found', same⟩ := runs
    obtain rfl : op = op' := Option.some.inj (found.symm.trans found')
    exact same
  | deliver i p found =>
    obtain ⟨p', found', same⟩ := runs
    obtain rfl : p = p' := Option.some.inj (found.symm.trans found')
    exact same

theorem Taken.ignored {c : Cont κ} {err : ErrorCode} {count : Nat} {v : World κ σ} (lawful : Lawful E single)
    (h : Taken E w e c err count v) : Ignored E w v := by
  cases h with
  | complete i op bytes err s found moved dumped =>
    refine ⟨?_, rfl, rfl, rfl⟩
    rcases dumped with rfl | ⟨d, rfl⟩
    · rfl
    · exact lawful.setDump_setDump none d w.self
  | deliver => exact ⟨rfl, rfl, rfl, rfl⟩

/-- A handler of a request that is not in progress is ignored. -/
theorem ignored_of_stale {id : UInt32} (lawful : Lawful E single) (timed : ∀ f ∈ w.fired, f.1 ≠ 0)
    (taken : w.step E e = some w') (runs : w.Runs e id) (stale : id ≠ (E.slot w.self).id) : Ignored E w w' := by
  cases step_action lawful timed taken with
  | refused => exact runs.elim
  | opened => exact runs.elim
  | moved => exact runs.elim
  | expired => exact runs.elim
  | resumed e c err count v s' next p bs from_ current => exact (stale ((from_.runs runs).symm.trans current)).elim
  | ignored e c err count v from_ =>
    obtain ⟨object, memory, posts, log⟩ := from_.ignored lawful
    exact ⟨object, memory, posts, log⟩
  | timedOut i err s' found =>
    obtain ⟨err', found'⟩ := runs
    obtain ⟨same, _⟩ := Prod.mk.inj (Option.some.inj (found.symm.trans found'))
    exact (stale same.symm).elim
  | late => exact ⟨rfl, rfl, rfl, rfl⟩

end World

end RtacAsio
