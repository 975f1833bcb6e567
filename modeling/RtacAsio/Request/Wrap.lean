import RtacAsio.Request.Action

/-!
Requests without a bound on their number, so that the id counter wraps around: what a request
whose id is not 0 can rely on.
-/

namespace RtacAsio
open Lib

/-- The id that an effect binds into a timer's handler or a continuation. -/
def Effect.boundId : Effect κ → Option UInt32
  | .arm _ id => some id
  | .transfer _ _ handler => some handler.cont.id
  | .postCont cont _ _ => some cont.id
  | _ => none

/-- The id that `new_read` or `new_write` gives to the request. -/
def newId (E : Endpoint κ σ) (w : World κ σ) (q : Request κ) : UInt32 := ((E.slot w.self).newRequest q).2.1.id

/-- No request gets the id 0, which stands for no request. -/
def Numbered (E : Endpoint κ σ) (w : World κ σ) (e : Event κ) : Prop := e.OnCall fun q => newId E w q ≠ 0

instance (E : Endpoint κ σ) (w : World κ σ) (e : Event κ) : Decidable (Numbered E w e) :=
  inferInstanceAs (Decidable (Event.OnCall _ _))

/-- The accepted request `q` keeps the object busy until it is called back. -/
structure KeptBusy (E : Endpoint κ σ) (w : World κ σ) (q : Request κ) : Prop where
  busy : newId E w q ≠ 0
  refused : ∀ es (v : World κ σ) q', Steps (World.step E) Always (w.call E q) es v → v.posts = w.posts → (E.call q' v.self).1 = false
  /-- No handler made since the preceding request `q'` was issued has the same id. -/
  fresh : ∀ es (v : World κ σ) q', (E.slot v.self).id = 0 → Steps (World.step E) Always (v.call E q') es w →
    w.accepted = v.accepted ++ [q'] → ∀ e ∈ w.log.drop v.log.length, e.boundId ≠ some (newId E w q)
  /-- A continuation that leaves none under way for the request calls it back. -/
  answered : ∀ es (v : World κ σ) e v', Steps (World.step E) Always (w.call E q) es v → v.posts = w.posts → v.step E e = some v' →
    (∀ i, e ≠ .timer i) → v.Runs e (newId E w q) → (∀ c ∈ v'.conts, c.id ≠ newId E w q) →
    ∃ p, v'.posts = v.posts ++ [p] ∧ p.callback = q.callback

/-- In an idle object, a timer that the id 0 is bound to only raises the waiter's flag. -/
structure LawfulIdle (E : Endpoint κ σ) (single : κ → Bool) : Prop extends Lawful E single where
  timeout_idle : ∀ err s, (E.slot s).id = 0 →
    ∃ s', E.timeoutReached 0 err s = (s', []) ∧ E.slot s' = { E.slot s with waiterNotified := true }

namespace World
variable {κ σ : Type} {E : Endpoint κ σ} {single : κ → Bool} {w w' : World κ σ} {e : Event κ}

/-- The step of a timer of the id 0 that finds the object idle. -/
def Flagged (E : Endpoint κ σ) (w : World κ σ) (e : Event κ) (w' : World κ σ) : Prop :=
  ∃ i err s', e = .timer i ∧ w.fired[i]? = some (0, err) ∧ (E.slot w.self).id = 0 ∧
    E.slot s' = { E.slot w.self with waiterNotified := true } ∧ w' = { w with fired := w.fired.eraseIdx i, self := s' }

theorem step_action_or_flagged (lawful : LawfulIdle E single) (taken : w.step E e = some w') :
    Action E single w e w' ∨ Flagged E w e w' := by
  by_cases zero : ∃ i err, e = .timer i ∧ w.fired[i]? = some (0, err) ∧ (E.slot w.self).id = 0
  · obtain ⟨i, err, rfl, found, idle⟩ := zero
    right
    obtain ⟨s', eq, slot⟩ := lawful.timeout_idle err w.self idle
    refine ⟨i, err, s', rfl, found, idle, slot, ?_⟩
    simp only [step, found, eq] at taken
    exact (Option.some.inj taken).symm
  · left
    refine step_action_of lawful.toLawful taken fun i err timer found idle => zero ⟨i, err, timer, ?_, idle⟩
    rw [found, idle]

/-! ### Callbacks posted so far -/

theorem conclude_posts_prefix (s : Slot) (c : Cont κ) (next : Next) (expired : Bool) (w : World κ σ) :
    w.posts <+: (w.conclude s c next expired).posts := by
  cases next with
  | done err =>
    simp only [conclude]
    split
    · exact List.prefix_refl _
    · exact List.prefix_append ..
  | _ => exact List.prefix_refl _

theorem Action.posts_prefix (h : Action E single w e w') : w.posts <+: w'.posts := by
  cases h with
  | opened q s' next p bs c =>
    have before := conclude_posts_prefix (E.slot s') c next false
      ((({ w with accepted := w.accepted ++ [q], counts := w.counts ++ [(c.id, E.taken q w.self)],
                  self := s' } : World κ σ).arm q c.id).stored p bs)
    simpa [stored] using before
  | resumed e c err count v s' next p bs from_ =>
    have before := conclude_posts_prefix (E.slot s') c next false
      (({ v with counts := v.counts ++ [(c.id, E.counted c count v.memory v.self)], self := s' } : World κ σ).stored p bs)
    rw [← from_.posts]
    exact before
  | ignored e c err count v from_ =>
    have same : v.posts = w.posts := from_.posts
    exact same ▸ List.prefix_refl _
  | timedOut => exact List.prefix_append ..
  | _ => exact List.prefix_refl _

theorem step_posts_prefix (lawful : LawfulIdle E single) (taken : w.step E e = some w') : w.posts <+: w'.posts := by
  rcases step_action_or_flagged lawful taken with action | ⟨i, err, s', _, _, _, _, rfl⟩
  · exact action.posts_prefix
  · exact List.prefix_refl _

/-! ### The request in progress -/

/-- Without a callback, the request in progress stays in progress. -/
theorem step_keeps (lawful : LawfulIdle E single) (taken : w.step E e = some w') (busy : (E.slot w.self).id ≠ 0)
    (quiet : w'.posts = w.posts) :
    (E.slot w'.self).id = (E.slot w.self).id ∧ (E.slot w'.self).callback = (E.slot w.self).callback := by
  rcases step_action_or_flagged lawful taken with action | ⟨_, _, _, _, _, idle, _⟩
  · cases action with
    | opened q s' next p bs c idle => exact (busy idle).elim
    | resumed e c err count v s' next p bs from_ current slot =>
      have nonzero : c.id ≠ 0 := by rwa [current]
      rw [conclude_self, stored_self, slot]
      cases next with
      | done err' => simp [conclude, stored, nonzero, from_.posts] at quiet
      | _ => exact ⟨current, rfl⟩
    | ignored e c err count v from_ =>
      have same := from_.slot lawful.toLawful
      exact ⟨congrArg Slot.id same, congrArg Slot.callback same⟩
    | timedOut => simp at quiet
    | _ => exact ⟨rfl, rfl⟩
  · exact (busy idle).elim

/-- A continuation of the request in progress goes on with the request or calls it back. -/
theorem step_answers (lawful : LawfulIdle E single) (taken : w.step E e = some w') (busy : (E.slot w.self).id ≠ 0)
    (handler : ∀ i, e ≠ .timer i) (runs : w.Runs e (E.slot w.self).id)
    (last : ∀ c ∈ w'.conts, c.id ≠ (E.slot w.self).id) :
    ∃ p, w'.posts = w.posts ++ [p] ∧ p.callback = (E.slot w.self).callback := by
  rcases step_action_or_flagged lawful taken with action | ⟨i, _, _, rfl, _⟩
  · cases action with
    | resumed e c err count v s' next p bs from_ current slot =>
      have nonzero : c.id ≠ 0 := by rwa [current]
      cases next with
      | done err' =>
        rw [conclude_callback _ err' false _ nonzero]
        simp only [stored, from_.posts]
        exact ⟨_, rfl, by rw [slot]⟩
      | transfer => exact (last c (by simp [conclude, conts]) current).elim
      | postCont => exact (last c (by simp [conclude, conts]) current).elim
    | ignored e c err count v from_ stale => exact (stale (from_.runs runs)).elim
    | timedOut i => exact (handler i rfl).elim
    | late i => exact (handler i rfl).elim
    | _ => exact runs.elim
  · exact (handler i rfl).elim

/-- The request of the id `id` is in progress, or there is one callback more than `posts`. -/
structure Keeps (E : Endpoint κ σ) (id : UInt32) (callback : Callback) (posts : List Post) (w : World κ σ) : Prop where
  since : posts <+: w.posts
  held : w.posts = posts → (E.slot w.self).id = id ∧ (E.slot w.self).callback = callback

theorem step_kept {id : UInt32} {callback : Callback} {posts : List Post} (lawful : LawfulIdle E single) (nonzero : id ≠ 0)
    (h : Keeps E id callback posts w) (taken : w.step E e = some w') : Keeps E id callback posts w' := by
  have grows := step_posts_prefix lawful taken
  refine ⟨h.since.trans grows, fun same => ?_⟩
  have before : w.posts = posts := (h.since.eq_of_length_le (same ▸ grows.length_le)).symm
  obtain ⟨current, callback⟩ := h.held before
  have busy : (E.slot w.self).id ≠ 0 := by rwa [current]
  obtain ⟨id', callback'⟩ := step_keeps lawful taken busy (same.trans before.symm)
  exact ⟨id'.trans current, callback'.trans callback⟩

theorem call_kept {q : Request κ} (lawful : LawfulIdle E single) (idle : (E.slot w.self).id = 0)
    (nonzero : (E.slot w.self).counter + 1 ≠ 0) :
    Keeps E ((E.slot w.self).counter + 1) q.callback w.posts (w.call E q) := by
  have action : Action E single w (.call q) (w.call E q) := call_action lawful.toLawful q
  refine ⟨action.posts_prefix, fun quiet => ?_⟩
  generalize w.call E q = w' at action quiet
  cases action with
  | refused q busy => exact (busy idle).elim
  | resumed e c err count v s' next p bs from_ => cases from_
  | ignored e c err count v from_ => cases from_
  | opened q s' next p bs c _ bound slot =>
    subst bound
    rw [conclude_self, stored_self, arm_self, slot]
    cases next with
    | done err => simp [conclude, stored, nonzero] at quiet
    | _ => exact ⟨rfl, rfl⟩

/-! ### The ids bound since a request was issued -/

/-- Effects that bind no other id than `id`. -/
def Binds (id : UInt32) (effects : List (Effect κ)) : Prop := ∀ e ∈ effects, ∀ id', e.boundId = some id' → id' = id

theorem binds_stores (id : UInt32) (p : Nat) (bs : List UInt8) : Binds (κ := κ) id (storesFrom p bs) := by
  induction bs generalizing p with
  | nil => simp [Binds, storesFrom]
  | cons b rest ih =>
    intro e member
    rcases List.mem_cons.mp member with rfl | later
    · simp [Effect.boundId]
    · exact ih (p + 1) e later

theorem Binds.append {id : UInt32} {effects more : List (Effect κ)} (h : Binds id effects) (h' : Binds id more) :
    Binds id (effects ++ more) := by
  intro e member
  rcases List.mem_append.mp member with old | new
  · exact h e old
  · exact h' e new

theorem conclude_binds (s : Slot) (c : Cont κ) (next : Next) (expired : Bool) (w : World κ σ) :
    ∃ effects, (w.conclude s c next expired).log = w.log ++ effects ∧ Binds c.id effects := by
  cases next with
  | done err =>
    simp only [conclude]
    split
    · exact ⟨[], by simp, by simp [Binds]⟩
    · exact ⟨_, rfl, by simp [Binds, Effect.boundId]⟩
  | transfer => exact ⟨_, rfl, by simp [Binds, Effect.boundId]⟩
  | postCont => exact ⟨_, rfl, by simp [Binds, Effect.boundId]⟩

theorem arm_binds (q : Request κ) (id : UInt32) (w : World κ σ) :
    ∃ effects, (w.arm q id).log = w.log ++ effects ∧ Binds id effects := by
  unfold arm
  split
  · exact ⟨_, rfl, by simp [Binds, Effect.boundId]⟩
  · exact ⟨[], by simp, by simp [Binds]⟩

theorem stored_conclude_binds (s : Slot) (c : Cont κ) (next : Next) (p : Nat) (bs : List UInt8) (w : World κ σ) :
    ∃ effects, ((w.stored p bs).conclude s c next false).log = w.log ++ effects ∧ Binds c.id effects := by
  obtain ⟨effects, log, binds⟩ := conclude_binds s c next false (w.stored p bs)
  refine ⟨storesFrom p bs ++ effects, ?_, (binds_stores c.id p bs).append binds⟩
  rw [log]
  simp [stored]

/-- The counter and the ids bound, from the request of the id `id` up to the next one. `log` is
what had been done when it was issued, `accepted` the requests then accepted with this one. -/
structure Since (E : Endpoint κ σ) (id : UInt32) (accepted : Nat) (log : List (Effect κ)) (w : World κ σ) : Prop where
  grows : accepted ≤ w.accepted.length
  counter : w.accepted.length = accepted → (E.slot w.self).counter = id
  current : w.accepted.length = accepted → (E.slot w.self).id = id ∨ (E.slot w.self).id = 0
  bound : w.accepted.length = accepted → ∃ effects, w.log = log ++ effects ∧
    ∀ e ∈ effects, ∀ id', e.boundId = some id' → id' = id ∨ id' = 0

theorem Action.counts_requests (lawful : Lawful E single) (h : Action E single w e w') :
    (w'.accepted = w.accepted ∧ (E.slot w'.self).counter = (E.slot w.self).counter) ∨
      ∃ q, e = .call q ∧ w'.accepted = w.accepted ++ [q] ∧ (E.slot w'.self).counter = (E.slot w.self).counter + 1 := by
  cases h with
  | opened q s' next p bs c idle bound slot =>
    right
    refine ⟨q, rfl, ?_, ?_⟩
    · simp [stored]
    · rw [conclude_self, stored_self, arm_self, slot]
      rfl
  | resumed e c err count v s' next p bs from_ current slot =>
    left
    refine ⟨?_, ?_⟩
    · cases from_ <;> simp [stored]
    · rw [conclude_self, stored_self, slot]
  | ignored e c err count v from_ =>
    have same := from_.slot lawful
    left
    refine ⟨?_, congrArg Slot.counter same⟩
    cases from_ <;> rfl
  | timedOut i err s' found busy slot =>
    left
    refine ⟨rfl, ?_⟩
    simp only
    rw [slot]
  | _ => exact Or.inl ⟨rfl, rfl⟩

theorem step_counts_requests (lawful : LawfulIdle E single) (taken : w.step E e = some w') :
    (w'.accepted = w.accepted ∧ (E.slot w'.self).counter = (E.slot w.self).counter) ∨
      ∃ q, e = .call q ∧ w'.accepted = w.accepted ++ [q] ∧ (E.slot w'.self).counter = (E.slot w.self).counter + 1 := by
  rcases step_action_or_flagged lawful taken with action | ⟨i, err, s', _, _, _, slot, rfl⟩
  · exact action.counts_requests lawful.toLawful
  · exact Or.inl ⟨rfl, by rw [slot]⟩

theorem Taken.log {c : Cont κ} {err : ErrorCode} {count : Nat} {v : World κ σ} (h : Taken E w e c err count v) :
    v.log = w.log := by
  cases h <;> rfl

/-- Between two requests, only the id of the slot is bound. -/
theorem Action.binds (lawful : Lawful E single) (h : Action E single w e w') (same : w'.accepted = w.accepted) :
    ((E.slot w'.self).id = (E.slot w.self).id ∨ (E.slot w'.self).id = 0) ∧
      ∃ effects, w'.log = w.log ++ effects ∧ Binds (E.slot w.self).id effects := by
  have nothing : ∃ effects, w.log = w.log ++ effects ∧ Binds (κ := κ) (E.slot w.self).id effects :=
    ⟨[], by simp, by simp [Binds]⟩
  cases h with
  | opened => simp [stored] at same
  | resumed e c err count v s' next p bs from_ current slot =>
    obtain ⟨effects, log, binds⟩ := stored_conclude_binds (E.slot s') c next p bs
      ({ v with counts := v.counts ++ [(c.id, E.counted c count v.memory v.self)], self := s' } : World κ σ)
    refine ⟨?_, effects, ?_, ?_⟩
    · rw [conclude_self, stored_self, slot, ← current]
      cases next with
      | done => exact Or.inr rfl
      | _ => exact Or.inl rfl
    · rw [log, from_.log]
    · rw [← current]
      exact binds
  | ignored e c err count v from_ =>
    have slot := from_.slot lawful
    refine ⟨Or.inl (congrArg Slot.id slot), ?_⟩
    rw [← from_.log] at nothing
    rw [← from_.log]
    exact nothing
  | timedOut i err s' found busy slot =>
    refine ⟨Or.inr ?_, _, rfl, by simp [Binds, Effect.boundId]⟩
    simp only
    rw [slot]
  | _ => exact ⟨Or.inl rfl, nothing⟩

theorem step_binds (lawful : LawfulIdle E single) (taken : w.step E e = some w') (same : w'.accepted = w.accepted) :
    ((E.slot w'.self).id = (E.slot w.self).id ∨ (E.slot w'.self).id = 0) ∧
      ∃ effects, w'.log = w.log ++ effects ∧ Binds (E.slot w.self).id effects := by
  rcases step_action_or_flagged lawful taken with action | ⟨i, err, s', _, _, _, slot, rfl⟩
  · exact action.binds lawful.toLawful same
  · exact ⟨Or.inl (by rw [slot]), [], by simp, by simp [Binds]⟩

theorem step_since {id : UInt32} {accepted : Nat} {log : List (Effect κ)} (lawful : LawfulIdle E single)
    (h : Since E id accepted log w) (taken : w.step E e = some w') : Since E id accepted log w' := by
  rcases step_counts_requests lawful taken with ⟨same, counter⟩ | ⟨q, _, more, _⟩
  · obtain ⟨slot, effects, appended, binds⟩ := step_binds lawful taken same
    refine ⟨same ▸ h.grows, fun now => counter.trans (h.counter (same ▸ now)), fun now => ?_, fun now => ?_⟩
    · rcases slot with kept | idle
      · rw [kept]
        exact h.current (same ▸ now)
      · exact Or.inr idle
    · obtain ⟨earlier, before, bound⟩ := h.bound (same ▸ now)
      refine ⟨earlier ++ effects, by rw [appended, before, List.append_assoc], ?_⟩
      intro e member id' binding
      rcases List.mem_append.mp member with old | new
      · exact bound e old id' binding
      · have eq := binds e new id' binding
        rw [eq]
        exact h.current (same ▸ now)
  · have grows := h.grows
    have past : w'.accepted.length ≠ accepted := by
      rw [more, List.length_append, List.length_singleton]
      omega
    refine ⟨?_, fun now => (past now).elim, fun now => (past now).elim, fun now => (past now).elim⟩
    rw [more, List.length_append]
    omega

theorem call_since {q : Request κ} (lawful : LawfulIdle E single) (idle : (E.slot w.self).id = 0) :
    Since E ((E.slot w.self).counter + 1) (w.accepted.length + 1) w.log (w.call E q) := by
  have action : Action E single w (.call q) (w.call E q) := call_action lawful.toLawful q
  have counts := action.counts_requests lawful.toLawful
  generalize w.call E q = w' at action counts
  cases action with
  | refused q busy => exact (busy idle).elim
  | resumed e c err count v s' next p bs from_ => cases from_
  | ignored e c err count v from_ => cases from_
  | opened q s' next p bs c _ bound slot =>
    subst bound
    have counter := counts.resolve_left (by simp [stored])
    obtain ⟨_, _, accepted, counter⟩ := counter
    obtain ⟨armed, armedLog, armedBinds⟩ := arm_binds q ((E.slot w.self).counter + 1)
      ({ w with accepted := w.accepted ++ [q],
                counts := w.counts ++ [((E.slot w.self).counter + 1, E.taken q w.self)], self := s' } : World κ σ)
    obtain ⟨effects, log, binds⟩ := stored_conclude_binds (E.slot s') ⟨q.kind, (E.slot w.self).counter + 1⟩ next p bs
      (({ w with accepted := w.accepted ++ [q],
                 counts := w.counts ++ [((E.slot w.self).counter + 1, E.taken q w.self)], self := s' } : World κ σ).arm
        q ((E.slot w.self).counter + 1))
    refine ⟨?_, fun _ => counter, fun _ => ?_, fun _ => ⟨armed ++ effects, ?_, ?_⟩⟩
    · rw [accepted]
      simp
    · rw [conclude_self, stored_self, arm_self, slot]
      cases next with
      | done => exact Or.inr rfl
      | _ => exact Or.inl rfl
    · rw [log, armedLog, List.append_assoc]
    · intro e member id' binding
      exact Or.inl ((armedBinds.append binds) e member id' binding)

/-! ### A request of the id 0 -/

theorem conclude_silent {s : Slot} {c : Cont κ} (next : Next) (expired : Bool) (w : World κ σ) (zero : c.id = 0) :
    (w.conclude s c next expired).posts = w.posts := by
  cases next with
  | done err => rw [conclude_zero s err expired w zero]
  | _ => rfl

theorem next_id_zero (next : Next) : next.id 0 = 0 := by
  cases next <;> rfl

/-- Nothing calls back from an idle object, whatever runs but a call. -/
theorem step_silent (lawful : LawfulIdle E single) (taken : w.step E e = some w') (idle : (E.slot w.self).id = 0)
    (handler : ∀ q, e ≠ .call q) : (E.slot w'.self).id = 0 ∧ w'.posts = w.posts := by
  rcases step_action_or_flagged lawful taken with action | ⟨i, err, s', _, _, _, slot, rfl⟩
  · cases action with
    | refused q busy => exact (busy idle).elim
    | opened q => exact (handler q rfl).elim
    | resumed e c err count v s' next p bs from_ current slot =>
      have zero : c.id = 0 := current.trans idle
      refine ⟨?_, ?_⟩
      · rw [conclude_self, stored_self, slot, zero]
        exact next_id_zero next
      · rw [conclude_silent next false _ zero]
        exact from_.posts
    | ignored e c err count v from_ =>
      have same := from_.slot lawful.toLawful
      exact ⟨(congrArg Slot.id same).trans idle, from_.posts⟩
    | timedOut i err s' found busy => exact (busy idle).elim
    | _ => exact ⟨idle, rfl⟩
  · refine ⟨?_, rfl⟩
    simp only
    rw [slot]
    exact idle

theorem call_silent (q : Request κ) (lawful : Lawful E single) (idle : (E.slot w.self).id = 0)
    (wrapped : (E.slot w.self).counter + 1 = 0) :
    (E.slot (w.call E q).self).id = 0 ∧ (w.call E q).posts = w.posts := by
  have action : Action E single w (.call q) (w.call E q) := call_action lawful q
  generalize w.call E q = w' at action
  cases action with
  | refused q busy => exact (busy idle).elim
  | resumed e c err count v s' next p bs from_ => cases from_
  | ignored e c err count v from_ => cases from_
  | opened q s' next p bs c _ bound slot =>
    have zero : c.id = 0 := by rw [bound, wrapped]
    refine ⟨?_, ?_⟩
    · rw [conclude_self, stored_self, arm_self, slot, zero]
      exact next_id_zero next
    · rw [conclude_silent next false _ zero]
      simp [stored]

/-! ### Runs -/

theorem newId_idle (q : Request κ) (idle : (E.slot w.self).id = 0) : newId E w q = (E.slot w.self).counter + 1 := by
  unfold newId
  rw [Slot.newRequest_idle q idle]

/-- A request is in progress exactly as long as one has not been called back. -/
def Pending (E : Endpoint κ σ) (w : World κ σ) : Prop :=
  w.accepted.length = w.posts.length + if (E.slot w.self).id = 0 then 0 else 1

theorem Pending.settled_iff (h : Pending E w) : w.Settled ↔ (E.slot w.self).id = 0 := by
  unfold Pending at h
  unfold Settled
  split at h
  · exact ⟨fun _ => ‹_›, fun _ => h⟩
  · exact ⟨fun settled => by omega, fun idle => by contradiction⟩

theorem conclude_pending {s : Slot} {c : Cont κ} {next : Next} {expired : Bool} {v : World κ σ}
    (open_ : v.accepted.length = v.posts.length + if c.id = 0 then 0 else 1) (id : (E.slot v.self).id = next.id c.id) :
    Pending E (v.conclude s c next expired) := by
  unfold Pending
  rw [conclude_accepted, conclude_self, id]
  cases next with
  | transfer => exact open_
  | postCont => exact open_
  | done err =>
    by_cases zero : c.id = 0
    · rw [conclude_zero s err expired v zero]
      simpa [Next.id, zero] using open_
    · rw [conclude_callback s err expired v zero]
      simpa [Next.id, zero] using open_

theorem step_pending (lawful : LawfulIdle E single) (pending : Pending E w) (numbered : Numbered E w e)
    (taken : w.step E e = some w') : Pending E w' := by
  rcases step_action_or_flagged lawful taken with action | ⟨_, _, s', _, _, _, slot, rfl⟩
  · cases action with
    | opened q s' next p bs c idle bound slot =>
      have nonzero : c.id ≠ 0 := by
        rw [bound, ← newId_idle q idle]
        exact numbered
      apply conclude_pending
      · simpa [stored, nonzero, Settled] using pending.settled_iff.mpr idle
      · rw [stored_self, arm_self, slot]
    | resumed e c err count v s' next p bs from_ current slot =>
      apply conclude_pending
      · rw [current]
        cases from_ <;> exact pending
      · simp only [stored_self]
        rw [slot]
    | ignored e c err count v from_ =>
      have slot := from_.slot lawful.toLawful
      have accepted : v.accepted = w.accepted := by cases from_ <;> rfl
      simpa only [Pending, slot, accepted, from_.posts] using pending
    | timedOut i err s' found busy slot =>
      have idle : (E.slot s').id = 0 := by rw [slot]
      simpa [Pending, busy, idle] using pending
    | _ => exact pending
  · have same : (E.slot s').id = (E.slot w.self).id := by rw [slot]
    simpa only [Pending, same] using pending

theorem succ_ne (id : UInt32) : id + 1 ≠ id := by
  intro same
  have nat : (id.toNat + 1) % 2 ^ 32 = id.toNat := congrArg UInt32.toNat same
  have bound := id.toNat_lt
  omega

theorem kept_busy_iff (lawful : LawfulIdle E single) {q : Request κ} (idle : (E.slot w.self).id = 0) :
    KeptBusy E w q ↔ (E.slot w.self).counter + 1 ≠ 0 := by
  have id := newId_idle q idle
  constructor
  · intro kept
    rw [← id]
    exact kept.busy
  · intro nonzero
    have kept (es : List (Event κ)) (v : World κ σ) (run : Steps (World.step E) Always (w.call E q) es v) :
        Keeps E ((E.slot w.self).counter + 1) q.callback w.posts v :=
      run.invariant (call_kept lawful idle nonzero) fun _ _ _ h _ taken => step_kept lawful nonzero h taken
    refine ⟨by rwa [id], ?_, ?_, ?_⟩
    · intro es v q' run quiet
      obtain ⟨current, _⟩ := (kept es v run).held quiet
      rw [lawful.call_busy q' v.self (by rwa [current])]
    · intro es v q' before run accepted e member binding
      have since := run.invariant (call_since lawful before) fun _ _ _ h _ taken => step_since lawful h taken
      have last : w.accepted.length = v.accepted.length + 1 := by simp [accepted]
      obtain ⟨effects, log, bound⟩ := since.bound last
      rw [log, List.drop_left] at member
      rcases bound e member _ binding with same | zero
      · rw [id, since.counter last] at same
        exact succ_ne _ same
      · exact nonzero (id ▸ zero)
    · intro es v e v' run quiet taken handler runs last
      obtain ⟨current, callback⟩ := (kept es v run).held quiet
      rw [id, ← current] at runs last
      obtain ⟨p, posted, same⟩ := step_answers lawful taken (by rwa [current]) handler runs last
      exact ⟨p, posted, same.trans callback⟩

theorem reachable_counter {s : σ} {m : Memory UInt8} {es : List (Event κ)} (lawful : LawfulIdle E single)
    (counter : (E.slot s).counter = 0) (run : Steps (World.step E) Always { self := s, memory := m } es w) :
    (E.slot w.self).counter = UInt32.ofNat w.accepted.length := by
  apply run.invariant (P := fun w => (E.slot w.self).counter = UInt32.ofNat w.accepted.length) counter
  intro t e u h _ taken
  rcases step_counts_requests lawful taken with ⟨same, kept⟩ | ⟨q, _, more, next⟩
  · rw [kept, same, h]
  · rw [next, more, List.length_append, List.length_singleton, h, UInt32.ofNat_add]
    rfl

theorem wraps_iff {counter : UInt32} {n : Nat} (eq : counter = UInt32.ofNat n) :
    counter + 1 ≠ 0 ↔ (n + 1) % 2 ^ 32 ≠ 0 := by
  have next : (counter + 1).toNat = (n + 1) % 2 ^ 32 := by
    rw [UInt32.toNat_add, eq, UInt32.toNat_ofNat', Nat.mod_add_mod]
    rfl
  rw [← next, Ne, Ne, ← UInt32.toNat_inj]
  rfl

end World

end RtacAsio
