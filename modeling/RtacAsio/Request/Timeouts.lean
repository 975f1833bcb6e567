import RtacAsio.Contract
import RtacAsio.Request.Thorough

/-!
Which requests the timer ends. A handler that is late finds another request in progress, which
may have no timeout at all.
-/

namespace RtacAsio
open Lib

namespace World
variable {κ σ : Type}

/-- The id was given to a request with a timeout. -/
def Timed (w : World κ σ) (id : UInt32) : Prop := ∃ q, w.request id = some q ∧ 0 < q.timeoutMillis

/-- The timer only ends requests that were made with a timeout. -/
def Expirations (w : World κ σ) : Prop :=
  ∀ (i : Nat) (p : Post), w.posts[i]? = some p → p.expired = true → ∃ q, w.accepted[i]? = some q ∧ 0 < q.timeoutMillis

structure Timeouts (E : Endpoint κ σ) (w : World κ σ) : Prop where
  waits : ∀ id ∈ w.waits, w.Timed id
  fired : ∀ f ∈ w.fired, w.Timed f.1
  expirations : w.Expirations
  /-- As long as it is in progress, the timer can still end a request with a timeout. -/
  pending : w.Timed (E.slot w.self).id → (E.slot w.self).id ≠ 0 →
    (E.slot w.self).id ∈ w.waits ∨ ((E.slot w.self).id, ErrorCode.success) ∈ w.fired

/-- The timer runs, and nothing else happens. -/
def OnlyTimer (w : World κ σ) : Event κ → Prop
  | .expire => w.waits ≠ []
  | .timer _ => True
  | _ => False

section Steps
variable {E : Endpoint κ σ} {single : κ → Bool} {w w' v : World κ σ} {e : Event κ}

theorem Timed.accept {id : UInt32} (timed : w.Timed id) (accepted : w.accepted <+: v.accepted) : v.Timed id := by
  obtain ⟨q, found, positive⟩ := timed
  exact ⟨q, getElem?_of_prefix accepted found, positive⟩

theorem Expirations.kept (h : w.Expirations) (posts : v.posts = w.posts) (accepted : w.accepted <+: v.accepted) :
    v.Expirations := by
  intro i p found expired
  rw [posts] at found
  obtain ⟨q, known, positive⟩ := h i p found expired
  exact ⟨q, getElem?_of_prefix accepted known, positive⟩

theorem Expirations.post {p : Post} (h : w.Expirations) (posts : v.posts = w.posts ++ [p]) (accepted : v.accepted = w.accepted)
    (new : p.expired = true → ∃ q, w.accepted[w.posts.length]? = some q ∧ 0 < q.timeoutMillis) : v.Expirations := by
  intro i p' found expired
  rw [posts] at found
  rw [accepted]
  rcases concat_getElem? found with old | ⟨rfl, rfl⟩
  · exact h i p' old expired
  · exact new expired

/-- The end of a turn that no timer has started. -/
theorem Expirations.conclude (h : w.Expirations) (s : Slot) (c : Cont κ) (next : Next) :
    (w.conclude s c next false).Expirations := by
  cases next with
  | transfer => exact h
  | postCont => exact h
  | done err =>
    by_cases zero : c.id = 0
    · rw [conclude_zero _ _ _ _ zero]
      exact h
    · rw [conclude_callback _ _ _ _ zero]
      exact h.post rfl rfl nofun

/-! ### Steps -/

theorem Next.id_of_ne_zero {next : Next} {id : UInt32} (nonzero : next.id id ≠ 0) : next.id id = id := by
  cases next with
  | done err => exact (nonzero rfl).elim
  | _ => rfl

theorem Taken.timer {c : Cont κ} {err : ErrorCode} {n : Nat} (from_ : Taken E w e c err n v) :
    v.waits = w.waits ∧ v.fired = w.fired ∧ v.accepted = w.accepted := by
  cases from_ <;> exact ⟨rfl, rfl, rfl⟩

/-- Nothing happens to the timer, and no request is accepted. -/
theorem Timeouts.run (h : Timeouts E w) (timer : v.waits = w.waits ∧ v.fired = w.fired ∧ v.accepted = w.accepted)
    (expirations : v.Expirations) (id : (E.slot v.self).id ≠ 0 → (E.slot v.self).id = (E.slot w.self).id) : Timeouts E v := by
  obtain ⟨waits, fired, accepted⟩ := timer
  have known (id : UInt32) : v.Timed id ↔ w.Timed id := by simp only [Timed, request, accepted]
  refine ⟨?_, ?_, expirations, ?_⟩
  · intro id member
    exact (known id).mpr (h.waits id (waits ▸ member))
  · intro f member
    exact (known f.1).mpr (h.fired f (fired ▸ member))
  · intro timed nonzero
    have same := id nonzero
    rw [same] at timed nonzero ⊢
    rw [waits, fired]
    exact h.pending ((known _).mp timed) nonzero

theorem arm_timer (q : Request κ) (id : UInt32) (waits : v.waits = w.waits) (fired : v.fired = w.fired) :
    (v.arm q id).waits = (w.arm q id).waits ∧ (v.arm q id).fired = (w.arm q id).fired := by
  unfold arm
  split
  · exact ⟨rfl, by rw [waits, fired]⟩
  · exact ⟨waits, fired⟩

/-- A request is accepted, and the timer is armed for it if it has a timeout. -/
theorem Timeouts.opened (h : Timeouts E w) {q : Request κ} {id : UInt32} (number : id.toNat = w.accepted.length + 1)
    (accepted : v.accepted = w.accepted ++ [q]) (armed : v.waits = (w.arm q id).waits ∧ v.fired = (w.arm q id).fired)
    (expirations : v.Expirations) (own : (E.slot v.self).id ≠ 0 → (E.slot v.self).id = id) : Timeouts E v := by
  obtain ⟨waits, fired⟩ := armed
  have known {id : UInt32} (timed : w.Timed id) : v.Timed id := timed.accept (accepted ▸ List.prefix_append ..)
  have mine : v.request id = some q := by simp [request, accepted, number]
  by_cases positive : 0 < q.timeoutMillis
  · simp only [arm, positive, ↓reduceIte] at waits fired
    refine ⟨?_, ?_, expirations, ?_⟩
    · intro id' member
      rw [waits, List.mem_singleton] at member
      exact ⟨q, member ▸ mine, positive⟩
    · intro f member
      rw [fired] at member
      rcases List.mem_append.mp member with old | cancelled
      · exact known (h.fired f old)
      · obtain ⟨id', waited, rfl⟩ := List.mem_map.mp cancelled
        exact known (h.waits id' waited)
    · intro _ nonzero
      rw [own nonzero, waits]
      exact Or.inl (List.mem_singleton_self id)
  · rw [arm_untimed _ _ (Nat.eq_zero_of_not_pos positive)] at waits fired
    refine ⟨?_, ?_, expirations, ?_⟩
    · intro id' member
      exact known (h.waits id' (waits ▸ member))
    · intro f member
      exact known (h.fired f (fired ▸ member))
    · rintro ⟨q', found, positive'⟩ nonzero
      rw [own nonzero, mine] at found
      obtain rfl := Option.some.inj found
      exact (positive positive').elim

theorem step_timeouts (lawful : Lawful E single) (sound : Sound E single w) (h : Timeouts E w) (taken : w.step E e = some w')
    (bounded : w'.accepted.length < 2 ^ 32) : Timeouts E w' := by
  have timed : ∀ f ∈ w.fired, f.1 ≠ 0 := fun f member => (sound.filed.fired f member).ne_zero
  cases step_action lawful timed taken with
  | refused => exact h
  | opened q s' next p bs c idle same slot =>
    have number : c.id.toNat = w.accepted.length + 1 := by
      rw [same]
      exact counter_next sound.counter (by simpa [stored] using bounded)
    refine h.opened number (q := q) (by simp [stored]) ?_ ?_ ?_
    · simp only [conclude_waits, conclude_fired, stored]
      exact arm_timer q c.id rfl rfl
    · refine Expirations.conclude (h.expirations.kept ?_ ?_) _ _ _ <;> simp [stored]
    · simp only [conclude_self, stored_self, arm_self, slot]
      exact Next.id_of_ne_zero
  | moved => exact h.run ⟨rfl, rfl, rfl⟩ h.expirations fun _ => rfl
  | resumed e c err n v s' next p bs from_ current slot =>
    obtain ⟨waits, fired, accepted⟩ := from_.timer
    refine h.run (by simp [stored, waits, fired, accepted]) ?_ ?_
    · refine Expirations.conclude (h.expirations.kept ?_ ?_) _ _ _ <;> simp [stored, from_.posts, accepted]
    · rw [conclude_self, stored_self, slot]
      exact fun nonzero => (Next.id_of_ne_zero nonzero).trans current
  | ignored e c err n v from_ other =>
    have slot := congrArg Slot.id (from_.slot lawful)
    refine h.run (w := w) from_.timer (h.expirations.kept from_.posts ?_) fun _ => slot
    exact from_.timer.2.2 ▸ List.prefix_refl _
  | expired =>
    refine ⟨by simp, ?_, h.expirations, ?_⟩
    · intro f member
      rcases List.mem_append.mp member with old | ready
      · exact h.fired f old
      · obtain ⟨id, waited, rfl⟩ := List.mem_map.mp ready
        exact h.waits id waited
    · intro timed nonzero
      rcases h.pending timed nonzero with waited | ready
      · exact Or.inr (List.mem_append_right _ (List.mem_map_of_mem waited))
      · exact Or.inr (List.mem_append_left _ ready)
  | timedOut i err s' found busy slot =>
    refine ⟨h.waits, ?_, ?_, ?_⟩
    · exact fun f member => h.fired f (List.mem_of_mem_eraseIdx member)
    · refine h.expirations.post rfl rfl fun _ => ?_
      -- the id in progress is the rank of the request that gets this callback
      obtain ⟨q, known, positive⟩ := h.fired _ (List.mem_of_getElem? found)
      rcases sound.phase with idle | ⟨⟨_, holds⟩, served⟩
      · exact (busy idle.id).elim
      · have rank : (E.slot w.self).id.toNat - 1 = w.posts.length := by
          rw [served.id, holds.counter, holds.open_]
          rfl
        exact ⟨q, rank ▸ known, positive⟩
    · intro _ nonzero
      rw [slot] at nonzero
      exact (nonzero rfl).elim
  | late i id err found other =>
    refine ⟨h.waits, ?_, h.expirations, ?_⟩
    · exact fun f member => h.fired f (List.mem_of_mem_eraseIdx member)
    · intro timed nonzero
      rcases h.pending timed nonzero with waited | ready
      · exact Or.inl waited
      · refine Or.inr ((mem_eraseIdx_of_ne found ?_).mpr ready)
        exact fun same => other (congrArg Prod.fst same).symm

theorem reachable_timeouts {s₀ : σ} {m : Memory UInt8} {es : List (Event κ)} (lawful : Lawful E single)
    (counter : (E.slot s₀).counter = 0) (idle : (E.slot s₀).id = 0)
    (run : Steps (World.step E) Always { self := s₀, memory := m } es w) (bounded : w.accepted.length < 2 ^ 32) :
    Timeouts E w := by
  have sound : Sound E single { self := s₀, memory := m } := reachable_sound lawful counter idle .refl (by simp)
  have start : Timeouts E { self := s₀, memory := m } :=
    ⟨by simp, by simp, by simp [Expirations], fun _ nonzero => (nonzero idle).elim⟩
  refine (run.invariant (P := fun w => w.accepted.length < 2 ^ 32 → Sound E single w ∧ Timeouts E w)
    (fun _ => ⟨sound, start⟩) ?_ bounded).2
  intro w e w' holds _ taken small
  obtain ⟨sound, timeouts⟩ := holds (Nat.lt_of_le_of_lt (step_accepted taken) small)
  exact ⟨step_sound lawful sound taken small, step_timeouts lawful sound timeouts taken small⟩

/-! ### The timer alone -/

theorem onlyTimer_less (lawful : Lawful E single) (sound : Sound E single w) (allowed : w.OnlyTimer e)
    (taken : w.step E e = some w') : 2 * w'.waits.length + w'.fired.length < 2 * w.waits.length + w.fired.length := by
  have timed : ∀ f ∈ w.fired, f.1 ≠ 0 := fun f member => (sound.filed.fired f member).ne_zero
  have fewer {i : Nat} {f : UInt32 × ErrorCode} (found : w.fired[i]? = some f) :
      (w.fired.eraseIdx i).length < w.fired.length := by
    obtain ⟨inside, _⟩ := List.getElem?_eq_some_iff.mp found
    rw [List.length_eraseIdx_of_lt inside]
    omega
  cases step_action lawful timed taken with
  | expired =>
    have positive := List.length_pos_iff.mpr allowed
    simp only [List.length_append, List.length_map, List.length_nil]
    omega
  | timedOut i err s' found =>
    have less := fewer found
    dsimp only
    omega
  | late i id err found =>
    have less := fewer found
    dsimp only
    omega
  | resumed e c err n v s' next p bs from_ => cases from_ <;> exact allowed.elim
  | ignored e c err n v from_ => cases from_ <;> exact allowed.elim
  | _ => exact allowed.elim

/-- A request with a timeout is called back, if only by the timer. -/
theorem reachable_expires {s₀ : σ} {m : Memory UInt8} {es : List (Event κ)} (lawful : Lawful E single)
    (counter : (E.slot s₀).counter = 0) (idle : (E.slot s₀).id = 0)
    (run : Steps (World.step E) Always { self := s₀, memory := m } es w) (bounded : w.accepted.length < 2 ^ 32)
    (last : ∀ q, w.accepted.getLast? = some q → 0 < q.timeoutMillis) :
    Completes (World.step E) OnlyTimer w Settled := by
  have sound := reachable_sound lawful counter idle run bounded
  have timeouts := reachable_timeouts lawful counter idle run bounded
  refine completes_of_measure (fun w => 2 * w.waits.length + w.fired.length)
    (I := fun w => Sound E single w ∧ Timeouts E w ∧ w.accepted.length < 2 ^ 32 ∧
      ∀ q, w.accepted.getLast? = some q → 0 < q.timeoutMillis) ⟨sound, timeouts, bounded, last⟩ ?_ ?_
  · rintro w e w' ⟨sound, timeouts, small, last⟩ allowed taken
    have same : w'.accepted = w.accepted := by
      rcases step_accepts lawful sound taken with same | ⟨_, q, rfl, _⟩
      · exact same
      · exact allowed.elim
    have small' : w'.accepted.length < 2 ^ 32 := same ▸ small
    exact ⟨⟨step_sound lawful sound taken small', step_timeouts lawful sound timeouts taken small', small', same ▸ last⟩,
      onlyTimer_less lawful sound allowed taken⟩
  · rintro w ⟨sound, timeouts, small, last⟩
    rcases sound.phase with idle | ⟨⟨q, holds⟩, served⟩
    · exact Or.inl idle.settled
    · right
      obtain ⟨q', newest, _⟩ := holds.last_callback
      have nonzero : (E.slot w.self).id ≠ 0 := by
        intro zero
        have settled := sound.settled_iff.mpr zero
        have one := holds.open_
        unfold Settled at settled
        omega
      have timed : w.Timed (E.slot w.self).id := by
        refine ⟨q', ?_, last q' newest⟩
        rw [request, served.id, holds.counter, ← List.getLast?_eq_getElem?]
        exact newest
      rcases timeouts.pending timed nonzero with waited | ready
      · exact ⟨.expire, _, List.ne_nil_of_mem waited, rfl⟩
      · obtain ⟨i, found⟩ := List.getElem?_of_mem ready
        exact ⟨.timer i, _, trivial, by simp only [step, found]; rfl⟩

end Steps

end World

end RtacAsio
