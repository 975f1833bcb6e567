import RtacAsio.Contract
import RtacAsio.Request.Thorough

/-!
With a stream that moves something whenever it is asked for something, and no further calls,
everything comes to an end: the steps still to be taken are counted.
-/

namespace RtacAsio
open Lib

/-- The wait for a new operation, for the completion of one that moved bytes, and for one that
moved none although it was asked for some. -/
def Op.weight (op : Op κ) : Nat :=
  match op.moved with
  | none => 6
  | some bytes => if bytes = [] ∧ op.count ≠ 0 then 7 else 3

def Posted.weight (p : Posted κ) : Nat := if p.count = 0 then 9 else 3

/-- What a turn adds to be waited for when `left` bytes are missing after it. -/
def Next.weight (left : Nat) : Next → Nat
  | .transfer .. => 6 + 6 * left
  | .postCont count => (if count = 0 then 9 else 3) + 6 * left
  | .done _ => 0

theorem Op.three_le_weight (op : Op κ) : 3 ≤ op.weight := by
  unfold Op.weight
  split
  · omega
  · split <;> omega

theorem Posted.three_le_weight (p : Posted κ) : 3 ≤ p.weight := by
  unfold Posted.weight
  split <;> omega

namespace World
variable {κ σ : Type}

/-- Nobody calls. A stream that is asked for bytes moves some of them. A wait expires if there is one. -/
def Cooperative (w : World κ σ) : Event κ → Prop
  | .call _ => False
  | .move i bytes => w.Honest (.move i bytes) ∧ ∀ op, w.ops[i]? = some op → op.count ≠ 0 → bytes ≠ []
  | .expire => w.waits ≠ []
  | _ => True

/-- The request in progress hears that the stream had nothing for it, and asks again. -/
def Polls (E : Endpoint κ σ) (w : World κ σ) : Event κ → Prop
  | .complete i err => err.failed = false ∧ ∃ op, w.ops[i]? = some op ∧ op.id = (E.slot w.self).id ∧ op.moved = some [] ∧ op.count ≠ 0
  | _ => False

/-- Every request has been called back, and nothing is under way. -/
structure Finished (w : World κ σ) : Prop where
  settled : w.Settled
  ops : w.ops = []
  queue : w.queue = []
  waits : w.waits = []
  fired : w.fired = []

/-- The bytes still missing of the request in progress. -/
def missing (E : Endpoint κ σ) (w : World κ σ) : Nat :=
  if (E.slot w.self).id = 0 then 0 else (E.slot w.self).requestedSize - (E.slot w.self).processed

def underWay (w : World κ σ) : Nat := (w.ops.map Op.weight).sum + (w.queue.map Posted.weight).sum

/-- No less than the number of steps to be taken. All but a poll lower it by three,
and a poll by one. -/
def toDo (E : Endpoint κ σ) (w : World κ σ) : Nat :=
  w.underWay + 6 * w.waits.length + 3 * w.fired.length + 6 * w.missing E

/-- An operation of the request in progress was asked for no less than what is missing. -/
def Asks (E : Endpoint κ σ) (w : World κ σ) : Prop :=
  ∀ op ∈ w.ops, op.id = (E.slot w.self).id → (E.slot w.self).requestedSize ≤ (E.slot w.self).processed + op.count

/-- What the count of the steps rests on. -/
structure Regular (E : Endpoint κ σ) (single : κ → Bool) (w : World κ σ) : Prop where
  sound : Sound E single w
  asks : Asks E w
  small : w.accepted.length < 2 ^ 32

section Steps
variable {E : Endpoint κ σ} {single : κ → Bool} {whole : κ → Nat → List UInt8 → Prop} {w w' v : World κ σ}
  {e : Event κ}

/-! ### Operations ask for enough -/

theorem conclude_asks {s : Slot} {c : Cont κ} {next : Next} (slot : E.slot v.self = { s with id := next.id c.id })
    (asks : ∀ count dump, next = .transfer count dump → s.requestedSize ≤ s.processed + count)
    (others : ∀ op ∈ v.ops, op.id ≠ next.id c.id) : Asks E (v.conclude s c next false) := by
  intro op member same
  rw [conclude_self, slot] at same ⊢
  obtain ⟨ops, queue, posts, log, eq, added, _⟩ := v.conclude_adds s c next false
  rw [eq] at member
  rcases List.mem_append.mp member with old | new
  · exact (others op old same).elim
  · obtain ⟨count, dump, rfl, rfl⟩ := added op new
    exact asks count dump rfl

theorem step_asks (lawful : Lawful E single) (thorough : Thorough E whole) (sound : Sound E single w) (asks : Asks E w)
    (taken : w.step E e = some w') (bounded : w'.accepted.length < 2 ^ 32) : Asks E w' := by
  have issued : ∀ op ∈ w.ops, w.Issued op.id := fun op member => sound.filed.conts _ (cont_of_op member)
  cases stepped taken with
  | call q =>
    by_cases idle : (E.slot w.self).id = 0
    · have top : (E.slot w.self).counter.toNat = w.accepted.length := by
        rcases sound.phase with idle | ⟨⟨_, holds⟩, _⟩
        · exact idle.counter
        · exact holds.counter
      obtain ⟨s', next, p, bs, strives, slot, eq⟩ := call_thorough thorough q idle
      rw [eq] at bounded ⊢
      have number := counter_next sound.counter (by simpa [stored] using bounded)
      refine conclude_asks ?_ strives.asks fun op member same => ?_
      · rw [stored_self, arm_self, slot]
      · have member : op ∈ w.ops := by simpa [stored] using member
        have known := issued op member
        rw [same] at known
        cases next with
        | done err => exact known.ne_zero rfl
        | transfer =>
          have bound := known.2
          simp only [Next.id, number] at bound
          omega
        | postCont =>
          have bound := known.2
          simp only [Next.id, number] at bound
          omega
    · have refused : w.call E q = w := by
        unfold call
        rw [lawful.call_busy q w.self idle]
        rfl
      rwa [refused]
  | move i op bytes found unmoved =>
    intro op' member same
    rcases List.mem_or_eq_of_mem_set member with old | rfl
    · exact asks op' old same
    · exact asks op (List.mem_of_getElem? found) same
  | resume e c err n v from_ =>
    have slot := from_.slot lawful
    by_cases current : c.id = (E.slot w.self).id
    · obtain ⟨s', next, p, bs, strives, slot', _, eq⟩ := resume_thorough (w := v) thorough err n (by rw [slot, current])
      rw [eq]
      refine conclude_asks ?_ strives.asks fun op member same => ?_
      · rw [stored_self, slot']
      · have alone := ((distinct_iff from_.perm).mp sound.filed.distinct).1 _ (cont_of_op (w := v) member)
        cases next with
        | done err => exact (issued op (from_.ops.subset member)).ne_zero same
        | transfer => exact alone same
        | postCont => exact alone same
    · unfold resume
      rw [lawful.resume_stale c err n v.memory v.self (by rw [slot]; exact current)]
      intro op member
      have kept := asks op (from_.ops.subset member)
      rw [← slot] at kept
      exact kept
  | expire => exact asks
  | timer i id err found =>
    by_cases current : id = (E.slot w.self).id
    · subst current
      have busy := (sound.filed.fired _ (List.mem_of_getElem? found)).ne_zero
      obtain ⟨s', eq, slot⟩ := lawful.timeout_current err w.self busy
      rw [eq]
      intro op member same
      have ended : (E.slot s').id = 0 := by rw [slot]
      exact ((issued op member).ne_zero (same.trans ended)).elim
    · rw [lawful.timeout_stale id err w.self current]
      exact asks

/-! ### Every step leaves less to do -/

theorem taken_weight {c : Cont κ} {err : ErrorCode} {n : Nat} (from_ : Taken E w e c err n v) :
    ∃ k, w.underWay = k + v.underWay ∧ 3 ≤ k ∧
      (0 < n ∨ k = 9 ∨ (k = 7 ∧ (c.id = (E.slot w.self).id → err.failed = false → w.Polls E e)) ∨
        ∃ op ∈ w.ops, op.handler.cont = c ∧ op.count = 0) := by
  cases from_ with
  | complete i op bytes err s found moved =>
    refine ⟨op.weight, ?_, op.three_le_weight, ?_⟩
    · obtain ⟨inside, rfl⟩ := List.getElem?_eq_some_iff.mp found
      have sum := ((List.getElem_cons_eraseIdx_perm inside).symm.map Op.weight).sum_nat
      rw [List.map_cons, List.sum_cons] at sum
      simp only [underWay]
      omega
    · by_cases none : bytes = []
      · subst none
        by_cases asked : op.count = 0
        · exact Or.inr (Or.inr (Or.inr ⟨op, List.mem_of_getElem? found, rfl, asked⟩))
        · exact Or.inr (Or.inr (Or.inl ⟨by simp [Op.weight, moved, asked], fun same ok => ⟨ok, op, found, same, moved, asked⟩⟩))
      · exact Or.inl (List.length_pos_iff.mpr none)
  | deliver i p found =>
    refine ⟨p.weight, ?_, p.three_le_weight, ?_⟩
    · obtain ⟨inside, rfl⟩ := List.getElem?_eq_some_iff.mp found
      have sum := ((List.getElem_cons_eraseIdx_perm inside).symm.map Posted.weight).sum_nat
      rw [List.map_cons, List.sum_cons] at sum
      simp only [underWay]
      omega
    · by_cases none : p.count = 0
      · exact Or.inr (Or.inl (by simp [Posted.weight, none]))
      · exact Or.inl (Nat.pos_of_ne_zero none)

theorem conclude_underWay (s : Slot) (c : Cont κ) (next : Next) (v : World κ σ) :
    (v.conclude s c next false).underWay = v.underWay + next.weight 0 := by
  cases next with
  | transfer count dump =>
    simp [conclude, underWay, Op.weight, Next.weight]
    omega
  | postCont count =>
    simp [conclude, underWay, Posted.weight, Next.weight]
    omega
  | done err =>
    simp only [conclude]
    split <;> rfl

theorem conclude_toDo {s : Slot} {c : Cont κ} {next : Next} (slot : E.slot v.self = s) (ends : s.id = next.id c.id)
    (nonzero : c.id ≠ 0) : (v.conclude s c next false).toDo E =
      v.underWay + 6 * v.waits.length + 3 * v.fired.length + next.weight (s.requestedSize - s.processed) := by
  rw [toDo, conclude_underWay, conclude_waits, conclude_fired]
  simp only [missing, conclude_self, slot, ends]
  cases next with
  | transfer =>
    simp only [Next.id, Next.weight, nonzero, ↓reduceIte]
    omega
  | postCont =>
    simp only [Next.id, Next.weight, nonzero, ↓reduceIte]
    omega
  | done => simp only [Next.id, Next.weight, ↓reduceIte, Nat.mul_zero, Nat.add_zero]

theorem resume_less {c : Cont κ} {err : ErrorCode} {n : Nat} (lawful : Lawful E single) (thorough : Thorough E whole)
    (sound : Sound E single w) (asks : Asks E w) (from_ : Taken E w e c err n v) :
    ∃ k, (v.resume E c err n).toDo E + k ≤ w.toDo E ∧ 1 ≤ k ∧ (w.Polls E e ∨ 3 ≤ k) := by
  have slot := from_.slot lawful
  have same : v.waits = w.waits ∧ v.fired = w.fired := by cases from_ <;> exact ⟨rfl, rfl⟩
  obtain ⟨waits, fired⟩ := same
  obtain ⟨k, under, positive, something⟩ := taken_weight from_
  by_cases current : c.id = (E.slot w.self).id
  · have busy : (E.slot w.self).id ≠ 0 := current ▸ (sound.filed.conts c from_.under).ne_zero
    obtain ⟨s', next, p, bs, strives, slot', goesOn, eq⟩ := resume_thorough (w := v) thorough err n (by rw [slot, current])
    have size : (E.slot s').requestedSize = (E.slot w.self).requestedSize := by rw [slot', slot]
    have before : w.toDo E = k + v.underWay + 6 * w.waits.length + 3 * w.fired.length +
        6 * ((E.slot w.self).requestedSize - (E.slot w.self).processed) := by
      rw [toDo, missing, if_neg busy, under]
    have after := conclude_toDo (E := E) (v := ({ v with
      counts := v.counts ++ [(c.id, E.counted c n v.memory v.self)], self := s' } : World κ σ).stored p bs)
      (s := E.slot s') (c := c) rfl (by rw [slot']) (current ▸ busy)
    rw [eq, after, before, size]
    simp only [stored, underWay, waits, fired]
    -- what goes on has counted bytes, unless the stream was asked for some and moved none
    have goes (more : ∀ err', next ≠ .done err') : (E.slot s').processed = (E.slot w.self).processed + n ∧
        (E.slot s').processed < (E.slot w.self).requestedSize ∧ (∀ count, next = .postCont count → 0 < count) ∧
        (0 < n ∨ k = 9 ∨ (k = 7 ∧ w.Polls E e)) := by
      obtain ⟨processed, short, some, ok⟩ := goesOn more
      rw [slot] at processed short
      refine ⟨processed, short, some, ?_⟩
      rcases something with counted | heavy | ⟨heavy, polls⟩ | ⟨op, member, mine, asked⟩
      · exact Or.inl counted
      · exact Or.inr (Or.inl heavy)
      · exact Or.inr (Or.inr ⟨heavy, polls current ok⟩)
      · have enough := asks op member (by rw [Op.id, mine, current])
        by_cases none : n = 0
        · omega
        · exact Or.inl (Nat.pos_of_ne_zero none)
    cases next with
    | transfer count dump =>
      obtain ⟨processed, short, _, step⟩ := goes nofun
      simp only [Next.weight]
      rcases step with counted | heavy | ⟨heavy, polls⟩
      · exact ⟨3, by omega, by omega, Or.inr (Nat.le_refl 3)⟩
      · exact ⟨3, by omega, by omega, Or.inr (Nat.le_refl 3)⟩
      · exact ⟨1, by omega, Nat.le_refl 1, Or.inl polls⟩
    | postCont count =>
      obtain ⟨processed, short, some, step⟩ := goes nofun
      have nonzero : count ≠ 0 := Nat.pos_iff_ne_zero.mp (some count rfl)
      simp only [Next.weight, nonzero, ↓reduceIte]
      exact ⟨3, by omega, by omega, Or.inr (Nat.le_refl 3)⟩
    | done err' =>
      simp only [Next.weight]
      exact ⟨3, by omega, by omega, Or.inr (Nat.le_refl 3)⟩
  · unfold resume
    rw [lawful.resume_stale c err n v.memory v.self (by rw [slot]; exact current)]
    have kept : ({ v with counts := v.counts ++ [(c.id, E.counted c n v.memory v.self)] } : World κ σ).toDo E =
        v.underWay + 6 * w.waits.length + 3 * w.fired.length + 6 * w.missing E := by
      simp only [toDo, missing, slot, underWay, waits, fired]
    show ∃ m, toDo E { v with counts := v.counts ++ [(c.id, E.counted c n v.memory v.self)] } + m ≤ _ ∧ _
    rw [kept, toDo, under]
    exact ⟨3, by omega, by omega, Or.inr (Nat.le_refl 3)⟩

theorem move_toDo {i : Nat} {op : Op κ} (bytes : List UInt8) (found : w.ops[i]? = some op) :
    (w.move E i op bytes).toDo E + op.weight = w.toDo E + ({ op with moved := some bytes } : Op κ).weight := by
  obtain ⟨inside, get⟩ := List.getElem?_eq_some_iff.mp found
  have before := ((List.getElem_cons_eraseIdx_perm inside).symm.map Op.weight).sum_nat
  have after := ((List.set_perm_cons_eraseIdx inside { op with moved := some bytes }).map Op.weight).sum_nat
  rw [List.map_cons, List.sum_cons, get] at before
  rw [List.map_cons, List.sum_cons] at after
  have kept : (w.move E i op bytes).toDo E = (w.move E i op bytes).underWay +
      6 * w.waits.length + 3 * w.fired.length + 6 * w.missing E := rfl
  have under : (w.move E i op bytes).underWay + op.weight =
      w.underWay + ({ op with moved := some bytes } : Op κ).weight := by
    simp only [underWay, World.move]
    omega
  rw [kept, toDo]
  omega

theorem move_less {i : Nat} {op : Op κ} {bytes : List UInt8} (found : w.ops[i]? = some op) (unmoved : op.moved = none)
    (moves : op.count ≠ 0 → bytes ≠ []) : (w.move E i op bytes).toDo E + 3 ≤ w.toDo E := by
  have lighter : ({ op with moved := some bytes } : Op κ).weight = 3 := by
    have no : ¬ (bytes = [] ∧ op.count ≠ 0) := fun both => moves both.2 both.1
    simp [Op.weight, no]
  have heavy : op.weight = 6 := by simp [Op.weight, unmoved]
  have change := move_toDo (E := E) bytes found
  omega

theorem step_less (lawful : Lawful E single) (thorough : Thorough E whole) (sound : Sound E single w) (asks : Asks E w)
    (allowed : w.Cooperative e) (taken : w.step E e = some w') :
    ∃ k, w'.toDo E + k ≤ w.toDo E ∧ 1 ≤ k ∧ (w.Polls E e ∨ 3 ≤ k) := by
  cases stepped taken with
  | call => exact allowed.elim
  | move i op bytes found unmoved =>
    exact ⟨3, move_less found unmoved (allowed.2 op found), by omega, Or.inr (Nat.le_refl 3)⟩
  | resume e c err n v from_ => exact resume_less lawful thorough sound asks from_
  | expire =>
    have positive := List.length_pos_iff.mpr allowed
    refine ⟨3, ?_, by omega, Or.inr (Nat.le_refl 3)⟩
    simp only [toDo, underWay, missing, List.length_append, List.length_map, List.length_nil]
    omega
  | timer i id err found =>
    obtain ⟨inside, _⟩ := List.getElem?_eq_some_iff.mp found
    have fewer := List.length_eraseIdx_of_lt inside
    refine ⟨3, ?_, by omega, Or.inr (Nat.le_refl 3)⟩
    by_cases current : id = (E.slot w.self).id
    · subst current
      have busy := (sound.filed.fired _ (List.mem_of_getElem? found)).ne_zero
      obtain ⟨s', eq, slot⟩ := lawful.timeout_current err w.self busy
      rw [eq]
      simp only [toDo, underWay, missing, after, List.foldl_cons, List.foldl_nil, perform, slot, ↓reduceIte, fewer]
      omega
    · rw [lawful.timeout_stale id err w.self current]
      have kept : (after E true { w with fired := w.fired.eraseIdx i } (w.self, [])).toDo E =
          w.underWay + 6 * w.waits.length + 3 * (w.fired.eraseIdx i).length + 6 * w.missing E := rfl
      rw [kept, toDo]
      omega

theorem Regular.step (lawful : Lawful E single) (thorough : Thorough E whole) (regular : Regular E single w)
    (noCall : ∀ q, e ≠ .call q) (taken : w.step E e = some w') : Regular E single w' := by
  have same : w'.accepted = w.accepted := by
    rcases step_accepts lawful regular.sound taken with same | ⟨_, q, rfl, _⟩
    · exact same
    · exact (noCall q rfl).elim
  have small : w'.accepted.length < 2 ^ 32 := same ▸ regular.small
  exact ⟨step_sound lawful regular.sound taken small, step_asks lawful thorough regular.sound regular.asks taken small, small⟩

/-- An operation is served and its handler runs. As much as before is left to be done only if the
stream had nothing for it and did not fail. -/
theorem exchange_less {i : Nat} {op : Op κ} {bytes : List UInt8} {err : ErrorCode} (lawful : Lawful E single)
    (thorough : Thorough E whole) (regular : Regular E single w) (found : w.ops[i]? = some op)
    (unmoved : op.moved = none) (moved : w.step E (.move i bytes) = some v) (taken : v.step E (.complete i err) = some w') :
    Regular E single w' ∧ w'.toDo E ≤ w.toDo E ∧
      ((err.failed = false → op.count ≠ 0 → bytes ≠ []) → w'.toDo E + 2 ≤ w.toDo E) := by
  have between := regular.step lawful thorough (by simp) moved
  have change := move_toDo (E := E) bytes found
  obtain ⟨k, lower, positive, three⟩ := step_less lawful thorough between.sound between.asks (e := .complete i err) trivial taken
  refine ⟨between.step lawful thorough (by simp) taken, ?_⟩
  cases stepped moved with
  | resume _ _ _ _ _ from_ => cases from_
  | move _ op' _ found' =>
    obtain rfl : op = op' := Option.some.inj (found.symm.trans found')
    have before : op.weight = 6 := by simp [Op.weight, unmoved]
    have after : ({ op with moved := some bytes } : Op κ).weight ≤ 7 := by
      simp only [Op.weight]
      split <;> omega
    refine ⟨by omega, fun avail => ?_⟩
    rcases three with ⟨ok, op', found', _, nothing, asked⟩ | three
    · obtain ⟨inside, _⟩ := List.getElem?_eq_some_iff.mp found
      simp only [World.move, List.getElem?_set_self inside, Option.some.injEq] at found'
      subst found'
      exact (avail ok asked (Option.some.inj nothing)).elim
    · omega

/-! ### Until nothing is left -/

theorem Sound.settles (sound : Sound E single w) (ops : w.ops = []) (queue : w.queue = []) : w.Settled := by
  rcases sound.phase with idle | ⟨_, served⟩
  · exact idle.settled
  · have one := served.one
    simp [conts, ops, queue] at one

/-- Until then there is something to be done that needs no call. -/
theorem Sound.goes (sound : Sound E single w) : w.Finished ∨ ∃ e w', w.Cooperative e ∧ w.step E e = some w' := by
  cases ops : w.ops with
  | cons op rest =>
    right
    have found : w.ops[0]? = some op := by rw [ops, List.getElem?_cons_zero]
    cases moved : op.moved with
    | some bytes => exact ⟨.complete 0 .success, _, trivial, by simp only [step, found, moved]; rfl⟩
    | none =>
      -- one byte is enough, and none if none was asked for
      obtain ⟨bytes, length, content⟩ : ∃ bytes : List UInt8, bytes.length = min op.count 1 ∧
          w.memory.read op.data bytes.length = bytes :=
        ⟨w.memory.read op.data (min op.count 1), w.memory.read_length .., by rw [w.memory.read_length]⟩
      have honest : w.Honest (.move 0 bytes) := by
        simp only [Honest, found]
        omega
      refine ⟨.move 0 bytes, w.move E 0 op bytes, ⟨honest, ?_⟩, ?_⟩
      · rintro op' found' asked rfl
        obtain rfl := Option.some.inj (found.symm.trans found')
        rw [List.length_nil] at length
        omega
      · simp only [step, found, moved, content, ne_eq, not_true_eq_false, and_false, Option.isSome_none,
          Bool.false_eq_true, ↓reduceIte]
  | nil =>
    cases queue : w.queue with
    | cons p rest => exact Or.inr ⟨.deliver 0, _, trivial, by simp only [step, queue, List.getElem?_cons_zero]; rfl⟩
    | nil =>
      cases waits : w.waits with
      | cons id rest => exact Or.inr ⟨.expire, _, by simp [Cooperative, waits], rfl⟩
      | nil =>
        cases fired : w.fired with
        | cons f rest => exact Or.inr ⟨.timer 0, _, trivial, by simp only [step, fired, List.getElem?_cons_zero]; rfl⟩
        | nil =>
          exact Or.inl ⟨sound.settles ops queue, ops, queue, waits, fired⟩

theorem reachable_asks {s₀ : σ} {m : Memory UInt8} {es : List (Event κ)} (lawful : Lawful E single)
    (thorough : Thorough E whole) (counter : (E.slot s₀).counter = 0) (idle : (E.slot s₀).id = 0)
    (run : Steps (World.step E) Always { self := s₀, memory := m } es w) (bounded : w.accepted.length < 2 ^ 32) :
    Asks E w := by
  have start : Sound E single { self := s₀, memory := m } := reachable_sound lawful counter idle .refl (by simp)
  refine (run.invariant (P := fun w => w.accepted.length < 2 ^ 32 → Sound E single w ∧ Asks E w)
    (fun _ => ⟨start, fun op member => (List.not_mem_nil member).elim⟩) ?_ bounded).2
  intro w e w' holds _ taken small
  obtain ⟨sound, asks⟩ := holds (Nat.lt_of_le_of_lt (step_accepted taken) small)
  exact ⟨step_sound lawful sound taken small, step_asks lawful thorough sound asks taken small⟩

/-- No cooperative run goes on for ever, and every one can be taken to the end. -/
theorem reachable_finishes {s₀ : σ} {m : Memory UInt8} {es : List (Event κ)} (lawful : Lawful E single)
    (thorough : Thorough E whole) (counter : (E.slot s₀).counter = 0) (idle : (E.slot s₀).id = 0)
    (run : Steps (World.step E) Always { self := s₀, memory := m } es w) (bounded : w.accepted.length < 2 ^ 32) :
    Completes (World.step E) Cooperative w Finished := by
  have sound := reachable_sound lawful counter idle run bounded
  have asks := reachable_asks lawful thorough counter idle run bounded
  refine completes_of_measure (toDo E) (I := Regular E single) ⟨sound, asks, bounded⟩ ?_ fun w regular => regular.sound.goes
  intro w e w' regular allowed taken
  obtain ⟨k, lower, positive, _⟩ := step_less lawful thorough regular.sound regular.asks allowed taken
  refine ⟨regular.step lawful thorough ?_ taken, by omega⟩
  rintro q rfl
  exact allowed

end Steps

end World

end RtacAsio
