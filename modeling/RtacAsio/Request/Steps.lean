import Mathlib.Data.List.Perm.Basic
import RtacAsio.Request.Turn

/-! What the effects of a turn make of the world. -/

namespace RtacAsio
open Lib

namespace World
variable {κ σ : Type} {E : Endpoint κ σ} {expired : Bool} {w : World κ σ}

def arm (q : Request κ) (id : UInt32) (w : World κ σ) : World κ σ :=
  if q.timeoutMillis > 0 then
    { w with fired := w.fired ++ w.waits.map (·, .aborted), waits := [id],
             log := w.log ++ [.arm q.timeoutMillis id] }
  else w

@[simp] theorem arm_self (q : Request κ) (id : UInt32) (w : World κ σ) : (w.arm q id).self = w.self := by
  unfold arm; split <;> rfl

@[simp] theorem arm_memory (q : Request κ) (id : UInt32) (w : World κ σ) : (w.arm q id).memory = w.memory := by
  unfold arm; split <;> rfl

@[simp] theorem arm_ops (q : Request κ) (id : UInt32) (w : World κ σ) : (w.arm q id).ops = w.ops := by
  unfold arm; split <;> rfl

@[simp] theorem arm_queue (q : Request κ) (id : UInt32) (w : World κ σ) : (w.arm q id).queue = w.queue := by
  unfold arm; split <;> rfl

@[simp] theorem arm_accepted (q : Request κ) (id : UInt32) (w : World κ σ) :
    (w.arm q id).accepted = w.accepted := by
  unfold arm; split <;> rfl

@[simp] theorem arm_posts (q : Request κ) (id : UInt32) (w : World κ σ) : (w.arm q id).posts = w.posts := by
  unfold arm; split <;> rfl

@[simp] theorem arm_counts (q : Request κ) (id : UInt32) (w : World κ σ) : (w.arm q id).counts = w.counts := by
  unfold arm; split <;> rfl

@[simp] theorem arm_traffic (q : Request κ) (id : UInt32) (w : World κ σ) : (w.arm q id).traffic = w.traffic := by
  unfold arm; split <;> rfl

theorem arm_untimed {q : Request κ} (id : UInt32) (w : World κ σ) (untimed : q.timeoutMillis = 0) :
    w.arm q id = w := by
  simp [arm, untimed]

def stored (p : Nat) (bs : List UInt8) (w : World κ σ) : World κ σ :=
  { w with memory := w.memory.write p bs, log := w.log ++ storesFrom p bs }

@[simp] theorem stored_self (p : Nat) (bs : List UInt8) (w : World κ σ) : (w.stored p bs).self = w.self := rfl

@[simp] theorem stored_nil (p : Nat) (w : World κ σ) : w.stored p [] = w := by simp [stored, storesFrom]

/-- The end of a turn of `c`, with the slot it leaves. -/
def conclude (s : Slot) (c : Cont κ) (next : Next) (expired : Bool) (w : World κ σ) : World κ σ :=
  match next with
  | .transfer count dump =>
    { w with ops := w.ops ++ [{ count, data := s.data + s.processed, handler := ⟨c, dump⟩ }],
             log := w.log ++ [.transfer count (s.data + s.processed) ⟨c, dump⟩] }
  | .postCont count =>
    { w with queue := w.queue ++ [⟨c, .success, count⟩], log := w.log ++ [.postCont c .success count] }
  | .done err =>
    if c.id = 0 then w else
      { w with posts := w.posts ++ [⟨s.callback, err, s.processed, w.memory.read s.data s.processed, expired⟩],
               log := w.log ++ [.post s.callback err s.processed] }

theorem conclude_callback (s : Slot) {c : Cont κ} (err : ErrorCode) (expired : Bool) (w : World κ σ) (nonzero : c.id ≠ 0) :
    w.conclude s c (.done err) expired =
      { w with posts := w.posts ++ [⟨s.callback, err, s.processed, w.memory.read s.data s.processed, expired⟩],
               log := w.log ++ [.post s.callback err s.processed] } := by
  simp only [conclude, nonzero, ↓reduceIte]

theorem conclude_zero (s : Slot) {c : Cont κ} (err : ErrorCode) (expired : Bool) (w : World κ σ) (zero : c.id = 0) :
    w.conclude s c (.done err) expired = w := by
  simp only [conclude, zero, ↓reduceIte]

/-- The end of a turn adds an operation, or a posted continuation, or neither. -/
theorem conclude_adds (s : Slot) (c : Cont κ) (next : Next) (expired : Bool) (w : World κ σ) :
    ∃ ops queue posts log,
      w.conclude s c next expired = { w with ops := w.ops ++ ops, queue := w.queue ++ queue, posts, log } ∧
      (∀ op ∈ ops, ∃ count dump, next = .transfer count dump ∧
        op = { count, data := s.data + s.processed, handler := ⟨c, dump⟩ }) ∧
      ∀ p ∈ queue, ∃ count, next = .postCont count ∧ p = ⟨c, .success, count⟩ := by
  cases next with
  | transfer count dump =>
    refine ⟨[{ count, data := s.data + s.processed, handler := ⟨c, dump⟩ }], [], w.posts,
      (w.conclude s c (.transfer count dump) expired).log, ?_, ?_, nofun⟩
    · simp only [conclude, List.append_nil]
    · simp only [List.forall_mem_singleton]
      exact ⟨count, dump, rfl, rfl⟩
  | postCont count =>
    refine ⟨[], [⟨c, .success, count⟩], w.posts, (w.conclude s c (.postCont count) expired).log, ?_, nofun, ?_⟩
    · simp only [conclude, List.append_nil]
    · simp only [List.forall_mem_singleton]
      exact ⟨count, rfl, rfl⟩
  | done err =>
    refine ⟨[], [], (w.conclude s c (.done err) expired).posts, (w.conclude s c (.done err) expired).log, ?_, nofun,
      nofun⟩
    simp only [conclude, List.append_nil]
    split <;> rfl

theorem conclude_congr {s s' : Slot} (c : Cont κ) (next : Next) (expired : Bool) (w : World κ σ) (data : s.data = s'.data)
    (processed : s.processed = s'.processed) (callback : s.callback = s'.callback) :
    w.conclude s c next expired = w.conclude s' c next expired := by
  cases next <;> simp only [conclude, data, processed, callback]

@[simp] theorem conclude_self (s : Slot) (c : Cont κ) (next : Next) (expired : Bool) (w : World κ σ) :
    (w.conclude s c next expired).self = w.self := by
  obtain ⟨_, _, _, _, eq, _⟩ := w.conclude_adds s c next expired
  rw [eq]

@[simp] theorem conclude_accepted (s : Slot) (c : Cont κ) (next : Next) (expired : Bool) (w : World κ σ) :
    (w.conclude s c next expired).accepted = w.accepted := by
  obtain ⟨_, _, _, _, eq, _⟩ := w.conclude_adds s c next expired
  rw [eq]

@[simp] theorem conclude_traffic (s : Slot) (c : Cont κ) (next : Next) (expired : Bool) (w : World κ σ) :
    (w.conclude s c next expired).traffic = w.traffic := by
  obtain ⟨_, _, _, _, eq, _⟩ := w.conclude_adds s c next expired
  rw [eq]

@[simp] theorem conclude_waits (s : Slot) (c : Cont κ) (next : Next) (expired : Bool) (w : World κ σ) :
    (w.conclude s c next expired).waits = w.waits := by
  obtain ⟨_, _, _, _, eq, _⟩ := w.conclude_adds s c next expired
  rw [eq]

@[simp] theorem conclude_fired (s : Slot) (c : Cont κ) (next : Next) (expired : Bool) (w : World κ σ) :
    (w.conclude s c next expired).fired = w.fired := by
  obtain ⟨_, _, _, _, eq, _⟩ := w.conclude_adds s c next expired
  rw [eq]

theorem foldl_armed (q : Request κ) (id : UInt32) : (armed q id).foldl (perform E expired) w = w.arm q id := by
  unfold armed arm
  split <;> rfl

theorem foldl_stores (p : Nat) (bs : List UInt8) :
    (storesFrom p bs).foldl (perform E expired) w = w.stored p bs := by
  induction bs generalizing p w with
  | nil => simp [storesFrom, stored]
  | cons b rest ih =>
    rw [storesFrom, List.foldl_cons, ih]
    have both := w.memory.write_append p [b] rest
    simp only [List.cons_append, List.nil_append, List.length_singleton] at both
    simp only [perform, stored, storesFrom, both, List.append_assoc, List.cons_append, List.nil_append]

theorem foldl_next (s : Slot) (c : Cont κ) (next : Next)
    (same : (E.slot w.self).data = s.data) :
    (next.effects s c).foldl (perform E expired) w = w.conclude s c next expired := by
  cases next with
  | done err =>
    simp only [Next.effects, conclude]
    split
    · rfl
    · simp only [List.foldl_cons, List.foldl_nil, perform, same]
  | _ => rfl

theorem after_turn {w : World κ σ} {s' : σ} {q : Request κ} {id : UInt32} {p : Nat} {bs : List UInt8}
    {next : Next} {s : Slot} {c : Cont κ} (same : (E.slot s').data = s.data) :
    w.after E expired (s', armed q id ++ (storesFrom p bs ++ next.effects s c)) =
      (({ w with self := s' }.arm q id).stored p bs).conclude s c next expired := by
  simp only [after, List.foldl_append, foldl_armed, foldl_stores]
  exact foldl_next s c next (by simpa [stored] using same)

theorem after_turn_resumed {w : World κ σ} {s' : σ} {p : Nat} {bs : List UInt8} {next : Next} {s : Slot}
    {c : Cont κ} (same : (E.slot s').data = s.data) :
    w.after E expired (s', storesFrom p bs ++ next.effects s c) =
      (({ w with self := s' } : World κ σ).stored p bs).conclude s c next expired := by
  simp only [after, List.foldl_append, foldl_stores]
  exact foldl_next s c next same

@[simp] theorem after_accepted (out : σ × List (Effect κ)) : (w.after E expired out).accepted = w.accepted := by
  have effects (es : List (Effect κ)) (v : World κ σ) : (es.foldl (perform E expired) v).accepted = v.accepted := by
    induction es generalizing v with
    | nil => rfl
    | cons e rest ih =>
      rw [List.foldl_cons, ih]
      cases e <;> rfl
  exact effects out.2 _

/-! ### Inversion of one step -/

inductive StepCase (E : Endpoint κ σ) (w : World κ σ) : Event κ → World κ σ → Prop where
  | call (q : Request κ) : StepCase E w (.call q) (w.call E q)
  | move (i : Nat) (op : Op κ) (bytes : List UInt8) : w.ops[i]? = some op → op.moved = none →
      (E.direction = .output → w.memory.read op.data bytes.length = bytes) →
      StepCase E w (.move i bytes) (w.move E i op bytes)
  | complete (i : Nat) (op : Op κ) (bytes : List UInt8) (err : ErrorCode) : w.ops[i]? = some op →
      op.moved = some bytes →
      StepCase E w (.complete i err) (handle E op.handler err bytes.length { w with ops := w.ops.eraseIdx i })
  | deliver (i : Nat) (p : Posted κ) : w.queue[i]? = some p →
      StepCase E w (.deliver i) (resume E p.cont p.err p.count { w with queue := w.queue.eraseIdx i })
  | expire : StepCase E w .expire { w with fired := w.fired ++ w.waits.map (·, .success), waits := [] }
  | timer (i : Nat) (id : UInt32) (err : ErrorCode) : w.fired[i]? = some (id, err) →
      StepCase E w (.timer i) (after E true { w with fired := w.fired.eraseIdx i } (E.timeoutReached id err w.self))

theorem step_cases {e : Event κ} {w' : World κ σ} (h : w.step E e = some w') : StepCase E w e w' := by
  cases e with
  | call q =>
    obtain rfl := Option.some.inj h
    exact .call q
  | move i bytes =>
    simp only [step] at h
    split at h
    · cases h
    · rename_i op found
      split at h
      · cases h
      · rename_i fresh
        split at h
        · cases h
        · rename_i allowed
          obtain rfl := Option.some.inj h
          refine .move i op bytes found (by simpa using fresh) fun output => ?_
          simpa [output] using allowed
  | complete i err =>
    simp only [step] at h
    split at h
    · cases h
    · rename_i op found
      split at h
      · cases h
      · rename_i bytes moved
        obtain rfl := Option.some.inj h
        exact .complete i op bytes err found moved
  | deliver i =>
    simp only [step] at h
    split at h
    · cases h
    · rename_i p found
      obtain rfl := Option.some.inj h
      exact .deliver i p found
  | expire =>
    obtain rfl := Option.some.inj h
    exact .expire
  | timer i =>
    simp only [step] at h
    split at h
    · cases h
    · rename_i id err found
      obtain rfl := Option.some.inj h
      exact .timer i id err found

theorem expire_nothing (waits : w.waits = []) :
    { w with fired := w.fired ++ w.waits.map (·, .success), waits := [] } = w := by
  cases w
  simp_all

theorem handle_accepted (h : Handler κ) (err : ErrorCode) (count : Nat) :
    (w.handle E h err count).accepted = w.accepted := by
  unfold handle resume
  split <;> simp

theorem step_accepted {e : Event κ} {w' : World κ σ} (taken : w.step E e = some w') :
    w.accepted.length ≤ w'.accepted.length := by
  cases step_cases taken with
  | call q =>
    simp only [call]
    split <;> simp
  | complete => exact Nat.le_of_eq (by rw [handle_accepted])
  | deliver => simp [resume]
  | timer => simp
  | _ => exact Nat.le_refl _

end World

theorem singleton_getElem? {x y : α} {i : Nat} (h : [x][i]? = some y) : i = 0 ∧ x = y := by
  cases i with
  | zero => exact ⟨rfl, by simpa using h⟩
  | succ i => simp at h

theorem concat_getElem? {l : List α} {a x : α} {i : Nat} (h : (l ++ [a])[i]? = some x) :
    l[i]? = some x ∨ i = l.length ∧ x = a := by
  rcases Nat.lt_trichotomy i l.length with low | rfl | high
  · rw [List.getElem?_append_left low] at h
    exact Or.inl h
  · rw [List.getElem?_concat_length] at h
    exact Or.inr ⟨rfl, (Option.some.inj h).symm⟩
  · rw [List.getElem?_eq_none (by simp; omega)] at h
    cases h

theorem mem_eraseIdx_of_ne {l : List α} {x y : α} {i : Nat} (found : l[i]? = some x) (other : y ≠ x) :
    y ∈ l.eraseIdx i ↔ y ∈ l := by
  obtain ⟨inside, rfl⟩ := List.getElem?_eq_some_iff.mp found
  rw [← (List.getElem_cons_eraseIdx_perm inside).mem_iff, List.mem_cons]
  simp [other]

end RtacAsio
