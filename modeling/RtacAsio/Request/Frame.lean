import RtacAsio.Request.Wrap

/-!
What the object's own code adds to the operations of the stream. It looks neither at these nor
at the bytes that the stream has moved.
-/

namespace RtacAsio
open Lib

/-- The operations that some effects give to the stream. -/
def transfers : List (Effect κ) → List (Op κ)
  | [] => []
  | .transfer count data handler :: rest => { count, data, handler } :: transfers rest
  | _ :: rest => transfers rest

theorem transfers_append (es fs : List (Effect κ)) : transfers (es ++ fs) = transfers es ++ transfers fs := by
  induction es with
  | nil => rfl
  | cons e rest ih => cases e <;> simp [transfers, ih]

theorem transfers_unmoved (es : List (Effect κ)) : ∀ op ∈ transfers es, op.moved = none := by
  induction es with
  | nil => nofun
  | cons e rest ih =>
    cases e with
    | transfer count data handler => exact List.forall_mem_cons.mpr ⟨rfl, ih⟩
    | _ => exact ih

theorem transfers_stores (p : Nat) (bs : List UInt8) : transfers (κ := κ) (storesFrom p bs) = [] := by
  induction bs generalizing p with
  | nil => rfl
  | cons b rest ih => exact ih (p + 1)

theorem transfers_armed (q : Request κ) (id : UInt32) : transfers (armed q id) = [] := by
  unfold armed
  split <;> rfl

/-- A turn gives one operation to the stream at most. -/
theorem IsTurn.one {direction : Direction} {c : Cont κ} {s slot : Slot} {next : Next} {effects : List (Effect κ)}
    (h : IsTurn direction c s next slot effects) : (transfers effects).length ≤ 1 := by
  obtain ⟨_, p, bs, rfl, _⟩ := h
  rw [transfers_append, transfers_stores, List.nil_append]
  cases next with
  | transfer count dump => exact Nat.le_refl 1
  | postCont count => exact Nat.zero_le 1
  | done err =>
    simp only [Next.effects]
    split <;> exact Nat.zero_le 1

section Endpoints
variable {κ σ : Type} {E : Endpoint κ σ} {single : κ → Bool}

theorem Lawful.call_one (lawful : Lawful E single) (q : Request κ) (s : σ) : (transfers (E.call q s).2.2).length ≤ 1 := by
  by_cases idle : (E.slot s).id = 0
  · obtain ⟨s', next, turn, eq, isTurn, _⟩ := lawful.call_idle q s idle
    rw [eq, transfers_append, transfers_armed, List.nil_append]
    exact isTurn.one
  · rw [lawful.call_busy q s idle]
    exact Nat.zero_le 1

theorem Lawful.resume_one (lawful : Lawful E single) (c : Cont κ) (err : ErrorCode) (n : Nat) (m : Memory UInt8) (s : σ) :
    (transfers (E.resume c err n m s).2).length ≤ 1 := by
  by_cases current : c.id = (E.slot s).id
  · obtain ⟨s', next, turn, eq, isTurn, _⟩ := lawful.resume_current c err n m s current
    rw [eq]
    exact isTurn.one
  · rw [lawful.resume_stale c err n m s current]
    exact Nat.zero_le 1

theorem LawfulIdle.timeout_none (lawful : LawfulIdle E single) (id : UInt32) (err : ErrorCode) (s : σ) :
    transfers (E.timeoutReached id err s).2 = [] := by
  by_cases current : id = (E.slot s).id
  · subst current
    by_cases idle : (E.slot s).id = 0
    · obtain ⟨s', eq, _⟩ := lawful.timeout_idle err s idle
      rw [idle, eq]
      rfl
    · obtain ⟨s', eq, _⟩ := lawful.timeout_current err s idle
      rw [eq]
      rfl
  · rw [lawful.timeout_stale id err s current]
    rfl

end Endpoints

namespace World
variable {κ σ : Type} {E : Endpoint κ σ} {single : κ → Bool} {expired : Bool} {w : World κ σ}

/-- The same world over a stream with other operations and another past. -/
def overStream (ops : List (Op κ)) (traffic : List (UInt32 × List UInt8)) (w : World κ σ) : World κ σ := { w with ops, traffic }

/-- What `f` does to `w` is to add the operations `new`, and nothing else that is the stream's. -/
def Adds (f : World κ σ → World κ σ) (w : World κ σ) (new : List (Op κ)) : Prop :=
  ∀ ops traffic, f (w.overStream ops traffic) = (f w).overStream (ops ++ new) traffic

theorem Adds.ops {f : World κ σ → World κ σ} {new : List (Op κ)} (h : Adds f w new) : (f w).ops = w.ops ++ new :=
  congrArg World.ops (h w.ops w.traffic)

theorem Adds.traffic {f : World κ σ → World κ σ} {new : List (Op κ)} (h : Adds f w new) : (f w).traffic = w.traffic :=
  (congrArg World.traffic (h w.ops w.traffic) :)

theorem perform_over (ops : List (Op κ)) (traffic : List (UInt32 × List UInt8)) (w : World κ σ) (e : Effect κ) :
    (w.overStream ops traffic).perform E expired e = (w.perform E expired e).overStream (ops ++ transfers [e]) traffic := by
  cases e <;> simp [perform, transfers, overStream]

theorem foldl_over (ops : List (Op κ)) (traffic : List (UInt32 × List UInt8)) (es : List (Effect κ)) (w : World κ σ) :
    es.foldl (perform E expired) (w.overStream ops traffic) =
      (es.foldl (perform E expired) w).overStream (ops ++ transfers es) traffic := by
  induction es generalizing ops w with
  | nil => simp [transfers]
  | cons e rest ih =>
    have joined := transfers_append [e] rest
    rw [List.singleton_append] at joined
    rw [List.foldl_cons, List.foldl_cons, perform_over, ih, joined, List.append_assoc]

theorem after_over (E : Endpoint κ σ) (expired : Bool) (ops : List (Op κ)) (traffic : List (UInt32 × List UInt8))
    (out : σ × List (Effect κ)) (w : World κ σ) :
    (w.overStream ops traffic).after E expired out = (w.after E expired out).overStream (ops ++ transfers out.2) traffic :=
  foldl_over ops traffic out.2 { w with self := out.1 }

theorem call_adds (q : Request κ) (w : World κ σ) : Adds (call E q) w (transfers (E.call q w.self).2.2) := by
  intro ops traffic
  by_cases accepted : (E.call q w.self).1 = true
  · have grown := after_over E false ops traffic (E.call q w.self).2
      { w with accepted := w.accepted ++ [q],
               counts := w.counts ++ [((E.slot (E.call q w.self).2.1).counter, E.taken q w.self)] }
    simpa only [call, overStream, accepted, ↓reduceIte] using grown
  · have same := after_over E false ops traffic (E.call q w.self).2 w
    simpa only [call, overStream, accepted, Bool.false_eq_true, ↓reduceIte] using same

theorem resume_adds (c : Cont κ) (err : ErrorCode) (n : Nat) (w : World κ σ) :
    Adds (resume E c err n) w (transfers (E.resume c err n w.memory w.self).2) :=
  fun ops traffic => after_over E false ops traffic (E.resume c err n w.memory w.self)
    { w with counts := w.counts ++ [(c.id, E.counted c n w.memory w.self)] }

theorem handle_adds (h : Handler κ) (err : ErrorCode) (n : Nat) (w : World κ σ) :
    ∃ s, Adds (handle E h err n) w (transfers (E.resume h.cont err n w.memory s).2) := by
  unfold handle
  cases h.dump with
  | none => exact ⟨w.self, resume_adds h.cont err n w⟩
  | some data =>
    exact ⟨_, fun ops traffic =>
      resume_adds h.cont err n { w with self := E.dumpCallback data err n w.memory w.self } ops traffic⟩

/-- A step of the object, its service or its timer keeps operations and adds one at most. -/
theorem step_adds {e : Event κ} {w' : World κ σ} (lawful : LawfulIdle E single) (taken : w.step E e = some w')
    (still : ∀ i bytes, e ≠ .move i bytes) :
    ∃ kept new, w'.ops = kept ++ new ∧ kept.Sublist w.ops ∧ new.length ≤ 1 ∧ ∀ op ∈ new, op.moved = none := by
  cases step_cases taken with
  | call q =>
    exact ⟨w.ops, _, (call_adds q w).ops, List.Sublist.refl _, lawful.call_one q w.self, transfers_unmoved _⟩
  | move i op bytes => exact (still i bytes rfl).elim
  | complete i op bytes err =>
    obtain ⟨s, adds⟩ := handle_adds (E := E) op.handler err bytes.length { w with ops := w.ops.eraseIdx i }
    exact ⟨_, _, adds.ops, List.eraseIdx_sublist .., lawful.resume_one op.handler.cont err bytes.length w.memory s,
      transfers_unmoved _⟩
  | deliver i p =>
    have adds := resume_adds (E := E) p.cont p.err p.count { w with queue := w.queue.eraseIdx i }
    exact ⟨_, _, adds.ops, List.Sublist.refl _, lawful.resume_one p.cont p.err p.count w.memory w.self, transfers_unmoved _⟩
  | expire => exact ⟨w.ops, [], (List.append_nil _).symm, List.Sublist.refl _, Nat.zero_le 1, nofun⟩
  | timer i id err =>
    have same := congrArg World.ops
      (after_over E true w.ops w.traffic (E.timeoutReached id err w.self) { w with fired := w.fired.eraseIdx i })
    rw [lawful.timeout_none] at same
    exact ⟨w.ops, [], same, List.Sublist.refl _, Nat.zero_le 1, nofun⟩

end World

end RtacAsio
