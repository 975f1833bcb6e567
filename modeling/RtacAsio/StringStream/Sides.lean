import RtacAsio.StringStream.Piecewise

/-!
One side of a `Stream` over a `StringStream`: with one request at a time, its continuation is
always the only task, and the callback reports what was moved.
-/

namespace RtacAsio
open Lib

namespace Side
variable {κ σ : Type} {E : Endpoint κ σ} {single : κ → Bool} {plain : κ → Prop} {ok : σ → Prop}
variable {x x' : Side κ σ} {h h' : Shared} {q : Request κ}

/-- The task that a transfer posts. -/
def task (id : UInt32) (dump : Option Nat) (bytes : List UInt8) (q : Request κ) : Task κ :=
  ⟨⟨⟨q.kind, id⟩, dump⟩, .success, bytes.length⟩

/-- Nothing is under way. -/
structure Idle (E : Endpoint κ σ) (x : Side κ σ) : Prop where
  id : (E.slot x.self).id = 0
  tasks : x.tasks = []
  settled : x.accepted.length = x.posts.length
  current : x.current = []

/-- The request `q` is under way, and its continuation is with the service. -/
structure Serving (E : Endpoint κ σ) (single : κ → Bool) (x : Side κ σ) (q : Request κ) : Prop where
  tasks : ∃ dump bytes, x.tasks = [task (E.slot x.self).id dump bytes q] ∧
    (E.slot x.self).processed + bytes.length = x.current.length
  data : (E.slot x.self).data = q.data
  size : (E.slot x.self).requestedSize = q.size
  callback : (E.slot x.self).callback = q.callback
  fresh : single q.kind = true → (E.slot x.self).processed = 0
  open_ : x.accepted.length = x.posts.length + 1
  last : x.accepted[x.posts.length]? = some q
  bound : x.current.length ≤ q.size

/-- The counter wrapped around to the id 0, so that the end of the request posted nothing. -/
structure Lost (x : Side κ σ) : Prop where
  tasks : x.tasks = []
  open_ : x.accepted.length = x.posts.length + 1

/-- What a continuation of `q` does: it asks for the rest, or ends the request. -/
inductive Turn (E : Endpoint κ σ) (single : κ → Bool) (q : Request κ) (x : Side κ σ) (h : Shared) :
    Side κ σ → Shared → Prop where
  | more (s : σ) (dump : Option Nat) (out : Shared × List UInt8) : single q.kind = false → x.current.length < q.size →
      out = h.transfer E.direction (q.size - x.current.length) (q.data + x.current.length) →
      E.slot s = { E.slot x.self with processed := x.current.length } →
      Turn E single q x h
        { x with self := s, tasks := [task (E.slot x.self).id dump out.2 q], current := x.current ++ out.2 } out.1
  | last (s : σ) : (single q.kind = false → x.current.length = q.size) → (E.slot s).id = 0 →
      Turn E single q x h
        { x with
          self := s
          tasks := []
          posts := x.posts ++ [⟨q.callback, .success, x.current.length, h.memory.read q.data x.current.length, false⟩]
          done := x.done ++ [x.current]
          current := [] } h
  | lost (s : σ) : Turn E single q x h { x with self := s, tasks := [] } h

theorem call_idle (pieces : Piecewise E single plain ok) (good : ok x.self) (idle : Idle E x)
    (kind : plain q.kind) (untimed : q.timeoutMillis = 0) :
    ∃ s dump, ok s ∧ E.slot s = (E.slot x.self).opened q ∧
      x.call E q h =
        ({ x with
            self := s
            tasks := [task ((E.slot x.self).counter + 1) dump (h.transfer E.direction q.size q.data).2 q]
            accepted := x.accepted ++ [q]
            current := (h.transfer E.direction q.size q.data).2 },
          (h.transfer E.direction q.size q.data).1) := by
  obtain ⟨s, dump, called, slot, good⟩ := pieces.call q x.self good kind untimed idle.id
  refine ⟨s, dump, good, slot, ?_⟩
  simp [call, called, perform, task, idle.tasks, idle.current]

theorem dumpCallback_slot (pieces : Piecewise E single plain ok) (good : ok x.self) (data : Nat) (err : ErrorCode)
    (count : Nat) (m : Memory UInt8) :
    ok (E.dumpCallback data err count m x.self) ∧ E.slot (E.dumpCallback data err count m x.self) = E.slot x.self := by
  unfold Endpoint.dumpCallback
  split
  · exact ⟨good, rfl⟩
  · split
    · exact ⟨good, rfl⟩
    · exact pieces.dump _ x.self good

/-- `dump_callback` leaves the request as it is. -/
theorem run_only (pieces : Piecewise E single plain ok) (good : ok x.self) {i : Nat} {id : UInt32} {dump : Option Nat}
    {bytes : List UInt8} (tasks : x.tasks = [task id dump bytes q]) (taken : x.run E i h = some (x', h')) :
    ∃ s, ok s ∧ E.slot s = E.slot x.self ∧
      (E.resume ⟨q.kind, id⟩ .success bytes.length h.memory s).2.foldl (perform E)
        ({ x with self := (E.resume ⟨q.kind, id⟩ .success bytes.length h.memory s).1, tasks := [] }, h) = (x', h') := by
  unfold run at taken
  split at taken
  · cases taken
  · rename_i t found
    rw [tasks] at found taken
    obtain ⟨rfl, rfl⟩ := singleton_getElem? found
    cases dump with
    | none => exact ⟨x.self, good, rfl, Option.some.inj taken⟩
    | some data =>
      obtain ⟨good, slot⟩ := dumpCallback_slot pieces good data .success bytes.length h.memory
      exact ⟨_, good, slot, Option.some.inj taken⟩

theorem run_serving (pieces : Piecewise E single plain ok) (good : ok x.self) (serving : Serving E single x q)
    (kind : plain q.kind) {i : Nat} (taken : x.run E i h = some (x', h')) : ok x'.self ∧ Turn E single q x h x' h' := by
  obtain ⟨dump, bytes, tasks, count⟩ := serving.tasks
  obtain ⟨s, good, slot, taken⟩ := run_only pieces good tasks taken
  obtain ⟨data, size⟩ : (E.slot s).data = q.data ∧ (E.slot s).requestedSize = q.size := by
    rw [slot]
    exact ⟨serving.data, serving.size⟩
  have processed : (E.slot s).processed + bytes.length = x.current.length := by rw [slot]; exact count
  have fresh : single q.kind = true → (E.slot s).processed = 0 := by rw [slot]; exact serving.fresh
  by_cases ends : single q.kind = true ∨ q.size ≤ x.current.length
  · obtain ⟨s', resumed, slot', good'⟩ := pieces.last ⟨q.kind, (E.slot x.self).id⟩ bytes.length h.memory s good kind
      (by rw [slot]) fresh (by rw [size, processed]; exact ends)
    rw [resumed, processed] at taken
    have whole : single q.kind = false → x.current.length = q.size := by
      intro goesOn
      have bound := serving.bound
      rcases ends with single | full
      · rw [goesOn] at single
        cases single
      · omega
    by_cases wrapped : (E.slot x.self).id = 0
    · simp only [Next.effects, wrapped, ↓reduceIte, List.foldl_nil, Prod.mk.injEq] at taken
      obtain ⟨rfl, rfl⟩ := taken
      exact ⟨good', .lost s'⟩
    · have data' : (E.slot s').data = q.data := by rw [slot']; exact data
      have callback : (E.slot s).callback = q.callback := by rw [slot]; exact serving.callback
      simp only [Next.effects, wrapped, ↓reduceIte, List.foldl_cons, List.foldl_nil, perform, data', callback,
        Prod.mk.injEq] at taken
      obtain ⟨rfl, rfl⟩ := taken
      exact ⟨good', .last s' whole (by rw [slot'])⟩
  · obtain ⟨goesOn, short⟩ : single q.kind = false ∧ x.current.length < q.size := by
      simpa using ends
    obtain ⟨s', dump', resumed, slot', good'⟩ := pieces.more ⟨q.kind, (E.slot x.self).id⟩ bytes.length h.memory s good
      kind (by rw [slot]) goesOn (by rw [size, processed]; exact short)
    rw [resumed, processed, data, size] at taken
    simp only [List.foldl_cons, List.foldl_nil, perform, List.nil_append, Prod.mk.injEq] at taken
    obtain ⟨rfl, rfl⟩ := taken
    exact ⟨good', .more s' dump' _ goesOn short rfl (by rw [slot', processed, slot])⟩

/-- What the callback of `q` reports of the bytes `bytes` that were moved for it. -/
structure Whole (single : κ → Bool) (q : Request κ) (p : Post) (bytes : List UInt8) : Prop where
  callback : p.callback = q.callback
  err : p.err = .success
  count : p.count = bytes.length
  bound : bytes.length ≤ q.size
  all : single q.kind = false → bytes.length = q.size

structure Sound (E : Endpoint κ σ) (single : κ → Bool) (plain : κ → Prop) (ok : σ → Prop) (x : Side κ σ) : Prop where
  good : ok x.self
  paired : x.done.length = x.posts.length
  stage : Idle E x ∨ (∃ q, plain q.kind ∧ Serving E single x q) ∨ Lost x
  whole : ∀ (i : Nat) q p bytes, x.accepted[i]? = some q → x.posts[i]? = some p → x.done[i]? = some bytes →
    Whole single q p bytes

theorem Sound.idle (sound : Sound E single plain ok x) (settled : x.accepted.length = x.posts.length) : Idle E x := by
  rcases sound.stage with idle | ⟨q, _, serving⟩ | lost
  · exact idle
  · have more := serving.open_
    omega
  · have more := lost.open_
    omega

/-- Every callback is that of a request, and reports what was moved for it. -/
theorem Sound.finished (sound : Sound E single plain ok x) {i : Nat} {p : Post} (posted : x.posts[i]? = some p) :
    ∃ q bytes, x.accepted[i]? = some q ∧ x.done[i]? = some bytes ∧ Whole single q p bytes := by
  have below : i < x.posts.length := (List.getElem?_eq_some_iff.mp posted).1
  have enough : x.posts.length ≤ x.accepted.length := by
    rcases sound.stage with idle | ⟨q, _, serving⟩ | lost
    · exact Nat.le_of_eq idle.settled.symm
    · exact Nat.le_of_lt (by rw [serving.open_]; exact Nat.lt_succ_self _)
    · exact Nat.le_of_lt (by rw [lost.open_]; exact Nat.lt_succ_self _)
  have paired := sound.paired
  have accepted := List.getElem?_eq_getElem (l := x.accepted) (i := i) (by omega)
  have done := List.getElem?_eq_getElem (l := x.done) (i := i) (by omega)
  exact ⟨_, _, accepted, done, sound.whole i _ p _ accepted posted done⟩

theorem Sound.turn (pieces : Piecewise E single plain ok) (sound : Sound E single plain ok x) {i : Nat}
    (taken : x.run E i h = some (x', h')) :
    ∃ q, plain q.kind ∧ Serving E single x q ∧ ok x'.self ∧ Turn E single q x h x' h' := by
  have nothing (none : x.tasks = []) : False := by
    unfold run at taken
    rw [none] at taken
    cases taken
  rcases sound.stage with idle | ⟨q, kind, serving⟩ | lost
  · exact (nothing idle.tasks).elim
  · obtain ⟨good, turn⟩ := run_serving pieces sound.good serving kind taken
    exact ⟨q, kind, serving, good, turn⟩
  · exact (nothing lost.tasks).elim

theorem call_sound (sound : Sound E single plain ok x) (idle : Idle E x) (kind : plain q.kind) {s : σ} (good : ok s)
    (slot : E.slot s = (E.slot x.self).opened q) (dump : Option Nat) {bytes : List UInt8} (bound : bytes.length ≤ q.size) :
    Sound E single plain ok
      { x with
        self := s
        tasks := [task ((E.slot x.self).counter + 1) dump bytes q]
        accepted := x.accepted ++ [q]
        current := bytes } := by
  have settled := idle.settled
  refine ⟨good, sound.paired, Or.inr (Or.inl ⟨q, kind, ⟨⟨dump, bytes, ?_, ?_⟩, ?_, ?_, ?_, ?_, ?_, ?_, bound⟩⟩), ?_⟩
  · simp only [slot]
    rfl
  · simp only [slot, Slot.opened, Nat.zero_add]
  · simp only [slot, Slot.opened]
  · simp only [slot, Slot.opened]
  · simp only [slot, Slot.opened]
  · intro _
    simp only [slot, Slot.opened]
  · simp [settled]
  · simp [← settled]
  · intro i q' p d accepted posted done
    have before : i < x.posts.length := (List.getElem?_eq_some_iff.mp posted).1
    rw [List.getElem?_append_left (by omega)] at accepted
    exact sound.whole i q' p d accepted posted done

theorem turn_sound (sound : Sound E single plain ok x) (kind : plain q.kind) (serving : Serving E single x q)
    (good : ok x'.self) (fits : ∀ n p, (h.transfer E.direction n p).2.length ≤ n) (turn : Turn E single q x h x' h') :
    Sound E single plain ok x' := by
  have bound := serving.bound
  have open_ := serving.open_
  have paired := sound.paired
  cases turn with
  | more s dump out goesOn short eq slot =>
    have asked := fits (q.size - x.current.length) (q.data + x.current.length)
    rw [← eq] at asked
    refine ⟨good, paired, Or.inr (Or.inl ⟨q, kind, ⟨⟨dump, out.2, ?_, ?_⟩, ?_, ?_, ?_, ?_, open_, serving.last, ?_⟩⟩),
      sound.whole⟩
    · simp only [slot]
    · simp only [slot, List.length_append]
    · simp only [slot]
      exact serving.data
    · simp only [slot]
      exact serving.size
    · simp only [slot]
      exact serving.callback
    · intro single
      rw [goesOn] at single
      cases single
    · simp only [List.length_append]
      omega
  | last s all idle =>
    refine ⟨good, by simp [paired], Or.inl ⟨idle, rfl, by simpa using open_, rfl⟩, ?_⟩
    intro i q' p d accepted posted done
    rcases concat_getElem? posted with posted | ⟨rfl, rfl⟩
    · have before : i < x.posts.length := (List.getElem?_eq_some_iff.mp posted).1
      rw [List.getElem?_append_left (by omega)] at done
      exact sound.whole i q' p d accepted posted done
    · obtain rfl : q = q' := Option.some.inj (serving.last.symm.trans accepted)
      rw [← paired, List.getElem?_concat_length] at done
      obtain rfl := Option.some.inj done
      exact ⟨rfl, rfl, rfl, bound, all⟩
  | lost s => exact ⟨good, paired, Or.inr (Or.inr ⟨rfl, open_⟩), sound.whole⟩

end Side

end RtacAsio
