import RtacAsio.Reader.Lawful
import RtacAsio.Request.Protocol

/-!
Which request the outstanding stream reads belong to, when requests can be ended by their
timer before the stream is done with them.
-/

namespace RtacAsio
open Lib World

/-- Ownership of the outstanding stream reads. -/
structure Owned (w : World ReadKind StreamReader) : Prop where
  one : (w.ops.filter fun op => op.id = w.self.readId).length ≤ 1
  /-- The read of the request in progress continues its buffer. -/
  target : ∀ op ∈ w.ops, op.id = w.self.readId →
    ∃ q, w.accepted.getLast? = some q ∧ op.id.toNat = w.accepted.length ∧ w.self.dst = q.data ∧
      op.data = q.data + w.self.processed
  /-- Every other read is left over from a request that its timer ended, -/
  late : ∀ op ∈ w.ops, op.id ≠ w.self.readId → w.TimedOut op.id
  /-- and its completion is ignored. -/
  ignored : ∀ i op err w', w.ops[i]? = some op → op.id ≠ w.self.readId → w.step reader (.complete i err) = some w' →
    Ignored reader w w'
  untimed : (∀ p ∈ w.posts, p.expired = false) → w.ops.length ≤ 1 ∧ ∀ op ∈ w.ops, op.id = w.self.readId

section Proofs
variable {w : World ReadKind StreamReader}

theorem late_of_stale (h : Sound reader ReadKind.single w) {op : Op ReadKind} (member : op ∈ w.ops)
    (stale : op.id ≠ w.self.readId) : w.TimedOut op.id := by
  have issued := h.filed.conts _ (cont_of_op member)
  exact h.filed.late _ (cont_of_op member) ((h.ended_iff issued).mpr stale)

theorem filter_le_one (h : Sound reader ReadKind.single w) :
    (w.ops.filter fun op => op.id = w.self.readId).length ≤ 1 := by
  have bound : (w.ops.filter fun op => op.id = w.self.readId).length ≤
      (w.conts.map Cont.id).count w.self.readId := by
    have eq : (w.ops.filter fun op => op.id = w.self.readId).length =
        ((w.ops.map (·.handler.cont)).map Cont.id).count w.self.readId := by
      rw [← List.countP_eq_length_filter, List.map_map, List.count, List.countP_map]
      rfl
    rw [eq, conts, List.map_append, List.count_append]
    exact Nat.le_add_right ..
  rcases h.phase with idle | ⟨_, served⟩
  · have none : (w.conts.map Cont.id).count w.self.readId = 0 := by
      rw [List.count_eq_zero]
      rintro member
      obtain ⟨c, member, same⟩ := List.mem_map.mp member
      exact (h.filed.conts c member).ne_zero (same.trans idle.id)
    omega
  · have one := served.one
    rw [← served.id] at one
    exact Nat.le_trans bound (Nat.le_of_eq one)

theorem sound_owned (h : Sound reader ReadKind.single w) : Owned w := by
  refine ⟨filter_le_one h, ?_, fun op member stale => late_of_stale h member stale, ?_, ?_⟩
  · intro op member same
    have issued := h.filed.conts _ (cont_of_op member)
    rcases h.phase with idle | ⟨⟨q, holds⟩, served⟩
    · exact (issued.ne_zero (same.trans idle.id)).elim
    · have counter : op.id = w.self.readCounter := same.trans served.id
      refine ⟨q, ?_, ?_, holds.data, ?_⟩
      · rw [List.getLast?_eq_getElem?, holds.open_]
        exact holds.last
      · rw [counter]
        exact holds.counter
      · rw [served.target op member counter]
        exact congrArg (· + w.self.processed) holds.data
  · intro i op err w' found stale taken
    exact ignored_of_stale reader_lawful (fun f member => (h.filed.fired f member).ne_zero) taken ⟨op, found, rfl⟩ stale
  · intro none
    have current : ∀ op ∈ w.ops, op.id = w.self.readId := by
      intro op member
      by_contra stale
      obtain ⟨p, found, expired⟩ := late_of_stale h member stale
      have := none p (List.mem_of_getElem? found)
      simp [expired] at this
    refine ⟨?_, current⟩
    have all : w.ops.filter (fun op => op.id = w.self.readId) = w.ops := by
      simpa [List.filter_eq_self] using current
    simpa [all] using filter_le_one h

end Proofs

/-- Whatever the order of requests, completions and timeouts, a stream read either serves the
request in progress or has been left behind by a timeout. -/
theorem reads_owned {r : StreamReader} {m : Memory UInt8} {es : List (Event ReadKind)}
    {w : World ReadKind StreamReader} (created : r.Created)
    (run : Steps (World.step reader) Always { self := r, memory := m } es w) (bounded : w.accepted.length < 2 ^ 32) :
    Owned w :=
  sound_owned (reachable_sound reader_lawful created.readCounter created.readId run bounded)

/-- A first read is ended by its timer, and a second one is under way. -/
theorem reads_owned_timeout :
    ∃ es w, Steps (World.step reader) Always { self := .blank, memory := fun _ => 0 } es w ∧
      w.ops.length = 2 ∧ Owned w := by
  obtain ⟨w, run, seen⟩ : ∃ w, Steps (World.step reader) Always { self := .blank, memory := fun _ => 0 }
      [.call { kind := .read, size := 4, data := 0, callback := 1, timeoutMillis := 1 }, .expire, .timer 0,
        .call { kind := .read, size := 4, data := 8, callback := 2 }] w ∧
      (w.ops.length, w.accepted.length) = (2, 2) := exists_of_exec (by decide)
  simp only [Prod.mk.injEq] at seen
  exact ⟨_, w, run, seen.1, reads_owned ⟨rfl, rfl, rfl⟩ run (by rw [seen.2]; decide)⟩

/-- Two stream reads are outstanding, and the first one targets the buffer of a request that has
been called back. -/
theorem reads_overlap_after_timeout :
    ∃ es w, Steps (World.step reader) Always { self := .blank, memory := fun _ => 0 } es w ∧
      w.ops.map (fun op => (op.id, op.data)) = [(1, 0), (2, 8)] ∧ w.self.readId = 2 ∧
      w.posts.map Post.callback = [1] := by
  obtain ⟨w, run, seen⟩ : ∃ w, Steps (World.step reader) Always { self := .blank, memory := fun _ => 0 }
      [.call { kind := .read, size := 4, data := 0, callback := 1, timeoutMillis := 1 }, .expire, .timer 0,
        .call { kind := .read, size := 4, data := 8, callback := 2 }] w ∧
      (w.ops.map (fun op => (op.id, op.data)), w.self.readId, w.posts.map Post.callback) =
        ([(1, 0), (2, 8)], 2, [1]) := exists_of_exec (by decide)
  simp only [Prod.mk.injEq] at seen
  exact ⟨_, w, run, seen⟩

end RtacAsio
