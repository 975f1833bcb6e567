import RtacAsio.Request.Action

/-!
The request protocol of a lawful endpoint: what relates the ids bound in the handlers under
way to the counter, to the accepted requests and to the callbacks already posted.
-/

namespace RtacAsio
open Lib

namespace World
variable {κ σ : Type} {E : Endpoint κ σ} {single : κ → Bool} {w w' : World κ σ} {e : Event κ}

/-- The id belongs to an accepted request. -/
def Issued (w : World κ σ) (id : UInt32) : Prop := 0 < id.toNat ∧ id.toNat ≤ w.accepted.length

/-- The id belongs to a request that has been called back. -/
def Ended (w : World κ σ) (id : UInt32) : Prop := id.toNat ≤ w.posts.length

/-- The request of this id was ended by its timer. -/
def TimedOut (w : World κ σ) (id : UInt32) : Prop := ∃ p, w.posts[id.toNat - 1]? = some p ∧ p.expired = true

/-- The bytes counted by the handlers of a request. -/
def total (id : UInt32) (counts : List (UInt32 × Nat)) : Nat :=
  ((counts.filter fun entry => entry.1 = id).map Prod.snd).sum

/-- What holds of everything under way, whatever the object is doing. -/
structure Filed (w : World κ σ) : Prop where
  conts : ∀ c ∈ w.conts, w.Issued c.id
  distinct : (w.conts.map Cont.id).Nodup
  late : ∀ c ∈ w.conts, w.Ended c.id → w.TimedOut c.id
  waits : ∀ id ∈ w.waits, w.Issued id
  fired : ∀ f ∈ w.fired, w.Issued f.1
  aborted : ∀ f ∈ w.fired, f.2 ≠ .success → w.Ended f.1
  counts : ∀ entry ∈ w.counts, w.Issued entry.1
  posted : w.posts.map Post.callback = (w.accepted.take w.posts.length).map Request.callback

/-- The slot holds the arguments of the last accepted request, which has not been called back. -/
structure Holds (w : World κ σ) (s : Slot) (q : Request κ) : Prop where
  counter : s.counter.toNat = w.accepted.length
  open_ : w.accepted.length = w.posts.length + 1
  last : w.accepted[w.posts.length]? = some q
  data : s.data = q.data
  size : s.requestedSize = q.size
  callback : s.callback = q.callback
  counted : s.processed = total s.counter w.counts

structure Served (single : κ → Bool) (w : World κ σ) (s : Slot) : Prop where
  id : s.id = s.counter
  one : (w.conts.map Cont.id).count s.counter = 1
  target : ∀ op ∈ w.ops, op.id = s.counter → op.data = s.data + s.processed
  fresh : ∀ c ∈ w.conts, c.id = s.counter → single c.kind = true → s.processed = 0

structure Idle (w : World κ σ) (s : Slot) : Prop where
  id : s.id = 0
  counter : s.counter.toNat = w.accepted.length
  settled : w.Settled

structure Sound (E : Endpoint κ σ) (single : κ → Bool) (w : World κ σ) : Prop where
  filed : w.Filed
  phase : w.Idle (E.slot w.self) ∨ (∃ q, w.Holds (E.slot w.self) q) ∧ w.Served single (E.slot w.self)

/-! ### Ids -/

section Slots
variable {s : Slot} {q : Request κ} {id : UInt32}

theorem Holds.ended_iff (h : w.Holds s q) (issued : w.Issued id) : w.Ended id ↔ id ≠ s.counter := by
  have top := h.counter
  have one := h.open_
  obtain ⟨_, bound⟩ := issued
  constructor
  · rintro ended rfl
    unfold Ended at ended
    omega
  · intro other
    have apart : id.toNat ≠ s.counter.toNat := fun same => other (UInt32.toNat_inj.mp same)
    unfold Ended
    omega

theorem Idle.ended (h : w.Idle s) (issued : w.Issued id) : w.Ended id := by
  have settled := h.settled
  obtain ⟨_, bound⟩ := issued
  unfold Settled at settled
  unfold Ended
  omega

theorem Issued.ne_zero (issued : w.Issued id) : id ≠ 0 := by
  rintro rfl
  exact absurd issued.1 (by decide)

theorem Sound.ended_iff (h : Sound E single w) (issued : w.Issued id) :
    w.Ended id ↔ id ≠ (E.slot w.self).id := by
  rcases h.phase with idle | ⟨⟨q, holds⟩, served⟩
  · rw [idle.id]
    exact ⟨fun _ => issued.ne_zero, fun _ => idle.ended issued⟩
  · rw [served.id]
    exact holds.ended_iff issued

theorem Sound.settled_iff (h : Sound E single w) : w.Settled ↔ (E.slot w.self).id = 0 := by
  rcases h.phase with idle | ⟨⟨q, holds⟩, served⟩
  · exact ⟨fun _ => idle.id, fun _ => idle.settled⟩
  · have one := holds.open_
    have top := holds.counter
    rw [served.id]
    constructor
    · intro settled
      unfold Settled at settled
      omega
    · intro zero
      simp [zero] at top
      omega

/-- One request is in progress or none is. -/
theorem Sound.pending (h : Sound E single w) :
    w.accepted.length = w.posts.length + if (E.slot w.self).id = 0 then 0 else 1 := by
  rcases h.phase with idle | ⟨⟨q, holds⟩, served⟩
  · simpa [idle.id, Settled] using idle.settled
  · have busy : (E.slot w.self).id ≠ 0 := by
      intro zero
      have settled := h.settled_iff.mpr zero
      have one := holds.open_
      unfold Settled at settled
      omega
    simpa [busy] using holds.open_

end Slots

theorem distinct_ops (distinct : (w.conts.map Cont.id).Nodup) : (w.ops.map Op.id).Nodup := by
  rw [conts, List.map_append, List.map_map] at distinct
  exact (List.nodup_append.mp distinct).1

/-- The operations besides `op` are those of other requests. -/
theorem mem_set_iff {i : Nat} {op op' x : Op κ} (distinct : (w.conts.map Cont.id).Nodup) (found : w.ops[i]? = some op) :
    x ∈ w.ops.set i op' ↔ x = op' ∨ x ∈ w.ops ∧ x.id ≠ op.id := by
  have ids := distinct_ops distinct
  obtain ⟨inside, rfl⟩ := List.getElem?_eq_some_iff.mp found
  have perm := List.getElem_cons_eraseIdx_perm inside
  rw [← (perm.map Op.id).nodup_iff, List.map_cons, List.nodup_cons] at ids
  rw [(List.set_perm_cons_eraseIdx inside op').mem_iff, ← perm.mem_iff, List.mem_cons, List.mem_cons]
  constructor
  · rintro (rfl | other)
    · exact Or.inl rfl
    · exact Or.inr ⟨Or.inr other, fun same => ids.1 (same ▸ List.mem_map_of_mem other)⟩
  · rintro (rfl | ⟨rfl | other, apart⟩)
    · exact Or.inl rfl
    · exact (apart rfl).elim
    · exact Or.inr other

/-! ### What is under way when a step adds to it -/

theorem total_append (id other : UInt32) (n : Nat) (counts : List (UInt32 × Nat)) :
    total id (counts ++ [(other, n)]) = total id counts + if other = id then n else 0 := by
  by_cases same : other = id <;> simp [total, List.filter_append, same]

theorem total_unknown {id : UInt32} {counts : List (UInt32 × Nat)} (unknown : ∀ entry ∈ counts, entry.1 ≠ id) :
    total id counts = 0 := by
  have none : counts.filter (fun entry => entry.1 = id) = [] := by
    rw [List.filter_eq_nil_iff]
    intro entry member
    simpa using unknown entry member
  simp [total, none]

theorem Issued.accept {id : UInt32} (issued : w.Issued id) (q : Request κ) :
    Issued { w with accepted := w.accepted ++ [q] } id :=
  ⟨issued.1, by simpa using Nat.le_succ_of_le issued.2⟩

theorem TimedOut.post {id : UInt32} (h : w.TimedOut id) (p : Post) :
    TimedOut { w with posts := w.posts ++ [p] } id := by
  obtain ⟨p', found, expired⟩ := h
  obtain ⟨inside, rfl⟩ := List.getElem?_eq_some_iff.mp found
  exact ⟨_, by rw [List.getElem?_append_left inside, found], expired⟩

/-- All that `Filed` and `Holds` depend on. -/
def ledger (w : World κ σ) :
    List (Cont κ) × List UInt32 × List (UInt32 × ErrorCode) × List (Request κ) × List Post × List (UInt32 × Nat) :=
  (w.conts, w.waits, w.fired, w.accepted, w.posts, w.counts)

theorem Filed.congr {v : World κ σ} (filed : w.Filed) (same : v.ledger = w.ledger) : v.Filed := by
  simp only [ledger, Prod.mk.injEq] at same
  obtain ⟨conts, waits, fired, accepted, posts, counts⟩ := same
  constructor
  all_goals simp only [conts, waits, fired, accepted, posts, counts, Issued, Ended, TimedOut]
  exacts [filed.conts, filed.distinct, filed.late, filed.waits, filed.fired, filed.aborted, filed.counts, filed.posted]

theorem Holds.congr {v : World κ σ} {s : Slot} {q : Request κ} (holds : w.Holds s q)
    (same : v.ledger.2.2.2 = w.ledger.2.2.2) : v.Holds s q := by
  simp only [ledger, Prod.mk.injEq] at same
  obtain ⟨accepted, posts, counts⟩ := same
  exact ⟨by rw [accepted]; exact holds.counter, by rw [accepted, posts]; exact holds.open_,
    by rw [accepted, posts]; exact holds.last, holds.data, holds.size, holds.callback,
    by rw [counts]; exact holds.counted⟩

theorem Filed.post {s : Slot} {q : Request κ} (filed : w.Filed) (holds : w.Holds s q) (p : Post)
    (callback : p.callback = s.callback) (expired : (∃ c ∈ w.conts, c.id = s.counter) → p.expired = true) :
    Filed { w with posts := w.posts ++ [p] } := by
  have one := holds.open_
  refine ⟨filed.conts, filed.distinct, ?_, filed.waits, filed.fired, ?_, filed.counts, ?_⟩
  · intro c member ended
    by_cases before : w.Ended c.id
    · exact (filed.late c member before).post p
    · have current : c.id = s.counter := by
        by_contra other
        exact before ((holds.ended_iff (filed.conts c member)).mpr other)
      refine ⟨p, ?_, expired ⟨c, member, current⟩⟩
      have index : c.id.toNat - 1 = w.posts.length := by
        rw [current, holds.counter, one]
        rfl
      simp [index]
  · intro f member failed
    have := filed.aborted f member failed
    simp only [Ended, List.length_append, List.length_singleton] at this ⊢
    omega
  · have inside : w.posts.length < w.accepted.length := by omega
    have last : w.accepted[w.posts.length] = q := by
      simpa [inside] using holds.last
    simp only [List.map_append, List.map_cons, List.map_nil, List.length_append, List.length_singleton,
      List.take_succ_eq_append_getElem inside, filed.posted, last, callback, holds.callback]

theorem Filed.serve {s : Slot} {q : Request κ} {v : World κ σ} {c : Cont κ} (filed : w.Filed) (holds : w.Holds s q)
    (current : c.id = s.counter) (alone : ∀ c' ∈ w.conts, c'.id ≠ s.counter) (perm : v.conts.Perm (c :: w.conts))
    (rest : v.ledger.2 = w.ledger.2) : Filed v := by
  have issued : w.Issued c.id := by
    have one := holds.open_
    have top := holds.counter
    rw [current]
    exact ⟨by omega, by omega⟩
  simp only [ledger, Prod.mk.injEq] at rest
  obtain ⟨waits, fired, accepted, posts, counts⟩ := rest
  constructor
  case distinct =>
    rw [distinct_iff perm, current]
    exact ⟨alone, filed.distinct⟩
  all_goals simp only [waits, fired, accepted, posts, counts, perm.mem_iff, List.forall_mem_cons,
    Issued, Ended, TimedOut]
  · exact ⟨issued, filed.conts⟩
  · exact ⟨fun ended => ((holds.ended_iff issued).mp ended current).elim, filed.late⟩
  exacts [filed.waits, filed.fired, filed.aborted, filed.counts, filed.posted]

theorem serve_sound {q : Request κ} {v : World κ σ} {c : Cont κ} (filed : w.Filed)
    (holds : w.Holds (E.slot w.self) q) (current : c.id = (E.slot w.self).counter)
    (alone : ∀ c' ∈ w.conts, c'.id ≠ (E.slot w.self).counter)
    (perm : v.conts.Perm (c :: w.conts)) (rest : v.ledger.2 = w.ledger.2) (self : v.self = w.self)
    (id : (E.slot w.self).id = c.id) (fresh : single c.kind = true → (E.slot w.self).processed = 0)
    (target : ∀ op ∈ v.ops, op ∈ w.ops ∨ op.data = (E.slot w.self).data + (E.slot w.self).processed) :
    Sound E single v := by
  have none : (w.conts.map Cont.id).count (E.slot w.self).counter = 0 := by
    rw [List.count_eq_zero]
    simpa using alone
  refine ⟨filed.serve holds current alone perm rest, Or.inr ?_⟩
  rw [self]
  refine ⟨⟨q, holds.congr (congrArg (·.2.2) rest)⟩, id.trans current, ?_, ?_, ?_⟩
  · rw [(perm.map Cont.id).count_eq]
    simp [current, none]
  · intro op member same
    rcases target op member with old | new
    · have under : op.handler.cont ∈ w.conts := cont_of_op old
      exact (alone _ under same).elim
    · exact new
  · intro c' member same kind
    rcases List.mem_cons.mp (perm.mem_iff.mp member) with rfl | old
    · exact fresh kind
    · exact (alone _ old same).elim

/-- A turn of `c` before its end: no other continuation of the request is under way. -/
structure Turning (E : Endpoint κ σ) (single : κ → Bool) (w : World κ σ) (c : Cont κ) (next : Next) : Prop where
  filed : w.Filed
  holds : ∃ q, w.Holds (E.slot w.self) q
  id : (E.slot w.self).id = next.id c.id
  current : c.id = (E.slot w.self).counter
  alone : ∀ c' ∈ w.conts, c'.id ≠ (E.slot w.self).counter
  fresh : single c.kind = true → (∃ err, next = .done err) ∨ (E.slot w.self).processed = 0

theorem Turning.stored {c : Cont κ} {next : Next} (h : Turning E single w c next) (p : Nat) (bs : List UInt8) :
    Turning E single (w.stored p bs) c next := by
  obtain ⟨q, holds⟩ := h.holds
  exact ⟨h.filed.congr rfl, ⟨q, holds.congr rfl⟩, h.id, h.current, h.alone, h.fresh⟩

theorem Turning.rank {c : Cont κ} {next : Next} (h : Turning E single w c next) : c.id.toNat = w.posts.length + 1 := by
  obtain ⟨q, holds⟩ := h.holds
  rw [h.current, holds.counter, holds.open_]

theorem Turning.ne_zero {c : Cont κ} {next : Next} (h : Turning E single w c next) : c.id ≠ 0 := by
  intro zero
  have rank := h.rank
  simp [zero] at rank

theorem Turning.free {c : Cont κ} {next : Next} {op : Op κ} (h : Turning E single w c next) (member : op ∈ w.ops) :
    op.id ≠ c.id := by
  rw [h.current]
  exact h.alone op.handler.cont (cont_of_op member)

theorem Turning.ended {c : Cont κ} {next : Next} {id : UInt32} (h : Turning E single w c next) (issued : w.Issued id)
    (other : id ≠ c.id) : w.Ended id := by
  obtain ⟨q, holds⟩ := h.holds
  rw [h.current] at other
  exact (holds.ended_iff issued).mpr other

theorem conclude_sound {c : Cont κ} {next : Next} (h : Turning E single w c next) :
    Sound E single (w.conclude (E.slot w.self) c next false) := by
  obtain ⟨q, holds⟩ := h.holds
  have fresh := h.fresh
  cases next with
  | transfer count dump =>
    refine serve_sound h.filed holds h.current h.alone ?_ rfl rfl h.id (by simpa using fresh) ?_
    · simp [conts, conclude]
    · intro op member
      rcases List.mem_append.mp member with old | new
      · exact Or.inl old
      · rw [List.mem_singleton.mp new]
        exact Or.inr rfl
  | postCont count =>
    refine serve_sound h.filed holds h.current h.alone ?_ rfl rfl h.id (by simpa using fresh) fun _ => Or.inl
    simpa [conts, conclude] using List.perm_append_singleton c w.conts
  | done err =>
    have one := holds.open_
    rw [conclude_callback _ err false w h.ne_zero]
    refine ⟨?_, Or.inl ⟨h.id, holds.counter, by simpa [Settled] using one⟩⟩
    refine (h.filed.post holds ⟨_, err, _, _, false⟩ rfl ?_).congr rfl
    rintro ⟨c', member, same⟩
    exact (h.alone c' member same).elim

/-! ### The steps -/

theorem Filed.accept {q : Request κ} {id : UInt32} {n : Nat} {s' : σ} (filed : w.Filed) (settled : w.Settled)
    (next : id.toNat = w.accepted.length + 1) :
    Filed ({ w with accepted := w.accepted ++ [q], counts := w.counts ++ [(id, n)], self := s' } |>.arm q id) := by
  have fresh : Issued { w with accepted := w.accepted ++ [q] } id := ⟨by omega, by simp [next]⟩
  have conts : ∀ c ∈ w.conts, Issued { w with accepted := w.accepted ++ [q] } c.id :=
    fun c member => (filed.conts c member).accept q
  have fired : ∀ f ∈ w.fired, Issued { w with accepted := w.accepted ++ [q] } f.1 :=
    fun f member => (filed.fired f member).accept q
  have counts : ∀ entry ∈ w.counts ++ [(id, n)], Issued { w with accepted := w.accepted ++ [q] } entry.1 := by
    simp only [List.forall_mem_append, List.forall_mem_singleton]
    exact ⟨fun entry member => (filed.counts entry member).accept q, fresh⟩
  have posted : w.posts.map Post.callback = ((w.accepted ++ [q]).take w.posts.length).map Request.callback := by
    rw [List.take_append_of_le_length (Nat.le_of_eq settled.symm), filed.posted]
  unfold World.arm
  split
  · refine ⟨conts, filed.distinct, filed.late, ?_, ?_, ?_, counts, posted⟩
    · rw [List.forall_mem_singleton]
      exact fresh
    · simp only [List.forall_mem_append, List.forall_mem_map]
      exact ⟨fired, fun id member => (filed.waits id member).accept q⟩
    · simp only [List.forall_mem_append, List.forall_mem_map]
      refine ⟨filed.aborted, fun id member _ => ?_⟩
      have bound := (filed.waits id member).2
      simpa [Ended, ← settled.symm] using bound
  · exact ⟨conts, filed.distinct, filed.late, fun id member => (filed.waits id member).accept q, fired,
      filed.aborted, counts, posted⟩

theorem conts_move {i : Nat} {op : Op κ} {bytes : List UInt8} (found : w.ops[i]? = some op) :
    (w.move E i op bytes).conts = w.conts := by
  obtain ⟨inside, rfl⟩ := List.getElem?_eq_some_iff.mp found
  have same : (w.ops.map (·.handler.cont)).set i w.ops[i].handler.cont = w.ops.map (·.handler.cont) := by
    have inside' : i < (w.ops.map (·.handler.cont)).length := by simpa using inside
    simpa using List.set_getElem_self inside'
  simp only [conts, move, List.map_set, same]

theorem opened_turning {q : Request κ} {s' : σ} {next : Next} {c : Cont κ}
    (h : Sound E single w) (bounded : w.accepted.length + 1 < 2 ^ 32) (idle : (E.slot w.self).id = 0)
    (bound : c = ⟨q.kind, (E.slot w.self).counter + 1⟩)
    (slot : E.slot s' = { (E.slot w.self).opened q with processed := E.taken q w.self, id := next.id c.id })
    (fresh : single q.kind = true → E.taken q w.self = 0) :
    Turning E single
      ({ w with accepted := w.accepted ++ [q], counts := w.counts ++ [(c.id, E.taken q w.self)], self := s' } |>.arm q
        c.id) c next := by
  have settled := h.settled_iff.mpr idle
  have top : (E.slot w.self).counter.toNat = w.accepted.length := by
    rcases h.phase with idle | ⟨⟨_, holds⟩, _⟩
    · exact idle.counter
    · exact holds.counter
  have id : c.id = (E.slot w.self).counter + 1 := by rw [bound]
  have number : c.id.toNat = w.accepted.length + 1 := by
    rw [id]
    exact counter_next top bounded
  have counter : (E.slot s').counter = c.id := by rw [slot, id]; rfl
  have unknown : ∀ entry ∈ w.counts, entry.1 ≠ c.id := by
    rintro entry member same
    have known := (h.filed.counts entry member).2
    rw [same, number] at known
    omega
  refine ⟨h.filed.accept settled number, ⟨q, ?_⟩, ?_, ?_, ?_, ?_⟩
  all_goals rw [arm_self]
  · refine ⟨?_, ?_, ?_, ?_, ?_, ?_, ?_⟩
    · rw [counter, number, arm_accepted, List.length_append, List.length_singleton]
    · simpa [Settled] using settled
    · rw [arm_accepted, arm_posts, ← show w.accepted.length = w.posts.length from settled]
      simp
    · rw [slot]; rfl
    · rw [slot]; rfl
    · rw [slot]; rfl
    · rw [counter, arm_counts, total_append, total_unknown unknown, slot]
      simp
  · rw [slot]
  · exact counter.symm
  · intro c' member same
    have under : c' ∈ w.conts := by simpa [World.conts] using member
    have known := (h.filed.conts c' under).2
    rw [same, counter, number] at known
    omega
  · intro kind
    rw [slot]
    exact Or.inr (fresh (by rw [bound] at kind; exact kind))

theorem Taken.ledger {c : Cont κ} {err : ErrorCode} {count : Nat} {v : World κ σ}
    (h : Taken E w e c err count v) : v.ledger.2 = w.ledger.2 := by
  cases h <;> rfl

theorem Filed.run {c : Cont κ} {err : ErrorCode} {count : Nat} {v : World κ σ} (filed : w.Filed)
    (from_ : Taken E w e c err count v) (n : Nat) : Filed { v with counts := v.counts ++ [(c.id, n)] } := by
  have left := from_.left
  have issued := filed.conts c from_.under
  have rest := from_.ledger
  simp only [ledger, Prod.mk.injEq] at rest
  obtain ⟨waits, fired, accepted, posts, counts⟩ := rest
  constructor
  case distinct => exact ((distinct_iff from_.perm).mp filed.distinct).2
  all_goals simp only [waits, fired, accepted, posts, counts, Issued, Ended, TimedOut]
  · exact fun c' member => filed.conts c' (left c' member)
  · exact fun c' member => filed.late c' (left c' member)
  · exact filed.waits
  · exact filed.fired
  · exact filed.aborted
  · rw [List.forall_mem_append, List.forall_mem_singleton]
    exact ⟨filed.counts, issued⟩
  · exact filed.posted

theorem Taken.ended_iff {c : Cont κ} {err : ErrorCode} {count : Nat} {v : World κ σ} (h : Sound E single w)
    (from_ : Taken E w e c err count v) : w.Ended c.id ↔ c.id ≠ (E.slot w.self).id :=
  h.ended_iff (h.filed.conts c from_.under)

theorem resumed_turning {c : Cont κ} {err : ErrorCode} {count n : Nat} {v : World κ σ} {s' : σ} {next : Next}
    (h : Sound E single w) (from_ : Taken E w e c err count v) (current : c.id = (E.slot w.self).id)
    (slot : E.slot s' = { E.slot w.self with processed := (E.slot s').processed, id := next.id c.id })
    (adds : (single c.kind = true → (E.slot w.self).processed = 0) →
      (E.slot s').processed = (E.slot w.self).processed + n)
    (ends : single c.kind = true → next = .done err) :
    Turning E single { v with counts := v.counts ++ [(c.id, n)], self := s' } c next := by
  have under : c ∈ w.conts := from_.under
  obtain ⟨⟨q, holds⟩, served⟩ : (∃ q, w.Holds (E.slot w.self) q) ∧ w.Served single (E.slot w.self) := by
    rcases h.phase with idle | busy
    · exact ((from_.ended_iff h).mp (idle.ended (h.filed.conts c under)) current).elim
    · exact busy
  have id : c.id = (E.slot w.self).counter := current.trans served.id
  have processed := adds (served.fresh c under id)
  have counter : (E.slot s').counter = (E.slot w.self).counter := by rw [slot]
  have rest := from_.ledger
  simp only [World.ledger, Prod.mk.injEq] at rest
  obtain ⟨_, _, accepted, posts, counts⟩ := rest
  refine ⟨(h.filed.run from_ n).congr rfl, ⟨q, ?_⟩, by rw [slot], id.trans counter.symm, ?_, fun kind => Or.inl ⟨err, ends kind⟩⟩
  · refine ⟨?_, ?_, ?_, ?_, ?_, ?_, ?_⟩
    · rw [accepted, counter, holds.counter]
    · rw [accepted, posts, holds.open_]
    · rw [accepted, posts, holds.last]
    · rw [slot]; exact holds.data
    · rw [slot]; exact holds.size
    · rw [slot]; exact holds.callback
    · rw [processed, counter, counts, total_append, if_pos id, holds.counted]
  · have one := served.one
    rw [(from_.perm.map Cont.id).count_eq, List.map_cons, id, List.count_cons_self] at one
    have none := List.count_eq_zero.mp (Nat.succ.inj one)
    rw [counter]
    exact fun c' member same => none (same ▸ List.mem_map_of_mem member)

theorem ignored_sound {c : Cont κ} {err : ErrorCode} {count : Nat} {v : World κ σ} (lawful : Lawful E single)
    (h : Sound E single w) (from_ : Taken E w e c err count v) (stale : c.id ≠ (E.slot w.self).id) (n : Nat) :
    Sound E single { v with counts := v.counts ++ [(c.id, n)] } := by
  refine ⟨h.filed.run from_ n, ?_⟩
  have rest := from_.ledger
  simp only [World.ledger, Prod.mk.injEq] at rest
  obtain ⟨_, _, accepted, posts, counts⟩ := rest
  simp only [from_.slot lawful]
  rcases h.phase with idle | ⟨⟨q, holds⟩, served⟩
  · refine Or.inl ⟨idle.id, by rw [accepted]; exact idle.counter, ?_⟩
    have settled := idle.settled
    simp only [Settled] at settled ⊢
    rw [accepted, posts, settled]
  · have other : c.id ≠ (E.slot w.self).counter := by rw [← served.id]; exact stale
    refine Or.inr ⟨⟨q, ⟨?_, ?_, ?_, holds.data, holds.size, holds.callback, ?_⟩⟩, served.id, ?_, ?_, ?_⟩
    · rw [accepted, holds.counter]
    · rw [accepted, posts, holds.open_]
    · rw [accepted, posts, holds.last]
    · rw [counts, total_append, if_neg other, holds.counted, Nat.add_zero]
    · have one := served.one
      rw [(from_.perm.map Cont.id).count_eq, List.map_cons, List.count_cons_of_ne other] at one
      exact one
    · exact fun op member => served.target op (from_.ops.subset member)
    · exact fun c' member => served.fresh c' (from_.left c' member)

theorem moved_sound {i : Nat} {op : Op κ} {bytes : List UInt8} (h : Sound E single w)
    (found : w.ops[i]? = some op) : Sound E single (w.move E i op bytes) := by
  have same : (w.move E i op bytes).conts = w.conts := conts_move found
  have ledger : (w.move E i op bytes).ledger = w.ledger := by
    simp only [World.ledger, same]
    rfl
  refine ⟨h.filed.congr ledger, ?_⟩
  rcases h.phase with idle | ⟨⟨q, holds⟩, served⟩
  · exact Or.inl ⟨idle.id, idle.counter, idle.settled⟩
  · refine Or.inr ⟨⟨q, holds.congr (congrArg (·.2.2.2) ledger)⟩, served.id, by rw [same]; exact served.one, ?_,
      by rw [same]; exact served.fresh⟩
    intro op' member
    rcases List.mem_or_eq_of_mem_set member with old | rfl
    · exact served.target op' old
    · exact served.target op (List.mem_of_getElem? found)

theorem Filed.fire (filed : w.Filed) (i : Nat) : Filed { w with fired := w.fired.eraseIdx i } :=
  ⟨filed.conts, filed.distinct, filed.late, filed.waits, fun f member => filed.fired f (List.mem_of_mem_eraseIdx member),
    fun f member => filed.aborted f (List.mem_of_mem_eraseIdx member), filed.counts, filed.posted⟩

theorem Filed.expire (filed : w.Filed) :
    Filed { w with fired := w.fired ++ w.waits.map (·, .success), waits := [] } := by
  refine ⟨filed.conts, filed.distinct, filed.late, by simp, ?_, ?_, filed.counts, filed.posted⟩
  · simp only [List.forall_mem_append, List.forall_mem_map]
    exact ⟨filed.fired, filed.waits⟩
  · simp only [List.forall_mem_append, List.forall_mem_map]
    exact ⟨filed.aborted, fun _ _ failed => (failed rfl).elim⟩

theorem Sound.rearm (h : Sound E single w) {waits : List UInt32} {fired : List (UInt32 × ErrorCode)}
    (filed : Filed { w with fired, waits }) : Sound E single { w with fired, waits } := by
  refine ⟨filed, ?_⟩
  rcases h.phase with idle | ⟨⟨q, holds⟩, served⟩
  · exact Or.inl ⟨idle.id, idle.counter, idle.settled⟩
  · exact Or.inr ⟨⟨q, ⟨holds.counter, holds.open_, holds.last, holds.data, holds.size, holds.callback, holds.counted⟩⟩,
      served.id, served.one, served.target, served.fresh⟩

/-- Only the slot of the object matters. -/
theorem Sound.swap {s' : σ} (h : Sound E single w) (slot : E.slot s' = E.slot w.self) :
    Sound E single { w with self := s' } := by
  refine ⟨h.filed.congr rfl, ?_⟩
  simp only [slot]
  rcases h.phase with idle | ⟨⟨q, holds⟩, served⟩
  · exact Or.inl ⟨idle.id, idle.counter, idle.settled⟩
  · exact Or.inr ⟨⟨q, holds.congr rfl⟩, served.id, served.one, served.target, served.fresh⟩

/-- The protocol does not look at the memory. -/
theorem Sound.write (h : Sound E single w) (m : Memory UInt8) : Sound E single { w with memory := m } := by
  refine ⟨h.filed.congr rfl, ?_⟩
  rcases h.phase with idle | ⟨⟨q, holds⟩, served⟩
  · exact Or.inl ⟨idle.id, idle.counter, idle.settled⟩
  · exact Or.inr ⟨⟨q, holds.congr rfl⟩, served.id, served.one, served.target, served.fresh⟩

theorem timedOut_sound {v : World κ σ} {i : Nat} {post : Post} (h : Sound E single w)
    (busy : (E.slot w.self).id ≠ 0)
    (slot : E.slot v.self = { E.slot w.self with waiterNotified := true, id := 0 })
    (callback : post.callback = (E.slot w.self).callback) (expired : post.expired = true)
    (ledger : v.ledger = ({ w with fired := w.fired.eraseIdx i, posts := w.posts ++ [post] } : World κ σ).ledger) :
    Sound E single v := by
  obtain ⟨⟨q, holds⟩, served⟩ : (∃ q, w.Holds (E.slot w.self) q) ∧ w.Served single (E.slot w.self) := by
    rcases h.phase with idle | running
    · exact (busy idle.id).elim
    · exact running
  have filed := (h.filed.fire i).post (holds.congr rfl) post callback fun _ => expired
  refine ⟨filed.congr ledger, Or.inl ?_⟩
  simp only [World.ledger, Prod.mk.injEq] at ledger
  obtain ⟨_, _, _, accepted, posts, _⟩ := ledger
  refine ⟨by rw [slot], by rw [slot, accepted]; exact holds.counter, ?_⟩
  simp only [Settled, accepted, posts, List.length_append, List.length_singleton]
  exact holds.open_

theorem step_sound (lawful : Lawful E single) (h : Sound E single w) (taken : w.step E e = some w')
    (bounded : w'.accepted.length < 2 ^ 32) : Sound E single w' := by
  have timed : ∀ f ∈ w.fired, f.1 ≠ 0 := fun f member => (h.filed.fired f member).ne_zero
  cases step_action lawful timed taken with
  | refused => exact h
  | opened q s' next p bs c idle bound slot fresh _ _ =>
    have turning := opened_turning h (by simpa [stored] using bounded) idle bound slot fresh
    simpa [stored] using conclude_sound (turning.stored p bs)
  | moved i op bytes found unmoved output => exact moved_sound h found
  | resumed e c err count v s' next p bs from_ current slot adds ends _ _ =>
    exact conclude_sound ((resumed_turning h from_ current slot adds ends).stored p bs)
  | ignored e c err count v from_ stale => exact ignored_sound lawful h from_ stale _
  | expired => exact h.rearm h.filed.expire
  | timedOut i err s' found busy slot => exact timedOut_sound h busy slot rfl rfl rfl
  | late i id err found stale => exact h.rearm (h.filed.fire i)

theorem reachable_sound {s : σ} {m : Memory UInt8} {es : List (Event κ)} (lawful : Lawful E single)
    (counter : (E.slot s).counter = 0) (id : (E.slot s).id = 0)
    (run : Steps (World.step E) Always { self := s, memory := m } es w) (bounded : w.accepted.length < 2 ^ 32) :
    Sound E single w := by
  have start : Sound E single { self := s, memory := m } :=
    ⟨⟨by simp [conts], by simp [conts], by simp [conts], by simp, by simp, by simp, by simp, rfl⟩,
      Or.inl ⟨id, by simp [counter], rfl⟩⟩
  exact run.invariant (P := fun w => w.accepted.length < 2 ^ 32 → Sound E single w) (fun _ => start)
    (fun _ _ _ h _ taken bounded => step_sound lawful (h (Nat.lt_of_le_of_lt (step_accepted taken) bounded)) taken bounded)
    bounded

end World

end RtacAsio
