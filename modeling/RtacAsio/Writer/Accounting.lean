import RtacAsio.Request.Protocol
import RtacAsio.Writer.Lawful

/-!
Accounting of the bytes that pass through `StreamWriter`: what the stream accepted for each
request against what its callback reported. `m` is the caller's memory, which a writer never
changes.
-/

namespace RtacAsio
open Lib World

/-- The bytes that the stream accepted for a request, in order. -/
def sent (id : UInt32) (traffic : List (UInt32 × List UInt8)) : List UInt8 :=
  (traffic.filter fun entry => entry.1 = id).flatMap Prod.snd

theorem sent_append (id other : UInt32) (bs : List UInt8) (traffic : List (UInt32 × List UInt8)) :
    sent id (traffic ++ [(other, bs)]) = sent id traffic ++ if other = id then bs else [] := by
  by_cases same : other = id <;> simp [sent, List.filter_append, same]

theorem sent_unknown {id : UInt32} {traffic : List (UInt32 × List UInt8)}
    (unknown : ∀ entry ∈ traffic, entry.1 ≠ id) : sent id traffic = [] := by
  have none : traffic.filter (fun entry => entry.1 = id) = [] := by
    rw [List.filter_eq_nil_iff]
    intro entry member
    simpa using unknown entry member
  simp [sent, none]

/-- The count reported for a request, or the bytes counted so far while it is in progress. -/
def counted (w : World WriteKind StreamWriter) (id : UInt32) : Nat :=
  match w.posts[id.toNat - 1]? with
  | some p => p.count
  | none => w.self.processed

/-- The bytes accepted for the request `id`: those counted, and the `extra` ones that the stream
has accepted but not reported yet, or reported too late. -/
structure Account (m : Memory UInt8) (w : World WriteKind StreamWriter) (id : UInt32) (q : Request WriteKind)
    (extra : List UInt8) : Prop where
  bytes : sent id w.traffic = m.read q.data (counted w id) ++ extra
  tail : m.read (q.data + counted w id) extra.length = extra
  once : extra = [] ∨ (id, extra) ∈ w.traffic
  ops : ∀ op ∈ w.ops, op.id = id →
    op.data = q.data + counted w id ∧ op.moved.getD [] = extra ∧ counted w id + op.count ≤ q.size
  cause : extra = [] ∨ (∃ op ∈ w.ops, op.id = id) ∨ w.TimedOut id

theorem Account.frame {m : Memory UInt8} {w v : World WriteKind StreamWriter} {id : UInt32} {q : Request WriteKind}
    {extra : List UInt8} (h : Account m w id q extra) (count : counted v id = counted w id)
    (bytes : sent id v.traffic = sent id w.traffic) (traffic : ∀ bs, (id, bs) ∈ w.traffic → (id, bs) ∈ v.traffic)
    (ops : ∀ op : Op WriteKind, op.id = id → (op ∈ v.ops ↔ op ∈ w.ops))
    (late : w.TimedOut id → v.TimedOut id) : Account m v id q extra := by
  refine ⟨by rw [bytes, count]; exact h.bytes, by rw [count]; exact h.tail, h.once.imp_right (traffic extra), ?_, ?_⟩
  · intro op member same
    rw [count]
    exact h.ops op ((ops op same).mp member) same
  · refine h.cause.imp_right (Or.imp ?_ late)
    rintro ⟨op, member, same⟩
    exact ⟨op, (ops op same).mpr member, same⟩

theorem Account.leave {m : Memory UInt8} {w v : World WriteKind StreamWriter} {id : UInt32} {q : Request WriteKind}
    {extra : List UInt8} (h : Account m w id q extra) (count : counted v id = counted w id)
    (traffic : v.traffic = w.traffic) (ops : ∀ op ∈ v.ops, op ∈ w.ops) (late : v.TimedOut id) :
    Account m v id q extra := by
  refine ⟨by rw [traffic, count]; exact h.bytes, by rw [count]; exact h.tail, by rw [traffic]; exact h.once, ?_,
    Or.inr (Or.inr late)⟩
  intro op member
  rw [count]
  exact h.ops op (ops op member)

theorem Account.rearm {m : Memory UInt8} {w : World WriteKind StreamWriter} {id : UInt32} {q : Request WriteKind}
    {extra : List UInt8} (h : Account m w id q extra) (waits : List UInt32) (fired : List (UInt32 × ErrorCode))
    (accepted : List (Request WriteKind)) (counts : List (UInt32 × Nat)) (log : List (Effect WriteKind)) :
    Account m { w with waits, fired, accepted, counts, log } id q extra :=
  h.frame rfl rfl (fun _ member => member) (fun _ _ => Iff.rfl) fun late => late

/-- Bytes are accepted in the order of the requests, unless a timeout left their write behind. -/
def InOrder (w : World WriteKind StreamWriter) : Prop :=
  w.traffic.Pairwise fun a b => a.1.toNat ≤ b.1.toNat ∨ w.TimedOut b.1

structure Accounted (m : Memory UInt8) (w : World WriteKind StreamWriter) : Prop where
  memory : w.memory = m
  queue : w.queue = []
  known : ∀ entry ∈ w.traffic, w.Issued entry.1
  reports : ∀ (i : Nat) (p : Post) (q : Request WriteKind), w.posts[i]? = some p → w.accepted[i]? = some q →
    p.bytes = m.read q.data p.count
  each : ∀ (id : UInt32) (q : Request WriteKind), w.Issued id →
    w.accepted[id.toNat - 1]? = some q → ∃ extra, Account m w id q extra
  order : (∀ p ∈ w.posts, p.expired = false) → w.moved = w.reported ++ sent w.self.writeId w.traffic
  inOrder : InOrder w

/-- No more is accepted for a request than what it asks for. -/
def Limited (w : World WriteKind StreamWriter) : Prop :=
  ∀ (id : UInt32) (q : Request WriteKind), w.Issued id →
    w.accepted[id.toNat - 1]? = some q → (sent id w.traffic).length ≤ q.size

/-- The same in the middle of a turn of `c`. -/
structure Midway (m : Memory UInt8) (w : World WriteKind StreamWriter) (c : Cont WriteKind) : Prop where
  memory : w.memory = m
  queue : w.queue = []
  known : ∀ entry ∈ w.traffic, w.Issued entry.1
  reports : ∀ (i : Nat) (p : Post) (q : Request WriteKind), w.posts[i]? = some p → w.accepted[i]? = some q →
    p.bytes = m.read q.data p.count
  others : ∀ (id : UInt32) (q : Request WriteKind), w.Issued id →
    id ≠ c.id → w.accepted[id.toNat - 1]? = some q → ∃ extra, Account m w id q extra
  own : ∀ q : Request WriteKind, w.accepted[w.posts.length]? = some q → sent c.id w.traffic = m.read q.data w.self.processed
  order : (∀ p ∈ w.posts, p.expired = false) → w.moved = w.reported ++ sent c.id w.traffic
  inOrder : InOrder w

theorem Midway.arm {m : Memory UInt8} {w : World WriteKind StreamWriter} {c : Cont WriteKind} (h : Midway m w c)
    (q : Request WriteKind) (id : UInt32) : Midway m (w.arm q id) c := by
  unfold World.arm
  split
  · refine ⟨h.memory, h.queue, h.known, h.reports, ?_, h.own, h.order, h.inOrder⟩
    intro id' q' issued other found
    obtain ⟨extra, account⟩ := h.others id' q' issued other found
    exact ⟨extra, account.rearm ..⟩
  · exact h

theorem Accounted.rearm {m : Memory UInt8} {w : World WriteKind StreamWriter} (h : Accounted m w)
    (waits : List UInt32) (fired : List (UInt32 × ErrorCode)) : Accounted m { w with waits, fired } := by
  refine ⟨h.memory, h.queue, h.known, h.reports, ?_, h.order, h.inOrder⟩
  intro id q issued found
  obtain ⟨extra, account⟩ := h.each id q issued found
  exact ⟨extra, account.rearm ..⟩

section Proofs
variable {m : Memory UInt8} {w w' : World WriteKind StreamWriter} {e : Event WriteKind}

theorem counted_ended {id : UInt32} {v : World WriteKind StreamWriter} (issued : w.Issued id) (ended : w.Ended id)
    (posts : w.posts <+: v.posts) : counted v id = counted w id := by
  obtain ⟨more, eq⟩ := posts
  have inside : id.toNat - 1 < w.posts.length := by
    have positive := issued.1
    unfold Ended at ended
    omega
  simp only [counted, ← eq, List.getElem?_append_left inside]
  rw [List.getElem?_eq_getElem inside]

theorem timedOut_mono {id : UInt32} {v : World WriteKind StreamWriter} (posts : w.posts <+: v.posts)
    (h : w.TimedOut id) : v.TimedOut id := by
  obtain ⟨p, found, expired⟩ := h
  obtain ⟨more, eq⟩ := posts
  obtain ⟨inside, rfl⟩ := List.getElem?_eq_some_iff.mp found
  exact ⟨_, by rw [← eq, List.getElem?_append_left inside, found], expired⟩

theorem InOrder.later {v : World WriteKind StreamWriter} (h : InOrder w) (posts : w.posts <+: v.posts)
    (traffic : v.traffic = w.traffic) : InOrder v := by
  unfold InOrder
  rw [traffic]
  exact h.imp fun sorted => sorted.imp_right (timedOut_mono posts)

theorem transfer_accounted {c : Cont WriteKind} {count : Nat} {dump : Option Nat}
    (turning : Turning writer WriteKind.single w c (.transfer count dump)) (mid : Midway m w c)
    (fits : w.self.processed + count ≤ w.self.requestedSize) :
    Accounted m (w.conclude w.self.toSlot c (.transfer count dump) false) := by
  obtain ⟨q, holds⟩ := turning.holds
  have current : w.self.writeId = c.id := turning.id
  have rank := turning.rank
  refine ⟨mid.memory, mid.queue, mid.known, mid.reports, ?_, ?_, mid.inOrder⟩
  · intro id q' issued found
    by_cases same : id = c.id
    · obtain rfl : q = q' := by
        rw [same, rank] at found
        exact Option.some.inj (holds.last.symm.trans found)
      have count' : counted (w.conclude w.self.toSlot c (.transfer count dump) false) id = w.self.processed := by
        simp [counted, same, rank, conclude]
      refine ⟨[], ?_, rfl, Or.inl rfl, ?_, Or.inl rfl⟩
      · rw [count', same, List.append_nil]
        exact mid.own q holds.last
      · intro op member own
        rw [count']
        rcases List.mem_append.mp member with old | new
        · exact (turning.free old (own.trans same)).elim
        · rw [List.mem_singleton.mp new]
          exact ⟨congrArg (· + w.self.processed) holds.data, rfl, Nat.le_trans fits (Nat.le_of_eq holds.size)⟩
    · obtain ⟨extra, account⟩ := mid.others id q' issued same found
      refine ⟨extra, account.frame (counted_ended issued (turning.ended issued same) List.prefix_rfl) rfl
        (fun _ member => member) ?_ (fun late => late)⟩
      intro op own
      have apart : op ≠ ⟨count, w.self.data + w.self.processed, ⟨c, dump⟩, none⟩ := by
        rintro rfl
        exact same own.symm
      simp [conclude, apart]
  · intro none
    simp only [conclude, moved, reported]
    rw [current]
    exact mid.order none

theorem done_accounted {c : Cont WriteKind} {err : ErrorCode}
    (turning : Turning writer WriteKind.single w c (.done err)) (mid : Midway m w c) :
    Accounted m (w.conclude w.self.toSlot c (.done err) false) := by
  obtain ⟨q, holds⟩ := turning.holds
  have idle : w.self.writeId = 0 := turning.id
  have rank := turning.rank
  have own := mid.own q holds.last
  have data : w.self.data = q.data := holds.data
  have grown : w.posts <+: w.posts ++ [(⟨w.self.callback, err, w.self.processed,
      w.memory.read w.self.data w.self.processed, false⟩ : Post)] := List.prefix_append ..
  rw [conclude_callback _ err false w turning.ne_zero]
  refine ⟨mid.memory, mid.queue, mid.known, ?_, ?_, ?_, mid.inOrder.later grown rfl⟩
  · intro i p q' found accepted
    rcases concat_getElem? found with old | ⟨rfl, rfl⟩
    · exact mid.reports i p q' old accepted
    · obtain rfl : q = q' := Option.some.inj (holds.last.symm.trans accepted)
      rw [mid.memory, data]
  · intro id q' issued found
    by_cases same : id = c.id
    · obtain rfl : q = q' := by
        rw [same, rank] at found
        exact Option.some.inj (holds.last.symm.trans found)
      refine ⟨[], ?_, rfl, Or.inl rfl, ?_, Or.inl rfl⟩
      · simp only [counted, same, rank, Nat.add_sub_cancel, List.getElem?_concat_length, List.append_nil]
        exact own
      · exact fun op member current => (turning.free member (current.trans same)).elim
    · obtain ⟨extra, account⟩ := mid.others id q' issued same found
      exact ⟨extra, account.frame (counted_ended issued (turning.ended issued same) grown) rfl
        (fun _ member => member) (fun _ _ => Iff.rfl) (timedOut_mono grown)⟩
  · intro none
    have before : ∀ p ∈ w.posts, p.expired = false := fun p member => none p (List.mem_append_left _ member)
    have silent : sent 0 w.traffic = [] := sent_unknown fun entry member => (mid.known entry member).ne_zero
    have order := mid.order before
    simp only [moved, reported, List.flatMap_append, List.flatMap_singleton] at order ⊢
    rw [idle, silent, order, own, mid.memory, data, List.append_nil]

theorem conclude_accounted {c : Cont WriteKind} {next : Next} (turning : Turning writer WriteKind.single w c next)
    (mid : Midway m w c) (writes : next.Writes w.self.toSlot) :
    Accounted m (w.conclude w.self.toSlot c next false) := by
  cases next with
  | transfer count dump => exact transfer_accounted turning mid (writes.fits count dump rfl)
  | postCont count => exact (writes.noPost count rfl).elim
  | done err => exact done_accounted turning mid

theorem opened_midway (q : Request WriteKind) (s' : StreamWriter) {c : Cont WriteKind}
    (h : Sound writer WriteKind.single w) (acc : Accounted m w) (idle : w.self.writeId = 0)
    (number : c.id.toNat = w.accepted.length + 1) (fresh : s'.processed = 0) :
    Midway m { w with accepted := w.accepted ++ [q], counts := w.counts ++ [(c.id, 0)], self := s' } c := by
  have settled : w.accepted.length = w.posts.length := h.settled_iff.mpr idle
  have unknown : ∀ entry ∈ w.traffic, entry.1 ≠ c.id := by
    rintro entry member same
    have known := (acc.known entry member).2
    rw [same, number] at known
    omega
  refine ⟨acc.memory, acc.queue, fun entry member => (acc.known entry member).accept q, ?_, ?_, ?_, ?_, acc.inOrder⟩
  · intro i p q' found accepted
    have inside : i < w.accepted.length := by
      rw [settled]
      exact (List.getElem?_eq_some_iff.mp found).1
    rw [List.getElem?_append_left inside] at accepted
    exact acc.reports i p q' found accepted
  · intro id q' issued other found
    have below : id.toNat ≤ w.accepted.length := by
      have bound : id.toNat ≤ w.accepted.length + 1 := by simpa using issued.2
      have apart : id.toNat ≠ c.id.toNat := fun same => other (UInt32.toNat_inj.mp same)
      omega
    have issued' : w.Issued id := ⟨issued.1, below⟩
    have positive := issued.1
    rw [List.getElem?_append_left (by omega)] at found
    obtain ⟨extra, account⟩ := acc.each id q' issued' found
    have ended : w.Ended id := by
      unfold Ended
      omega
    exact ⟨extra, account.frame (counted_ended issued' ended List.prefix_rfl) rfl (fun _ member => member)
      (fun _ _ => Iff.rfl) fun late => late⟩
  · intro q' _
    simp [sent_unknown unknown, fresh]
  · intro none
    have silent : sent 0 w.traffic = [] := sent_unknown fun entry member => (acc.known entry member).ne_zero
    have order := acc.order none
    rw [idle, silent] at order
    rw [sent_unknown unknown]
    exact order

theorem ended_of_ne (h : Sound writer WriteKind.single w) {id : UInt32} (issued : w.Issued id)
    (other : id ≠ w.self.writeId) : w.Ended id :=
  (h.ended_iff issued).mpr other

theorem counted_current (h : Sound writer WriteKind.single w) {id : UInt32} (issued : w.Issued id)
    (current : id = w.self.writeId) : id.toNat = w.posts.length + 1 ∧ counted w id = w.self.processed := by
  have running : ¬ w.Ended id := fun ended => (h.ended_iff issued).mp ended current
  have above := issued.2
  have pending := h.phase
  have rank : id.toNat = w.posts.length + 1 := by
    unfold Ended at running
    rcases pending with idle | ⟨⟨q, holds⟩, _⟩
    · exact (running (idle.ended issued)).elim
    · have one := holds.open_
      omega
  exact ⟨rank, by simp [counted, rank]⟩

theorem resumed_midway {c : Cont WriteKind} {err : ErrorCode} {count : Nat} {v : World WriteKind StreamWriter}
    {s' : StreamWriter} (h : Sound writer WriteKind.single w) (acc : Accounted m w)
    (from_ : Taken writer w e c err count v) (current : c.id = w.self.writeId)
    (adds : s'.processed = w.self.processed + count) :
    Midway m { v with counts := v.counts ++ [(c.id, count)], self := s' } c := by
  cases from_ with
  | deliver i p found => simp [acc.queue] at found
  | complete i op bytes err s found moved dumped =>
    have member := List.mem_of_getElem? found
    have issued : w.Issued op.id := h.filed.conts _ (cont_of_op member)
    obtain ⟨rank, count⟩ := counted_current h issued current
    refine ⟨acc.memory, acc.queue, acc.known, acc.reports, ?_, ?_, ?_, acc.inOrder⟩
    · intro id q issued other found'
      obtain ⟨extra, account⟩ := acc.each id q issued found'
      refine ⟨extra, account.frame (counted_ended issued ?_ List.prefix_rfl) rfl (fun _ member => member) ?_
        fun late => late⟩
      · exact ended_of_ne h issued fun same => other (same.trans current.symm)
      · intro op' same
        exact mem_eraseIdx_of_ne found fun eq => other (same.symm.trans (congrArg Op.id eq))
    · intro q last
      obtain ⟨extra, account⟩ := acc.each op.id q issued (by rw [rank]; exact last)
      obtain ⟨_, eq, _⟩ := account.ops op member rfl
      obtain rfl : bytes = extra := by simpa [moved] using eq
      have sent := account.bytes
      have tail := account.tail
      rw [count] at sent tail
      rw [adds, Memory.read_add, tail]
      exact sent
    · intro none
      have order := acc.order none
      rw [← current] at order
      exact order

theorem ignored_accounted {c : Cont WriteKind} {err : ErrorCode} {count : Nat} {v : World WriteKind StreamWriter}
    (h : Sound writer WriteKind.single w) (acc : Accounted m w) (from_ : Taken writer w e c err count v)
    (stale : c.id ≠ w.self.writeId) : Accounted m { v with counts := v.counts ++ [(c.id, count)] } := by
  have slot := from_.slot writer_lawful
  cases from_ with
  | deliver i p found => simp [acc.queue] at found
  | complete i op bytes err s found moved dumped =>
    have under : op.handler.cont ∈ w.conts := cont_of_op (List.mem_of_getElem? found)
    have late : w.TimedOut op.id :=
      h.filed.late _ under (ended_of_ne h (h.filed.conts _ under) stale)
    have same : s.toSlot = w.self.toSlot := slot
    refine ⟨acc.memory, acc.queue, acc.known, acc.reports, ?_, ?_, acc.inOrder⟩
    · intro id q issued found'
      obtain ⟨extra, account⟩ := acc.each id q issued found'
      have counted' : ∀ v : World WriteKind StreamWriter, v.posts = w.posts → v.self.toSlot = w.self.toSlot →
          counted v id = counted w id := by
        intro v posts slot
        simp only [counted, posts, slot]
      refine ⟨extra, ?_⟩
      by_cases own : id = op.id
      · exact account.leave (counted' _ rfl same) rfl (fun _ member => List.mem_of_mem_eraseIdx member)
          (by rw [own]; exact late)
      · refine account.frame (counted' _ rfl same) rfl (fun _ member => member) ?_ fun late => late
        intro op' same
        exact mem_eraseIdx_of_ne found fun eq => own (same.symm.trans (congrArg Op.id eq))
    · intro none
      have order := acc.order none
      simp only [StreamWriter.writeId, same]
      exact order

theorem moved_account {i : Nat} {op : Op WriteKind} {bytes extra : List UInt8} {q : Request WriteKind}
    (h : Sound writer WriteKind.single w) (memory : w.memory = m) (account : Account m w op.id q extra)
    (found : w.ops[i]? = some op) (unmoved : op.moved = none)
    (content : w.memory.read op.data bytes.length = bytes) : Account m (w.move writer i op bytes) op.id q bytes := by
  obtain ⟨data, eq, fits⟩ := account.ops op (List.mem_of_getElem? found) rfl
  obtain rfl : [] = extra := by simpa [unmoved] using eq
  have set : { op with moved := some bytes } ∈ w.ops.set i { op with moved := some bytes } :=
    (mem_set_iff h.filed.distinct found).mpr (Or.inl rfl)
  refine ⟨?_, ?_, Or.inr (by simp [World.move]), ?_, Or.inr (Or.inl ⟨{ op with moved := some bytes }, set, rfl⟩)⟩
  · have sent := account.bytes
    simp only [World.move, sent_append, sent, List.append_nil, ↓reduceIte]
    rfl
  · have tail : w.memory.read (q.data + counted w op.id) bytes.length = bytes := by
      rw [← data]
      exact content
    rw [← memory]
    exact tail
  · intro op' member same
    rcases (mem_set_iff h.filed.distinct found).mp member with rfl | ⟨_, other⟩
    · exact ⟨data, rfl, fits⟩
    · exact (other same).elim

theorem moved_account_other {i : Nat} {op : Op WriteKind} {bytes extra : List UInt8} {id : UInt32}
    {q : Request WriteKind} (h : Sound writer WriteKind.single w) (account : Account m w id q extra)
    (found : w.ops[i]? = some op) (other : id ≠ op.id) : Account m (w.move writer i op bytes) id q extra := by
  refine account.frame rfl ?_ (fun bs old => List.mem_append_left _ old) ?_ fun late => late
  · simp [World.move, sent_append, Ne.symm other]
  · intro op' same
    have apart : op' ≠ { op with moved := some bytes } := by
      rintro rfl
      exact other same.symm
    have others : op'.id ≠ op.id := same ▸ other
    simp only [World.move, mem_set_iff h.filed.distinct found, apart, false_or, others, ne_eq, not_false_eq_true, and_true]

theorem moved_accounted {i : Nat} {op : Op WriteKind} {bytes : List UInt8} (h : Sound writer WriteKind.single w)
    (acc : Accounted m w) (found : w.ops[i]? = some op) (unmoved : op.moved = none)
    (content : w.memory.read op.data bytes.length = bytes) : Accounted m (w.move writer i op bytes) := by
  have under : op.handler.cont ∈ w.conts := cont_of_op (List.mem_of_getElem? found)
  have issued := h.filed.conts _ under
  have late (stale : op.id ≠ w.self.writeId) : w.TimedOut op.id := h.filed.late _ under (ended_of_ne h issued stale)
  refine ⟨acc.memory, acc.queue, ?_, acc.reports, ?_, ?_, ?_⟩
  · simp only [World.move, List.forall_mem_append, List.forall_mem_singleton]
    exact ⟨acc.known, issued⟩
  · intro id q issued found'
    obtain ⟨extra, account⟩ := acc.each id q issued found'
    by_cases own : id = op.id
    · subst own
      exact ⟨bytes, moved_account h acc.memory account found unmoved content⟩
    · exact ⟨extra, moved_account_other h account found own⟩
  · intro none
    have current : op.id = w.self.writeId := by
      by_contra stale
      obtain ⟨p, found, expired⟩ := late stale
      have unexpired := none p (List.mem_of_getElem? found)
      simp [expired] at unexpired
    have order := acc.order none
    simp only [moved, reported] at order
    simp only [moved, reported, World.move, sent_append, current, ↓reduceIte, List.flatMap_append,
      List.flatMap_singleton, order, List.append_assoc]
  · refine List.pairwise_append.mpr ⟨acc.inOrder, List.pairwise_singleton _ _, ?_⟩
    intro a earlier b new
    rw [List.mem_singleton.mp new]
    by_cases current : op.id = w.self.writeId
    · have rank := (counted_current h issued current).1
      have bound := (acc.known a earlier).2
      have pending := h.pending
      refine Or.inl (Nat.le_trans bound (Nat.le_trans ?_ (Nat.le_of_eq rank.symm)))
      split at pending <;> omega
    · exact Or.inr (late current)

theorem timedOut_accounted {s' : StreamWriter} {i : Nat} (h : Sound writer WriteKind.single w) (acc : Accounted m w)
    (busy : w.self.writeId ≠ 0) :
    Accounted m { w with
      fired := w.fired.eraseIdx i
      self := s'
      posts := w.posts ++ [⟨w.self.callback, .success, w.self.processed,
        w.memory.read w.self.src w.self.processed, true⟩]
      log := w.log ++ [.post w.self.callback .success w.self.processed] } := by
  obtain ⟨⟨q, holds⟩, _⟩ : (∃ q, w.Holds w.self.toSlot q) ∧ w.Served WriteKind.single w.self.toSlot := by
    rcases h.phase with idle | running
    · exact (busy idle.id).elim
    · exact running
  refine ⟨acc.memory, acc.queue, acc.known, ?_, ?_, ?_, acc.inOrder.later (List.prefix_append ..) rfl⟩
  · intro i p q' found accepted
    rcases concat_getElem? found with old | ⟨rfl, rfl⟩
    · exact acc.reports i p q' old accepted
    · obtain rfl : q = q' := Option.some.inj (holds.last.symm.trans accepted)
      rw [acc.memory, StreamWriter.src, show w.self.data = q.data from holds.data]
  · intro id q' issued found
    obtain ⟨extra, account⟩ := acc.each id q' issued found
    refine ⟨extra, account.frame ?_ rfl (fun _ member => member) (fun _ _ => Iff.rfl)
      (timedOut_mono (List.prefix_append ..))⟩
    by_cases current : id = w.self.writeId
    · obtain ⟨rank, count⟩ := counted_current h issued current
      simp [counted, rank]
    · exact counted_ended issued (ended_of_ne h issued current) (List.prefix_append ..)
  · intro none
    have unexpired := none _ (List.mem_append_right _ (List.mem_singleton_self _))
    simp at unexpired

theorem step_accounted (h : Sound writer WriteKind.single w) (acc : Accounted m w)
    (taken : w.step writer e = some w') (bounded : w'.accepted.length < 2 ^ 32) : Accounted m w' := by
  have timed : ∀ f ∈ w.fired, f.1 ≠ 0 := fun f member => (h.filed.fired f member).ne_zero
  cases step_action writer_lawful timed taken with
  | refused => exact acc
  | opened q s' next p bs c idle bound slot fresh _ silent =>
    obtain ⟨rfl, writes⟩ := silent rfl
    have turning := opened_turning h (by simpa using bounded) idle bound slot fresh
    have number : c.id.toNat = w.accepted.length + 1 := by
      obtain ⟨q', holds⟩ := turning.holds
      rw [turning.current, holds.counter]
      simp
    have start : s'.toSlot = _ := slot
    have mid := opened_midway q s' h acc idle number (by rw [start]; rfl)
    have done := conclude_accounted turning (mid.arm q c.id) (by rw [arm_self]; exact writes)
    rw [arm_self] at done
    rw [stored_nil]
    exact done
  | moved i op bytes found unmoved output => exact moved_accounted h acc found unmoved (output rfl)
  | resumed e c err count v s' next p bs from_ current slot adds ends _ silent =>
    obtain ⟨rfl, writes⟩ := silent rfl
    have turning := resumed_turning h from_ current slot adds ends
    have under : c ∈ w.conts := from_.under
    obtain ⟨_, served⟩ : (∃ q, w.Holds w.self.toSlot q) ∧ w.Served WriteKind.single w.self.toSlot := by
      rcases h.phase with settled | busy
      · exact ((h.filed.conts c under).ne_zero (current.trans settled.id)).elim
      · exact busy
    have mid := resumed_midway h acc from_ current (adds (served.fresh c under (current.trans served.id)))
    rw [stored_nil]
    exact conclude_accounted turning mid writes
  | ignored e c err count v from_ stale => exact ignored_accounted h acc from_ stale
  | expired => exact acc.rearm _ _
  | timedOut i err s' found busy slot => exact timedOut_accounted h acc busy
  | late i id err found stale => exact acc.rearm _ _

theorem moved_limited {i : Nat} {op : Op WriteKind} {bytes : List UInt8} (acc : Accounted m w) (limited : Limited w)
    (found : w.ops[i]? = some op) (unmoved : op.moved = none) (honest : bytes.length ≤ op.count) :
    Limited (w.move writer i op bytes) := by
  intro id q issued found'
  simp only [World.move, sent_append]
  by_cases own : op.id = id
  · subst own
    obtain ⟨extra, account⟩ := acc.each op.id q issued found'
    obtain ⟨_, eq, fits⟩ := account.ops op (List.mem_of_getElem? found) rfl
    obtain rfl : [] = extra := by simpa [unmoved] using eq
    rw [if_pos rfl, account.bytes, List.append_nil, List.length_append, Memory.read_length]
    omega
  · rw [if_neg own, List.append_nil]
    exact limited id q issued found'

theorem step_limited (h : Sound writer WriteKind.single w) (acc : Accounted m w) (limited : Limited w) (honest : w.Honest e)
    (taken : w.step writer e = some w') : Limited w' := by
  have timed : ∀ f ∈ w.fired, f.1 ≠ 0 := fun f member => (h.filed.fired f member).ne_zero
  cases step_action writer_lawful timed taken with
  | refused => exact limited
  | opened q =>
    intro id q' issued found
    simp only [Issued, conclude_accepted, conclude_traffic, stored, arm_accepted, arm_traffic] at issued found ⊢
    by_cases old : id.toNat ≤ w.accepted.length
    · have positive := issued.1
      rw [List.getElem?_append_left (by omega)] at found
      exact limited id q' ⟨positive, old⟩ found
    · have unknown : ∀ entry ∈ w.traffic, entry.1 ≠ id := by
        rintro entry member rfl
        exact old (acc.known entry member).2
      rw [sent_unknown unknown]
      exact Nat.zero_le q'.size
  | moved i op bytes found unmoved => exact moved_limited acc limited found unmoved (by simpa [Honest, found] using honest)
  | resumed e c err count v s' next p bs from_ =>
    intro id q issued found
    simp only [Issued, conclude_accepted, conclude_traffic, stored] at issued found ⊢
    cases from_ <;> exact limited id q issued found
  | ignored e c err count v from_ => cases from_ <;> exact limited
  | expired => exact limited
  | timedOut => exact limited
  | late => exact limited

theorem start_accounted {t : StreamWriter} : Accounted m { self := t, memory := m } := by
  refine ⟨rfl, rfl, by simp, by simp, ?_, fun _ => rfl, List.Pairwise.nil⟩
  rintro id q issued found
  simp at found

end Proofs

/-- What the stream accepted, against what the callbacks reported. -/
structure Balanced (m : Memory UInt8) (w : World WriteKind StreamWriter) : Prop where
  /-- The stream has accepted the first bytes of each request, in order and once. -/
  prefixes : ∀ (i : Nat) (q : Request WriteKind) (id : UInt32), w.accepted[i]? = some q → id.toNat = i + 1 →
    ∃ n, sent id w.traffic = m.read q.data n
  /-- A callback reports these bytes, unless the timer posted it: then those of at most one stream
  write are missing. -/
  reports : ∀ (i : Nat) (p : Post) (id : UInt32), w.posts[i]? = some p → id.toNat = i + 1 →
    (∃ q, w.accepted[i]? = some q ∧ p.bytes = m.read q.data p.count) ∧
    ∃ missing, sent id w.traffic = p.bytes ++ missing ∧
      (missing = [] ∨ p.expired = true ∧ (id, missing) ∈ w.traffic)
  /-- Without timeouts an idle writer has no write outstanding, and the stream received what was
  reported, and nothing else. -/
  wire : (∀ p ∈ w.posts, p.expired = false) → w.self.writeId = 0 → w.ops = [] ∧ w.moved = w.reported
  order : InOrder w
  /-- A write that does not serve the request in progress was left behind by a timeout. -/
  overlap : ∀ op ∈ w.ops, op.id ≠ w.self.writeId → w.TimedOut op.id

/-- What the stream accepted, and what a callback reports, is no more than what its request asks for. -/
structure WithinSize (w : World WriteKind StreamWriter) : Prop where
  moved : ∀ (i : Nat) (q : Request WriteKind) (id : UInt32), w.accepted[i]? = some q → id.toNat = i + 1 →
    (sent id w.traffic).length ≤ q.size
  reported : ∀ (i : Nat) (q : Request WriteKind) (p : Post), w.accepted[i]? = some q → w.posts[i]? = some p → p.count ≤ q.size

section Balance
variable {m : Memory UInt8} {w : World WriteKind StreamWriter}

theorem not_timedOut {id : UInt32} (none : ∀ p ∈ w.posts, p.expired = false) : ¬ w.TimedOut id := by
  rintro ⟨p, found, expired⟩
  have unexpired := none p (List.mem_of_getElem? found)
  simp [expired] at unexpired

theorem late_op (h : Sound writer WriteKind.single w) {op : Op WriteKind} (member : op ∈ w.ops)
    (ended : w.Ended op.id) : w.TimedOut op.id :=
  h.filed.late _ (cont_of_op member) ended

theorem accounted_balanced (h : Sound writer WriteKind.single w) (acc : Accounted m w) : Balanced m w := by
  have pending := h.pending
  refine ⟨?_, ?_, ?_, acc.inOrder, ?_⟩
  · intro i q id found rank
    have inside := (List.getElem?_eq_some_iff.mp found).1
    obtain ⟨extra, account⟩ := acc.each id q ⟨by omega, by omega⟩ (by rw [rank]; exact found)
    refine ⟨counted w id + extra.length, ?_⟩
    rw [Memory.read_add, account.tail]
    exact account.bytes
  · intro i p id found rank
    have inside := (List.getElem?_eq_some_iff.mp found).1
    have accepted : w.accepted[i]? = some w.accepted[i] := List.getElem?_eq_getElem (by omega)
    have report := acc.reports i p _ found accepted
    obtain ⟨extra, account⟩ := acc.each id _ ⟨by omega, by omega⟩ (by rw [rank]; exact accepted)
    have count : counted w id = p.count := by simp [counted, rank, found]
    refine ⟨⟨_, accepted, report⟩, extra, by rw [report, ← count]; exact account.bytes, ?_⟩
    have expired (late : w.TimedOut id) : p.expired = true := by
      obtain ⟨p', found', expired⟩ := late
      rw [rank] at found'
      obtain rfl : p = p' := Option.some.inj (found.symm.trans found')
      exact expired
    have ended : w.Ended id := by
      unfold Ended
      omega
    rcases account.once with none | once
    · exact Or.inl none
    · rcases account.cause with none | ⟨op, member, rfl⟩ | late
      · exact Or.inl none
      · exact Or.inr ⟨expired (late_op h member ended), once⟩
      · exact Or.inr ⟨expired late, once⟩
  · intro none idle
    refine ⟨List.eq_nil_iff_forall_not_mem.mpr fun op member => ?_, ?_⟩
    · have issued := h.filed.conts op.handler.cont (cont_of_op member)
      have ended : w.Ended op.id := (h.ended_iff issued).mpr fun same => issued.ne_zero (same.trans idle)
      exact not_timedOut none (late_op h member ended)
    · have silent : sent 0 w.traffic = [] := sent_unknown fun entry member => (acc.known entry member).ne_zero
      have order := acc.order none
      rw [idle, silent, List.append_nil] at order
      exact order
  · intro op member stale
    have issued := h.filed.conts op.handler.cont (cont_of_op member)
    exact late_op h member (ended_of_ne h issued stale)

theorem limited_size (acc : Accounted m w) (limited : Limited w)
    (bounded : w.accepted.length < 2 ^ 32) : WithinSize w := by
  have issued {i : Nat} {q : Request WriteKind} {id : UInt32} (found : w.accepted[i]? = some q) (rank : id.toNat = i + 1) :
      w.Issued id ∧ w.accepted[id.toNat - 1]? = some q := by
    have inside := (List.getElem?_eq_some_iff.mp found).1
    exact ⟨⟨by omega, by omega⟩, by rw [rank]; exact found⟩
  refine ⟨fun i q id found rank => limited id q (issued found rank).1 (issued found rank).2, ?_⟩
  intro i q p found posted
  have inside := (List.getElem?_eq_some_iff.mp found).1
  have rank : (UInt32.ofNat (i + 1)).toNat = i + 1 := UInt32.toNat_ofNat_of_lt' (by simp only [UInt32.size]; omega)
  obtain ⟨known, found⟩ := issued found rank
  obtain ⟨extra, account⟩ := acc.each _ q known found
  have count : counted w (UInt32.ofNat (i + 1)) = p.count := by simp only [counted, rank, Nat.add_sub_cancel, posted]
  have bound := limited _ q known found
  rw [account.bytes, List.length_append, Memory.read_length, count] at bound
  omega

end Balance

/-- The balance of every run in which the id counter does not wrap around. Where the stream takes no
more than it is asked for, the requests get no more than what they ask for. -/
theorem writes_balanced {t : StreamWriter} {m : Memory UInt8} {es : List (Event WriteKind)}
    {w : World WriteKind StreamWriter} (created : t.Created)
    (run : Steps (World.step writer) Always { self := t, memory := m } es w) (bounded : w.accepted.length < 2 ^ 32) :
    Balanced m w ∧
      (Steps (World.step writer) (fun w e => w.Honest e) { self := t, memory := m } es w → WithinSize w) := by
  have start : Sound writer WriteKind.single { self := t, memory := m } :=
    reachable_sound writer_lawful created.writeCounter created.writeId .refl (Nat.two_pow_pos 32)
  constructor
  · have accounted : Sound writer WriteKind.single w ∧ Accounted m w := by
      refine run.invariant (P := fun w => w.accepted.length < 2 ^ 32 → Sound writer WriteKind.single w ∧ Accounted m w)
        (fun _ => ⟨start, start_accounted⟩) (fun v e u h _ taken bounded => ?_) bounded
      obtain ⟨sound, acc⟩ := h (Nat.lt_of_le_of_lt (step_accepted taken) bounded)
      exact ⟨step_sound writer_lawful sound taken bounded, step_accounted sound acc taken bounded⟩
    exact accounted_balanced accounted.1 accounted.2
  · intro run
    obtain ⟨sound, acc, limited⟩ : Sound writer WriteKind.single w ∧ Accounted m w ∧ Limited w := by
      refine run.invariant
        (P := fun w => w.accepted.length < 2 ^ 32 → Sound writer WriteKind.single w ∧ Accounted m w ∧ Limited w)
        (fun _ => ⟨start, start_accounted, by simp [Limited]⟩) (fun v e u h honest taken bounded => ?_) bounded
      obtain ⟨sound, acc, limited⟩ := h (Nat.lt_of_le_of_lt (step_accepted taken) bounded)
      exact ⟨step_sound writer_lawful sound taken bounded, step_accounted sound acc taken bounded,
        step_limited sound acc limited honest taken⟩
    exact limited_size acc limited bounded

/-- A write that its timer ends after the stream has accepted two bytes of it. -/
theorem writes_balanced_timeout :
    ∃ es w, Steps (World.step writer) (fun w e => w.Honest e) { self := .blank, memory := fun a => a.toUInt8 } es w ∧
      w.posts.map Post.count = [0] ∧ w.moved = [0, 1] ∧ Balanced (fun a => a.toUInt8) w ∧ WithinSize w := by
  obtain ⟨w, run, seen⟩ : ∃ w, Steps (World.step writer) (fun w e => w.Honest e)
      { self := .blank, memory := fun a => a.toUInt8 }
      [.call { kind := .write, size := 4, data := 0, callback := 1, timeoutMillis := 1 }, .move 0 [0, 1], .expire,
        .timer 0] w ∧
      (w.posts.map Post.count, w.moved, w.accepted.length) = ([0], [0, 1], 1) := exists_of_exec (by decide)
  simp only [Prod.mk.injEq] at seen
  have always : Steps (World.step writer) Always _ _ w := run.weaken fun _ _ _ => trivial
  obtain ⟨balanced, limited⟩ := writes_balanced ⟨rfl, rfl⟩ always (by rw [seen.2.2]; decide)
  exact ⟨_, w, run, seen.1, seen.2.1, balanced, limited run⟩

/-- The stream accepts two bytes, the timer ends the request before they are reported, and their
completion is ignored. -/
theorem writes_unreported :
    ∃ es w, Steps (World.step writer) (fun w e => w.Honest e) { self := .blank, memory := fun a => a.toUInt8 } es w ∧
      w.self.writeId = 0 ∧ w.ops.length = 0 ∧ w.moved = [0, 1] ∧ w.reported = [] ∧ w.moved ≠ w.reported := by
  obtain ⟨w, run, seen⟩ : ∃ w, Steps (World.step writer) (fun w e => w.Honest e)
      { self := .blank, memory := fun a => a.toUInt8 }
      [.call { kind := .write, size := 4, data := 0, callback := 1, timeoutMillis := 1 }, .move 0 [0, 1], .expire,
        .timer 0, .complete 0 .success] w ∧
      (w.self.writeId, w.ops.length, w.moved, w.reported) = (0, 0, [0, 1], []) := exists_of_exec (by decide)
  simp only [Prod.mk.injEq] at seen
  obtain ⟨idle, none, moved, reported⟩ := seen
  exact ⟨_, w, run, idle, none, moved, reported, by rw [moved, reported]; decide⟩

end RtacAsio
