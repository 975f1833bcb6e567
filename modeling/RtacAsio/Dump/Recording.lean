import RtacAsio.Reader.Bounds
import RtacAsio.Request.Protocol
import RtacAsio.Request.Wrap

/-!
The dump file of an endpoint against the bytes that its stream operations transfer, with every
request on a buffer of its own.
-/

namespace RtacAsio
open Lib

/-- A world with the bytes of the completions without an error so far, in order. -/
structure Recording (κ σ : Type) where
  world : World κ σ
  completed : List UInt8 := []

inductive RecordingEvent (κ : Type) where
  | run (e : Event κ)
  /-- The caller writes to its memory. -/
  | modify (p : Nat) (bs : List UInt8)

namespace World
variable {κ σ : Type}

/-- The bytes of an operation that completes without an error. -/
def completes (w : World κ σ) : Event κ → List UInt8
  | .complete i err =>
    match w.ops[i]? with
    | none => []
    | some op => if err.failed then [] else op.moved.getD []
  | _ => []

/-- The last request that was given the id, counted back from the newest one. -/
def owner (E : Endpoint κ σ) (w : World κ σ) (id : UInt32) : Option (Request κ) :=
  w.accepted.reverse[((E.slot w.self).counter - id).toNat]?

/-- The `n` bytes from `p` on are in no buffer of a request that has an operation outstanding. -/
def Free (E : Endpoint κ σ) (w : World κ σ) (p n : Nat) : Prop :=
  ∀ op ∈ w.ops, ∀ r ∈ w.owner E op.id, p + n ≤ r.data ∨ r.data + r.size ≤ p

instance (E : Endpoint κ σ) (w : World κ σ) (p n : Nat) : Decidable (w.Free E p n) :=
  inferInstanceAs (Decidable (∀ op ∈ w.ops, ∀ r ∈ w.owner E op.id, _))

/-- The counter has not come around to 0, nor to an id that a continuation under way is bound to. -/
def Unused (E : Endpoint κ σ) (w : World κ σ) : Prop :=
  (E.slot w.self).counter + 1 ≠ 0 ∧ ∀ c ∈ w.conts, c.id ≠ (E.slot w.self).counter + 1

instance (E : Endpoint κ σ) (w : World κ σ) : Decidable (w.Unused E) := inferInstanceAs (Decidable (_ ∧ _))

end World

namespace Recording
variable {κ σ : Type}

def step (E : Endpoint κ σ) (x : Recording κ σ) : RecordingEvent κ → Option (Recording κ σ)
  | .run e => (x.world.step E e).map fun world => { world, completed := x.completed ++ x.world.completes e }
  | .modify p bs => some { x with world := { x.world with memory := x.world.memory.write p bs } }

/-- The stream never moves more than it was asked for. A request that is accepted has a buffer of
its own, and the caller leaves a buffer alone while operations on it are outstanding. `stops` is a
further condition on the requests. -/
def Allowed (E : Endpoint κ σ) (stops : Request κ → σ → Prop) (x : Recording κ σ) : RecordingEvent κ → Prop
  | .run e => x.world.Honest e ∧ e.OnCall fun q => (E.slot x.world.self).id = 0 →
    x.world.Unused E ∧ stops q x.world.self ∧ x.world.Free E q.data q.size
  | .modify p bs => x.world.Free E p bs.length

instance (E : Endpoint κ σ) (stops : Request κ → σ → Prop) [∀ q s, Decidable (stops q s)] (x : Recording κ σ)
    (e : RecordingEvent κ) : Decidable (x.Allowed E stops e) :=
  match e with
  | .run _ => inferInstanceAs (Decidable (_ ∧ _))
  | .modify _ _ => inferInstanceAs (Decidable (World.Free ..))

end Recording

/-! ### What an endpoint does with its dump file -/

/-- A turn leaves the dump file as it is, binds `dump_callback` to each operation while the file is
open, and stays inside the buffer. -/
structure Records (E : Endpoint κ σ) (s s' : σ) (p : Nat) (bs : List UInt8) (next : Next) : Prop where
  dump : E.dump s' = E.dump s
  bound : ∀ count d, next = .transfer count d → d = (E.dump s).map fun _ => (E.slot s').data + (E.slot s').processed
  fits : Fits (E.slot s').requestedSize (E.slot s').processed next
  stores : bs = [] ∨ (E.slot s').data ≤ p ∧ p + bs.length ≤ (E.slot s').data + (E.slot s').requestedSize

structure Recorder (E : Endpoint κ σ) (stops : Request κ → σ → Prop) : Prop where
  call : ∀ q s, (E.slot s).id = 0 → stops q s → ∃ s' next bs,
    E.call q s = (true, s', armed q ((E.slot s).counter + 1) ++
      (storesFrom q.data bs ++ next.effects (E.slot s') ⟨q.kind, (E.slot s).counter + 1⟩)) ∧
    E.slot s' = { (E.slot s).opened q with processed := (E.slot s').processed, id := next.id ((E.slot s).counter + 1) } ∧
    Records E s s' q.data bs next
  resume : ∀ c err n m s, c.id = (E.slot s).id → (E.slot s).processed + n ≤ (E.slot s).requestedSize → ∃ s' next p bs,
    E.resume c err n m s = (s', storesFrom p bs ++ next.effects (E.slot s') c) ∧
    E.slot s' = { E.slot s with processed := (E.slot s').processed, id := next.id c.id } ∧ Records E s s' p bs next
  timeout : ∀ id err s, E.dump (E.timeoutReached id err s).1 = E.dump s
  setDump : ∀ d s, E.dump (E.setDump d s) = d

/-! ### The invariant -/

/-- The buffers of two requests have no byte in common. -/
def Request.Apart (q r : Request κ) : Prop := q.data + q.size ≤ r.data ∨ r.data + r.size ≤ q.data

namespace World
variable {κ σ : Type} {E : Endpoint κ σ} {single : κ → Bool} {w v : World κ σ}

/-- What holds of an outstanding operation: its bytes are still where the stream moved them. -/
structure Traced (E : Endpoint κ σ) (w : World κ σ) (op : Op κ) (r : Request κ) : Prop where
  dump : op.handler.dump = some op.data
  owner : w.owner E op.id = some r
  low : r.data ≤ op.data
  high : op.data + op.count ≤ r.data + r.size
  bound : ∀ bytes, op.moved = some bytes → bytes.length ≤ op.count
  kept : ∀ bytes, op.moved = some bytes → w.memory.read op.data bytes.length = bytes

/-- Every continuation under way has an id of its own. -/
structure Numbered (w : World κ σ) : Prop where
  nonzero : ∀ c ∈ w.conts, c.id ≠ 0
  distinct : (w.conts.map Cont.id).Nodup

/-- The request in progress is `q`. -/
structure Serves (E : Endpoint κ σ) (w : World κ σ) (id : UInt32) (q : Request κ) : Prop where
  owner : w.owner E id = some q
  data : (E.slot w.self).data = q.data
  size : (E.slot w.self).requestedSize = q.size

/-- The request is in progress, or has an operation outstanding. -/
def Live (E : Endpoint κ σ) (w : World κ σ) (id : UInt32) : Prop :=
  (∃ op ∈ w.ops, op.id = id) ∨ (E.slot w.self).id = id ∧ id ≠ 0

/-- The dump file is open and holds `content`. -/
structure Recorded (E : Endpoint κ σ) (w : World κ σ) (content : List UInt8) : Prop where
  dump : E.dump w.self = some content
  ops : ∀ op ∈ w.ops, ∃ r, Traced E w op r
  numbered : w.Numbered
  current : (E.slot w.self).id ≠ 0 → ∃ q, Serves E w (E.slot w.self).id q
  apart : ∀ id id' r r', Live E w id → Live E w id' → id ≠ id' → w.owner E id = some r → w.owner E id' = some r' → r.Apart r'
  opRoom : ∀ op ∈ w.ops, op.id = (E.slot w.self).id → (E.slot w.self).processed + op.count ≤ (E.slot w.self).requestedSize
  postRoom : ∀ p ∈ w.queue, p.cont.id = (E.slot w.self).id →
    (E.slot w.self).processed + p.count ≤ (E.slot w.self).requestedSize

/-! ### Operations and memory -/

section Operations
variable {op : Op κ} {r : Request κ}

theorem Traced.inside (traced : Traced E w op r) {bytes : List UInt8} (moved : op.moved = some bytes) :
    r.data ≤ op.data ∧ op.data + bytes.length ≤ r.data + r.size := by
  have low := traced.low
  have high := traced.high
  have bound := traced.bound bytes moved
  omega

/-- Bytes written outside of the request's buffer do not matter. -/
theorem Traced.write (traced : Traced E w op r) {p : Nat} {bs : List UInt8}
    (outside : bs = [] ∨ p + bs.length ≤ r.data ∨ r.data + r.size ≤ p) :
    Traced E { w with memory := w.memory.write p bs } op r := by
  refine ⟨traced.dump, traced.owner, traced.low, traced.high, traced.bound, fun bytes moved => ?_⟩
  rcases outside with rfl | outside
  · simp only [Memory.write_nil]
    exact traced.kept bytes moved
  · obtain ⟨low, high⟩ := traced.inside moved
    rw [Memory.read_write_apart]
    · exact traced.kept bytes moved
    · omega

theorem Traced.congr (traced : Traced E w op r) (owner : v.owner E op.id = w.owner E op.id) (memory : v.memory = w.memory) :
    Traced E v op r :=
  ⟨traced.dump, owner.trans traced.owner, traced.low, traced.high, traced.bound, by
    rw [memory]
    exact traced.kept⟩

theorem owner_congr (id : UInt32) (counter : (E.slot v.self).counter = (E.slot w.self).counter)
    (accepted : v.accepted = w.accepted) : v.owner E id = w.owner E id := by
  unfold owner
  rw [counter, accepted]

theorem sub_next {counter id : UInt32} (other : id ≠ counter + 1) : (counter + 1 - id).toNat = (counter - id).toNat + 1 := by
  have apart : id.toNat ≠ (counter + 1).toNat := fun same => other (UInt32.toNat_inj.mp same)
  have low := counter.toNat_lt
  have high := id.toNat_lt
  simp only [UInt32.toNat_sub, UInt32.toNat_add, UInt32.toNat_one] at apart ⊢
  omega

/-- The next request takes no other request's id. -/
theorem owner_accept {id : UInt32} (counter : (E.slot v.self).counter = (E.slot w.self).counter + 1)
    (accepted : v.accepted = w.accepted ++ [r]) (other : id ≠ (E.slot w.self).counter + 1) :
    v.owner E id = w.owner E id := by
  unfold owner
  rw [counter, accepted, List.reverse_concat, sub_next other, List.getElem?_cons_succ]

theorem owner_new (counter : (E.slot v.self).counter = (E.slot w.self).counter + 1)
    (accepted : v.accepted = w.accepted ++ [r]) : v.owner E ((E.slot w.self).counter + 1) = some r := by
  unfold owner
  rw [counter, accepted, List.reverse_concat, UInt32.sub_self]
  rfl

end Operations

/-! ### Continuations -/

/-- The end of a turn of `c` leaves at most `c` itself under way. -/
theorem conclude_conts (s : Slot) (c : Cont κ) (next : Next) (expired : Bool) (w : World κ σ) :
    (w.conclude s c next expired).conts = w.conts ∨ (w.conclude s c next expired).conts.Perm (c :: w.conts) := by
  cases next with
  | transfer count dump =>
    right
    simp [conts, conclude]
  | postCont count =>
    right
    simpa [conts, conclude] using List.perm_append_singleton c w.conts
  | done err =>
    left
    simp only [conclude]
    split <;> rfl

theorem Numbered.sublist (numbered : w.Numbered) (conts : v.conts.Sublist w.conts) : v.Numbered := by
  obtain ⟨nonzero, distinct⟩ := numbered
  exact ⟨fun c member => nonzero c (conts.subset member), distinct.sublist (conts.map Cont.id)⟩

theorem Numbered.conclude {s : Slot} {c : Cont κ} {next : Next} (numbered : w.Numbered) (nonzero : c.id ≠ 0)
    (alone : ∀ c' ∈ w.conts, c'.id ≠ c.id) : (w.conclude s c next false).Numbered := by
  rcases w.conclude_conts s c next false with same | perm
  · exact numbered.sublist (same ▸ List.Sublist.refl _)
  · constructor
    · intro c' member
      rcases List.mem_cons.mp (perm.mem_iff.mp member) with rfl | old
      · exact nonzero
      · exact numbered.nonzero c' old
    · rw [distinct_iff perm]
      exact ⟨alone, numbered.distinct⟩

/-- The continuation that is taken is the only one with its id. -/
theorem Numbered.take {e : Event κ} {c : Cont κ} {err : ErrorCode} {n : Nat} (numbered : w.Numbered)
    (from_ : Taken E w e c err n v) : c.id ≠ 0 ∧ v.Numbered ∧ ∀ c' ∈ v.conts, c'.id ≠ c.id := by
  obtain ⟨alone, distinct⟩ := (distinct_iff from_.perm).mp numbered.distinct
  exact ⟨numbered.nonzero c from_.under, ⟨fun c' member => numbered.nonzero c' (from_.left c' member), distinct⟩, alone⟩

/-! ### Turns -/

/-- A turn of `c` before its end: no other continuation of its request `q` is under way. -/
structure Ready (E : Endpoint κ σ) (w : World κ σ) (c : Cont κ) (q : Request κ) (content : List UInt8) : Prop where
  dump : E.dump w.self = some content
  ops : ∀ op ∈ w.ops, ∃ r, Traced E w op r
  numbered : w.Numbered
  nonzero : c.id ≠ 0
  alone : ∀ c' ∈ w.conts, c'.id ≠ c.id
  serves : Serves E w c.id q
  apart : ∀ id id' r r', ((∃ op ∈ w.ops, op.id = id) ∨ id = c.id) → ((∃ op ∈ w.ops, op.id = id') ∨ id' = c.id) → id ≠ id' →
    w.owner E id = some r → w.owner E id' = some r' → r.Apart r'

section Turns
variable {c : Cont κ} {q : Request κ} {next : Next} {content : List UInt8}

/-- The turn stores bytes in its own buffer. -/
theorem Ready.stored (ready : Ready E w c q content) {p : Nat} {bs : List UInt8}
    (inside : bs = [] ∨ q.data ≤ p ∧ p + bs.length ≤ q.data + q.size) : Ready E (w.stored p bs) c q content := by
  obtain ⟨nonzero, distinct⟩ := ready.numbered
  obtain ⟨owner, data, size⟩ := ready.serves
  refine ⟨ready.dump, ?_, ⟨nonzero, distinct⟩, ready.nonzero, ready.alone, ⟨owner, data, size⟩, ready.apart⟩
  intro op member
  obtain ⟨r, traced⟩ := ready.ops op member
  have other : op.id ≠ c.id := ready.alone _ (cont_of_op member)
  have apart := ready.apart _ _ r q (Or.inl ⟨op, member, rfl⟩) (Or.inr rfl) other traced.owner owner
  have outside : bs = [] ∨ p + bs.length ≤ r.data ∨ r.data + r.size ≤ p := by
    apply inside.imp_right
    rintro ⟨low, high⟩
    unfold Request.Apart at apart
    omega
  exact ⟨r, (traced.write outside).congr rfl rfl⟩

theorem Ready.conclude {s : Slot} (ready : Ready E w c q content) (slot : E.slot w.self = s) (id : s.id = next.id c.id)
    (fits : Fits s.requestedSize s.processed next)
    (bound : ∀ count d, next = .transfer count d → d = some (s.data + s.processed)) :
    Recorded E (w.conclude s c next false) content := by
  subst slot
  have numbered : (w.conclude (E.slot w.self) c next false).Numbered := ready.numbered.conclude ready.nonzero ready.alone
  obtain ⟨owner, data, size⟩ := ready.serves
  obtain ⟨ops, queue, posts, log, eq, newOps, newPosts⟩ := w.conclude_adds (E.slot w.self) c next false
  rw [eq] at numbered ⊢
  have current {id' : UInt32} (some : id' ≠ 0) (same : id' = (E.slot w.self).id) : id' = c.id := by
    rw [id] at same
    cases next with
    | done err => exact (some same).elim
    | _ => exact same
  have live {id' : UInt32} (live : Live E { w with ops := w.ops ++ ops, queue := w.queue ++ queue, posts, log } id') :
      (∃ op ∈ w.ops, op.id = id') ∨ id' = c.id := by
    rcases live with ⟨op, member, same⟩ | ⟨same, some⟩
    · rcases List.mem_append.mp member with old | new
      · exact Or.inl ⟨op, old, same⟩
      · obtain ⟨count, d, _, rfl⟩ := newOps op new
        exact Or.inr same.symm
    · exact Or.inr (current some same.symm)
  refine ⟨ready.dump, ?_, numbered, ?_,
    fun id id' r r' first second => ready.apart id id' r r' (live first) (live second), ?_, ?_⟩
  · intro op member
    rcases List.mem_append.mp member with old | new
    · obtain ⟨r, traced⟩ := ready.ops op old
      exact ⟨r, traced.congr rfl rfl⟩
    · obtain ⟨count, d, rfl, rfl⟩ := newOps op new
      have room := fits.transfer count d rfl
      rw [size] at room
      refine ⟨q, bound count d rfl, owner, ?_, ?_, nofun, nofun⟩
      · simp only [data]
        exact Nat.le_add_right ..
      · simp only [data]
        omega
  · intro busy
    have same := current busy rfl
    exact ⟨q, same ▸ owner, data, size⟩
  · intro op member same
    have positive := numbered.nonzero _ (cont_of_op member)
    rcases List.mem_append.mp member with old | new
    · exact (ready.alone _ (cont_of_op old) (current positive same)).elim
    · obtain ⟨count, d, rfl, rfl⟩ := newOps op new
      exact fits.transfer count d rfl
  · intro p member same
    have positive := numbered.nonzero _ (cont_of_posted member)
    rcases List.mem_append.mp member with old | new
    · exact (ready.alone _ (cont_of_posted old) (current positive same)).elim
    · obtain ⟨count, rfl, rfl⟩ := newPosts p new
      exact fits.post count rfl

end Turns

section Steps
variable {stops : Request κ → σ → Prop} {content : List UInt8}

/-- A request is accepted with a buffer that no outstanding operation uses. -/
theorem accept_ready {q : Request κ} {c : Cont κ} {s' : σ} (recorded : Recorded E w content) (unused : w.Unused E)
    (free : w.Free E q.data q.size) (id : c.id = (E.slot w.self).counter + 1) (dump : E.dump s' = some content)
    (slot : E.slot s' = { (E.slot w.self).opened q with processed := (E.slot s').processed, id := (E.slot s').id })
    (counts : List (UInt32 × Nat)) :
    Ready E (({ w with accepted := w.accepted ++ [q], counts, self := s' } : World κ σ).arm q c.id) c q content := by
  generalize opened : (({ w with accepted := w.accepted ++ [q], counts, self := s' } : World κ σ).arm q c.id) = v
  have self : v.self = s' := by rw [← opened, arm_self]
  have ops : v.ops = w.ops := by rw [← opened, arm_ops]
  have conts : v.conts = w.conts := by
    unfold World.conts
    rw [← opened, arm_ops, arm_queue]
  have memory : v.memory = w.memory := by rw [← opened, arm_memory]
  have accepted : v.accepted = w.accepted ++ [q] := by rw [← opened, arm_accepted]
  have counter : (E.slot v.self).counter = (E.slot w.self).counter + 1 := by
    rw [self, slot]
    rfl
  have old {op : Op κ} (member : op ∈ w.ops) : v.owner E op.id = w.owner E op.id :=
    owner_accept counter accepted (unused.2 _ (cont_of_op member))
  have new : v.owner E c.id = some q := by
    rw [id]
    exact owner_new counter accepted
  have outside {op : Op κ} (member : op ∈ w.ops) {r : Request κ} (owns : v.owner E op.id = some r) : q.Apart r :=
    free op member r ((old member).symm.trans owns)
  refine ⟨self ▸ dump, ?_, recorded.numbered.sublist (conts ▸ List.Sublist.refl _), id ▸ unused.1, ?_, ⟨new, ?_, ?_⟩, ?_⟩
  · rw [ops]
    intro op member
    obtain ⟨r, traced⟩ := recorded.ops op member
    exact ⟨r, traced.congr (old member) memory⟩
  · rw [conts, id]
    exact unused.2
  · rw [self, slot]
    rfl
  · rw [self, slot]
    rfl
  · rw [ops]
    rintro id id' r r' (⟨op, member, rfl⟩ | rfl) (⟨op', member', rfl⟩ | rfl) other owns owns'
    · rw [old member] at owns
      rw [old member'] at owns'
      exact recorded.apart _ _ r r' (Or.inl ⟨op, member, rfl⟩) (Or.inl ⟨op', member', rfl⟩) other owns owns'
    · obtain rfl := Option.some.inj (new.symm.trans owns')
      exact (outside member owns).symm
    · obtain rfl := Option.some.inj (new.symm.trans owns)
      exact outside member' owns'
    · exact (other rfl).elim

theorem call_recorded (lawful : Lawful E single) (recorder : Recorder E stops) (recorded : Recorded E w content)
    (q : Request κ) (allowed : (E.slot w.self).id = 0 → w.Unused E ∧ stops q w.self ∧ w.Free E q.data q.size) :
    Recorded E (w.call E q) content := by
  by_cases idle : (E.slot w.self).id = 0
  · obtain ⟨unused, stop, free⟩ := allowed idle
    obtain ⟨s', next, bs, eq, slot, records⟩ := recorder.call q w.self idle stop
    have counter : (E.slot s').counter = (E.slot w.self).counter + 1 := by
      rw [slot]
      rfl
    have called : w.call E q =
        ((({ w with
            accepted := w.accepted ++ [q]
            counts := w.counts ++ [((E.slot w.self).counter + 1, E.taken q w.self)]
            self := s' } : World κ σ).arm q ((E.slot w.self).counter + 1)).stored q.data bs).conclude (E.slot s')
          ⟨q.kind, (E.slot w.self).counter + 1⟩ next false := by
      unfold World.call
      simp only [eq, ↓reduceIte, counter]
      exact after_turn rfl
    have ready := accept_ready (c := ⟨q.kind, (E.slot w.self).counter + 1⟩) recorded unused free rfl
      (records.dump.trans recorded.dump) (by rw [slot]) (w.counts ++ [((E.slot w.self).counter + 1, E.taken q w.self)])
    have data : (E.slot s').data = q.data := by
      rw [slot]
      rfl
    have size : (E.slot s').requestedSize = q.size := by
      rw [slot]
      rfl
    have stores := records.stores
    rw [data, size] at stores
    rw [called]
    apply (ready.stored stores).conclude (by rw [stored_self, arm_self]) (by rw [slot]) records.fits
    intro count d same
    rw [records.bound count d same, recorded.dump]
    rfl
  · have refused := lawful.call_busy q w.self idle
    have same : w.call E q = w := by simp [World.call, refused, after]
    rw [same]
    exact recorded

/-- Fewer continuations are under way, and the request in progress stays or ends. -/
theorem Recorded.leave {content' : List UInt8} {notified : Bool} {id : UInt32} (recorded : Recorded E w content)
    (dump : E.dump v.self = some content') (ops : v.ops.Sublist w.ops) (queue : v.queue.Sublist w.queue)
    (accepted : v.accepted = w.accepted) (memory : v.memory = w.memory)
    (slot : E.slot v.self = { E.slot w.self with waiterNotified := notified, id })
    (stays : id = (E.slot w.self).id ∨ id = 0) : Recorded E v content' := by
  have owner (id : UInt32) : v.owner E id = w.owner E id := owner_congr id (by rw [slot]) accepted
  have conts : v.conts.Sublist w.conts := (ops.map _).append (queue.map _)
  have numbered := recorded.numbered.sublist conts
  have current {id' : UInt32} (some : id' ≠ 0) (same : id' = (E.slot v.self).id) : id' = (E.slot w.self).id := by
    rw [slot] at same
    rcases stays with stays | none
    · exact same.trans stays
    · exact (some (same.trans none)).elim
  have live {id : UInt32} (live : Live E v id) : Live E w id := by
    rcases live with ⟨op, member, same⟩ | ⟨same, some⟩
    · exact Or.inl ⟨op, ops.subset member, same⟩
    · exact Or.inr ⟨(current some same.symm).symm, some⟩
  refine ⟨dump, ?_, numbered, ?_, ?_, ?_, ?_⟩
  · intro op member
    obtain ⟨r, traced⟩ := recorded.ops op (ops.subset member)
    exact ⟨r, traced.congr (owner _) memory⟩
  · intro busy
    have same := current busy rfl
    obtain ⟨q, owns, data, size⟩ := recorded.current (same ▸ busy)
    refine ⟨q, ?_, ?_, ?_⟩
    · rw [owner, same]
      exact owns
    · rw [slot]
      exact data
    · rw [slot]
      exact size
  · intro id id' r r' first second other
    rw [owner, owner]
    exact recorded.apart id id' r r' (live first) (live second) other
  · intro op member same
    have room := recorded.opRoom op (ops.subset member) (current (numbered.nonzero _ (cont_of_op member)) same)
    rw [slot]
    exact room
  · intro p member same
    have room := recorded.postRoom p (queue.subset member) (current (numbered.nonzero _ (cont_of_posted member)) same)
    rw [slot]
    exact room

section Continuations
variable {e : Event κ} {c : Cont κ} {err : ErrorCode} {n : Nat} {content' : List UInt8}

/-- The continuation of the request in progress is taken. -/
theorem Recorded.ready {s' : σ} {next : Next} (recorded : Recorded E v content) (numbered : v.Numbered) (nonzero : c.id ≠ 0)
    (alone : ∀ c' ∈ v.conts, c'.id ≠ c.id) (current : c.id = (E.slot v.self).id)
    (slot : E.slot s' = { E.slot v.self with processed := (E.slot s').processed, id := next.id c.id })
    (dump : E.dump s' = some content) (counts : List (UInt32 × Nat)) :
    ∃ q, Ready E { v with counts, self := s' } c q content := by
  obtain ⟨q, owner, data, size⟩ := recorded.current (current ▸ nonzero)
  have same (id : UInt32) : World.owner E { v with counts, self := s' } id = v.owner E id := by
    apply owner_congr
    · show (E.slot s').counter = (E.slot v.self).counter
      rw [slot]
    · rfl
  have live {id : UInt32} (live : (∃ op ∈ v.ops, op.id = id) ∨ id = c.id) : Live E v id := by
    rcases live with ops | rfl
    · exact Or.inl ops
    · exact Or.inr ⟨current.symm, nonzero⟩
  refine ⟨q, dump, ?_, numbered.sublist (.refl _), nonzero, alone, ⟨?_, ?_, ?_⟩, ?_⟩
  · intro op member
    obtain ⟨r, traced⟩ := recorded.ops op member
    exact ⟨r, traced.congr (same _) rfl⟩
  · rw [same, current]
    exact owner
  · rw [slot]
    exact data
  · rw [slot]
    exact size
  · intro id id' r r' first second other
    rw [same, same]
    exact recorded.apart id id' r r' (live first) (live second) other

theorem resume_recorded (lawful : Lawful E single) (recorder : Recorder E stops) (recorded : Recorded E w content)
    (from_ : Taken E w e c err n v) (dump : E.dump v.self = some content')
    (room : c.id = (E.slot w.self).id → (E.slot w.self).processed + n ≤ (E.slot w.self).requestedSize) :
    Recorded E (v.resume E c err n) content' := by
  have slot := from_.slot lawful
  have accepted : v.accepted = w.accepted := congrArg (·.2.2.1) from_.ledger
  obtain ⟨nonzero, numbered, alone⟩ := recorded.numbered.take from_
  have left : Recorded E v content' :=
    recorded.leave dump from_.ops from_.queue accepted from_.memory slot (Or.inl rfl)
  rw [← slot] at room
  by_cases current : c.id = (E.slot v.self).id
  · obtain ⟨s', next, p, bs, eq, slot', records⟩ := recorder.resume c err n v.memory v.self current (room current)
    have resumed : v.resume E c err n =
        (({ v with counts := v.counts ++ [(c.id, E.counted c n v.memory v.self)], self := s' } : World κ σ).stored p bs).conclude
          (E.slot s') c next false := by
      unfold World.resume
      rw [eq]
      exact after_turn_resumed rfl
    obtain ⟨q, ready⟩ := left.ready numbered nonzero alone current slot' (records.dump.trans dump)
      (v.counts ++ [(c.id, E.counted c n v.memory v.self)])
    have data : (E.slot s').data = q.data := ready.serves.data
    have size : (E.slot s').requestedSize = q.size := ready.serves.size
    have stores := records.stores
    rw [data, size] at stores
    rw [resumed]
    refine (ready.stored stores).conclude rfl (by rw [slot']) records.fits ?_
    intro count d same
    rw [records.bound count d same, dump]
    rfl
  · have refused := lawful.resume_stale c err n v.memory v.self current
    unfold World.resume
    rw [refused]
    exact left.leave left.dump (.refl _) (.refl _) rfl rfl rfl (Or.inl rfl)

/-- `dump_callback` writes what the operation moved, as it is still there. -/
theorem complete_recorded {i : Nat} {op : Op κ} {bytes : List UInt8} (lawful : Lawful E single)
    (recorder : Recorder E stops) (recorded : Recorded E w content) (found : w.ops[i]? = some op)
    (moved : op.moved = some bytes) :
    Recorded E (handle E op.handler err bytes.length { w with ops := w.ops.eraseIdx i })
      (content ++ w.completes (.complete i err)) := by
  have member := List.mem_of_getElem? found
  obtain ⟨r, traced⟩ := recorded.ops op member
  have handled : handle E op.handler err bytes.length { w with ops := w.ops.eraseIdx i } =
      resume E op.handler.cont err bytes.length
        { w with ops := w.ops.eraseIdx i, self := E.dumpCallback op.data err bytes.length w.memory w.self } := by
    unfold handle
    rw [traced.dump]
  have dump : E.dump (E.dumpCallback op.data err bytes.length w.memory w.self) =
      some (content ++ w.completes (.complete i err)) := by
    simp only [completes, found, moved, Option.getD_some, Endpoint.dumpCallback]
    split
    · rw [recorded.dump, List.append_nil]
    · simp only [recorded.dump, recorder.setDump, traced.kept bytes moved]
  have from_ : Taken E w (.complete i err) op.handler.cont err bytes.length
      { w with ops := w.ops.eraseIdx i, self := E.dumpCallback op.data err bytes.length w.memory w.self } :=
    .complete i op bytes err _ found moved (dumpCallback_cases ..)
  rw [handled]
  refine resume_recorded lawful recorder recorded from_ dump fun current => ?_
  have room := recorded.opRoom op member current
  have bound := traced.bound bytes moved
  omega

end Continuations

/-- The bytes are where the stream has moved them, -/
theorem Traced.moved {i : Nat} {op : Op κ} {r : Request κ} {bytes : List UInt8} (traced : Traced E w op r)
    (bound : bytes.length ≤ op.count) (output : E.direction = .output → w.memory.read op.data bytes.length = bytes) :
    Traced E (w.move E i op bytes) { op with moved := some bytes } r := by
  refine ⟨traced.dump, traced.owner, traced.low, traced.high, ?_, ?_⟩
  · intro bs same
    obtain rfl := Option.some.inj same
    exact bound
  · intro bs same
    obtain rfl := Option.some.inj same
    unfold World.move
    cases direction : E.direction with
    | input => exact w.memory.read_write_same op.data bytes
    | output => exact output direction

/-- and the bytes of other requests stay where they are. -/
theorem Traced.beside {i : Nat} {op x : Op κ} {r r' : Request κ} {bytes : List UInt8} (traced : Traced E w op r)
    (traced' : Traced E w x r') (apart : r'.Apart r) (bound : bytes.length ≤ op.count) :
    Traced E (w.move E i op bytes) x r' := by
  have low := traced.low
  have high := traced.high
  have outside : bytes = [] ∨ op.data + bytes.length ≤ r'.data ∨ r'.data + r'.size ≤ op.data := by
    unfold Request.Apart at apart
    omega
  unfold World.move
  cases E.direction with
  | input => exact (traced'.write outside).congr rfl rfl
  | output => exact traced'.congr rfl rfl

theorem move_recorded {i : Nat} {op : Op κ} {bytes : List UInt8} (recorded : Recorded E w content)
    (found : w.ops[i]? = some op) (bound : bytes.length ≤ op.count)
    (output : E.direction = .output → w.memory.read op.data bytes.length = bytes) :
    Recorded E (w.move E i op bytes) content := by
  have member := List.mem_of_getElem? found
  obtain ⟨r, traced⟩ := recorded.ops op member
  have cases_ {x : Op κ} (member : x ∈ (w.move E i op bytes).ops) :
      x = { op with moved := some bytes } ∨ x ∈ w.ops ∧ x.id ≠ op.id :=
    (mem_set_iff recorded.numbered.distinct found).mp member
  have live {id : UInt32} (live : Live E (w.move E i op bytes) id) : Live E w id := by
    apply live.imp_left
    rintro ⟨x, moved, same⟩
    rcases cases_ moved with rfl | ⟨old, _⟩
    · exact ⟨op, member, same⟩
    · exact ⟨x, old, same⟩
  have numbered : (w.move E i op bytes).Numbered := recorded.numbered.sublist (by rw [conts_move found])
  refine ⟨recorded.dump, ?_, numbered, ?_, fun id id' r r' first second => recorded.apart id id' r r' (live first) (live second),
    ?_, recorded.postRoom⟩
  · intro x moved
    rcases cases_ moved with rfl | ⟨old, other⟩
    · exact ⟨r, traced.moved bound output⟩
    · obtain ⟨r', traced'⟩ := recorded.ops x old
      have apart := recorded.apart _ _ r' r (Or.inl ⟨x, old, rfl⟩) (Or.inl ⟨op, member, rfl⟩) other traced'.owner traced.owner
      exact ⟨r', traced.beside traced' apart bound⟩
  · intro busy
    obtain ⟨q, owner, data, size⟩ := recorded.current busy
    exact ⟨q, owner, data, size⟩
  · intro x moved same
    rcases cases_ moved with rfl | ⟨old, _⟩
    · exact recorded.opRoom op member same
    · exact recorded.opRoom x old same

theorem timer_recorded {i : Nat} {id : UInt32} {err : ErrorCode} (lawful : LawfulIdle E single) (recorder : Recorder E stops)
    (recorded : Recorded E w content) :
    Recorded E (after E true { w with fired := w.fired.eraseIdx i } (E.timeoutReached id err w.self)) content := by
  have kept := (recorder.timeout id err w.self).trans recorded.dump
  by_cases current : id = (E.slot w.self).id
  · by_cases zero : id = 0
    · subst zero
      obtain ⟨s', eq, slot⟩ := lawful.timeout_idle err w.self current.symm
      rw [eq] at kept ⊢
      exact recorded.leave kept (.refl _) (.refl _) rfl rfl slot (Or.inl rfl)
    · subst current
      obtain ⟨s', eq, slot⟩ := lawful.timeout_current err w.self zero
      rw [eq] at kept ⊢
      exact recorded.leave kept (.refl _) (.refl _) rfl rfl slot (Or.inr rfl)
  · rw [lawful.timeout_stale id err w.self current]
    exact recorded.leave recorded.dump (.refl _) (.refl _) rfl rfl rfl (Or.inl rfl)

theorem modify_recorded {p : Nat} {bs : List UInt8} (recorded : Recorded E w content) (free : w.Free E p bs.length) :
    Recorded E { w with memory := w.memory.write p bs } content := by
  obtain ⟨nonzero, distinct⟩ := recorded.numbered
  refine ⟨recorded.dump, ?_, ⟨nonzero, distinct⟩, ?_, recorded.apart, recorded.opRoom, recorded.postRoom⟩
  · intro op member
    obtain ⟨r, traced⟩ := recorded.ops op member
    exact ⟨r, traced.write (Or.inr (free op member r traced.owner))⟩
  · intro busy
    obtain ⟨q, owner, data, size⟩ := recorded.current busy
    exact ⟨q, owner, data, size⟩

theorem step_recorded {e : Event κ} {w' : World κ σ} (lawful : LawfulIdle E single) (recorder : Recorder E stops)
    (recorded : Recorded E w content) (honest : w.Honest e)
    (allowed : e.OnCall fun q => (E.slot w.self).id = 0 → w.Unused E ∧ stops q w.self ∧ w.Free E q.data q.size)
    (taken : w.step E e = some w') : Recorded E w' (content ++ w.completes e) := by
  cases step_cases taken with
  | call q =>
    rw [show w.completes _ = [] from rfl, List.append_nil]
    exact call_recorded lawful.toLawful recorder recorded q allowed
  | move i op bytes found _ output =>
    rw [show w.completes _ = [] from rfl, List.append_nil]
    exact move_recorded recorded found (by simpa [Honest, found] using honest) output
  | complete i op bytes err found moved => exact complete_recorded lawful.toLawful recorder recorded found moved
  | deliver i p found =>
    rw [show w.completes _ = [] from rfl, List.append_nil]
    have from_ : Taken E w (.deliver i) p.cont p.err p.count { w with queue := w.queue.eraseIdx i } := .deliver i p found
    exact resume_recorded lawful.toLawful recorder recorded from_ recorded.dump (recorded.postRoom p (List.mem_of_getElem? found))
  | expire =>
    rw [show w.completes _ = [] from rfl, List.append_nil]
    exact recorded.leave recorded.dump (.refl _) (.refl _) rfl rfl rfl (Or.inl rfl)
  | timer i id err found =>
    rw [show w.completes _ = [] from rfl, List.append_nil]
    exact timer_recorded lawful recorder recorded

end Steps

end World

/-! ### Runs -/

namespace Recording
variable {κ σ : Type} {E : Endpoint κ σ} {single : κ → Bool} {stops : Request κ → σ → Prop}

/-- With dumping enabled from the start, the dump file is the record of the completions. -/
theorem run_recorded {s : σ} {m : Memory UInt8} {es : List (RecordingEvent κ)} {x : Recording κ σ}
    (lawful : LawfulIdle E single) (recorder : Recorder E stops) (idle : (E.slot s).id = 0) (enabled : E.dump s = some [])
    (run : Steps (Recording.step E) (Allowed E stops) { world := { self := s, memory := m } } es x) :
    E.dump x.world.self = some x.completed := by
  have kept : World.Recorded E x.world x.completed := by
    apply run.invariant (P := fun x => World.Recorded E x.world x.completed)
    · refine ⟨enabled, by simp, ⟨by simp [World.conts], by simp [World.conts]⟩, fun busy => (busy idle).elim,
      ?_, by simp, by simp⟩
      rintro id _ r r' (⟨op, member, _⟩ | ⟨rfl, some⟩)
      · exact absurd member List.not_mem_nil
      · exact (some idle).elim
    · intro x e x' recorded allowed taken
      cases e with
      | run e =>
        obtain ⟨w', ran, rfl⟩ := Option.map_eq_some_iff.mp taken
        exact World.step_recorded lawful recorder recorded allowed.1 allowed.2 ran
      | modify p bs =>
        obtain rfl := Option.some.inj taken
        exact World.modify_recorded recorded allowed
  exact kept.dump

end Recording

end RtacAsio
