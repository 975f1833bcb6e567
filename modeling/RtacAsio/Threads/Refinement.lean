import Mathlib.Data.List.InsertIdx
import RtacAsio.KeptBusy
import RtacAsio.Lib.Simulation
import RtacAsio.Request.Protocol
import RtacAsio.Request.Thorough
import RtacAsio.Threads.Atomic

/-!
Calls and handlers that run one after the other are one of the interleavings of the two threads:
what `World` shows, `Threads` shows.
-/

namespace RtacAsio
open Lib

namespace World
variable {κ σ : Type} {E : Endpoint κ σ} {left : σ → List UInt8}

def outer (w : World κ σ) : Event κ → Option (Outer κ)
  | .call q => some (.call q false)
  | .move _ _ => none
  | .complete i err => some (.complete i err ((w.ops[i]?.bind (·.moved)).getD []).length)
  | .deliver i => some (.deliver i)
  | .timer i => some (.timer i)
  | .expire => some .expire

def view (E : Endpoint κ σ) (left : σ → List UInt8) (w : World κ σ) : View κ where
  slot := (E.slot w.self).numbered
  readBuffer := left w.self
  ops := w.ops.map (·.handler.cont)
  queue := w.queue.map fun p => (p.cont, p.count)
  waits := w.waits
  fired := w.fired
  posted := w.posts.map fun p => userCallback p.callback
  accepted := w.accepted.length

theorem conclude_view (s : Slot) (c : Cont κ) (next : Next) (expired : Bool) (w : World κ σ) :
    (w.conclude s c next expired).view E left = (w.view E left).concluded c (userCallback s.callback) next := by
  cases next with
  | transfer count dump => simp [conclude, view, View.concluded]
  | postCont count => simp [conclude, view, View.concluded]
  | done err =>
    simp only [conclude, View.concluded]
    split
    · rfl
    · simp [view]

end World

/-! ### The steps of `World` on what both models have -/

namespace World

section Reader
variable {w : World ReadKind StreamReader}

abbrev readerView (w : World ReadKind StreamReader) : View ReadKind := w.view reader StreamReader.readBuffer

theorem call_reader_view (q : Request ReadKind) (w : World ReadKind StreamReader) :
    (w.call reader q).readerView = w.readerView.call readerCode q := by
  by_cases idle : w.self.readId = 0
  · obtain ⟨bs, buffer, next, turn, eq⟩ := call_reader_idle q idle
    have opened : (w.call reader q).readerView =
        (w.readerView.opened q).turned ⟨q.kind, w.self.readCounter + 1⟩ (StreamReader.taken q w.self) buffer next := by
      rw [eq, readerView, conclude_view]
      unfold arm
      split <;> simp [view, stored, View.turned, View.opened, *] <;> rfl
    rw [opened]
    have idle : w.readerView.slot.id = 0 := idle
    cases turn with
    | fromStream empty =>
      rw [View.call_plain idle (Or.inr empty), View.doSome_stream q.size (w.self.dumpPtr q.data) empty rfl,
        StreamReader.taken_empty q empty]
      rfl
    | fromBuffer plain left =>
      have kind : readerCode.delimiter q.kind = none := by rcases plain with kind | kind <;> rw [kind] <;> rfl
      rw [View.call_plain idle (Or.inl kind), View.doSome_buffer left rfl, StreamReader.taken_plain plain]
      rfl
    | stopped delimiter kind left stops =>
      obtain ⟨b, rest, buffered⟩ := List.exists_cons_of_ne_nil left
      have amount : StreamReader.taken q w.self = StreamReader.leftoverTaken delimiter q.size w.self.readBuffer := by
        simp only [StreamReader.taken, kind]
      have kind : readerCode.delimiter q.kind = some delimiter := by rw [kind]; rfl
      rw [View.call_scan idle kind buffered, ← buffered, stops, if_pos rfl, View.scanned_opened,
        View.finish_turned (c := ⟨q.kind, w.self.readCounter + 1⟩) .success rfl, amount]
      rfl
    | scanned delimiter kind left goesOn =>
      obtain ⟨b, rest, buffered⟩ := List.exists_cons_of_ne_nil left
      have amount : StreamReader.taken q w.self = StreamReader.leftoverTaken delimiter q.size w.self.readBuffer := by
        simp only [StreamReader.taken, kind]
      have all := (StreamReader.leftoverTaken_running goesOn).1
      have kind : readerCode.delimiter q.kind = some delimiter := by rw [kind]; rfl
      rw [View.call_scan idle kind buffered, ← buffered, goesOn, if_neg Bool.false_ne_true, View.scanned_opened, amount, all,
        List.drop_length, View.doSome_stream q.size (w.self.dumpPtr (q.data + w.self.readBuffer.length)) rfl rfl]
      rfl
  · have refused : reader.call q w.self = (false, w.self, []) := StreamReader.call_busy q idle
    have busy : w.readerView.slot.id ≠ 0 := idle
    rw [View.call_busy busy]
    simp [call, refused, after]

/-- The bytes that a continuation of `async_read_until` searches are those that it was called for. -/
theorem resume_reader_view {c : Cont ReadKind} (err : ErrorCode) {bytes : List UInt8}
    (content : ∀ delimiter, c.kind = .readUntil delimiter → c.id = w.self.readId →
      w.memory.read (w.self.dst + w.self.processed) bytes.length = bytes) :
    (w.resume reader c err bytes.length).readerView = w.readerView.resume readerCode c err bytes := by
  by_cases current : c.id = w.self.readId
  · obtain ⟨processed, bs, buffer, next, turn, eq⟩ := resume_reader_current err bytes.length current
    have turned : (w.resume reader c err bytes.length).readerView = w.readerView.turned c processed buffer next := by
      rw [eq, readerView, conclude_view]
      simp only [StreamReader.turned, ← current]
      rfl
    have same : c.id = w.readerView.slot.id := current
    have plain (other : c.kind ≠ .readSome) : readerCode.single c.kind = false := by
      cases kind : c.kind <;> simp_all [readerCode]
    have searches (absent : ∀ delimiter, c.kind = .readUntil delimiter → StreamReader.searchLoop delimiter
          (w.memory.read (w.self.dst + w.self.processed) bytes.length) 0 = none) :
        (readerCode.delimiter c.kind).bind (fun delimiter => StreamReader.searchLoop delimiter bytes 0) = none := by
      cases kind : c.kind with
      | readUntil delimiter =>
        have none := absent delimiter kind
        rwa [content delimiter kind current] at none
      | _ => rfl
    rw [turned]
    cases turn with
    | readSome kind =>
      rw [View.resume_single same (by rw [kind]; rfl)]
      exact Eq.symm (View.finish_turned err same)
    | found delimiter i rest kind search =>
      rw [content delimiter kind current] at search
      rw [View.resume_found same (by rw [kind]; rfl) (by rw [kind]; exact search)]
      exact Eq.symm (View.finish_turned err same)
    | ended other absent ends =>
      rw [View.resume_ended same (plain other) (searches absent) ends]
      exact Eq.symm (View.finish_turned err same)
    | again bs buffer next other absent ok short turn =>
      rw [View.resume_more same (plain other) (searches absent) ok short]
      cases turn with
      | fromStream empty => exact Eq.symm (View.doSome_stream _ _ empty same)
      | fromBuffer left => exact Eq.symm (View.doSome_buffer left same)
  · have stale : c.id ≠ w.readerView.slot.id := current
    rw [resume_reader_stale err bytes.length current, View.resume_stale stale]
    rfl

end Reader

section Writer
variable {w : World WriteKind StreamWriter}

abbrev writerView (w : World WriteKind StreamWriter) : View WriteKind := w.view writer fun _ => []

theorem call_writer_view (q : Request WriteKind) (w : World WriteKind StreamWriter) :
    (w.call writer q).writerView = w.writerView.call writerCode q := by
  by_cases idle : w.self.writeId = 0
  · have called : writer.call q w.self = _ := StreamWriter.call_idle q idle
    have free : w.writerView.slot.id = 0 := idle
    rw [View.call_plain free (Or.inr rfl), View.doSome_stream q.size (w.self.dumpPtr q.data) rfl rfl]
    simp only [call, called, after, List.foldl_append, foldl_armed, ↓reduceIte]
    unfold arm
    split <;> simp [perform, view, View.turned, View.concluded, View.opened, *] <;> exact ⟨rfl, rfl⟩
  · have refused : writer.call q w.self = (false, w.self, []) := StreamWriter.call_busy q idle
    have busy : w.writerView.slot.id ≠ 0 := idle
    rw [View.call_busy busy]
    simp [call, refused, after]

theorem resume_writer_view (c : Cont WriteKind) (err : ErrorCode) (bytes : List UInt8) :
    (w.resume writer c err bytes.length).writerView = w.writerView.resume writerCode c err bytes := by
  by_cases current : c.id = w.self.writeId
  · obtain ⟨processed, next, turn, eq⟩ := StreamWriter.resume_current c err bytes.length current
    have resumed : writer.resume c err bytes.length w.memory w.self = _ := eq
    have turned : (w.resume writer c err bytes.length).writerView = w.writerView.turned c processed [] next := by
      unfold resume
      rw [resumed, after, foldl_next { w.self.toSlot with processed } c next rfl, writerView, conclude_view]
      simp only [StreamWriter.turned, ← current]
      rfl
    have same : c.id = w.writerView.slot.id := current
    rw [turned]
    cases turn with
    | writeSome kind =>
      rw [View.resume_single same (by rw [kind]; rfl)]
      exact Eq.symm (View.finish_turned err same)
    | ended kind ends =>
      rw [View.resume_ended same (by rw [kind]; rfl) rfl ends]
      exact Eq.symm (View.finish_turned err same)
    | again kind ok short =>
      rw [View.resume_more same (by rw [kind]; rfl) rfl ok short]
      exact Eq.symm (View.doSome_stream _ _ rfl same)
  · have refused : writer.resume c err bytes.length w.memory w.self = (w.self, []) :=
      StreamWriter.resume_stale c err bytes.length current
    have stale : c.id ≠ w.writerView.slot.id := current
    rw [View.resume_stale stale]
    simp only [resume, refused, after]
    rfl

end Writer

end World

/-! ### The steps of `World` as runs of `Threads` -/

/-- The bytes that a continuation searches are those that it is called for. -/
def Searches (E : Endpoint κ σ) (code : Code κ) (w : World κ σ) (c : Cont κ) (bytes : List UInt8) : Prop :=
  code.delimiter c.kind ≠ none → c.id = (E.slot w.self).id →
    w.memory.read ((E.slot w.self).data + (E.slot w.self).processed) bytes.length = bytes

/-- The calls and the handlers of `E` are those of `code`, on what both models have. -/
structure Coded (E : Endpoint κ σ) (left : σ → List UInt8) (code : Code κ) : Prop where
  call : ∀ (q : Request κ) (w : World κ σ), (w.call E q).view E left = (w.view E left).call code q
  resume : ∀ (c : Cont κ) (err : ErrorCode) (bytes : List UInt8) (w : World κ σ), Searches E code w c bytes →
    (w.resume E c err bytes.length).view E left = (w.view E left).resume code c err bytes
  timeout : ∀ id err s, left (E.timeoutReached id err s).1 = left s
  dump : ∀ d s, left (E.setDump d s) = left s

/-- A continuation that was posted does not look at its bytes, which came from those left over. -/
def Unsearched (code : Code κ) (w : World κ σ) : Prop :=
  ∀ p ∈ w.queue, p.err = .success ∧ code.delimiter p.cont.kind = none

section Steps
open Threads (Leads call_leads resume_leads timeout_leads)
variable {κ σ : Type} {E : Endpoint κ σ} {left : σ → List UInt8} {code : Code κ} {single : κ → Bool} {w w' : World κ σ}
  {e : Event κ} {t : Threads κ}

theorem searches_any (E : Endpoint κ σ) (code : Code κ) (w : World κ σ) (c : Cont κ) (n : Nat) :
    ∃ bytes : List UInt8, bytes.length = n ∧ Searches E code w c bytes := by
  refine ⟨w.memory.read ((E.slot w.self).data + (E.slot w.self).processed) n, Memory.read_length .., fun _ _ => ?_⟩
  rw [Memory.read_length]

theorem timeout_view (lawful : LawfulIdle E single) (coded : Coded E left code) (id : UInt32) (err : ErrorCode)
    (w : World κ σ) :
    (w.after E true (E.timeoutReached id err w.self)).view E left = (w.view E left).timeoutReached id := by
  have kept := coded.timeout id err w.self
  by_cases current : id = (E.slot w.self).id
  · have same : id = (w.view E left).slot.id := current
    rw [View.timeoutReached, if_neg (not_not_intro same)]
    subst current
    by_cases idle : (E.slot w.self).id = 0
    · obtain ⟨s', eq, slot⟩ := lawful.timeout_idle err w.self idle
      rw [idle, eq] at kept ⊢
      simp [World.after, World.view, View.finish, Slot.numbered, slot, idle, kept]
    · obtain ⟨s', eq, slot⟩ := lawful.timeout_current err w.self idle
      rw [eq] at kept ⊢
      simp [World.after, World.perform, World.view, View.finish, Slot.numbered, slot, idle, kept]
  · have other : id ≠ (w.view E left).slot.id := current
    rw [lawful.timeout_stale id err w.self current, View.timeoutReached, if_pos other]
    rfl

theorem Coded.taken_left (coded : Coded E left code) {c : Cont κ} {err : ErrorCode} {n : Nat} {v : World κ σ}
    (from_ : World.Taken E w e c err n v) : left v.self = left w.self := by
  cases from_ with
  | complete i op bytes err s found moved dumped =>
    rcases dumped with rfl | ⟨d, rfl⟩
    · rfl
    · exact coded.dump d w.self
  | deliver => rfl

/-- An operation that is taken off the stream, with what `dump_callback` does. -/
theorem Coded.taken_ops (coded : Coded E left code) (lawful : LawfulIdle E single) {i : Nat} {c : Cont κ} {err : ErrorCode}
    {n : Nat} {v : World κ σ} (from_ : World.Taken E w (.complete i err) c err n v) :
    v.view E left = { w.view E left with ops := (w.view E left).ops.eraseIdx i } := by
  have slot := from_.slot lawful.toLawful
  have kept := coded.taken_left from_
  cases from_ with
  | complete => simp only [World.view, ← List.eraseIdx_map, slot, kept]

theorem Coded.step (coded : Coded E left code) (lawful : LawfulIdle E single) (unsearched : Unsearched code w) (h : t.Between)
    (same : t.view = w.view E left) (taken : w.step E e = some w') :
    ∃ u, Leads code t (w.outer e).toList u ∧ u.Between ∧ u.view = w'.view E left := by
  cases World.step_cases taken with
  | call q =>
    obtain ⟨u, leads, between, seen⟩ := call_leads code h q
    exact ⟨u, leads, between, by rw [seen, same, coded.call]⟩
  | move i op bytes found =>
    refine ⟨t, .refl, h, ?_⟩
    have conts : (w.move E i op bytes).ops.map (·.handler.cont) = w.ops.map (·.handler.cont) :=
      List.append_cancel_right (World.conts_move found)
    rw [same]
    simp only [World.view, conts]
    rfl
  | complete i op bytes err found moved =>
    obtain ⟨v, from_, eq⟩ := World.handle_taken (E := E) found moved err
    obtain ⟨bytes', length, searches⟩ := searches_any E code v op.handler.cont bytes.length
    have waits : t.ops[i]? = some op.handler.cont := by
      rw [show t.ops = _ from congrArg View.ops same, World.view, List.getElem?_map, found, Option.map_some]
    have completed : t.step code (.complete i err bytes') =
        some { t with ops := t.ops.eraseIdx i, serving := .check op.handler.cont err bytes' } := by
      simp only [Threads.step, h.serving, waits]
    obtain ⟨u, leads, between, seen⟩ := resume_leads code (t := { t with
      ops := t.ops.eraseIdx i, serving := .check op.handler.cont err bytes' }) rfl h.mutex h.caller
    have outer : w.outer (.complete i err) = some (.complete i err bytes'.length) := by
      simp only [World.outer, found, Option.bind_some, moved, Option.getD_some, length]
    rw [outer]
    refine ⟨u, .shown_first completed rfl leads, between, ?_⟩
    rw [eq, ← length, coded.resume _ _ _ _ searches, seen, coded.taken_ops lawful from_]
    exact congrArg (fun v : View κ => View.resume code op.handler.cont err bytes' { v with ops := v.ops.eraseIdx i }) same
  | deliver i p found =>
    obtain ⟨ok, plain⟩ := unsearched p (List.mem_of_getElem? found)
    have queued : (t.queue.map fun p => (p.1, p.2.length))[i]? = some (p.cont, p.count) := by
      rw [show t.queue.map _ = _ from congrArg View.queue same, World.view, List.getElem?_map, found, Option.map_some]
    rw [List.getElem?_map, Option.map_eq_some_iff] at queued
    obtain ⟨⟨c, bytes⟩, waits, eq⟩ := queued
    obtain ⟨rfl, length⟩ := Prod.mk.inj eq
    have delivered : t.step code (.deliver i) =
        some { t with queue := t.queue.eraseIdx i, serving := .check p.cont .success bytes } := by
      simp only [Threads.step, h.serving, waits]
    obtain ⟨u, leads, between, seen⟩ := resume_leads code (t := { t with
      queue := t.queue.eraseIdx i, serving := .check p.cont .success bytes }) rfl h.mutex h.caller
    refine ⟨u, .shown_first delivered rfl leads, between, ?_⟩
    have one : Threads.view { t with queue := t.queue.eraseIdx i, serving := .check p.cont .success bytes } =
        { t.view with queue := t.view.queue.eraseIdx i } := by simp only [Threads.view, ← List.eraseIdx_map]
    have other : ({ w with queue := w.queue.eraseIdx i } : World κ σ).view E left =
        { w.view E left with queue := (w.view E left).queue.eraseIdx i } := by simp only [World.view, ← List.eraseIdx_map]
    rw [ok, ← length, coded.resume _ _ _ _ fun searched => (searched plain).elim, seen, one, other, same]
  | expire =>
    have expired : t.step code .expire = some { t with fired := t.fired ++ t.waits.map (·, ErrorCode.success), waits := [] } := rfl
    refine ⟨_, .shown_first expired rfl .refl, ⟨h.mutex, h.caller, h.serving⟩, ?_⟩
    exact congrArg (fun v : View κ => { v with fired := v.fired ++ v.waits.map (·, ErrorCode.success), waits := [] }) same
  | timer i id err found =>
    have ready : t.fired[i]? = some (id, err) := by rw [show t.fired = _ from congrArg View.fired same]; exact found
    have ran : t.step code (.timer i) = some { t with fired := t.fired.eraseIdx i, serving := .timeCheck id } := by
      simp only [Threads.step, h.serving, ready]
    obtain ⟨u, leads, between, seen⟩ := timeout_leads code (t := { t with
      fired := t.fired.eraseIdx i, serving := .timeCheck id }) rfl h.mutex h.caller
    refine ⟨u, .shown_first ran rfl leads, between, ?_⟩
    rw [seen]
    refine Eq.trans ?_ (timeout_view lawful coded id err { w with fired := w.fired.eraseIdx i }).symm
    exact congrArg (fun v : View κ => View.timeoutReached id { v with fired := v.fired.eraseIdx i }) same

end Steps

/-! ### The two objects -/

theorem reader_coded : Coded reader StreamReader.readBuffer readerCode where
  call := World.call_reader_view
  resume c err bytes w searches := World.resume_reader_view err fun delimiter kind current =>
    searches (by simp [readerCode, kind]) current
  timeout _ _ _ := rfl
  dump _ _ := rfl

theorem writer_coded : Coded writer (fun _ => []) writerCode where
  call := World.call_writer_view
  resume c err bytes _ _ := World.resume_writer_view c err bytes
  timeout _ _ _ := rfl
  dump _ _ := rfl

/-- While the stream has an operation of a `read_until`, no bytes are left over. -/
structure Emptied (w : World ReadKind StreamReader) : Prop where
  ops : ∀ op ∈ w.ops, op.id = w.self.readId → readerCode.delimiter op.handler.cont.kind ≠ none → w.self.readBuffer = []
  queue : Unsearched readerCode w

section Reader
open World
variable {w w' : World ReadKind StreamReader} {e : Event ReadKind}

/-- The end of a turn of `c`, which finds no bytes left over if it looks for a delimiter. -/
theorem Emptied.conclude {c : Cont ReadKind} {next : Next} {s : Slot} {v : World ReadKind StreamReader}
    (self : v.self.readId = next.id c.id) (queue : Unsearched readerCode v)
    (nonzero : ∀ op ∈ v.ops, op.id ≠ 0)
    (ops : ∀ op ∈ v.ops, op.id = c.id → readerCode.delimiter op.handler.cont.kind ≠ none → (∀ err, next ≠ .done err) →
      v.self.readBuffer = [])
    (transfer : ∀ count dump, next = .transfer count dump → v.self.readBuffer = [])
    (postCont : ∀ count, next = .postCont count → readerCode.delimiter c.kind = none) :
    Emptied (v.conclude s c next false) := by
  obtain ⟨ops', queue', posts, log, eq, added, posted⟩ := v.conclude_adds s c next false
  rw [eq]
  constructor
  · intro op member current searched
    rcases List.mem_append.mp member with old | new
    · refine ops op old ?_ searched ?_
      · cases next with
        | done err => exact (nonzero op old (current.trans self)).elim
        | _ => exact current.trans self
      · rintro err rfl
        exact nonzero op old (current.trans self)
    · obtain ⟨count, dump, ends, _⟩ := added op new
      exact transfer count dump ends
  · intro p member
    rcases List.mem_append.mp member with old | new
    · exact queue p old
    · obtain ⟨count, ends, rfl⟩ := posted p new
      exact ⟨rfl, postCont count ends⟩

theorem resume_emptied {c : Cont ReadKind} {err : ErrorCode} {n : Nat} {v : World ReadKind StreamReader} (h : Emptied w)
    (sound : Sound reader ReadKind.single w) (from_ : Taken reader w e c err n v)
    (searched : readerCode.delimiter c.kind ≠ none → c.id = w.self.readId → w.self.readBuffer = []) :
    Emptied (v.resume reader c err n) := by
  have slot : v.self.toSlot = w.self.toSlot := from_.slot reader_lawful
  have same : v.self.readId = w.self.readId := congrArg Slot.id slot
  have left : v.self.readBuffer = w.self.readBuffer := reader_coded.taken_left from_
  have queue : Unsearched readerCode v := fun p member => h.queue p (from_.queue.subset member)
  by_cases current : c.id = v.self.readId
  · obtain ⟨processed, bs, buffer, next, turn, eq⟩ := resume_reader_current err n current
    rw [eq]
    have rest (other : ∀ err, next ≠ .done err) : buffer = [] ∧ (∀ count, next ≠ .postCont count) ∨
        v.self.readBuffer ≠ [] ∧ ∀ count dump, next ≠ .transfer count dump := by
      cases turn with
      | again bs buffer next _ _ _ _ turn =>
        cases turn with
        | fromStream => exact Or.inl ⟨rfl, by simp⟩
        | fromBuffer some => exact Or.inr ⟨some, by simp⟩
      | _ => exact (other _ rfl).elim
    have under : ∀ op ∈ v.ops, op.handler.cont ∈ w.conts := fun op member =>
      List.mem_append_left _ (List.mem_map_of_mem (from_.ops.subset member))
    refine Emptied.conclude (by rw [current]; rfl) queue (fun op member => (sound.filed.conts _ (under op member)).ne_zero)
      ?_ ?_ ?_
    · intro op member id kind other
      rcases rest other with ⟨empty, _⟩ | ⟨some, _⟩
      · exact empty
      · exact (some (left.trans (h.ops op (from_.ops.subset member) (id.trans (current.trans same)) kind))).elim
    · rintro count dump rfl
      rcases rest (by simp) with ⟨empty, _⟩ | ⟨_, other⟩
      · exact empty
      · exact (other count dump rfl).elim
    · rintro count rfl
      rcases rest (by simp) with ⟨_, other⟩ | ⟨some, _⟩
      · exact (other count rfl).elim
      · by_contra kind
        exact some (left.trans (searched kind (current.trans same)))
  · rw [resume_reader_stale err n current]
    refine ⟨fun op member id kind => ?_, queue⟩
    exact left.trans (h.ops op (from_.ops.subset member) (id.trans same) kind)

theorem step_emptied (h : Emptied w) (sound : Sound reader ReadKind.single w) (taken : w.step reader e = some w')
    (bounded : w'.accepted.length < 2 ^ 32) : Emptied w' := by
  cases step_cases taken with
  | call q =>
    by_cases idle : w.self.readId = 0
    · obtain ⟨bs, buffer, next, turn, eq⟩ := call_reader_idle q idle
      have number : (w.self.readCounter + 1).toNat = w.accepted.length + 1 := by
        refine counter_next sound.counter ?_
        rw [eq] at bounded
        simpa [stored] using bounded
      have under : ∀ op ∈ w.ops, w.Issued op.id := fun op member =>
        sound.filed.conts _ (List.mem_append_left _ (List.mem_map_of_mem member))
      have new : ∀ op ∈ w.ops, op.id ≠ w.self.readCounter + 1 := by
        intro op member same
        have known := (under op member).2
        rw [same, number] at known
        omega
      rw [eq]
      refine Emptied.conclude (by simp [StreamReader.turned]; rfl) ?_ ?_ ?_ ?_ ?_
      · simpa [Unsearched, stored] using h.queue
      · simpa [stored] using fun op member => (under op member).ne_zero
      · intro op member id
        exact (new op (by simpa [stored] using member) id).elim
      · rintro count dump rfl
        cases turn <;> simp [StreamReader.turned]
      · rintro count rfl
        cases turn with
        | fromBuffer plain => rcases plain with kind | kind <;> rw [kind] <;> rfl
    · have refused : reader.call q w.self = (false, w.self, []) := StreamReader.call_busy q idle
      have same : w.call reader q = w := by simp [call, refused, after]
      rwa [same]
  | move i op bytes found =>
    refine ⟨fun op' member => ?_, h.queue⟩
    rcases List.mem_or_eq_of_mem_set member with old | rfl
    · exact h.ops op' old
    · exact h.ops op (List.mem_of_getElem? found)
  | complete i op bytes err found moved =>
    obtain ⟨v, from_, eq⟩ := handle_taken (E := reader) found moved err
    rw [eq]
    exact resume_emptied h sound from_ fun searched current => h.ops op (List.mem_of_getElem? found) current searched
  | deliver i p found =>
    have plain := (h.queue p (List.mem_of_getElem? found)).2
    exact resume_emptied h sound (.deliver i p found) fun searched => (searched plain).elim
  | expire => exact ⟨h.ops, h.queue⟩
  | timer i id err found =>
    have under : ∀ op ∈ w.ops, op.id ≠ 0 := fun op member =>
      (sound.filed.conts _ (List.mem_append_left _ (List.mem_map_of_mem member))).ne_zero
    by_cases current : id = w.self.readId
    · subst current
      by_cases idle : w.self.readId = 0
      · have eq : reader.timeoutReached w.self.readId err w.self = _ := StreamReader.timeoutReached_idle err idle
        rw [eq]
        exact ⟨h.ops, h.queue⟩
      · have eq : reader.timeoutReached w.self.readId err w.self = _ := StreamReader.timeoutReached_current err idle
        rw [eq]
        exact ⟨fun op member zero => (under op member zero).elim, h.queue⟩
    · have eq : reader.timeoutReached id err w.self = _ := StreamReader.timeoutReached_stale err current
      rw [eq]
      exact ⟨h.ops, h.queue⟩

end Reader

section Runs
open World
variable {κ σ : Type} {E : Endpoint κ σ} {single : κ → Bool} {w w' : World κ σ} {e : Event κ}

theorem conclude_unqueued (s : Slot) (c : Cont κ) {next : Next} (expired : Bool) (w : World κ σ)
    (other : ∀ count, next ≠ .postCont count) : (w.conclude s c next expired).queue = w.queue := by
  cases next with
  | postCont count => exact (other count rfl).elim
  | transfer => rfl
  | done => simp only [conclude, apply_ite queue, ite_self]

/-- An object that writes has no bytes left over, and posts no continuation. -/
theorem step_unqueued (lawful : LawfulIdle E single) (output : E.direction = .output) (empty : w.queue = [])
    (taken : w.step E e = some w') : w'.queue = [] := by
  rcases step_action_or_flagged lawful taken with action | ⟨_, _, _, _, _, _, _, rfl⟩
  · cases action with
    | opened _ _ _ _ _ _ _ _ _ _ _ silent =>
      rw [conclude_unqueued _ _ _ _ (silent output).2.noPost]
      unfold arm
      split <;> exact empty
    | resumed _ _ _ _ v _ _ _ _ from_ _ _ _ _ _ silent =>
      rw [conclude_unqueued _ _ _ _ (silent output).2.noPost]
      exact List.sublist_nil.mp (empty ▸ from_.queue)
    | ignored _ _ _ _ v from_ => exact List.sublist_nil.mp (empty ▸ from_.queue)
    | _ => exact empty
  · exact empty

/-- What is seen of the reader's object and its surroundings is a state between two calls or handlers. -/
structure Follows (left : σ → List UInt8) (E : Endpoint κ σ) (w : World κ σ) (t : Threads κ) : Prop where
  between : t.Between
  view : t.view = w.view E left

theorem start_follows {s : σ} {m : Memory UInt8} {left : σ → List UInt8} (empty : left s = []) :
    Follows left E { self := s, memory := m } { slot := (E.slot s).numbered } where
  between := ⟨rfl, rfl, rfl⟩
  view := by simp [Threads.view, World.view, empty]

/-- Of the requests before the counter wraps. -/
def Early (w : World κ σ) : Prop := w.accepted.length < 2 ^ 32

theorem reader_mimics : Mimics (World.step reader) outer Early (Threads.step readerCode) Threads.outer
    fun w t => Follows StreamReader.readBuffer reader w t ∧ Sound reader ReadKind.single w ∧ Emptied w := by
  rintro w e w' t ⟨follows, sound, emptied⟩ taken early
  obtain ⟨u, leads, between, same⟩ := reader_coded.step reader_lawfulIdle emptied.queue follows.between follows.view taken
  exact ⟨u, leads, ⟨between, same⟩, step_sound reader_lawful sound taken early, step_emptied emptied sound taken early⟩

theorem writer_mimics : Mimics (World.step writer) outer (fun _ => True) (Threads.step writerCode) Threads.outer
    fun w t => Follows (fun _ => []) writer w t ∧ w.queue = [] := by
  rintro w e w' t ⟨follows, empty⟩ taken -
  have unsearched : Unsearched writerCode w := by simp [Unsearched, empty]
  obtain ⟨u, leads, between, same⟩ := writer_coded.step writer_lawfulIdle unsearched follows.between follows.view taken
  exact ⟨u, leads, ⟨between, same⟩, step_unqueued writer_lawfulIdle rfl empty taken⟩

/-- Calls and handlers that run one after the other are one of the interleavings of the two threads:
all that is seen of such a run, in which no call waits, is seen of a run of the threads as well, and
it leaves the object and its surroundings the same. -/
theorem atomic_interleaves :
    (∀ (r : StreamReader) (m : Memory UInt8) ls w, r.Created → Shows (World.step reader) outer { self := r, memory := m } ls w →
      w.accepted.length < 2 ^ 32 →
      ∃ t, Shows (Threads.step readerCode) Threads.outer { slot := r.toSlot.numbered } ls t ∧
        Follows StreamReader.readBuffer reader w t) ∧
    (∀ (s : StreamWriter) (m : Memory UInt8) ls w, Shows (World.step writer) outer { self := s, memory := m } ls w →
      ∃ t, Shows (Threads.step writerCode) Threads.outer { slot := s.toSlot.numbered } ls t ∧
        Follows (fun _ => []) writer w t) := by
  constructor
  · intro r m ls w created run bounded
    have sound : Sound reader ReadKind.single { self := r, memory := m } :=
      reachable_sound reader_lawful created.readCounter created.readId .refl (Nat.two_pow_pos 32)
    obtain ⟨t, shows, follows, _⟩ := reader_mimics.run
      (fun _ _ _ taken early => Nat.lt_of_le_of_lt (step_accepted taken) early)
      ⟨start_follows created.readBuffer, sound, ⟨by simp, by simp [Unsearched]⟩⟩ run bounded
    exact ⟨t, shows, follows⟩
  · intro s m ls w run
    obtain ⟨t, shows, follows, _⟩ := writer_mimics.run (fun _ _ _ _ _ => trivial) ⟨start_follows rfl, rfl⟩ run trivial
    exact ⟨t, shows, follows⟩

/-- A read that finds its byte among those left over by the line before it, and a write whose timer
comes while its operation is under way. -/
theorem atomic_interleaves_leftover :
    (∃ es w ls t, Steps (World.step reader) Always { self := .blank, memory := fun _ => 0 } es w ∧
      w.posts.map Post.bytes = [[97, 10], [98]] ∧
      Shows (World.step reader) outer { self := .blank, memory := fun _ => 0 } ls w ∧
      Shows (Threads.step readerCode) Threads.outer { slot := StreamReader.blank.toSlot.numbered } ls t ∧
      Follows StreamReader.readBuffer reader w t) ∧
    (∃ es w ls t, Steps (World.step writer) Always { self := .blank, memory := fun _ => 7 } es w ∧
      w.posts.map Post.expired = [true] ∧
      Shows (World.step writer) outer { self := .blank, memory := fun _ => 7 } ls w ∧
      Shows (Threads.step writerCode) Threads.outer { slot := StreamWriter.blank.toSlot.numbered } ls t ∧
      Follows (fun _ => []) writer w t) := by
  constructor
  · obtain ⟨w, run, seen⟩ : ∃ w, Steps (World.step reader) Always { self := .blank, memory := fun _ => 0 }
        [.call { kind := .readUntil 10, size := 4, data := 0, callback := 1 }, .move 0 [97, 10, 98], .complete 0 .success,
          .call { kind := .read, size := 1, data := 8, callback := 2 }, .deliver 0] w ∧
        (w.posts.map Post.bytes, w.accepted.length) = ([[97, 10], [98]], 2) := exists_of_exec (by decide)
    simp only [Prod.mk.injEq] at seen
    obtain ⟨ls, shows⟩ := run.shows outer
    obtain ⟨t, interleaved, follows⟩ := atomic_interleaves.1 _ _ ls w ⟨rfl, rfl, rfl⟩ shows (by rw [seen.2]; decide)
    exact ⟨_, w, ls, t, run, seen.1, shows, interleaved, follows⟩
  · obtain ⟨w, run, seen⟩ : ∃ w, Steps (World.step writer) Always { self := .blank, memory := fun _ => 7 }
        [.call { kind := .write, size := 2, data := 0, callback := 1, timeoutMillis := 1 }, .expire, .timer 0, .move 0 [7],
          .complete 0 .success] w ∧
        w.posts.map Post.expired = [true] := exists_of_exec (by decide)
    obtain ⟨ls, shows⟩ := run.shows outer
    obtain ⟨t, interleaved, follows⟩ := atomic_interleaves.2 _ _ ls w shows
    exact ⟨_, w, ls, t, run, seen, shows, interleaved, follows⟩

end Runs

end RtacAsio
