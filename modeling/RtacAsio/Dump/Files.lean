import Mathlib.Data.List.InsertIdx
import Mathlib.Logic.Function.Basic
import RtacAsio.Lib.Simulation
import RtacAsio.Reader.Turns
import RtacAsio.Writer.Lawful

/-!
`enable_dump` and `disable_dump` at any time: what they change about the rest of the program, and
what becomes of the files.
-/

namespace RtacAsio
open Lib

/-- An object with the files it can dump to. `rxDump_` or `txDump_` is the file `name` while it is
open; `files` holds the others. -/
structure Dumping (κ σ : Type) where
  world : World κ σ
  name : Option String := none
  files : String → List UInt8 := fun _ => []

inductive DumpingEvent (κ : Type) where
  | run (e : Event κ)
  /-- `opens` tells whether the file can be opened. -/
  | enableDump (filename : String) (appendMode opens : Bool)
  | disableDump

def DumpingEvent.own : DumpingEvent κ → Option (Event κ)
  | .run e => some e
  | _ => none

namespace Dumping
variable {κ σ : Type}

def enableDump (E : Endpoint κ σ) (filename : String) (appendMode opens : Bool) (x : Dumping κ σ) : Dumping κ σ :=
  match E.dump x.world.self with
  | some _ => x
  | none =>
    if opens then
      -- std::ofstream::out truncates the file
      let content := if appendMode then x.files filename else []
      { x with world := { x.world with self := E.setDump (some content) x.world.self }, name := some filename }
    else x

def disableDump (E : Endpoint κ σ) (x : Dumping κ σ) : Dumping κ σ :=
  match E.dump x.world.self with
  | none => x
  | some written =>
    { world := { x.world with self := E.setDump none x.world.self }, name := none,
      files := match x.name with
        | none => x.files
        | some filename => Function.update x.files filename written }

def step (E : Endpoint κ σ) (x : Dumping κ σ) : DumpingEvent κ → Option (Dumping κ σ)
  | .run e => (x.world.step E e).map fun world => { x with world }
  | .enableDump filename appendMode opens => some (x.enableDump E filename appendMode opens)
  | .disableDump => some (x.disableDump E)

/-- What the file holds; everything written is flushed at once. -/
def content (E : Endpoint κ σ) (x : Dumping κ σ) (filename : String) : List UInt8 :=
  if x.name = some filename then (E.dump x.world.self).getD [] else x.files filename

end Dumping

/-! ### Without the dump file -/

def Handler.undumped (h : Handler κ) : Handler κ := { h with dump := none }

def Op.undumped (op : Op κ) : Op κ := { op with handler := op.handler.undumped }

def Effect.undumped : Effect κ → Effect κ
  | .transfer count data handler => .transfer count data handler.undumped
  | e => e

section Endpoints
variable {κ σ : Type}

def Endpoint.undumped (E : Endpoint κ σ) (out : σ × List (Effect κ)) : σ × List (Effect κ) :=
  (E.setDump none out.1, out.2.map Effect.undumped)

/-- A part of a turn that leaves the dump file alone. -/
def Blind (E : Endpoint κ σ) (f : σ → σ × List (Effect κ)) : Prop :=
  ∀ s, f (E.setDump none s) = E.undumped (f s) ∧ E.dump (f s).1 = E.dump s

/-- Nothing but `dump_callback` depends on the dump file or changes it. -/
structure Unseen (E : Endpoint κ σ) : Prop where
  slot : ∀ d s, E.slot (E.setDump d s) = E.slot s
  setDump : ∀ d d' s, E.setDump d (E.setDump d' s) = E.setDump d s
  dump : ∀ d s, E.dump (E.setDump d s) = d
  taken : ∀ d q s, E.taken q (E.setDump d s) = E.taken q s
  counted : ∀ d c n m s, E.counted c n m (E.setDump d s) = E.counted c n m s
  call : ∀ q s, E.call q (E.setDump none s) = ((E.call q s).1, E.undumped (E.call q s).2) ∧
    E.dump (E.call q s).2.1 = E.dump s
  resume : ∀ c err n m, Blind E (E.resume c err n m)
  timeoutReached : ∀ id err, Blind E (E.timeoutReached id err)

end Endpoints

namespace World
variable {κ σ : Type} {E : Endpoint κ σ} {expired : Bool}

def undumped (E : Endpoint κ σ) (w : World κ σ) : World κ σ :=
  { w with self := E.setDump none w.self, ops := w.ops.map Op.undumped, log := w.log.map Effect.undumped }

theorem perform_undumped (unseen : Unseen E) (w : World κ σ) (e : Effect κ) :
    (w.perform E expired e).undumped E = (w.undumped E).perform E expired e.undumped := by
  cases e <;> simp [perform, undumped, Effect.undumped, Op.undumped, unseen.slot]

theorem after_undumped (unseen : Unseen E) (w : World κ σ) (out : σ × List (Effect κ)) :
    (w.after E expired out).undumped E = (w.undumped E).after E expired (E.undumped out) := by
  have effects (es : List (Effect κ)) (w : World κ σ) :
      (es.foldl (perform E expired) w).undumped E = (es.map Effect.undumped).foldl (perform E expired) (w.undumped E) := by
    induction es generalizing w with
    | nil => rfl
    | cons e rest ih => rw [List.foldl_cons, List.map_cons, List.foldl_cons, ih, perform_undumped unseen]
  have start : { w.undumped E with self := E.setDump none out.1 } = ({ w with self := out.1 } : World κ σ).undumped E := rfl
  simp only [after, Endpoint.undumped]
  rw [effects, start]

theorem resume_undumped (unseen : Unseen E) (c : Cont κ) (err : ErrorCode) (n : Nat) (w : World κ σ) :
    (w.resume E c err n).undumped E = (w.undumped E).resume E c err n := by
  unfold resume
  rw [after_undumped unseen, ← (unseen.resume c err n w.memory w.self).1]
  simp only [undumped, unseen.counted]

theorem dumpCallback_undumped (unseen : Unseen E) (data : Nat) (err : ErrorCode) (n : Nat) (m : Memory UInt8) (s : σ) :
    E.setDump none (E.dumpCallback data err n m s) = E.setDump none s := by
  unfold Endpoint.dumpCallback
  split
  · rfl
  · split
    · rfl
    · exact unseen.setDump ..

theorem handle_undumped (unseen : Unseen E) (h : Handler κ) (err : ErrorCode) (n : Nat) (w : World κ σ) :
    (handle E h err n w).undumped E = handle E h.undumped err n (w.undumped E) := by
  have direct : handle E h.undumped err n (w.undumped E) = (w.undumped E).resume E h.cont err n := rfl
  rw [direct]
  unfold handle
  cases h.dump with
  | none => exact resume_undumped unseen h.cont err n w
  | some data =>
    rw [resume_undumped unseen]
    simp only [undumped, dumpCallback_undumped unseen]

theorem call_undumped (unseen : Unseen E) (q : Request κ) (w : World κ σ) :
    (w.call E q).undumped E = (w.undumped E).call E q := by
  obtain ⟨same, _⟩ := unseen.call q w.self
  have self : (w.undumped E).self = E.setDump none w.self := rfl
  have counter : E.slot (E.undumped (E.call q w.self).2).1 = E.slot (E.call q w.self).2.1 := unseen.slot ..
  unfold call
  rw [self, same, unseen.taken]
  dsimp only
  rw [counter]
  split
  · rw [after_undumped unseen]
    rfl
  · exact after_undumped unseen w _

/-- What happens does not depend on the dump file. -/
theorem step_undumped (unseen : Unseen E) (w : World κ σ) (e : Event κ) :
    (w.undumped E).step E e = (w.step E e).map (undumped E) := by
  have ops (i : Nat) : (w.undumped E).ops[i]? = (w.ops[i]?).map Op.undumped := List.getElem?_map
  cases e with
  | call q => exact congrArg some (call_undumped unseen q w).symm
  | move i bytes =>
    simp only [step, ops]
    cases w.ops[i]? with
    | none => rfl
    | some op =>
      have moved : (w.undumped E).move E i op.undumped bytes = (w.move E i op bytes).undumped E := by
        simp only [undumped, World.move, List.map_set]
        rfl
      have target : op.undumped.data = op.data := rfl
      have free : op.undumped.moved = op.moved := rfl
      have memory : (w.undumped E).memory = w.memory := rfl
      simp only [Option.map_some, target, free, memory, moved]
      split
      · rfl
      · split <;> rfl
  | complete i err =>
    simp only [step, ops]
    cases w.ops[i]? with
    | none => rfl
    | some op =>
      have free : op.undumped.moved = op.moved := rfl
      simp only [Option.map_some, free]
      cases op.moved with
      | none => rfl
      | some bytes =>
        have left : ({ w with ops := w.ops.eraseIdx i } : World κ σ).undumped E =
            { w.undumped E with ops := (w.undumped E).ops.eraseIdx i } := by
          simp only [undumped, List.eraseIdx_map]
        simp only [Option.map_some, handle_undumped unseen, left]
        rfl
  | deliver i =>
    have queue : (w.undumped E).queue = w.queue := rfl
    simp only [step, queue]
    cases w.queue[i]? with
    | none => rfl
    | some p =>
      simp only [Option.map_some, resume_undumped unseen]
      rfl
  | expire => rfl
  | timer i =>
    have fired : (w.undumped E).fired = w.fired := rfl
    have self : (w.undumped E).self = E.setDump none w.self := rfl
    simp only [step, fired, self]
    cases w.fired[i]? with
    | none => rfl
    | some f =>
      obtain ⟨same, _⟩ := unseen.timeoutReached f.1 f.2 w.self
      simp only [Option.map_some, after_undumped unseen, ← same]
      rfl

/-! ### The content of the file -/

theorem after_self (w : World κ σ) (out : σ × List (Effect κ)) : (w.after E expired out).self = out.1 := by
  have kept (es : List (Effect κ)) (w : World κ σ) : (es.foldl (perform E expired) w).self = w.self := by
    induction es generalizing w with
    | nil => rfl
    | cons e rest ih =>
      rw [List.foldl_cons, ih]
      cases e <;> rfl
  exact kept out.2 _

theorem resume_dump (unseen : Unseen E) (c : Cont κ) (err : ErrorCode) (n : Nat) (w : World κ σ) :
    E.dump (w.resume E c err n).self = E.dump w.self := by
  unfold resume
  rw [after_self, (unseen.resume c err n w.memory w.self).2]

theorem dumpCallback_dump (unseen : Unseen E) (data : Nat) (err : ErrorCode) (n : Nat) (m : Memory UInt8) (s : σ) :
    ∃ more, E.dump (E.dumpCallback data err n m s) = (E.dump s).map (· ++ more) := by
  unfold Endpoint.dumpCallback
  split
  · exact ⟨[], by simp⟩
  · split
    · exact ⟨[], by simp⟩
    · rename_i written dump
      exact ⟨m.read data n, by rw [unseen.dump, dump, Option.map_some]⟩

/-- A step leaves the dump file open or closed, and what was written to it stays there. -/
theorem step_dump (unseen : Unseen E) {w w' : World κ σ} {e : Event κ} (taken : w.step E e = some w') :
    ∃ more, E.dump w'.self = (E.dump w.self).map (· ++ more) := by
  have same {s : σ} (kept : E.dump s = E.dump w.self) : ∃ more, E.dump s = (E.dump w.self).map (· ++ more) :=
    ⟨[], by simp [kept]⟩
  cases step_cases taken with
  | call q =>
    refine same ?_
    unfold call
    dsimp only
    split <;> rw [after_self, (unseen.call q w.self).2]
  | move => exact same rfl
  | complete i op bytes err =>
    unfold handle
    cases op.handler.dump with
    | none => exact same (resume_dump unseen ..)
    | some data =>
      dsimp only
      rw [resume_dump unseen]
      exact dumpCallback_dump unseen ..
  | deliver i p => exact same (resume_dump unseen ..)
  | expire => exact same rfl
  | timer i id err =>
    refine same ?_
    rw [after_self, (unseen.timeoutReached id err w.self).2]

end World

namespace DumpingEvent

/-- The file is not truncated. -/
def Keeps (filename : String) : DumpingEvent κ → Prop
  | .enableDump name appendMode opens => name = filename → opens = true → appendMode = true
  | _ => True

instance (filename : String) (e : DumpingEvent κ) : Decidable (e.Keeps filename) :=
  match e with
  | .enableDump _ _ _ => inferInstanceAs (Decidable (_ → _ → _))
  | .run _ => .isTrue trivial
  | .disableDump => .isTrue trivial

end DumpingEvent

namespace Dumping
variable {κ σ : Type} {E : Endpoint κ σ} {x x' : Dumping κ σ} {e : DumpingEvent κ}

theorem projects (unseen : Unseen E) :
    Projects (step E) (World.step E) (fun x => x.world.undumped E) DumpingEvent.own where
  shown x e f own := by
    cases e with
    | run e =>
      obtain rfl := Option.some.inj own
      simp only [step, World.step_undumped unseen, Option.map_map]
      rfl
    | _ => cases own
  hidden x e own := by
    have set (d : Option (List UInt8)) :
        ({ x.world with self := E.setDump d x.world.self } : World κ σ).undumped E = x.world.undumped E := by
      simp only [World.undumped, unseen.setDump]
    cases e with
    | run e => cases own
    | enableDump filename appendMode opens =>
      simp only [step, enableDump, Option.map_some]
      split
      · rfl
      · split
        · exact congrArg some (set _)
        · rfl
    | disableDump =>
      simp only [step, disableDump, Option.map_some]
      split
      · rfl
      · exact congrArg some (set none)

/-- An open dump file has a name. -/
def Named (E : Endpoint κ σ) (x : Dumping κ σ) : Prop := x.name.isSome = (E.dump x.world.self).isSome

theorem step_named (unseen : Unseen E) (named : x.Named E) (taken : x.step E e = some x') : x'.Named E := by
  unfold Named at named ⊢
  cases e with
  | run e =>
    obtain ⟨w, ran, rfl⟩ := Option.map_eq_some_iff.mp taken
    obtain ⟨more, dump⟩ := World.step_dump unseen ran
    rw [dump, Option.isSome_map]
    exact named
  | enableDump name appendMode opens =>
    obtain rfl := Option.some.inj taken
    unfold enableDump
    split
    · exact named
    · split
      · simp [unseen.dump]
      · exact named
  | disableDump =>
    obtain rfl := Option.some.inj taken
    unfold disableDump
    split
    · exact named
    · simp [unseen.dump]

theorem step_grows (unseen : Unseen E) {filename : String} (named : x.Named E) (keeps : e.Keeps filename)
    (taken : x.step E e = some x') : x.content E filename <+: x'.content E filename := by
  cases e with
  | run e =>
    obtain ⟨w, ran, rfl⟩ := Option.map_eq_some_iff.mp taken
    obtain ⟨more, dump⟩ := World.step_dump unseen ran
    unfold content
    split
    · rw [dump]
      cases E.dump x.world.self with
      | none => exact List.prefix_rfl
      | some written => exact List.prefix_append written more
    · exact List.prefix_rfl
  | enableDump name appendMode opens =>
    obtain rfl := Option.some.inj taken
    unfold enableDump
    split
    · exact List.prefix_rfl
    · rename_i closed
      split
      · rename_i opened
        have none : x.name = none := by simpa [Named, closed] using named
        simp only [content, none, unseen.dump]
        by_cases same : name = filename
        · simp [same, keeps same opened]
        · simp [same]
      · exact List.prefix_rfl
  | disableDump =>
    obtain rfl := Option.some.inj taken
    unfold disableDump
    split
    · exact List.prefix_rfl
    · rename_i written dump
      obtain ⟨name, open_⟩ := Option.isSome_iff_exists.mp (named.trans (by rw [dump]; rfl))
      simp only [content, open_, dump]
      by_cases same : name = filename
      · simp [same]
      · simp [same, Function.update_of_ne (Ne.symm same)]

theorem run_grows (unseen : Unseen E) {filename : String} {es : List (DumpingEvent κ)} (named : x.Named E)
    (run : Steps (step E) (fun _ e => e.Keeps filename) x es x') : x.content E filename <+: x'.content E filename := by
  have grown : x'.Named E ∧ x.content E filename <+: x'.content E filename := by
    refine run.invariant (P := fun y => y.Named E ∧ x.content E filename <+: y.content E filename)
      ⟨named, List.prefix_rfl⟩ ?_
    rintro y e y' ⟨named, before⟩ keeps taken
    exact ⟨step_named unseen named taken, before.trans (step_grows unseen named keeps taken)⟩
  exact grown.2

end Dumping

/-! ### The reader and the writer -/

theorem undumped_stores (p : Nat) (bs : List UInt8) : (storesFrom (κ := κ) p bs).map Effect.undumped = storesFrom p bs := by
  induction bs generalizing p with
  | nil => rfl
  | cons b rest ih => rw [storesFrom, List.map_cons, ih]; rfl

theorem undumped_armed (q : Request κ) (id : UInt32) : (armed q id).map Effect.undumped = armed q id := by
  unfold armed
  split <;> rfl

theorem quiet_append {es fs : List (Effect κ)} (first : es.map Effect.undumped = es) (second : fs.map Effect.undumped = fs) :
    (es ++ fs).map Effect.undumped = es ++ fs := by
  rw [List.map_append, first, second]

/-- What an accepted call does first leaves the dump file alone, and so does the rest. -/
theorem called_undumped {E : Endpoint κ σ} {es : List (Effect κ)} {out out' : σ × List (Effect κ)}
    (quiet : es.map Effect.undumped = es) (same : out' = E.undumped out) :
    (true, out'.1, es ++ out'.2) = (true, E.undumped (out.1, es ++ out.2)) := by
  simp only [same, Endpoint.undumped, List.map_append, quiet]

theorem undumped_finish (err : ErrorCode) (s : Slot) : (s.finish (κ := κ) err).2.map Effect.undumped = (s.finish err).2 := by
  unfold Slot.finish
  split <;> rfl

theorem undumped_timeoutReached (id : UInt32) (err : ErrorCode) (s : Slot) :
    (s.timeoutReached (κ := κ) id err).2.map Effect.undumped = (s.timeoutReached id err).2 := by
  unfold Slot.timeoutReached
  split
  · rfl
  · exact undumped_finish ..

namespace StreamReader

theorem doReadSome_blind (count data : Nat) (k : Cont ReadKind) : Blind reader (doReadSome count data k) := by
  intro r
  by_cases empty : r.readBuffer = []
  · have same : (reader.setDump none r).readBuffer = [] := empty
    rw [doReadSome_empty empty, doReadSome_empty same]
    exact ⟨rfl, rfl⟩
  · have same : (reader.setDump none r).readBuffer ≠ [] := empty
    rw [doReadSome_buffered empty, doReadSome_buffered same]
    refine ⟨?_, rfl⟩
    simp only [Endpoint.undumped, List.map_append, undumped_stores]
    rfl

theorem finishRead_blind (err : ErrorCode) : Blind reader (finishRead err) := by
  intro r
  refine ⟨?_, rfl⟩
  simp only [finishRead, Endpoint.undumped, undumped_finish]
  rfl

theorem timeoutReached_blind (readId : UInt32) (err : ErrorCode) : Blind reader (timeoutReached readId err) := by
  intro r
  refine ⟨?_, rfl⟩
  simp only [timeoutReached, Endpoint.undumped, undumped_timeoutReached]
  rfl

theorem asyncReadSomeContinue_blind (readId : UInt32) (err : ErrorCode) (n : Nat) :
    Blind reader (asyncReadSomeContinue readId err n) := by
  intro r
  have same : (reader.setDump none r).readidOk readId = r.readidOk readId := rfl
  unfold asyncReadSomeContinue
  rw [same]
  split
  · exact ⟨rfl, rfl⟩
  · exact finishRead_blind err { r with processed := n }

theorem asyncReadContinue_blind (readId : UInt32) (err : ErrorCode) (n : Nat) :
    Blind reader (asyncReadContinue readId err n) := by
  intro r
  have same : (reader.setDump none r).readidOk readId = r.readidOk readId := rfl
  have processed : (reader.setDump none r).processed = r.processed := rfl
  have size : (reader.setDump none r).requestedSize = r.requestedSize := rfl
  unfold asyncReadContinue
  rw [same, processed, size]
  split
  · exact ⟨rfl, rfl⟩
  · dsimp only
    by_cases more : (!err.failed && decide (r.processed + n < r.requestedSize)) = true
    · simp only [more, ↓reduceIte]
      exact doReadSome_blind _ _ _ { r with processed := r.processed + n }
    · simp only [more]
      exact finishRead_blind err { r with processed := r.processed + n }

theorem asyncReadUntilContinue_blind (readId : UInt32) (delimiter : Int8) (err : ErrorCode) (n : Nat) (m : Memory UInt8) :
    Blind reader (asyncReadUntilContinue readId delimiter err n m) := by
  intro r
  have same : (reader.setDump none r).readidOk readId = r.readidOk readId := rfl
  have processed : (reader.setDump none r).processed = r.processed := rfl
  have size : (reader.setDump none r).requestedSize = r.requestedSize := rfl
  have dst : (reader.setDump none r).dst = r.dst := rfl
  unfold asyncReadUntilContinue
  rw [same, processed, size, dst]
  split
  · exact ⟨rfl, rfl⟩
  · cases searchLoop delimiter (m.read (r.dst + r.processed) n) 0 with
    | some found =>
      exact finishRead_blind err
        { r with readBuffer := r.readBuffer ++ found.2, processed := r.processed + found.1 }
    | none =>
      dsimp only
      by_cases stop : (err.failed || decide (r.processed + n ≥ r.requestedSize)) = true
      · simp only [stop, ↓reduceIte]
        exact finishRead_blind err { r with processed := r.processed + n }
      · simp only [stop]
        exact doReadSome_blind _ _ _ { r with processed := r.processed + n }

theorem scanLoop_blind (delimiter : Int8) (c : UInt8) (buffer : List UInt8) (r : StreamReader) :
    (reader.setDump none r).scanLoop delimiter c buffer = ((r.scanLoop delimiter c buffer).1,
      reader.setDump none (r.scanLoop delimiter c buffer).2.1, (r.scanLoop delimiter c buffer).2.2) ∧
    (r.scanLoop delimiter c buffer).2.1.rxDump = r.rxDump ∧
    (r.scanLoop delimiter c buffer).2.2.map Effect.undumped = (r.scanLoop delimiter c buffer).2.2 := by
  rw [scanLoop_eq, scanLoop_eq]
  exact ⟨rfl, rfl, undumped_stores ..⟩

theorem asyncReadUntil_blind (delimiter : Int8) (q : Request ReadKind) {r : StreamReader} (idle : r.readId = 0) :
    (reader.setDump none r).asyncReadUntil delimiter q = (true, reader.undumped (r.asyncReadUntil delimiter q).2) ∧
      (r.asyncReadUntil delimiter q).1 = true ∧ (r.asyncReadUntil delimiter q).2.1.rxDump = r.rxDump := by
  have started := newRead_idle q (r := reader.setDump none r) idle
  have opened : (reader.setDump none r).opened q = reader.setDump none (r.opened q) := rfl
  have buffer : (reader.setDump none (r.opened q)).readBuffer = (r.opened q).readBuffer := rfl
  have quiet := undumped_armed q (r.readCounter + 1)
  unfold asyncReadUntil
  rw [started, newRead_idle q idle, opened]
  dsimp only
  rw [buffer]
  cases (r.opened q).readBuffer with
  | nil =>
    obtain ⟨same, dump⟩ := doReadSome_blind (r.opened q).requestedSize ((r.opened q).dst + (r.opened q).processed)
      ⟨.readUntil delimiter, (r.opened q).readId⟩ (r.opened q)
    exact ⟨called_undumped quiet same, rfl, dump⟩
  | cons c buffer =>
    obtain ⟨scanned, dump, stores⟩ := scanLoop_blind delimiter c buffer (r.opened q)
    dsimp only
    rw [scanned]
    have quiet := quiet_append quiet stores
    cases (scanLoop delimiter c buffer (r.opened q)).1 with
    | true =>
      obtain ⟨same, kept⟩ := finishRead_blind .success (scanLoop delimiter c buffer (r.opened q)).2.1
      exact ⟨called_undumped quiet same, rfl, kept.trans dump⟩
    | false =>
      obtain ⟨same, kept⟩ := doReadSome_blind (scanLoop delimiter c buffer (r.opened q)).2.1.requestedSize
        ((scanLoop delimiter c buffer (r.opened q)).2.1.dst + (scanLoop delimiter c buffer (r.opened q)).2.1.processed)
        ⟨.readUntil delimiter, (scanLoop delimiter c buffer (r.opened q)).2.1.readId⟩
        (scanLoop delimiter c buffer (r.opened q)).2.1
      exact ⟨called_undumped quiet same, rfl, kept.trans dump⟩

theorem reader_call_blind (q : Request ReadKind) (r : StreamReader) :
    (reader.setDump none r).call q = ((r.call q).1, reader.undumped (r.call q).2) ∧ (r.call q).2.1.rxDump = r.rxDump := by
  by_cases idle : r.readId = 0
  · by_cases plain : q.kind = .readSome ∨ q.kind = .read
    · obtain ⟨same, dump⟩ := doReadSome_blind q.size q.data ⟨q.kind, r.readCounter + 1⟩ (r.opened q)
      rw [call_plain plain idle, call_plain (r := reader.setDump none r) plain idle]
      exact ⟨called_undumped (undumped_armed q _) same, dump⟩
    · obtain ⟨delimiter, kind⟩ : ∃ delimiter, q.kind = .readUntil delimiter := by
        cases kind : q.kind with
        | readUntil delimiter => exact ⟨delimiter, rfl⟩
        | _ => simp [kind] at plain
      obtain ⟨same, accepted, dump⟩ := asyncReadUntil_blind delimiter q idle
      simp only [call, kind]
      rw [same, accepted]
      exact ⟨rfl, dump⟩
  · rw [call_busy q idle, call_busy q (r := reader.setDump none r) idle]
    exact ⟨rfl, rfl⟩

end StreamReader

theorem reader_unseen : Unseen reader where
  slot _ _ := rfl
  setDump _ _ _ := rfl
  dump _ _ := rfl
  taken _ _ _ := rfl
  counted _ _ _ _ _ := rfl
  call := StreamReader.reader_call_blind
  resume c err n m := by
    obtain ⟨kind, id⟩ := c
    cases kind with
    | readSome => exact StreamReader.asyncReadSomeContinue_blind id err n
    | read => exact StreamReader.asyncReadContinue_blind id err n
    | readUntil delimiter => exact StreamReader.asyncReadUntilContinue_blind id delimiter err n m
  timeoutReached := StreamReader.timeoutReached_blind

namespace StreamWriter

theorem doWriteSome_undumped (count data : Nat) (k : Cont WriteKind) (t : StreamWriter) :
    (writer.setDump none t).doWriteSome count data k = (t.doWriteSome count data k).map Effect.undumped := by
  unfold doWriteSome
  cases t.txDump <;> rfl

theorem finishWrite_blind (err : ErrorCode) : Blind writer (finishWrite err) := by
  intro t
  refine ⟨?_, rfl⟩
  simp only [finishWrite, Endpoint.undumped, undumped_finish]
  rfl

theorem timeoutReached_blind (writeId : UInt32) (err : ErrorCode) : Blind writer (timeoutReached writeId err) := by
  intro t
  refine ⟨?_, rfl⟩
  simp only [timeoutReached, Endpoint.undumped, undumped_timeoutReached]
  rfl

theorem asyncWriteSomeContinue_blind (writeId : UInt32) (err : ErrorCode) (n : Nat) :
    Blind writer (asyncWriteSomeContinue writeId err n) := by
  intro t
  have same : (writer.setDump none t).writeidOk writeId = t.writeidOk writeId := rfl
  unfold asyncWriteSomeContinue
  rw [same]
  split
  · exact ⟨rfl, rfl⟩
  · exact finishWrite_blind err { t with processed := n }

theorem asyncWriteContinue_blind (writeId : UInt32) (err : ErrorCode) (n : Nat) :
    Blind writer (asyncWriteContinue writeId err n) := by
  intro t
  have same : (writer.setDump none t).writeidOk writeId = t.writeidOk writeId := rfl
  have processed : (writer.setDump none t).processed = t.processed := rfl
  have size : (writer.setDump none t).requestedSize = t.requestedSize := rfl
  unfold asyncWriteContinue
  rw [same, processed, size]
  split
  · exact ⟨rfl, rfl⟩
  · dsimp only
    by_cases more : (!err.failed && decide (t.processed + n < t.requestedSize)) = true
    · simp only [more, ↓reduceIte]
      refine ⟨?_, rfl⟩
      have given := doWriteSome_undumped (t.requestedSize - (t.processed + n)) (t.src + (t.processed + n))
        ⟨.write, writeId⟩ { t with processed := t.processed + n }
      exact congrArg (Prod.mk (writer.setDump none { t with processed := t.processed + n })) given
    · simp only [more]
      exact finishWrite_blind err { t with processed := t.processed + n }

theorem writer_call_blind (q : Request WriteKind) (t : StreamWriter) :
    (writer.setDump none t).call q = ((t.call q).1, writer.undumped (t.call q).2) ∧ (t.call q).2.1.txDump = t.txDump := by
  by_cases idle : t.writeId = 0
  · rw [call_idle q idle, call_idle q (t := writer.setDump none t) idle]
    refine ⟨?_, rfl⟩
    simp only [Endpoint.undumped, List.map_append, undumped_armed]
    rfl
  · rw [call_busy q idle, call_busy q (t := writer.setDump none t) idle]
    exact ⟨rfl, rfl⟩

end StreamWriter

theorem writer_unseen : Unseen writer where
  slot _ _ := rfl
  setDump _ _ _ := rfl
  dump _ _ := rfl
  taken _ _ _ := rfl
  counted _ _ _ _ _ := rfl
  call := StreamWriter.writer_call_blind
  resume c err n m := by
    obtain ⟨kind, id⟩ := c
    cases kind with
    | writeSome => exact StreamWriter.asyncWriteSomeContinue_blind id err n
    | write => exact StreamWriter.asyncWriteContinue_blind id err n
  timeoutReached := StreamWriter.timeoutReached_blind

/-! ### Results -/

/-- An object whose dump file is closed. -/
def dumping (s : σ) (m : Memory UInt8) : Dumping κ σ := { world := { self := s, memory := m } }

theorem undumped_dumping {κ σ : Type} {E : Endpoint κ σ} {s : σ} (m : Memory UInt8) (same : E.setDump none s = s) :
    (dumping s m).world.undumped E = { self := s, memory := m } := by
  simp only [World.undumped, dumping, same, List.map_nil]

/-- Dumping cannot be told from outside. The runs with calls of `enable_dump` and `disable_dump` put
in anywhere, in any mode and whether or not the file can be opened, are the runs without them, with
the same callbacks, buffers, requests and bytes moved, and the object is the same but for the file. -/
theorem dumps_unseen :
    (∀ (r : StreamReader) (m : Memory UInt8) es w, r.rxDump = none →
      (Steps (World.step reader) Always { self := r, memory := m } (es.filterMap DumpingEvent.own) w ↔
        ∃ x, Steps (Dumping.step reader) Always (dumping r m) es x ∧ x.world.undumped reader = w)) ∧
    (∀ (t : StreamWriter) (m : Memory UInt8) es w, t.txDump = none →
      (Steps (World.step writer) Always { self := t, memory := m } (es.filterMap DumpingEvent.own) w ↔
        ∃ x, Steps (Dumping.step writer) Always (dumping t m) es x ∧ x.world.undumped writer = w)) := by
  constructor
  · intro r m es w closed
    have same : reader.setDump none r = r := by
      rw [← closed]
      rfl
    rw [← undumped_dumping m same]
    exact (Dumping.projects reader_unseen).runs_iff
  · intro t m es w closed
    have same : writer.setDump none t = t := by
      rw [← closed]
      rfl
    rw [← undumped_dumping m same]
    exact (Dumping.projects writer_unseen).runs_iff

/-- An operation that is issued with a file open and completes with another one. -/
def switching (call : Event κ) (bytes : List UInt8) : List (DumpingEvent κ) :=
  [.enableDump "a" false true, .run call, .disableDump, .enableDump "b" false false, .enableDump "b" true true,
    .run (.move 0 bytes), .run (.complete 0 .success), .disableDump]

theorem dumps_unseen_switched :
    (∃ es x, Steps (Dumping.step reader) Always (dumping .blank fun _ => 0) es x ∧ x.content reader "b" = [1, 2] ∧
      Steps (World.step reader) Always { self := .blank, memory := fun _ => 0 } (es.filterMap DumpingEvent.own)
        (x.world.undumped reader)) ∧
    (∃ es x, Steps (Dumping.step writer) Always (dumping .blank fun _ => 7) es x ∧ x.content writer "b" = [7, 7] ∧
      Steps (World.step writer) Always { self := .blank, memory := fun _ => 7 } (es.filterMap DumpingEvent.own)
        (x.world.undumped writer)) := by
  obtain ⟨x, rx, seen⟩ : ∃ x, Steps (Dumping.step reader) Always (dumping .blank fun _ => 0)
      (switching (.call { kind := .read, size := 2, data := 0, callback := 1 }) [1, 2]) x ∧
      x.content reader "b" = [1, 2] := exists_of_exec (by decide)
  obtain ⟨y, tx, seen'⟩ : ∃ y, Steps (Dumping.step writer) Always (dumping .blank fun _ => 7)
      (switching (.call { kind := .write, size := 2, data := 0, callback := 1 }) [7, 7]) y ∧
      y.content writer "b" = [7, 7] := exists_of_exec (by decide)
  exact ⟨⟨_, x, rx, seen, (dumps_unseen.1 _ _ _ _ rfl).mpr ⟨x, rx, rfl⟩⟩,
    ⟨_, y, tx, seen', (dumps_unseen.2 _ _ _ _ rfl).mpr ⟨y, tx, rfl⟩⟩⟩

/-- What is in a file stays there, whatever is read or written and whichever files are opened and
closed, unless the file itself is opened again without `appendMode`. -/
theorem dumps_stay :
    (∀ (r : StreamReader) (m : Memory UInt8) filename es fs x y, r.rxDump = none →
      Steps (Dumping.step reader) Always (dumping r m) es x →
      Steps (Dumping.step reader) (fun _ e => e.Keeps filename) x fs y →
      x.content reader filename <+: y.content reader filename) ∧
    (∀ (t : StreamWriter) (m : Memory UInt8) filename es fs x y, t.txDump = none →
      Steps (Dumping.step writer) Always (dumping t m) es x →
      Steps (Dumping.step writer) (fun _ e => e.Keeps filename) x fs y →
      x.content writer filename <+: y.content writer filename) := by
  constructor
  · intro r m filename es fs x y closed before run
    have start : (dumping (κ := ReadKind) r m).Named reader := congrArg Option.isSome closed.symm
    have named := before.invariant start fun _ _ _ named _ taken => Dumping.step_named reader_unseen named taken
    exact Dumping.run_grows reader_unseen named run
  · intro t m filename es fs x y closed before run
    have start : (dumping (κ := WriteKind) t m).Named writer := congrArg Option.isSome closed.symm
    have named := before.invariant start fun _ _ _ named _ taken => Dumping.step_named writer_unseen named taken
    exact Dumping.run_grows writer_unseen named run

/-- An operation is recorded in `a`. -/
def recording (call : Event κ) (bytes : List UInt8) : List (DumpingEvent κ) :=
  [.enableDump "a" false true, .run call, .run (.move 0 bytes), .run (.complete 0 .success)]

/-- Another file is opened, and then `a` again to go on. -/
def reopening (call : Event κ) (bytes : List UInt8) : List (DumpingEvent κ) :=
  [.disableDump, .enableDump "b" false true, .disableDump, .enableDump "a" true true, .run call, .run (.move 0 bytes),
    .run (.complete 0 .success)]

theorem dumps_stay_reopened :
    (∃ es fs x y, Steps (Dumping.step reader) Always (dumping .blank fun _ => 0) es x ∧
      Steps (Dumping.step reader) (fun _ e => e.Keeps "a") x fs y ∧ x.content reader "a" = [1] ∧
      y.content reader "a" = [1, 2] ∧ x.content reader "a" <+: y.content reader "a") ∧
    (∃ es fs x y, Steps (Dumping.step writer) Always (dumping .blank fun _ => 7) es x ∧
      Steps (Dumping.step writer) (fun _ e => e.Keeps "a") x fs y ∧ x.content writer "a" = [7] ∧
      y.content writer "a" = [7, 7] ∧ x.content writer "a" <+: y.content writer "a") := by
  constructor
  · obtain ⟨x, run, seen⟩ : ∃ x, Steps (Dumping.step reader) Always (dumping .blank fun _ => 0)
        (recording (.call { kind := .readSome, size := 1, data := 0, callback := 1 }) [1]) x ∧
        (x.content reader "a", (exec (Dumping.step reader) (fun _ e => e.Keeps "a") x
          (reopening (.call { kind := .readSome, size := 1, data := 0, callback := 2 }) [2])).map
            (·.content reader "a")) = ([1], some [1, 2]) := exists_of_exec (by decide)
    obtain ⟨before, later⟩ := Prod.mk.inj seen
    obtain ⟨y, later, after⟩ := exists_of_exec later
    exact ⟨_, _, x, y, run, later, before, after, dumps_stay.1 _ _ _ _ _ _ _ rfl run later⟩
  · obtain ⟨x, run, seen⟩ : ∃ x, Steps (Dumping.step writer) Always (dumping .blank fun _ => 7)
        (recording (.call { kind := .writeSome, size := 1, data := 0, callback := 1 }) [7]) x ∧
        (x.content writer "a", (exec (Dumping.step writer) (fun _ e => e.Keeps "a") x
          (reopening (.call { kind := .writeSome, size := 1, data := 0, callback := 2 }) [7])).map
            (·.content writer "a")) = ([7], some [7, 7]) := exists_of_exec (by decide)
    obtain ⟨before, later⟩ := Prod.mk.inj seen
    obtain ⟨y, later, after⟩ := exists_of_exec later
    exact ⟨_, _, x, y, run, later, before, after, dumps_stay.2 _ _ _ _ _ _ _ rfl run later⟩

end RtacAsio
