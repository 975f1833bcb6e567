import Mathlib.Data.List.ReduceOption
import RtacAsio.Reader.Line
import RtacAsio.Reader.Turns

/-!
What the caller of a reader can tell of it from some point on: an abstract reader that knows
neither ids nor late handlers, and only the cells of memory that were written since.
-/

namespace RtacAsio
open Lib

/-- An operation by the number of its request, with the count of bytes once they were moved. -/
structure SessionOp where
  kind : ReadKind
  data : Nat
  moved : Option Nat

/-- `current` is the request in progress and what was processed of it; its number is `count`. -/
structure Session where
  input : List UInt8 := []
  produced : List UInt8 := []
  buffer : List UInt8 := []
  cells : Memory (Option UInt8) := fun _ => none
  count : Nat := 0
  current : Option (Request ReadKind × Nat) := none
  ops : Nat → Option SessionOp := fun _ => none
  queue : Nat → Option (ReadKind × Nat) := fun _ => none
  posts : List Post := []

namespace Session

def read (p n : Nat) (s : Session) : List UInt8 := (s.cells.read p n).reduceOption

def store (p : Nat) (bs : List UInt8) (s : Session) : Session := { s with cells := s.cells.write p (bs.map some) }

/-- `do_read_some`: what is stored, what stays in the buffer and how the turn ends. -/
def readTurn (count : Nat) : List UInt8 → List UInt8 × List UInt8 × Next
  | [] => ([], [], .transfer count none)
  | c :: buffer => ((c :: buffer).take count, buffer.drop count, .postCont (min count (buffer.length + 1)))

/-- What a request takes from the buffer at once. -/
def taken (q : Request ReadKind) (buffer : List UInt8) : Nat :=
  match q.kind with
  | .readUntil delimiter => StreamReader.leftoverTaken delimiter q.size buffer
  | _ => 0

def callTurn (q : Request ReadKind) (buffer : List UInt8) : List UInt8 × List UInt8 × Next :=
  match q.kind with
  | .readUntil delimiter =>
    if StreamReader.leftoverStops delimiter q.size buffer then
      (buffer.take (taken q buffer), buffer.drop (taken q buffer), .done .success)
    else (buffer, [], .transfer q.size none)
  | _ => readTurn q.size buffer

def search (kind : ReadKind) (bytes : List UInt8) : Option (Nat × List UInt8) :=
  match kind with
  | .readUntil delimiter => StreamReader.searchLoop delimiter bytes 0
  | _ => none

/-- A continuation of a request of `size` bytes that is given `n` bytes, `bytes`. -/
def resumeTurn (kind : ReadKind) (err : ErrorCode) (n : Nat) (bytes : List UInt8) (size processed : Nat)
    (buffer : List UInt8) : Nat × List UInt8 × List UInt8 × Next :=
  match search kind bytes with
  | some (i, rest) => (processed + i, [], buffer ++ rest, .done err)
  | none =>
    if kind = .readSome then (n, [], buffer, .done err)
    else if err.failed ∨ size ≤ processed + n then (processed + n, [], buffer, .done err)
    else (processed + n, readTurn (size - (processed + n)) buffer)

def conclude (q : Request ReadKind) (processed : Nat) (kind : ReadKind) (next : Next) (s : Session) : Session :=
  match next with
  | .transfer _ _ =>
    { s with current := some (q, processed),
             ops := Function.update s.ops s.count (some ⟨kind, q.data + processed, none⟩) }
  | .postCont count =>
    { s with current := some (q, processed), queue := Function.update s.queue s.count (some (kind, count)) }
  | .done err =>
    { s with current := none, posts := s.posts ++ [⟨q.callback, err, processed, s.read q.data processed, false⟩] }

def call (q : Request ReadKind) (s : Session) : Session :=
  match s.current with
  | some _ => s
  | none =>
    let (bs, buffer, next) := callTurn q s.buffer
    (store q.data bs { s with count := s.count + 1, buffer }).conclude q (taken q s.buffer) q.kind next

def resume (n : Nat) (kind : ReadKind) (err : ErrorCode) (readCount : Nat) (s : Session) : Session :=
  match s.current with
  | none => s
  | some (q, processed) =>
    if n = s.count then
      let (processed, bs, buffer, next) :=
        resumeTurn kind err readCount (s.read (q.data + processed) readCount) q.size processed s.buffer
      (store (q.data + processed) bs { s with buffer }).conclude q processed kind next
    else s

def timeoutReached (n : Nat) (s : Session) : Session :=
  match s.current with
  | none => s
  | some (q, processed) =>
    if n = s.count then
      { s with current := none, posts := s.posts ++ [⟨q.callback, .success, processed, s.read q.data processed, true⟩] }
    else s

def move (n count : Nat) (s : Session) : Session :=
  match s.ops n with
  | none => s
  | some op =>
    store op.data (s.input.take count)
      { s with input := s.input.drop count, ops := Function.update s.ops n (some { op with moved := some count }) }

def step (s : Session) : Seen → Session
  | .produce bytes => { s with input := s.input ++ bytes, produced := s.produced ++ bytes }
  | .call q => s.call q
  | .move n count => s.move n count
  | .complete n err =>
    match s.ops n with
    | some ⟨kind, _, some count⟩ => s.resume n kind err count
    | _ => s
  | .deliver n =>
    match s.queue n with
    | some (kind, count) => s.resume n kind .success count
    | none => s
  | .timer n => s.timeoutReached n
  | .cut .flush => { s with buffer := [], input := [] }
  | .cut .reset => { s with input := [] }

/-! ### Where the bytes come from -/

/-- Every byte was produced since. -/
structure Clean (s : Session) : Prop where
  input : s.input ⊆ s.produced
  buffer : s.buffer ⊆ s.produced
  cells : ∀ a b, s.cells a = some b → b ∈ s.produced
  posts : ∀ p ∈ s.posts, p.bytes ⊆ s.produced

variable {s : Session}

theorem Clean.read (clean : s.Clean) (p n : Nat) : s.read p n ⊆ s.produced := by
  intro b member
  obtain ⟨cell, found, some⟩ := List.mem_filterMap.mp member
  obtain ⟨i, _, rfl⟩ := List.mem_map.mp found
  exact clean.cells _ b some

theorem Clean.store (clean : s.Clean) (p : Nat) {bs : List UInt8} (stored : bs ⊆ s.produced) :
    (s.store p bs).Clean := by
  refine ⟨clean.input, clean.buffer, ?_, clean.posts⟩
  intro a b some
  rcases s.cells.write_cases p a (bs.map Option.some) with new | old
  · have member : Option.some b ∈ bs.map Option.some := by rw [← some]; exact new
    exact stored (by simpa using member)
  · exact clean.cells a b (old.symm.trans some)

theorem Clean.conclude (clean : s.Clean) (q : Request ReadKind) (processed : Nat) (kind : ReadKind) (next : Next) :
    (s.conclude q processed kind next).Clean := by
  obtain ⟨input, buffer, cells, posts⟩ := clean
  cases next with
  | done err =>
    refine ⟨input, buffer, cells, ?_⟩
    simp only [Session.conclude, List.forall_mem_append, List.forall_mem_singleton]
    exact ⟨posts, Clean.read ⟨input, buffer, cells, posts⟩ ..⟩
  | _ => exact ⟨input, buffer, cells, posts⟩

theorem readTurn_subset (count : Nat) (buffer : List UInt8) :
    (readTurn count buffer).1 ⊆ buffer ∧ (readTurn count buffer).2.1 ⊆ buffer := by
  cases buffer with
  | nil => exact ⟨List.Subset.refl _, List.Subset.refl _⟩
  | cons c buffer =>
    exact ⟨List.take_subset .., List.Subset.trans (List.drop_subset ..) (List.subset_cons_self ..)⟩

theorem callTurn_subset (q : Request ReadKind) (buffer : List UInt8) :
    (callTurn q buffer).1 ⊆ buffer ∧ (callTurn q buffer).2.1 ⊆ buffer := by
  unfold callTurn
  split
  · split
    · exact ⟨List.take_subset .., List.drop_subset ..⟩
    · exact ⟨List.Subset.refl _, List.nil_subset _⟩
  · exact readTurn_subset ..

theorem resumeTurn_subset (kind : ReadKind) (err : ErrorCode) (n : Nat) (bytes : List UInt8) (size processed : Nat)
    (buffer : List UInt8) :
    (resumeTurn kind err n bytes size processed buffer).2.1 ⊆ buffer ∧
      (resumeTurn kind err n bytes size processed buffer).2.2.1 ⊆ buffer ++ bytes := by
  have same : buffer ⊆ buffer ++ bytes := List.subset_append_left ..
  unfold resumeTurn
  split
  · rename_i i rest found
    refine ⟨List.nil_subset _, List.append_subset.mpr ⟨same, ?_⟩⟩
    unfold search at found
    split at found
    · obtain ⟨j, _, _, rfl⟩ := StreamReader.searchLoop_some found
      exact List.Subset.trans (List.drop_subset ..) (List.subset_append_right ..)
    · cases found
  · split
    · exact ⟨List.nil_subset _, same⟩
    · split
      · exact ⟨List.nil_subset _, same⟩
      · obtain ⟨stored, left⟩ := readTurn_subset (size - (processed + n)) buffer
        exact ⟨stored, List.Subset.trans left same⟩

theorem Clean.call (clean : s.Clean) (q : Request ReadKind) : (s.call q).Clean := by
  obtain ⟨stored, left⟩ := callTurn_subset q s.buffer
  unfold Session.call
  split
  · exact clean
  · have kept : Clean { s with count := s.count + 1, buffer := (callTurn q s.buffer).2.1 } :=
      ⟨clean.input, List.Subset.trans left clean.buffer, clean.cells, clean.posts⟩
    exact (kept.store q.data (List.Subset.trans stored clean.buffer)).conclude ..

theorem Clean.resume (clean : s.Clean) (n : Nat) (kind : ReadKind) (err : ErrorCode) (readCount : Nat) :
    (s.resume n kind err readCount).Clean := by
  unfold Session.resume
  split
  · exact clean
  · rename_i q processed _
    split
    · obtain ⟨stored, left⟩ := resumeTurn_subset kind err readCount (s.read (q.data + processed) readCount) q.size
        processed s.buffer
      have all : s.buffer ++ s.read (q.data + processed) readCount ⊆ s.produced :=
        List.append_subset.mpr ⟨clean.buffer, clean.read ..⟩
      have kept : Clean { s with buffer :=
          (resumeTurn kind err readCount (s.read (q.data + processed) readCount) q.size processed s.buffer).2.2.1 } :=
        ⟨clean.input, List.Subset.trans left all, clean.cells, clean.posts⟩
      exact (kept.store _ (List.Subset.trans stored clean.buffer)).conclude ..
    · exact clean

theorem Clean.timeoutReached (clean : s.Clean) (n : Nat) : (s.timeoutReached n).Clean := by
  unfold Session.timeoutReached
  split
  · exact clean
  · split
    · refine ⟨clean.input, clean.buffer, clean.cells, ?_⟩
      simp only [List.forall_mem_append, List.forall_mem_singleton]
      exact ⟨clean.posts, clean.read ..⟩
    · exact clean

theorem Clean.move (clean : s.Clean) (n count : Nat) : (s.move n count).Clean := by
  unfold Session.move
  split
  · exact clean
  · have kept : Clean { s with
        input := s.input.drop count
        ops := Function.update s.ops n (some { ‹SessionOp› with moved := some count }) } :=
      ⟨List.Subset.trans (List.drop_subset ..) clean.input, clean.buffer, clean.cells, clean.posts⟩
    exact kept.store _ (List.Subset.trans (List.take_subset ..) clean.input)

theorem step_clean (clean : s.Clean) (l : Seen) : (s.step l).Clean := by
  cases l with
  | produce bytes =>
    have more : s.produced ⊆ s.produced ++ bytes := List.subset_append_left ..
    refine ⟨?_, List.Subset.trans clean.buffer more, fun a b some => more (clean.cells a b some),
      fun p member => List.Subset.trans (clean.posts p member) more⟩
    exact List.append_subset.mpr ⟨List.Subset.trans clean.input more, List.subset_append_right ..⟩
  | call q => exact clean.call q
  | move n count => exact clean.move n count
  | complete n err =>
    simp only [step]
    split
    · exact clean.resume ..
    · exact clean
  | deliver n =>
    simp only [step]
    split
    · exact clean.resume ..
    · exact clean
  | timer n => exact clean.timeoutReached n
  | cut c =>
    cases c with
    | flush => exact ⟨List.nil_subset _, List.nil_subset _, clean.cells, clean.posts⟩
    | reset => exact ⟨List.nil_subset _, clean.buffer, clean.cells, clean.posts⟩

/-! ### Cells -/

/-- All the `n` cells from `p` on were written. -/
def Covered (p n : Nat) (s : Session) : Prop := ∀ a, p ≤ a → a < p + n → s.cells a ≠ none

/-- The memory holds what was written. -/
def Holds (m : Memory UInt8) (s : Session) : Prop := ∀ a b, s.cells a = some b → m a = b

theorem read_eq {m : Memory UInt8} {p n : Nat} (holds : s.Holds m) (covered : s.Covered p n) :
    s.read p n = m.read p n := by
  have cells : s.cells.read p n = (m.read p n).map some := by
    unfold Memory.read
    rw [List.map_map]
    apply List.map_congr_left
    intro i member
    have inside := List.mem_range.mp member
    obtain ⟨b, written⟩ := Option.ne_none_iff_exists'.mp (covered (p + i) (by omega) (by omega))
    rw [written, Function.comp_apply, holds _ _ written]
  simp [read, cells, List.reduceOption]

theorem Holds.store {m : Memory UInt8} (holds : s.Holds m) (p : Nat) (bs : List UInt8) :
    (s.store p bs).Holds (m.write p bs) := by
  intro a b written
  simp only [Session.store, Memory.write] at written ⊢
  split
  · rename_i low
    simp only [low, ↓reduceIte, List.getElem?_map] at written
    cases found : bs[a - p]? with
    | none =>
      rw [found] at written
      exact holds a b written
    | some c =>
      rw [found] at written
      exact Option.some.inj written
  · rename_i before
    simp only [before, ↓reduceIte] at written
    exact holds a b written

theorem Covered.store {p n : Nat} (covered : s.Covered p n) (p' : Nat) (bs : List UInt8) : (s.store p' bs).Covered p n := by
  intro a low high none
  rcases s.cells.write_cases p' a (bs.map some) with new | old
  · have member : Option.none ∈ bs.map some := by rw [← none]; exact new
    simp at member
  · exact covered a low high (old.symm.trans none)

theorem store_covered (p : Nat) {n : Nat} {bs : List UInt8} (enough : n ≤ bs.length) (s : Session) :
    (s.store p bs).Covered p n := by
  intro a low high
  have inside : a - p < bs.length := by omega
  simp [store, Memory.write, low, inside]

theorem Covered.append {p n k : Nat} (first : s.Covered p n) (second : s.Covered (p + n) k) : s.Covered p (n + k) := by
  intro a low high
  by_cases inside : a < p + n
  · exact first a low inside
  · exact second a (by omega) (by omega)

theorem Covered.mono {p n k : Nat} (covered : s.Covered p n) (le : k ≤ n) : s.Covered p k :=
  fun a low high => covered a low (by omega)

end Session

end RtacAsio
