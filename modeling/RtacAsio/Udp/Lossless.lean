import Mathlib.Data.List.ReduceOption
import RtacAsio.Udp.Window

/-! `UDPClientStream` as a byte stream: one read at a time, whatever the datagrams. -/

namespace RtacAsio
open Lib

namespace Datagrams
variable {α : Type} {w w' : Datagrams α} {e : DatagramEvent α} {ds : List (List α)}

/-- The datagrams that were received. -/
def datagrams (es : List (DatagramEvent α)) : List (List α) :=
  es.filterMap fun
    | .receive _ err bytes => if err.failed then none else some bytes
    | _ => none

/-- The reads that were made. -/
def reads (es : List (DatagramEvent α)) : List DatagramRead :=
  es.filterMap fun
    | .read read => some read
    | _ => none

/-- What the stream does for a read. It receives until a datagram comes that is not empty, or an
error. Then it copies bytes once, to the destination of the read and no more than were asked for, and
calls the callback of the read once, with their number. -/
inductive Reply (read : DatagramRead) : List (DatagramEffect α) → Option (List α) → Prop where
  | served (receives start : Nat) (bytes : List α) : bytes.length ≤ read.bufferSize → (0 < read.bufferSize → bytes ≠ []) →
      Reply read
        (List.replicate receives (.receive read) ++
          [.copy read.buffer start bytes.length bytes, .call read.callback .success bytes.length])
        (some bytes)
  | failed (receives : Nat) (err : ErrorCode) : err.failed = true →
      Reply read (List.replicate receives (.receive read) ++ [.call read.callback err 0]) none

/-- The replies to some reads, one after the other, with the bytes of each. -/
inductive Replies : List DatagramRead → List (DatagramEffect α) → List (Option (List α)) → Prop where
  | nothing : Replies [] [] []
  | next {rs : List DatagramRead} {log more : List (DatagramEffect α)} {outs : List (Option (List α))} {read : DatagramRead}
      {out : Option (List α)} : Replies rs log outs → Reply read more out → Replies (rs ++ [read]) (log ++ more) (outs ++ [out])

/-- All that the stream has done is to reply to the reads `rs`. The last one may still wait. -/
inductive Answered (rs : List DatagramRead) (outs : List (Option (List α))) (w : Datagrams α) : Prop where
  | all : w.pending = [] → Replies rs w.log outs → Answered rs outs w
  | last (earlier : List DatagramRead) (read : DatagramRead) (log : List (DatagramEffect α)) (receives : Nat) :
      rs = earlier ++ [read] → w.pending = [read] → w.log = log ++ List.replicate receives (.receive read) →
      Replies earlier log outs → Answered rs outs w

/-- Each read is made after the callback of the one before it. A receive that fails brings nothing. -/
def Sequential (w : Datagrams α) : DatagramEvent α → Prop
  | .read _ => w.pending = []
  | .receive _ err bytes => err.failed = true → bytes = []
  | .flush => False

instance [DecidableEq α] (w : Datagrams α) (e : DatagramEvent α) : Decidable (Sequential w e) :=
  match e with
  | .read _ => decidable_of_iff (w.pending.isEmpty = true) List.isEmpty_iff
  | .receive _ _ _ => inferInstanceAs (Decidable (_ → _))
  | .flush => instDecidableFalse

/-- Every read is served from one datagram: the reads that a datagram served make it up, and what
is left of the last one is in the window. -/
def Served (ds reads : List (List α)) (window : List α) : Prop :=
  ∃ groups : List (List (List α)), groups.flatten = reads ∧
    (window = [] ∧ groups.map List.flatten = ds ∨
      ∃ earlier last, groups = earlier ++ [last] ∧ ds = earlier.map List.flatten ++ [last.flatten ++ window])

/-- The reads `rs` have got the bytes `outs` of the datagrams `ds`. -/
structure Lossless (rs : List DatagramRead) (ds : List (List α)) (outs : List (Option (List α))) (w : Datagrams α) : Prop where
  answered : Answered rs outs w
  conserved : outs.reduceOption.flatten ++ w.window = ds.flatten
  served : Served ds outs.reduceOption w.window
  room : w.self.available = 0 → w.self.bufferBegin = 0 ∧ w.self.bufferEnd = 0

/-! ### Groups of reads -/

section Groups
variable {reads : List (List α)} {window : List α}

theorem Served.conserved (h : Served ds reads window) : reads.flatten ++ window = ds.flatten := by
  obtain ⟨groups, rfl, ⟨rfl, rfl⟩ | ⟨earlier, last, rfl, rfl⟩⟩ := h
  · simp [List.flatten_flatten]
  · simp [List.flatten_flatten]

theorem Served.datagram (h : Served ds reads []) (bytes : List α) : Served (ds ++ [bytes]) reads bytes := by
  obtain ⟨groups, rfl, eq⟩ := h
  have all : groups.map List.flatten = ds := by
    rcases eq with ⟨_, rfl⟩ | ⟨earlier, last, rfl, rfl⟩
    · rfl
    · simp
  exact ⟨groups ++ [[]], by simp, Or.inr ⟨groups, [], rfl, by simp [all]⟩⟩

theorem Served.read {bytes rest : List α} (h : Served ds reads (bytes ++ rest)) (some : bytes ++ rest ≠ []) :
    Served ds (reads ++ [bytes]) rest := by
  obtain ⟨groups, rfl, ⟨none, _⟩ | ⟨earlier, last, rfl, rfl⟩⟩ := h
  · exact (some none).elim
  · exact ⟨earlier ++ [last ++ [bytes]], by simp, Or.inr ⟨earlier, last ++ [bytes], rfl, by simp⟩⟩

end Groups

/-! ### The invariant -/

structure Streamed (rs : List DatagramRead) (ds : List (List α)) (outs : List (Option (List α))) (w : Datagrams α) : Prop where
  windowed : Windowed w
  waits : w.pending ≠ [] → w.self.available = 0
  answered : Answered rs outs w
  served : Served ds outs.reduceOption w.window

theorem window_length (h : Windowed w) : w.window.length = w.self.available := by
  have order := h.order
  have bound := h.bound
  apply front_length
  unfold UDPClientStream.available
  omega

theorem at_start (h : Windowed w) (empty : w.self.available = 0) : w.self.bufferBegin = 0 ∧ w.self.bufferEnd = 0 := by
  have order := h.order
  unfold UDPClientStream.available at empty
  have same : w.self.bufferBegin = w.self.bufferEnd := by omega
  have zero := h.empty same
  omega

/-- A read is called for, after `receives` receives that have brought nothing. -/
theorem read_streamed {rs : List DatagramRead} {outs : List (Option (List α))} {log : List (DatagramEffect α)}
    {receives : Nat} {read : DatagramRead} (windowed : Windowed w) (none : w.pending = [])
    (served : Served ds outs.reduceOption w.window) (replies : Replies rs log outs)
    (told : w.log = log ++ List.replicate receives (.receive read)) :
    ∃ outs', Streamed (rs ++ [read]) ds outs' (w.after (w.self.asyncReadSome read)) := by
  have after := read_windowed windowed read
  rcases read_cases windowed read with ⟨empty, eq⟩ | ⟨n, self', some, amount, consumed, eq⟩
  · rw [eq] at after ⊢
    refine ⟨outs, after, fun _ => empty, .last rs read log (receives + 1) rfl ?_ ?_ replies, served⟩
    · simp [Datagrams.after, perform, none]
    · simp [Datagrams.after, perform, told, List.replicate_succ']
  · rw [eq] at after ⊢
    have length : (w.self.front n).length = n := by
      apply front_length
      exact Nat.le_trans consumed.within windowed.bound
    refine ⟨outs ++ [Option.some (w.self.front n)], after, fun waits => (waits none).elim, .all none ?_, ?_⟩
    · have reply : Reply read _ (Option.some (w.self.front n)) := .served receives w.self.bufferBegin (w.self.front n) (by omega)
        fun asked => List.ne_nil_of_length_pos (by omega)
      have replied := replies.next reply
      rw [← List.append_assoc, ← told, length] at replied
      simpa [Datagrams.after, perform] using replied
    · rw [consumed.rest] at served
      have content : w.self.front n ++ self'.front self'.available ≠ [] := by
        rw [← consumed.rest, ← List.length_pos_iff, window_length windowed]
        exact some
      simpa [Datagrams.after, perform, Datagrams.window, List.reduceOption_append] using served.read content

theorem receive_streamed {earlier : List DatagramRead} {outs : List (Option (List α))} {log : List (DatagramEffect α)}
    {receives : Nat} {read : DatagramRead} {err : ErrorCode} {bytes : List α} (windowed : Windowed w)
    (served : Served ds outs.reduceOption w.window) (replies : Replies earlier log outs)
    (told : w.log = log ++ List.replicate receives (.receive read)) (empty : w.self.available = 0)
    (quiet : err.failed = true → bytes = []) (fits : bytes.length ≤ w.self.buffer.length) :
    ∃ outs', Streamed (earlier ++ [read]) (ds ++ datagrams [.receive 0 err bytes]) outs'
      (({ w with pending := [] }.arrive bytes).after
        (({ w with pending := [] }.arrive bytes).self.receiveContinue read err bytes.length)) := by
  have arrived := arrive_windowed (w := { w with pending := [] })
    ⟨windowed.order, windowed.bound, windowed.empty, windowed.content, windowed.copies⟩ fits (Or.inl empty)
  have none : w.window = [] := List.eq_nil_of_length_eq_zero ((window_length windowed).trans empty)
  have zero : w.self.bufferBegin = 0 ∧ w.self.bufferEnd = 0 := at_start windowed empty
  rw [none] at served
  unfold UDPClientStream.receiveContinue
  by_cases failed : err.failed = true
  · obtain rfl := quiet failed
    simp only [failed, ↓reduceIte]
    refine ⟨outs ++ [Option.none], ⟨arrived.order, arrived.bound, arrived.empty, arrived.content, ?_⟩,
      fun waits => (waits rfl).elim, .all rfl ?_, ?_⟩
    · simp only [after, perform, List.foldl_cons, List.foldl_nil, List.forall_mem_append, List.forall_mem_singleton]
      exact ⟨arrived.copies, trivial⟩
    · have reply : Reply read (α := α) _ Option.none := .failed receives err failed
      have replied := replies.next reply
      rw [← List.append_assoc, ← told] at replied
      exact replied
    · simpa [datagrams, failed, after, perform, arrive, window, UDPClientStream.front, UDPClientStream.available, zero,
        List.reduceOption_append] using served
  · have content : window { ({ w with pending := [] } : Datagrams α).arrive bytes with
        self := { (({ w with pending := [] } : Datagrams α).arrive bytes).self with
          bufferEnd := w.self.bufferEnd + bytes.length } } = bytes := by
      simp [window, arrive, UDPClientStream.front, UDPClientStream.available, zero]
    have datagram : datagrams [.receive 0 err bytes] = [bytes] := by simp [datagrams, failed]
    simp only [failed, datagram]
    exact read_streamed arrived rfl (by rw [content]; exact served.datagram bytes) replies told

theorem step_streamed {rs : List DatagramRead} {outs : List (Option (List α))} (h : Streamed rs ds outs w)
    (allowed : Sequential w e) (taken : w.step e = some w') :
    ∃ outs', Streamed (rs ++ reads [e]) (ds ++ datagrams [e]) outs' w' := by
  obtain ⟨windowed, waits, answered, served⟩ := h
  cases e with
  | read read =>
    obtain rfl := Option.some.inj taken
    cases answered with
    | all none replies =>
      have told : w.log = w.log ++ List.replicate 0 (.receive read) := (List.append_nil _).symm
      have streamed := read_streamed windowed none served replies told
      simpa [reads, datagrams] using streamed
    | last _ _ _ _ _ pending =>
      have none : w.pending = [] := allowed
      simp [none] at pending
  | flush => exact allowed.elim
  | receive i err bytes =>
    simp only [step] at taken
    split at taken
    · cases taken
    · rename_i read found
      cases answered with
      | all none => simp [none] at found
      | last earlier read' log receives eq pending told replies =>
        rw [pending] at found
        obtain ⟨rfl, rfl⟩ : i = 0 ∧ read = read' := by
          cases i with
          | zero => exact ⟨rfl, (Option.some.inj found).symm⟩
          | succ i => simp at found
        split at taken
        · rename_i fits
          obtain rfl := Option.some.inj taken
          have streamed := receive_streamed windowed served replies told (waits (by simp [pending])) allowed fits
          simpa only [pending, List.eraseIdx_zero, List.tail_cons, eq, reads, List.filterMap_cons_none,
            List.filterMap_nil, List.append_nil] using streamed
        · cases taken

end Datagrams

open Datagrams

/-- Reads that follow their predecessor's callback are answered one after the other, each into its own
buffer with bytes of one datagram or with the error of its receive. No byte is lost or repeated, and
whenever the buffer is empty all of it is free for the next receive. -/
theorem datagrams_lossless {s : UDPClientStream α} {es : List (DatagramEvent α)} {w : Datagrams α}
    (empty : s.bufferBegin = 0 ∧ s.bufferEnd = 0) (run : Steps Datagrams.step Sequential { self := s } es w) :
    ∃ outs, Lossless (reads es) (datagrams es) outs w := by
  have start : Streamed (reads ([] : List (DatagramEvent α))) (datagrams []) [] { self := s } := by
    have windowed : Windowed { self := s } := by
      refine ⟨?_, ?_, ?_, ?_, ?_⟩ <;> simp [window, UDPClientStream.available, UDPClientStream.front, empty]
    refine ⟨windowed, fun waits => (waits rfl).elim, .all rfl .nothing, ⟨[], rfl, Or.inl ⟨?_, rfl⟩⟩⟩
    simp [window, UDPClientStream.available, UDPClientStream.front, empty]
  obtain ⟨outs, streamed⟩ : ∃ outs, Streamed (reads es) (datagrams es) outs w := by
    refine run.history (P := fun es w => ∃ outs, Streamed (reads es) (datagrams es) outs w) ⟨[], start⟩ ?_
    rintro es t e u ⟨outs, h⟩ allowed taken
    have streamed := step_streamed h allowed taken
    simpa only [reads, datagrams, List.filterMap_append] using streamed
  exact ⟨outs, streamed.answered, streamed.served.conserved, streamed.served, at_start streamed.windowed⟩

/-- Two reads take a datagram apart, a third one meets an error, and a fourth one an empty datagram
and a full one. -/
theorem datagrams_lossless_pieces :
    ∃ es w, Steps Datagrams.step Sequential { self := ⟨[0, 0, 0], 0, 0⟩ } es w ∧
      w.log = [.receive ⟨2, 0, 1⟩, .copy 0 0 2 [1, 2], .call 1 .success 2, .copy 2 2 1 [3], .call 2 .success 1,
        .receive ⟨8, 3, 3⟩, .call 3 ⟨9⟩ 0, .receive ⟨2, 3, 4⟩, .receive ⟨2, 3, 4⟩, .copy 3 0 2 [4, 5],
        .call 4 .success 2] ∧ ∃ outs, Lossless (reads es) (datagrams es) outs w := by
  obtain ⟨w, run, seen⟩ : ∃ w : Datagrams Nat, Steps Datagrams.step Sequential { self := ⟨[0, 0, 0], 0, 0⟩ }
      [.read ⟨2, 0, 1⟩, .receive 0 .success [1, 2, 3], .read ⟨8, 2, 2⟩, .read ⟨8, 3, 3⟩, .receive 0 ⟨9⟩ [],
        .read ⟨2, 3, 4⟩, .receive 0 .success [], .receive 0 .success [4, 5, 6]] w ∧
      w.log = _ := exists_of_exec rfl
  exact ⟨_, w, run, seen, datagrams_lossless ⟨rfl, rfl⟩ run⟩

end RtacAsio
