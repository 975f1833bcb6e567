import RtacAsio.Udp.Model

/-! The bytes between `bufferBegin_` and `bufferEnd_`, under any order of reads and receives. -/

namespace RtacAsio
open Lib

namespace Datagrams
variable {α : Type} {w w' : Datagrams α} {e : DatagramEvent α}

/-- The bytes in `[bufferBegin_, bufferEnd_)`. -/
def window (w : Datagrams α) : List α := w.self.front w.self.available

/-- A copy reads inside the `size` bytes of `buffer_`, and as many as it says. -/
def Inside (size : Nat) : DatagramEffect α → Prop
  | .copy _ start count bytes => start + count ≤ size ∧ bytes.length = count
  | _ => True

/-- The buffer's bounds hold, and the window holds the received bytes that were neither delivered
nor flushed: every received byte is at one place, in order. -/
structure Safe (w : Datagrams α) : Prop where
  order : w.self.bufferBegin ≤ w.self.bufferEnd
  bound : w.self.bufferEnd ≤ w.self.buffer.length
  available : w.self.available ≤ w.self.buffer.length
  content : w.gone.map Prod.snd ++ w.window = w.received
  copies : ∀ e ∈ w.log, Inside w.self.buffer.length e

/-- A receive completes on an empty buffer or brings nothing. -/
def OnEmpty (w : Datagrams α) : DatagramEvent α → Prop
  | .receive _ _ bytes => w.self.available = 0 ∨ bytes = []
  | _ => True

instance [DecidableEq α] (w : Datagrams α) (e : DatagramEvent α) : Decidable (OnEmpty w e) := by
  cases e <;> simp only [OnEmpty] <;> infer_instance

/-- The invariant: an empty window is at the start of the buffer. -/
structure Windowed (w : Datagrams α) : Prop where
  order : w.self.bufferBegin ≤ w.self.bufferEnd
  bound : w.self.bufferEnd ≤ w.self.buffer.length
  empty : w.self.bufferBegin = w.self.bufferEnd → w.self.bufferEnd = 0
  content : w.gone.map Prod.snd ++ w.window = w.received
  copies : ∀ e ∈ w.log, Inside w.self.buffer.length e

theorem front_length {s : UDPClientStream α} {count : Nat} (bound : s.bufferBegin + count ≤ s.buffer.length) :
    (s.front count).length = count := by
  simp only [UDPClientStream.front, List.length_take, List.length_drop]
  omega

theorem front_add (s : UDPClientStream α) (n k : Nat) :
    s.front (n + k) = s.front n ++ ({ s with bufferBegin := s.bufferBegin + n }).front k := by
  simp only [UDPClientStream.front, List.take_add, List.drop_drop]

/-- `n` bytes are taken off the front of the window, and `self'` is left. -/
structure Consumed (w : Datagrams α) (n : Nat) (self' : UDPClientStream α) : Prop where
  within : w.self.bufferBegin + n ≤ w.self.bufferEnd
  buffer : self'.buffer = w.self.buffer
  order : self'.bufferBegin ≤ self'.bufferEnd
  bound : self'.bufferEnd ≤ w.self.bufferEnd
  empty : self'.bufferBegin = self'.bufferEnd → self'.bufferEnd = 0
  rest : w.window = w.self.front n ++ self'.front self'.available

/-- A read starts a receive, or takes the front of the window. -/
theorem read_cases (h : Windowed w) (read : DatagramRead) :
    (w.self.available = 0 ∧ w.self.asyncReadSome read = (w.self, [.receive read])) ∨
    ∃ n self', 0 < w.self.available ∧ n = min read.bufferSize w.self.available ∧ Consumed w n self' ∧
      w.self.asyncReadSome read =
        (self', [.copy read.buffer w.self.bufferBegin n (w.self.front n), .call read.callback .success n]) := by
  have order := h.order
  have amount : w.self.bufferBegin + w.self.available = w.self.bufferEnd := by
    unfold UDPClientStream.available
    omega
  unfold UDPClientStream.asyncReadSome
  by_cases some : w.self.available > 0
  · right
    by_cases all : read.bufferSize ≥ w.self.available
    · simp only [some, all, ↓reduceIte]
      refine ⟨_, { w.self with bufferBegin := 0, bufferEnd := 0 }, trivial, (Nat.min_eq_right all).symm, ?_, rfl⟩
      refine ⟨by omega, rfl, Nat.le_refl _, Nat.zero_le _, fun _ => rfl, ?_⟩
      simp [window, UDPClientStream.available, UDPClientStream.front]
    · simp only [some, all, ↓reduceIte]
      refine ⟨_, { w.self with bufferBegin := w.self.bufferBegin + read.bufferSize }, trivial,
        (Nat.min_eq_left (Nat.le_of_not_ge all)).symm, ?_, rfl⟩
      refine ⟨by omega, rfl, ?_, Nat.le_refl _, ?_, ?_⟩
      · simp only
        omega
      · simp only
        omega
      · obtain ⟨k, rest⟩ : ∃ k, w.self.available = read.bufferSize + k := ⟨w.self.available - read.bufferSize, by omega⟩
        have left : w.self.bufferEnd - (w.self.bufferBegin + read.bufferSize) = k := by omega
        rw [window, rest, front_add]
        simp only [UDPClientStream.available, left]
  · left
    simp only [some, ↓reduceIte]
    exact ⟨by omega, trivial⟩

theorem Consumed.windowed {n : Nat} {self' : UDPClientStream α} (consumed : Consumed w n self') (h : Windowed w)
    (read : DatagramRead) :
    Windowed (w.after (self', [.copy read.buffer w.self.bufferBegin n (w.self.front n), .call read.callback .success n])) := by
  have content := h.content
  have size : self'.buffer.length = w.self.buffer.length := by rw [consumed.buffer]
  have within := consumed.within
  have bound := h.bound
  rw [consumed.rest] at content
  refine ⟨consumed.order, Nat.le_trans consumed.bound (Nat.le_trans bound (Nat.le_of_eq size.symm)), consumed.empty, ?_, ?_⟩
  · simpa [after, perform, window, Function.comp_def] using content
  · intro e member
    simp only [after, perform, List.foldl_cons, List.foldl_nil, List.append_assoc, List.cons_append, List.nil_append,
      List.mem_append, List.mem_cons, List.not_mem_nil, or_false] at member ⊢
    rw [size]
    rcases member with old | rfl | rfl
    · exact h.copies e old
    · exact ⟨by omega, front_length (by omega)⟩
    · trivial

theorem read_windowed (h : Windowed w) (read : DatagramRead) : Windowed (w.after (w.self.asyncReadSome read)) := by
  rcases read_cases h read with ⟨_, eq⟩ | ⟨n, self', _, _, consumed, eq⟩
  · rw [eq]
    refine ⟨h.order, h.bound, h.empty, h.content, ?_⟩
    simp only [after, perform, List.foldl_cons, List.foldl_nil, List.forall_mem_append, List.forall_mem_singleton]
    exact ⟨h.copies, trivial⟩
  · rw [eq]
    exact consumed.windowed h read

theorem flush_windowed (h : Windowed w) :
    Windowed { w with self := w.self.flush,
                      gone := w.gone ++ (w.self.front w.self.available).map (false, ·) } := by
  refine ⟨Nat.le_refl _, Nat.zero_le _, fun _ => rfl, ?_, h.copies⟩
  have content := h.content
  simp only [window] at content
  simpa [window, UDPClientStream.flush, UDPClientStream.available, UDPClientStream.front, Function.comp_def]
    using content

theorem arrive_windowed (h : Windowed w) {bytes : List α} (fits : bytes.length ≤ w.self.buffer.length)
    (onEmpty : w.self.available = 0 ∨ bytes = []) :
    Windowed { w.arrive bytes with
      self := { (w.arrive bytes).self with bufferEnd := w.self.bufferEnd + bytes.length } } := by
  have size : (bytes ++ w.self.buffer.drop bytes.length).length = w.self.buffer.length := by
    simp only [List.length_append, List.length_drop]
    omega
  have copies : ∀ e ∈ w.log, Inside (bytes ++ w.self.buffer.drop bytes.length).length e := by
    rw [size]
    exact h.copies
  have content := h.content
  have order := h.order
  simp only [window, UDPClientStream.available, UDPClientStream.front] at content
  rcases onEmpty with none | rfl
  · unfold UDPClientStream.available at none
    have same : w.self.bufferBegin = w.self.bufferEnd := by omega
    have zero : w.self.bufferEnd = 0 := h.empty same
    refine ⟨?_, ?_, ?_, ?_, copies⟩
    · simp only [arrive]
      omega
    · simp only [arrive, size]
      omega
    · simp only [arrive]
      omega
    · rw [same, zero] at content
      simp only [Nat.sub_self, List.take_zero, List.append_nil] at content
      simp [arrive, window, UDPClientStream.available, UDPClientStream.front, same, zero, content]
  · refine ⟨order, h.bound, h.empty, ?_, copies⟩
    simpa [arrive, window, UDPClientStream.available, UDPClientStream.front] using content

theorem step_windowed (h : Windowed w) (allowed : OnEmpty w e) (taken : w.step e = some w') : Windowed w' := by
  cases e with
  | read read =>
    obtain rfl := Option.some.inj taken
    exact read_windowed h read
  | flush =>
    obtain rfl := Option.some.inj taken
    exact flush_windowed h
  | receive i err bytes =>
    simp only [step] at taken
    split at taken
    · cases taken
    · rename_i read found
      split at taken
      · rename_i fits
        obtain rfl := Option.some.inj taken
        have arrived := arrive_windowed (w := { w with pending := w.pending.eraseIdx i })
          ⟨h.order, h.bound, h.empty, h.content, h.copies⟩ fits allowed
        unfold UDPClientStream.receiveContinue
        split
        · refine ⟨arrived.order, arrived.bound, arrived.empty, arrived.content, ?_⟩
          simp only [after, perform, List.foldl_cons, List.foldl_nil, List.forall_mem_append, List.forall_mem_singleton]
          exact ⟨arrived.copies, trivial⟩
        · exact read_windowed arrived read
      · cases taken

end Datagrams

open Datagrams

/-- The buffer stays within its bounds, and every received byte is delivered at most once, as long
as each receive that brings bytes completes on an empty buffer. -/
theorem datagrams_safe {s : UDPClientStream α} {es : List (DatagramEvent α)} {w : Datagrams α}
    (empty : s.bufferBegin = 0 ∧ s.bufferEnd = 0) (run : Steps Datagrams.step OnEmpty { self := s } es w) : Safe w := by
  have start : Windowed { self := s } := by
    refine ⟨?_, ?_, ?_, ?_, ?_⟩ <;> simp [window, UDPClientStream.available, UDPClientStream.front, empty]
  obtain ⟨order, bound, _, content, copies⟩ := run.invariant start fun _ _ _ h allowed taken => step_windowed h allowed taken
  refine ⟨order, bound, ?_, content, copies⟩
  unfold UDPClientStream.available
  omega

/-- Two receives outstanding, the second one completing when the first has been consumed. -/
theorem datagrams_safe_consumed :
    ∃ es w, Steps Datagrams.step OnEmpty { self := ⟨[0, 0, 0, 0], 0, 0⟩ } es w ∧
      w.gone = [(true, 1), (true, 2), (true, 3)] ∧ Safe w := by
  obtain ⟨w, run, gone⟩ : ∃ w : Datagrams Nat, Steps Datagrams.step OnEmpty { self := ⟨[0, 0, 0, 0], 0, 0⟩ }
      [.read ⟨4, 0, 1⟩, .read ⟨4, 8, 2⟩, .receive 0 .success [1, 2], .receive 0 .success [3]] w ∧
      w.gone = [(true, 1), (true, 2), (true, 3)] := exists_of_exec (by decide)
  exact ⟨_, w, run, gone, datagrams_safe ⟨rfl, rfl⟩ run⟩

/-- With two receives outstanding and one byte consumed of the first, the end iterator passes the
end of a four byte buffer. -/
theorem datagrams_past_end :
    ∃ es w, Steps Datagrams.step Always { self := ⟨[0, 0, 0, 0], 0, 0⟩ } es w ∧
      w.self.bufferEnd = 6 ∧ w.self.buffer.length = 4 ∧ ¬ Safe (α := Nat) w := by
  obtain ⟨w, run, seen⟩ : ∃ w : Datagrams Nat, Steps Datagrams.step Always { self := ⟨[0, 0, 0, 0], 0, 0⟩ }
      [.read ⟨1, 0, 1⟩, .read ⟨1, 8, 2⟩, .receive 0 .success [1, 2, 3, 4], .receive 0 .success [5, 6]] w ∧
      (w.self.bufferEnd, w.self.buffer.length) = (6, 4) := exists_of_exec (by decide)
  simp only [Prod.mk.injEq] at seen
  refine ⟨_, w, run, seen.1, seen.2, fun safe => ?_⟩
  have bound := safe.bound
  omega

end RtacAsio
