import RtacAsio.Request.Turn
import RtacAsio.Reader.Model

/-!
The loops of `StreamReader` in closed form, and from them the turn of every call and
continuation.
-/

namespace RtacAsio
open Lib

namespace StreamReader

/-- The loop stores the bytes it was asked for, and drops the byte it looked ahead at. -/
theorem copyLoop_eq (count : Nat) (data : Nat) (c : UInt8) (buffer : List UInt8) (k : Nat) (h : k ≤ count) :
    copyLoop count data c buffer k =
      (storesFrom (data + k) ((c :: buffer).take (count - k)), k + min (count - k) (buffer.length + 1),
        (c :: buffer).drop (count - k + 1)) := by
  induction buffer generalizing c k with
  | nil =>
    unfold copyLoop
    by_cases more : k < count
    · obtain ⟨j, eq⟩ : ∃ j, count - k = j + 1 := ⟨count - k - 1, by omega⟩
      simp [more, eq, storesFrom]
    · have : count - k = 0 := by omega
      simp [more, this, storesFrom]
  | cons next rest ih =>
    unfold copyLoop
    by_cases more : k < count
    · obtain ⟨j, eq⟩ : ∃ j, count - k = j + 1 := ⟨count - k - 1, by omega⟩
      have inner : count - (k + 1) = j := by omega
      rw [if_pos more]
      simp only [ih next (k + 1) more, inner, eq]
      simp only [List.take_succ_cons, storesFrom, List.drop_succ_cons, List.length_cons, Nat.add_assoc, Prod.mk.injEq,
        true_and, and_true]
      omega
    · have : count - k = 0 := by omega
      simp [more, this, storesFrom]

theorem doReadSome_buffered {count : Nat} {data : Nat} {k : Cont ReadKind} {r : StreamReader}
    (left : r.readBuffer ≠ []) :
    r.doReadSome count data k =
      ({ r with readBuffer := r.readBuffer.drop (count + 1) },
        storesFrom data (r.readBuffer.take count) ++ [.postCont k .success (min count r.readBuffer.length)]) := by
  unfold doReadSome
  cases buffered : r.readBuffer with
  | nil => exact (left buffered).elim
  | cons c buffer => simp [copyLoop_eq count data c buffer 0 (Nat.zero_le _)]

def dumpPtr (r : StreamReader) (data : Nat) : Option Nat := r.rxDump.map fun _ => data

theorem doReadSome_empty {count : Nat} {data : Nat} {k : Cont ReadKind} {r : StreamReader}
    (empty : r.readBuffer = []) :
    r.doReadSome count data k = (r, [.transfer count data ⟨k, r.dumpPtr data⟩]) := by
  unfold doReadSome dumpPtr
  rw [empty]
  cases r.rxDump <;> rfl

/-- Whether the scan stops inside the leftover bytes. -/
def leftoverStops (delimiter : Int8) (size : Nat) : List UInt8 → Bool
  | [] => false
  | c :: rest => if c.toInt8 = delimiter ∨ size ≤ 1 then true else leftoverStops delimiter (size - 1) rest

theorem scanLoop_eq (delimiter : Int8) (c : UInt8) (buffer : List UInt8) (r : StreamReader) :
    r.scanLoop delimiter c buffer =
      let size := r.requestedSize - r.processed
      let n := leftoverTaken delimiter size (c :: buffer)
      (leftoverStops delimiter size (c :: buffer),
        { r with processed := r.processed + n, readBuffer := (c :: buffer).drop n },
        storesFrom (r.dst + r.processed) ((c :: buffer).take n)) := by
  induction buffer generalizing c r with
  | nil =>
    have reached : r.processed + 1 ≥ r.requestedSize ↔ r.requestedSize - r.processed ≤ 1 := by omega
    by_cases stop : c.toInt8 = delimiter ∨ r.requestedSize - r.processed ≤ 1
    all_goals
      simp only [scanLoop, leftoverTaken, leftoverStops, reached, stop, ↓reduceIte]
      rfl
  | cons next rest ih =>
    have reached : r.processed + 1 ≥ r.requestedSize ↔ r.requestedSize - r.processed ≤ 1 := by omega
    by_cases stop : c.toInt8 = delimiter ∨ r.requestedSize - r.processed ≤ 1
    · simp only [scanLoop, leftoverTaken, leftoverStops, reached, stop, ↓reduceIte]
      rfl
    · have inner : r.requestedSize - (r.processed + 1) = r.requestedSize - r.processed - 1 := by omega
      have more : leftoverTaken delimiter (r.requestedSize - r.processed) (c :: next :: rest) =
          leftoverTaken delimiter (r.requestedSize - r.processed - 1) (next :: rest) + 1 := by
        rw [leftoverTaken, if_neg stop]
      have goesOn : leftoverStops delimiter (r.requestedSize - r.processed) (c :: next :: rest) =
          leftoverStops delimiter (r.requestedSize - r.processed - 1) (next :: rest) := by
        rw [leftoverStops, if_neg stop]
      rw [scanLoop]
      simp only [reached, if_neg stop, ih, inner, more, goesOn]
      simp only [List.take_succ_cons, List.drop_succ_cons, storesFrom, Nat.add_assoc, Nat.add_comm 1]

/-! ### How much of the leftover a read_until takes -/

theorem leftoverTaken_le (delimiter : Int8) (size : Nat) (bs : List UInt8) :
    leftoverTaken delimiter size bs ≤ bs.length := by
  induction bs generalizing size with
  | nil => simp [leftoverTaken]
  | cons c rest ih =>
    have := ih (size - 1)
    unfold leftoverTaken
    split <;> simp only [List.length_cons] <;> omega

theorem leftoverTaken_bound (delimiter : Int8) (size : Nat) (bs : List UInt8) :
    leftoverTaken delimiter size bs ≤ max size 1 := by
  induction bs generalizing size with
  | nil => simp [leftoverTaken]
  | cons c rest ih =>
    have := ih (size - 1)
    unfold leftoverTaken
    split <;> omega

theorem leftoverTaken_running {delimiter : Int8} {size : Nat} {bs : List UInt8}
    (running : leftoverStops delimiter size bs = false) :
    leftoverTaken delimiter size bs = bs.length ∧ (bs ≠ [] → bs.length < size) := by
  induction bs generalizing size with
  | nil => simp [leftoverTaken]
  | cons c rest ih =>
    simp only [leftoverStops, Bool.if_true_left, Bool.or_eq_false_iff, decide_eq_false_iff_not] at running
    obtain ⟨more, running⟩ := running
    obtain ⟨all, short⟩ := ih running
    have large : ¬ size ≤ 1 := fun h => more (Or.inr h)
    refine ⟨by simp [leftoverTaken, more, all], fun _ => ?_⟩
    by_cases last : rest = []
    · simp [last]; omega
    · have := short last
      simp; omega

/-- The scan stops at a delimiter among the first `size` bytes, or when there are `size` bytes. -/
theorem leftoverStops_iff {delimiter : Int8} {size : Nat} {bs : List UInt8} (some : bs ≠ []) (positive : 0 < size) :
    leftoverStops delimiter size bs = true ↔
      (∃ c ∈ bs.take size, c.toInt8 = delimiter) ∨ size ≤ bs.length := by
  induction bs generalizing size with
  | nil => exact (some rfl).elim
  | cons c rest ih =>
    obtain ⟨n, rfl⟩ : ∃ n, size = n + 1 := ⟨size - 1, by omega⟩
    by_cases stop : c.toInt8 = delimiter ∨ n + 1 ≤ 1
    · simp only [leftoverStops, stop, ↓reduceIte, true_iff]
      rcases stop with found | small
      · exact Or.inl ⟨c, by simp, found⟩
      · exact Or.inr (by simp; omega)
    · obtain ⟨other, large⟩ := not_or.mp stop
      rw [leftoverStops, if_neg stop, Nat.add_sub_cancel]
      by_cases last : rest = []
      · subst last
        simp [leftoverStops, other]
        omega
      · rw [ih last (by omega)]
        simp [other]

end StreamReader

end RtacAsio
