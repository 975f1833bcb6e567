import Mathlib.Data.List.Basic

/-! Cell-addressed memory: consecutive writes, and what a later read of a range returns. -/

namespace RtacAsio.Lib

abbrev Memory (α : Type) := Nat → α

namespace Memory

def write (m : Memory α) (p : Nat) (bs : List α) : Memory α :=
  fun a => if p ≤ a then (bs[a - p]?).getD (m a) else m a

def read (m : Memory α) (p n : Nat) : List α := (List.range n).map fun i => m (p + i)

@[simp] theorem read_zero (m : Memory α) (p : Nat) : m.read p 0 = [] := rfl

@[simp] theorem read_length (m : Memory α) (p n : Nat) : (m.read p n).length = n := by simp [read]

@[simp] theorem write_nil (m : Memory α) (p : Nat) : m.write p [] = m := by
  funext a
  simp [write]

theorem read_add (m : Memory α) (p n k : Nat) : m.read p (n + k) = m.read p n ++ m.read (p + n) k := by
  simp [read, List.range_add, Nat.add_assoc, Function.comp_def]

theorem take_read (m : Memory α) {p n k : Nat} (h : k ≤ n) : (m.read p n).take k = m.read p k := by
  obtain ⟨j, rfl⟩ : ∃ j, n = k + j := ⟨n - k, by omega⟩
  rw [read_add, List.take_append_of_le_length (by simp), List.take_of_length_le (by simp)]

theorem read_congr {m m' : Memory α} {p n : Nat} (same : ∀ a, p ≤ a → a < p + n → m' a = m a) :
    m'.read p n = m.read p n := by
  apply List.map_congr_left
  intro i member
  have below := List.mem_range.mp member
  exact same _ (by omega) (by omega)

theorem write_before (m : Memory α) {p a : Nat} (bs : List α) (h : a < p) : m.write p bs a = m a := by
  have : ¬ p ≤ a := by omega
  simp [write, this]

theorem write_outside (m : Memory α) {p a : Nat} {bs : List α} (h : a < p ∨ p + bs.length ≤ a) :
    m.write p bs a = m a := by
  rcases h with before | past
  · exact write_before m bs before
  · have none : bs[a - p]? = none := List.getElem?_eq_none (by omega)
    simp [write, none]

theorem write_cases (m : Memory α) (p a : Nat) (bs : List α) : m.write p bs a ∈ bs ∨ m.write p bs a = m a := by
  by_cases before : a < p
  · exact Or.inr (write_before m bs before)
  · have low : p ≤ a := Nat.le_of_not_lt before
    cases found : bs[a - p]? with
    | none => exact Or.inr (by simp [write, found])
    | some b => exact Or.inl (by simpa [write, low, found] using List.mem_of_getElem? found)

theorem read_write_same (m : Memory α) (p : Nat) (bs : List α) : (m.write p bs).read p bs.length = bs := by
  apply List.ext_getElem (by simp)
  intro i _ inside
  simp [read, write, inside]

theorem read_write_before (m : Memory α) {p q n : Nat} (bs : List α) (h : p + n ≤ q) :
    (m.write q bs).read p n = m.read p n :=
  read_congr fun _ _ _ => write_before m bs (by omega)

theorem read_write_apart (m : Memory α) {p q n : Nat} {bs : List α} (h : p + n ≤ q ∨ q + bs.length ≤ p) :
    (m.write q bs).read p n = m.read p n :=
  read_congr fun _ _ _ => write_outside m (by omega)

theorem write_append (m : Memory α) (p : Nat) (bs cs : List α) :
    m.write p (bs ++ cs) = (m.write p bs).write (p + bs.length) cs := by
  funext a
  by_cases low : p ≤ a
  · by_cases inside : a - p < bs.length
    · have before : ¬ p + bs.length ≤ a := by omega
      simp [write, low, before, List.getElem?_append_left inside]
    · have past : p + bs.length ≤ a := by omega
      have index : a - p - bs.length = a - (p + bs.length) := by omega
      have outside : bs[a - p]? = none := List.getElem?_eq_none (by omega)
      simp [write, low, past, List.getElem?_append_right (Nat.le_of_not_lt inside), index, outside]
  · have before : ¬ p + bs.length ≤ a := by omega
    simp [write, low, before]

end Memory

end RtacAsio.Lib
