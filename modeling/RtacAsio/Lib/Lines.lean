import Mathlib.Data.List.Basic

/-! A list cut after each element that satisfies a predicate, like a text into its lines. -/

namespace RtacAsio.Lib
variable {α : Type} {p : α → Bool}

theorem take_through (body : List α) (x : α) (rest : List α) :
    (body ++ x :: rest).take (body.length + 1) = body ++ [x] := by
  induction body with
  | nil => rfl
  | cons y body ih => rw [List.cons_append, List.length_cons, List.take_succ_cons, ih, List.cons_append]

theorem drop_through (body : List α) (x : α) (rest : List α) : (body ++ x :: rest).drop (body.length + 1) = rest := by
  induction body with
  | nil => rfl
  | cons y body ih => rw [List.cons_append, List.length_cons, List.drop_succ_cons, ih]

/-- The lines, each one up to and with an element that satisfies `p`, and what follows the last one. -/
def lines (p : α → Bool) : List α → List (List α) × List α
  | [] => ([], [])
  | x :: rest =>
    let (ls, tail) := lines p rest
    if p x then ([x] :: ls, tail)
    else
      match ls with
      | [] => ([], x :: tail)
      | l :: ls => ((x :: l) :: ls, tail)

/-- What has no element that satisfies `p` is all tail. -/
theorem lines_tail {s : List α} (none : ∀ x ∈ s, p x = false) : lines p s = ([], s) := by
  induction s with
  | nil => rfl
  | cons x rest ih =>
    rw [List.forall_mem_cons] at none
    simp [lines, ih none.2, none.1]

theorem lines_line {body : List α} {x : α} (rest : List α) (none : ∀ y ∈ body, p y = false) (last : p x = true) :
    lines p (body ++ x :: rest) = ((body ++ [x]) :: (lines p rest).1, (lines p rest).2) := by
  induction body with
  | nil => simp [lines, last]
  | cons y body ih =>
    rw [List.forall_mem_cons] at none
    simp [lines, ih none.2, none.1]

/-- Either there is no line, or the list begins with one. -/
theorem lines_cases (p : α → Bool) (s : List α) :
    (∀ x ∈ s, p x = false) ∨ ∃ body x rest, s = body ++ x :: rest ∧ (∀ y ∈ body, p y = false) ∧ p x = true := by
  induction s with
  | nil => exact Or.inl (by simp)
  | cons x rest ih =>
    cases first : p x with
    | true => exact Or.inr ⟨[], x, rest, rfl, by simp, first⟩
    | false =>
      rcases ih with none | ⟨body, y, rest, rfl, none, last⟩
      · exact Or.inl (List.forall_mem_cons.mpr ⟨first, none⟩)
      · exact Or.inr ⟨x :: body, y, rest, rfl, List.forall_mem_cons.mpr ⟨first, none⟩, last⟩

/-- The shortest beginning that ends with an element that satisfies `p`, or has `m` elements. -/
def Stops (p : α → Bool) (m : Nat) (s : List α) : Prop :=
  (∃ body x, s = body ++ [x] ∧ p x = true ∧ (∀ y ∈ body, p y = false) ∧ body.length < m) ∨
    ((∀ y ∈ s, p y = false) ∧ s.length = m)

theorem findIdx_none {s : List α} (rest : List α) (none : ∀ y ∈ s, p y = false) :
    (s ++ rest).findIdx p = s.length + rest.findIdx p := by
  rw [List.findIdx_append, List.findIdx_eq_length_of_false none, if_neg (Nat.lt_irrefl _), Nat.add_comm]

theorem findIdx_through {body : List α} {x : α} (rest : List α) (none : ∀ y ∈ body, p y = false) (last : p x = true) :
    (body ++ x :: rest).findIdx p = body.length := by
  rw [findIdx_none _ none, List.findIdx_cons, last]
  rfl

theorem Stops.length {m : Nat} {s : List α} (h : Stops p m s) (rest : List α) :
    s.length = min ((s ++ rest).findIdx p + 1) m := by
  rcases h with ⟨body, x, rfl, last, none, short⟩ | ⟨none, full⟩
  · rw [List.append_assoc, List.singleton_append, findIdx_through rest none last, List.length_append,
      List.length_singleton]
    omega
  · rw [findIdx_none rest none]
    omega

end RtacAsio.Lib
