namespace Unveil

def total : List Nat → Nat
  | [] => 0
  | number :: numbers => number + total numbers

@[simp] theorem total_nil : total [] = 0 := rfl

@[simp] theorem total_cons (number : Nat) (numbers : List Nat) :
    total (number :: numbers) = number + total numbers := rfl

@[simp] theorem total_append (numbers others : List Nat) :
    total (numbers ++ others) = total numbers + total others := by
  induction numbers with
  | nil => simp
  | cons number numbers ih => rw [List.cons_append, total_cons, total_cons, ih, Nat.add_assoc]

@[simp] theorem total_reverse (numbers : List Nat) : total numbers.reverse = total numbers := by
  induction numbers with
  | nil => rfl
  | cons number numbers ih =>
      rw [List.reverse_cons, total_append, ih, total_cons, total_cons, total_nil, Nat.add_zero,
        Nat.add_comm]

namespace Pieces

variable {Letter : Type} [DecidableEq Letter]

/-- The parts of a text between separators, of which there is always at least
one. -/
def split (separator : Letter) : List Letter → List (List Letter)
  | [] => [[]]
  | letter :: rest =>
      match split separator rest with
      | [] => [[letter]]
      | piece :: pieces =>
          if letter = separator then [] :: piece :: pieces else (letter :: piece) :: pieces

def join (separator : Letter) : List (List Letter) → List Letter
  | [] => []
  | [piece] => piece
  | piece :: pieces => piece ++ separator :: join separator pieces

theorem split_ne_nil (separator : Letter) (letters : List Letter) :
    split separator letters ≠ [] := by
  cases letters with
  | nil => simp [split]
  | cons letter rest =>
      simp only [split]
      split
      · simp
      · split <;> simp

theorem split_append {separator : Letter} {piece rest : List Letter}
    (unbroken : separator ∉ piece) :
    split separator (piece ++ separator :: rest) = piece :: split separator rest := by
  induction piece with
  | nil =>
      rw [List.nil_append, split]
      split
      · rename_i empty
        exact absurd empty (split_ne_nil separator rest)
      · rw [if_pos rfl]
        rename_i found
        rw [found]
  | cons letter others ih =>
      have differs : letter ≠ separator := fun same => unbroken (same ▸ List.mem_cons_self)
      have inner := ih fun found => unbroken (List.mem_cons_of_mem _ found)
      rw [List.cons_append, split, inner]
      exact if_neg differs

theorem join_split (separator : Letter) (letters : List Letter) :
    join separator (split separator letters) = letters := by
  induction letters with
  | nil => rfl
  | cons letter rest ih =>
      simp only [split]
      split
      · rename_i empty
        exact absurd empty (split_ne_nil separator rest)
      · rename_i piece pieces found
        rw [found] at ih
        by_cases same : letter = separator
        · rw [if_pos same, join, List.nil_append, ih, same]
          simp
        · rw [if_neg same]
          cases pieces with
          | nil => simpa [join] using ih
          | cons next others =>
              rw [join] at ih ⊢
              · rw [← ih]
                rfl
              · simp
              · simp

end Pieces

end Unveil
