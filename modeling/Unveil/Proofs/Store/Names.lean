import Unveil.Store.Path

namespace Unveil

namespace Path

variable {name stem extension : List Char}

/-- The name that was cut in two. -/
def uncut : List Char × Option (List Char) → List Char
  | (stem, none) => stem
  | (stem, some extension) => stem ++ '.' :: extension

section Undotted

variable {front : List Char}

theorem takeWhile_undotted (rest : List Char) (h : '.' ∉ front) :
    (front ++ '.' :: rest).takeWhile (· ≠ '.') = front := by
  have hfront : ∀ letter ∈ front, decide (letter ≠ '.') = true :=
    fun letter hletter => decide_eq_true fun hdot => h (hdot ▸ hletter)
  rw [List.takeWhile_append_of_pos hfront, List.takeWhile_cons_of_neg (by simp), List.append_nil]

theorem dropWhile_undotted (rest : List Char) (h : '.' ∉ front) :
    (front ++ rest).dropWhile (· ≠ '.') = rest.dropWhile (· ≠ '.') := by
  apply List.dropWhile_append_of_pos
  exact fun letter hletter => decide_eq_true fun hdot => h (hdot ▸ hletter)

end Undotted

/-- A name is cut at a dot that has something before it and no dot behind it. -/
theorem cutName_of_dot (hstem : stem ≠ []) (hdot : '.' ∉ extension) :
    cutName (stem ++ '.' :: extension) = (stem, some extension) := by
  have hreverse : (stem ++ '.' :: extension).reverse = extension.reverse ++ '.' :: stem.reverse := by
    rw [List.reverse_append, List.reverse_cons, List.append_assoc]
    rfl
  have hbehind : '.' ∉ extension.reverse := fun h => hdot (List.mem_reverse.mp h)
  have hbefore : (((stem ++ '.' :: extension).reverse.dropWhile (· ≠ '.')).reverse).dropLast =
      stem := by
    rw [hreverse, dropWhile_undotted _ hbehind, List.dropWhile_cons_of_neg (by simp),
      List.reverse_cons, List.dropLast_concat, List.reverse_reverse]
  unfold cutName
  rw [hbefore, hreverse, takeWhile_undotted _ hbehind, List.reverse_reverse]
  cases stem with
  | nil => exact absurd rfl hstem
  | cons letter stem => rfl

/-- A name with no dot behind its first letter is left whole. -/
theorem cutName_of_undotted (h : '.' ∉ name.tail) : cutName name = (name, none) := by
  have hbefore : (name.reverse.dropWhile (· ≠ '.')).reverse.dropLast = [] := by
    cases name with
    | nil => rfl
    | cons first others =>
        have hothers : '.' ∉ others.reverse := fun hdot => h (List.mem_reverse.mp hdot)
        rw [List.reverse_cons, dropWhile_undotted _ hothers]
        by_cases hdot : first = '.'
        · rw [hdot]
          rfl
        · rw [List.dropWhile_cons_of_pos (by simpa using hdot)]
          rfl
  unfold cutName
  rw [hbefore]

/-- Every name is left whole or cut. -/
theorem cutName_cases (name : List Char) :
    '.' ∉ name.tail ∧ cutName name = (name, none) ∨
      ∃ stem extension, stem ≠ [] ∧ '.' ∉ extension ∧ name = stem ++ '.' :: extension ∧
        cutName name = (stem, some extension) := by
  by_cases hdot : '.' ∈ name.tail
  · refine Or.inr ?_
    cases name with
    | nil => cases hdot
    | cons first others =>
        obtain ⟨behind, before, hothers, hbehind⟩ :=
          List.eq_append_cons_of_mem (List.mem_reverse.mpr hdot)
        have hname : first :: others = (first :: before.reverse) ++ '.' :: behind.reverse := by
          rw [← List.reverse_reverse others]
          simp only [List.tail_cons] at hothers
          rw [hothers, List.reverse_append, List.reverse_cons, List.append_assoc]
          rfl
        have hlast : '.' ∉ behind.reverse := fun h => hbehind (List.mem_reverse.mp h)
        have hstem : first :: before.reverse ≠ [] := List.cons_ne_nil _ _
        refine ⟨_, _, hstem, hlast, hname, ?_⟩
        rw [hname]
        exact cutName_of_dot hstem hlast
  · exact Or.inl ⟨hdot, cutName_of_undotted hdot⟩

/-- A dot in front is not before an extension, and one at the end is before an empty one. -/
example : ["Lib", ".lib", "Lib.", "Game.Core.dll"].map (fun name => (cutName name.toList).2) =
    [none, none, some [], some ['d', 'l', 'l']] := rfl

theorem uncut_cutName (name : List Char) : uncut (cutName name) = name := by
  obtain ⟨-, hcut⟩ | ⟨stem, extension, -, -, rfl, hcut⟩ := cutName_cases name
  · rw [hcut]
    rfl
  · rw [hcut]
    rfl

theorem cutName_injective {other : List Char} (h : cutName name = cutName other) : name = other := by
  rw [← uncut_cutName name, h, uncut_cutName]

/-- An extension stands behind the last dot of a name, and something stands before
that dot. -/
theorem cutName_eq_some : cutName name = (stem, some extension) ↔
    stem ≠ [] ∧ '.' ∉ extension ∧ name = stem ++ '.' :: extension := by
  constructor
  · intro h
    obtain ⟨-, hcut⟩ | ⟨_, _, hstem, hdot, hname, hcut⟩ := cutName_cases name
    · cases hcut.symm.trans h
    · cases hcut.symm.trans h
      exact ⟨hstem, hdot, hname⟩
  · rintro ⟨hstem, hdot, rfl⟩
    exact cutName_of_dot hstem hdot

theorem extension?_eq_some {path : Path} : path.extension? = some extension ↔
    ∃ stem, stem ≠ [] ∧ '.' ∉ extension ∧ path.fileName? = some (stem ++ '.' :: extension) := by
  rw [extension?, Option.bind_eq_some_iff]
  constructor
  · rintro ⟨name, hname, hcut⟩
    obtain ⟨hstem, hdot, hwhole⟩ := cutName_eq_some.mp (Prod.ext rfl hcut)
    exact ⟨_, hstem, hdot, hname.trans (congrArg some hwhole)⟩
  · rintro ⟨stem, hstem, hdot, hname⟩
    exact ⟨_, hname, congrArg Prod.snd (cutName_of_dot hstem hdot)⟩

end Path

end Unveil
