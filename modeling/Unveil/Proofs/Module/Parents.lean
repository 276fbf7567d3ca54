import Mathlib.Data.List.Induction
import Mathlib.Data.List.Nodup
import Unveil.Module.Nesting

/-!
Which type lies in which, said from the nesting rows alone. The first row that
puts a type into another decides; a type's slots follow the rows that name it as
enclosing, with nothing for a row that comes too late for its type and an empty
slot for one whose type does not exist.
-/

namespace Unveil

namespace Nesting

theorem indexOf?_lt {count index : Nat} {row : UInt32} (h : indexOf? count row = some index) :
    index < count := by
  unfold indexOf? at h
  split at h
  · cases h
    omega
  · cases h

/-- Does one of the rows name this type, of so many, as nested? -/
def names (count : Nat) (rows : List (Entry NestingRow)) (index : Nat) : Bool :=
  rows.any fun row => decide (indexOf? count row.row.nested = some index)

theorem names_append (count : Nat) (rows : List (Entry NestingRow)) (row : Entry NestingRow)
    (index : Nat) : names count (rows ++ [row]) index =
      (names count rows index || decide (indexOf? count row.row.nested = some index)) := by
  simp [names]

/-- The type that a row puts this one into, of so many. -/
def parentIn? (count index : Nat) (row : Entry NestingRow) : Option Nat :=
  if indexOf? count row.row.nested = some index then indexOf? count row.row.enclosing else none

/-- The type around a type: the first row that puts it into another decides. -/
def parent? (count : Nat) (rows : List (Entry NestingRow)) (index : Nat) : Option Nat :=
  rows.findSome? (parentIn? count index)

/-- Where the row stands that decides which type is around a type. -/
def placingRow? (count : Nat) (rows : List (Entry NestingRow)) (index : Nat) : Option Nat :=
  rows.findIdx? fun row => (parentIn? count index row).isSome

/-- What a row, at a place among the rows, adds to the slots of a type. -/
def slotIn (count : Nat) (rows : List (Entry NestingRow)) (outer : Nat)
    (row : Entry NestingRow) (place : Nat) : List (Option Nat) :=
  if indexOf? count row.row.enclosing = some outer then
    match indexOf? count row.row.nested with
    | none => [none]
    | some nested => if placingRow? count rows nested = some place then [some nested] else []
  else
    []

/-- The slots of a type, in the order of the rows. -/
def childSlots (count : Nat) (rows : List (Entry NestingRow)) (outer : Nat) :
    List (Option Nat) :=
  rows.zipIdx.flatMap fun (row, place) => slotIn count rows outer row place

/-- The types without a type around them, in the order of their rows. -/
def rootSlots (count : Nat) (rows : List (Entry NestingRow)) : List (Option Nat) :=
  ((List.range count).filter fun index => (parent? count rows index).isNone).map some

section Rows

variable {count index outer : Nat} {rows : List (Entry NestingRow)} {row : Entry NestingRow}

theorem parent?_append (count : Nat) (rows : List (Entry NestingRow)) (row : Entry NestingRow)
    (index : Nat) :
    parent? count (rows ++ [row]) index =
      (parent? count rows index).or (parentIn? count index row) := by
  rw [parent?, List.findSome?_append, List.findSome?_singleton]
  rfl

/-- A type has a row that decides exactly if it has a type around it. -/
theorem placingRow?_eq_none :
    placingRow? count rows index = none ↔ parent? count rows index = none := by
  rw [placingRow?, parent?, List.findIdx?_eq_none_iff, List.findSome?_eq_none_iff]
  simp only [Option.isSome_eq_false_iff, Option.isNone_iff_eq_none]

theorem parent?_lt (h : parent? count rows index = some outer) : outer < count := by
  obtain ⟨row, -, hrow⟩ := List.exists_of_findSome?_eq_some h
  unfold parentIn? at hrow
  split at hrow
  · exact indexOf?_lt hrow
  · cases hrow

theorem parent?_inside (h : parent? count rows index = some outer) : index < count := by
  obtain ⟨row, -, hrow⟩ := List.exists_of_findSome?_eq_some h
  unfold parentIn? at hrow
  split at hrow
  · rename_i hnested
    exact indexOf?_lt hnested
  · cases hrow

/-- A type that is put into another is named as nested. -/
theorem names_of_parent? (h : parent? count rows index = some outer) :
    names count rows index = true := by
  obtain ⟨row, hmem, hrow⟩ := List.exists_of_findSome?_eq_some h
  unfold parentIn? at hrow
  split at hrow
  · rename_i hnested
    exact List.any_eq_true.mpr ⟨row, hmem, decide_eq_true hnested⟩
  · cases hrow

theorem placingRow?_lt {place : Nat} (h : placingRow? count rows index = some place) :
    place < rows.length :=
  (List.findIdx?_eq_some_iff_getElem.mp h).1

/-- Where a row has decided, a later one does not. -/
theorem placingRow?_append_of_lt {place : Nat} (hplace : place < rows.length) :
    placingRow? count (rows ++ [row]) index = some place ↔
      placingRow? count rows index = some place := by
  rw [placingRow?, List.findIdx?_append]
  cases hearlier : rows.findIdx? fun row => (parentIn? count index row).isSome with
  | some earlier => simp [placingRow?, hearlier]
  | none =>
      simp only [placingRow?, hearlier, Option.none_or, Option.map_eq_some_iff, reduceCtorEq,
        iff_false]
      rintro ⟨offset, -, hsum⟩
      omega

/-- The last row decides about a type that no row before has put into another. -/
theorem placingRow?_append_self :
    placingRow? count (rows ++ [row]) index = some rows.length ↔
      parent? count rows index = none ∧ (parentIn? count index row).isSome = true := by
  rw [placingRow?, List.findIdx?_append, ← placingRow?_eq_none]
  cases hearlier : rows.findIdx? fun row => (parentIn? count index row).isSome with
  | some earlier =>
      have hlt := placingRow?_lt hearlier
      simp only [placingRow?, hearlier, Option.some_or, Option.some.injEq, reduceCtorEq, false_and,
        iff_false]
      omega
  | none =>
      cases hlast : (parentIn? count index row).isSome with
      | false => simp [placingRow?, hearlier, List.findIdx?_cons, hlast]
      | true => simp [placingRow?, hearlier, List.findIdx?_cons, hlast]

theorem childSlots_append (count : Nat) (rows : List (Entry NestingRow)) (row : Entry NestingRow)
    (outer : Nat) :
    childSlots count (rows ++ [row]) outer =
      childSlots count rows outer ++ slotIn count (rows ++ [row]) outer row rows.length := by
  have hearlier : ∀ entry ∈ rows.zipIdx,
      slotIn count (rows ++ [row]) outer entry.1 entry.2 =
        slotIn count rows outer entry.1 entry.2 := by
    intro entry hmem
    have hplace : entry.2 < rows.length := by
      simpa using List.snd_lt_of_mem_zipIdx hmem
    simp only [slotIn, placingRow?_append_of_lt hplace]
  rw [childSlots, List.zipIdx_append, List.flatMap_append, List.flatMap_def,
    List.map_congr_left hearlier]
  simp [childSlots, List.flatMap_def]

/-- A row puts no type into another if one of the two does not exist. -/
theorem parentIn?_of_nested_none (h : indexOf? count row.row.nested = none) :
    parentIn? count index row = none := by
  rw [parentIn?, h, if_neg nofun]

theorem parentIn?_of_enclosing_none (h : indexOf? count row.row.enclosing = none) :
    parentIn? count index row = none := by
  rw [parentIn?, h, ite_self]

theorem parentIn?_of_some {nested : Nat} (h : indexOf? count row.row.nested = some nested) :
    parentIn? count index row =
      if nested = index then indexOf? count row.row.enclosing else none := by
  rw [parentIn?, h]
  simp only [Option.some.injEq]

theorem slotIn_of_enclosing_none {place : Nat} (h : indexOf? count row.row.enclosing = none) :
    slotIn count rows outer row place = [] := by
  rw [slotIn, h, if_neg nofun]

theorem slotIn_of_nested_none {enclosing place : Nat}
    (hnested : indexOf? count row.row.nested = none)
    (henclosing : indexOf? count row.row.enclosing = some enclosing) :
    slotIn count rows outer row place = if enclosing = outer then [none] else [] := by
  rw [slotIn, hnested, henclosing]
  simp only [Option.some.injEq]

/-- The slot for the last row depends on whether its type has been put into another
before. -/
theorem slotIn_append_self {nested enclosing : Nat}
    (hnested : indexOf? count row.row.nested = some nested)
    (henclosing : indexOf? count row.row.enclosing = some enclosing) :
    slotIn count (rows ++ [row]) outer row rows.length =
      if enclosing = outer ∧ parent? count rows nested = none then [some nested] else [] := by
  have hplaces : (parentIn? count nested row).isSome = true := by
    rw [parentIn?_of_some hnested, if_pos rfl, henclosing]
    rfl
  rw [slotIn, hnested, henclosing]
  simp only [Option.some.injEq, placingRow?_append_self, hplaces, and_true]
  by_cases houter : enclosing = outer
  · simp [houter]
  · simp [houter]

theorem count_slotIn_append_self :
    (slotIn count (rows ++ [row]) outer row rows.length).count (some index) =
      if parent? count rows index = none ∧ parentIn? count index row = some outer then 1 else 0 := by
  cases henclosing : indexOf? count row.row.enclosing with
  | none => simp [slotIn_of_enclosing_none henclosing, parentIn?_of_enclosing_none henclosing]
  | some enclosing =>
      cases hnested : indexOf? count row.row.nested with
      | none =>
          rw [slotIn_of_nested_none hnested henclosing, parentIn?_of_nested_none hnested]
          split
          · simp
          · simp
      | some nested =>
          rw [slotIn_append_self hnested henclosing, parentIn?_of_some hnested, henclosing]
          by_cases hsame : nested = index
          · subst hsame
            simp only [↓reduceIte, Option.some.injEq, and_comm]
            split
            · simp
            · simp
          · simp only [hsame, ↓reduceIte, reduceCtorEq, and_false]
            split
            · simp [hsame]
            · simp

/-- A type has one slot in its parent and none elsewhere. -/
theorem count_childSlots (count : Nat) (rows : List (Entry NestingRow)) (outer index : Nat) :
    (childSlots count rows outer).count (some index) =
      if parent? count rows index = some outer then 1 else 0 := by
  induction rows using List.reverseRecOn with
  | nil => simp [childSlots, parent?]
  | append_singleton rows row ih =>
      rw [childSlots_append, List.count_append, ih, count_slotIn_append_self, parent?_append]
      cases parent? count rows index with
      | none =>
          by_cases hlast : parentIn? count index row = some outer
          · simp [hlast]
          · simp [hlast]
      | some around => simp

theorem mem_childSlots :
    some index ∈ childSlots count rows outer ↔ parent? count rows index = some outer := by
  rw [← List.count_pos_iff, count_childSlots]
  split
  · rename_i hparent
    simp [hparent]
  · rename_i hother
    simp [hother]

theorem mem_rootSlots :
    some index ∈ rootSlots count rows ↔ index < count ∧ parent? count rows index = none := by
  simp [rootSlots]

/-- A type without a parent has one slot in the outermost row. -/
theorem count_rootSlots (count : Nat) (rows : List (Entry NestingRow)) (index : Nat) :
    (rootSlots count rows).count (some index) =
      if index < count ∧ parent? count rows index = none then 1 else 0 := by
  have hnodup : (rootSlots count rows).Nodup := by
    apply List.Nodup.map_on
    · intro first _ second _ hsame
      exact Option.some.inj hsame
    · exact List.nodup_range.filter _
  rw [hnodup.count]
  simp only [mem_rootSlots]

/-- A row adds at most one slot. -/
theorem length_slotIn_le (place : Nat) : (slotIn count rows outer row place).length ≤ 1 := by
  unfold slotIn
  split
  · split
    · exact Nat.le_refl _
    · split
      · exact Nat.le_refl _
      · exact Nat.zero_le _
  · exact Nat.zero_le _

theorem reverse_slotIn (place : Nat) :
    (slotIn count rows outer row place).reverse = slotIn count rows outer row place := by
  have hlength : (slotIn count rows outer row place).length ≤ 1 := length_slotIn_le place
  cases hslots : slotIn count rows outer row place with
  | nil => rfl
  | cons first others =>
      rw [hslots, List.length_cons] at hlength
      obtain rfl : others = [] := List.eq_nil_of_length_eq_zero (by omega)
      rfl

theorem length_childSlots_le (count : Nat) (rows : List (Entry NestingRow)) (outer : Nat) :
    (childSlots count rows outer).length ≤ rows.length := by
  induction rows using List.reverseRecOn with
  | nil => exact Nat.le_refl _
  | append_singleton rows row ih =>
      have hlast : (slotIn count (rows ++ [row]) outer row rows.length).length ≤ 1 :=
        length_slotIn_le rows.length
      rw [childSlots_append, List.length_append, List.length_append, List.length_singleton]
      omega

end Rows

end Nesting

end Unveil
