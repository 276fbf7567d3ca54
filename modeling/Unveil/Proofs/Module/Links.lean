import Unveil.Proofs.Module.Depths
import Unveil.Proofs.Module.Parents
import Unveil.Proofs.Module.Silent

namespace Unveil

namespace Nesting

namespace Links

variable (links : Links) (index nested enclosing : Nat) (child : Option Nat)

@[simp] theorem markNested_parents : (links.markNested index).parents = links.parents := rfl

@[simp] theorem markNested_children : (links.markNested index).children = links.children := rfl

@[simp] theorem addChild_parents : (links.addChild enclosing child).parents = links.parents := rfl

@[simp] theorem setParent_children :
    (links.setParent nested enclosing).children = links.children := rfl

variable {links nested enclosing child}

theorem getElem?_addChild (outer : Nat) :
    (links.addChild enclosing child).children[outer]? =
      links.children[outer]?.map ((if enclosing = outer then [child] else []) ++ ·) := by
  rw [addChild, Array.getElem?_modify]
  split
  · rfl
  · exact (Option.map_id' ..).symm

theorem parents_setParent (hinside : nested < links.parents.size) (index : Nat) :
    (links.setParent nested enclosing).parents[index]? =
      if index = nested then some (some enclosing) else links.parents[index]? := by
  rw [setParent]
  by_cases hsame : index = nested
  · subst hsame
    rw [Array.getElem?_setIfInBounds_self_of_lt hinside, if_pos rfl]
  · rw [Array.getElem?_setIfInBounds_ne (Ne.symm hsame), if_neg hsame]

end Links

/-- What taking in a row does to the links. -/
inductive Taken (links : Links) (row : Entry NestingRow) : Links → Prop
  | nothing (hnested : indexOf? links.types.size row.row.nested = none)
      (henclosing : indexOf? links.types.size row.row.enclosing = none) : Taken links row links
  | gap {enclosing : Nat} (hnested : indexOf? links.types.size row.row.nested = none)
      (henclosing : indexOf? links.types.size row.row.enclosing = some enclosing) :
      Taken links row (links.addChild enclosing none)
  | mark {nested : Nat} (hnested : indexOf? links.types.size row.row.nested = some nested)
      (henclosing : indexOf? links.types.size row.row.enclosing = none) :
      Taken links row (links.markNested nested)
  | again {nested enclosing existing : Nat}
      (hnested : indexOf? links.types.size row.row.nested = some nested)
      (henclosing : indexOf? links.types.size row.row.enclosing = some enclosing)
      (hparent : links.parents[nested]? = some (some existing)) : Taken links row links
  | adopt {nested enclosing : Nat}
      (hnested : indexOf? links.types.size row.row.nested = some nested)
      (henclosing : indexOf? links.types.size row.row.enclosing = some enclosing)
      (horphan : links.parents[nested]? = some none) :
      Taken links row
        (((links.setParent nested enclosing).addChild enclosing (some nested)).markNested nested)

theorem taken_of_link {links links' : Links} {row : Entry NestingRow}
    (hlink : linkSilently links row = .ok links') : Taken links row links' := by
  unfold linkSilently at hlink
  cases hnested : indexOf? links.types.size row.row.nested with
  | none =>
      cases henclosing : indexOf? links.types.size row.row.enclosing with
      | none =>
          simp only [hnested, henclosing, Except.pure_eq_ok] at hlink
          subst hlink
          exact .nothing hnested henclosing
      | some enclosing =>
          simp only [hnested, henclosing, Except.bind_eq_ok, Except.pure_eq_ok] at hlink
          obtain ⟨token, -, rfl⟩ := hlink
          exact .gap hnested henclosing
  | some nested =>
      cases henclosing : indexOf? links.types.size row.row.enclosing with
      | none =>
          simp only [hnested, henclosing, Except.bind_eq_ok, Except.pure_eq_ok] at hlink
          obtain ⟨token, -, rfl⟩ := hlink
          exact .mark hnested henclosing
      | some enclosing =>
          simp only [hnested, henclosing, Except.bind_eq_ok] at hlink
          obtain ⟨token, -, hlink⟩ := hlink
          split at hlink
          · cases hlink
          obtain ⟨parent, hparent, hlink⟩ := Except.bind_eq_ok.mp hlink
          rw [itemAt_eq_ok] at hparent
          cases parent with
          | some existing =>
              simp only [Except.bind_eq_ok, Except.pure_eq_ok] at hlink
              obtain ⟨kept, -, dropped, -, rfl⟩ := hlink
              exact .again hnested henclosing hparent
          | none =>
              simp only [Except.pure_eq_ok] at hlink
              subst hlink
              exact .adopt hnested henclosing hparent

/-- A type that is marked as nested where some row names it so. -/
def marked (count : Nat) (rows : List (Entry NestingRow)) (index : Nat) (type : TypeDecl) :
    TypeDecl :=
  { type with isNested := type.isNested || names count rows index }

/-- The links that some rows lead to say of every type what the rows say of it. Its
slots are listed in reverse. -/
structure Linked (types : List TypeDecl) (rows : List (Entry NestingRow)) (links : Links) :
    Prop where
  types_eq : ∀ index : Nat, links.types[index]? =
    types[index]?.map (marked types.length rows index)
  parents_eq : ∀ index : Nat, links.parents[index]? =
    types[index]?.map fun _ => parent? types.length rows index
  children_eq : ∀ outer : Nat, links.children[outer]? =
    types[outer]?.map fun _ => (childSlots types.length rows outer).reverse

variable {types : List TypeDecl} {rows : List (Entry NestingRow)} {links links' : Links}

theorem linked_ofTypes (types : List TypeDecl) : Linked types [] (Links.ofTypes types) where
  types_eq index := by
    have hsame : marked types.length [] index = id := by
      funext type
      simp [marked, names]
    rw [hsame]
    simp [Links.ofTypes]
  parents_eq index := by
    by_cases hindex : index < types.length
    · simp [Links.ofTypes, hindex, parent?]
    · simp [Links.ofTypes, hindex]
  children_eq outer := by
    by_cases houter : outer < types.length
    · simp [Links.ofTypes, houter, childSlots]
    · simp [Links.ofTypes, houter]

namespace Linked

variable (h : Linked types rows links)
include h

theorem types_size : links.types.size = types.length := Array.size_eq_of_getElem? h.types_eq

theorem parents_size : links.parents.size = types.length := Array.size_eq_of_getElem? h.parents_eq

theorem children_size : links.children.size = types.length :=
  Array.size_eq_of_getElem? h.children_eq

theorem parent_eq {index : Nat} (hindex : index < types.length) :
    links.parents[index]? = some (parent? types.length rows index) := by
  rw [h.parents_eq index, List.getElem?_eq_getElem hindex, Option.map_some]

theorem slots_eq {outer : Nat} (houter : outer < types.length) :
    links.children[outer]? = some (childSlots types.length rows outer).reverse := by
  rw [h.children_eq outer, List.getElem?_eq_getElem houter, Option.map_some]

theorem lies_iff {index outer : Nat} :
    links.parents[index]? = some (some outer) ↔ parent? types.length rows index = some outer := by
  constructor
  · intro hlies
    have hindex : index < types.length :=
      h.parents_size ▸ (Array.getElem?_eq_some_iff.mp hlies).1
    rw [h.parent_eq hindex] at hlies
    exact Option.some.inj hlies
  · intro hparent
    rw [h.parent_eq (parent?_inside hparent), hparent]

/-- A row marks the type that it names, gives a type the parent that it names unless it
has one, and puts its slot behind the others. -/
theorem grow {row : Entry NestingRow}
    (htypes : ∀ index : Nat, links'.types[index]? =
      types[index]?.map (marked types.length (rows ++ [row]) index))
    (hparents : ∀ index : Nat, links'.parents[index]? = links.parents[index]?.map
      (Option.or · (parentIn? types.length index row)))
    (hchildren : ∀ outer : Nat, links'.children[outer]? = links.children[outer]?.map
      (slotIn types.length (rows ++ [row]) outer row rows.length ++ ·)) :
    Linked types (rows ++ [row]) links' where
  types_eq := htypes
  parents_eq index := by
    rw [hparents index, h.parents_eq index, Option.map_map, parent?_append]
    rfl
  children_eq outer := by
    rw [hchildren outer, h.children_eq outer, Option.map_map, childSlots_append,
      List.reverse_append, reverse_slotIn]
    rfl

/-- A mark is put on the type that a row names as nested. -/
theorem types_markNested {row : Entry NestingRow} {nested : Nat}
    (hnested : indexOf? types.length row.row.nested = some nested) (index : Nat) :
    (links.markNested nested).types[index]? =
      types[index]?.map (marked types.length (rows ++ [row]) index) := by
  simp only [Links.markNested, Array.getElem?_modify, h.types_eq index]
  by_cases hsame : nested = index
  · subst hsame
    simp only [↓reduceIte, Option.map_map]
    congr 1
    funext type
    simp [marked, names_append, hnested]
  · rw [if_neg hsame]
    congr 1
    funext type
    simp [marked, names_append, hnested, hsame]

/-- Where a row names no type that is not marked yet, the marks are those of one
row more. -/
theorem types_of_named {row : Entry NestingRow}
    (hnamed : ∀ index, indexOf? types.length row.row.nested = some index →
      names types.length rows index = true) (index : Nat) :
    links.types[index]? = types[index]?.map (marked types.length (rows ++ [row]) index) := by
  rw [h.types_eq index]
  congr 1
  funext type
  simp only [marked, names_append]
  by_cases hnested : indexOf? types.length row.row.nested = some index
  · simp [hnamed index hnested]
  · simp [hnested]

end Linked

theorem Linked.link (h : Linked types rows links) {row : Entry NestingRow}
    (hlink : linkSilently links row = .ok links') : Linked types (rows ++ [row]) links' := by
  have hsize := h.types_size
  have hunnamed (hnone : indexOf? types.length row.row.nested = none) (index : Nat)
      (hindex : indexOf? types.length row.row.nested = some index) :
      names types.length rows index = true := by
    rw [hnone] at hindex
    cases hindex
  have hparentsSame (hnone : ∀ index, parentIn? types.length index row = none) (index : Nat) :
      links.parents[index]? = links.parents[index]?.map
        (Option.or · (parentIn? types.length index row)) := by
    simp [hnone index]
  have hchildrenSame (hnone : ∀ outer,
      slotIn types.length (rows ++ [row]) outer row rows.length = []) (outer : Nat) :
      links.children[outer]? = links.children[outer]?.map
        (slotIn types.length (rows ++ [row]) outer row rows.length ++ ·) := by
    simp [hnone outer]
  cases taken_of_link hlink with
  | nothing hnested henclosing =>
      rw [hsize] at hnested henclosing
      exact h.grow (h.types_of_named (hunnamed hnested))
        (hparentsSame fun _ => parentIn?_of_nested_none hnested)
        (hchildrenSame fun _ => slotIn_of_enclosing_none henclosing)
  | gap hnested henclosing =>
      rw [hsize] at hnested henclosing
      refine h.grow (h.types_of_named (hunnamed hnested))
        (hparentsSame fun _ => parentIn?_of_nested_none hnested) fun outer => ?_
      rw [slotIn_of_nested_none hnested henclosing, Links.getElem?_addChild]
  | mark hnested henclosing =>
      rw [hsize] at hnested henclosing
      exact h.grow (h.types_markNested hnested)
        (hparentsSame fun _ => parentIn?_of_enclosing_none henclosing)
        (hchildrenSame fun _ => slotIn_of_enclosing_none henclosing)
  | @again nested enclosing existing hnested henclosing hparent =>
      rw [hsize] at hnested henclosing
      have hplaced := h.lies_iff.mp hparent
      refine h.grow (h.types_of_named ?_) ?_ (hchildrenSame fun outer => ?_)
      · intro index hindex
        obtain rfl := Option.some.inj (hnested.symm.trans hindex)
        exact names_of_parent? hplaced
      · intro index
        rw [parentIn?_of_some hnested]
        split
        · rename_i hsame
          rw [← hsame, hparent]
          rfl
        · simp
      · rw [slotIn_append_self hnested henclosing, hplaced, if_neg nofun]
  | @adopt nested enclosing hnested henclosing horphan =>
      rw [hsize] at hnested henclosing
      have hinside := (Array.getElem?_eq_some_iff.mp horphan).1
      have hfree : parent? types.length rows nested = none := by
        rw [h.parent_eq (indexOf?_lt hnested)] at horphan
        exact Option.some.inj horphan
      refine h.grow (h.types_markNested hnested) ?_ ?_
      · intro index
        rw [Links.markNested_parents, Links.addChild_parents, Links.parents_setParent hinside,
          parentIn?_of_some hnested, henclosing]
        by_cases hsame : index = nested
        · rw [if_pos hsame, if_pos hsame.symm, hsame, horphan]
          rfl
        · rw [if_neg hsame, if_neg (Ne.symm hsame)]
          simp
      · intro outer
        rw [slotIn_append_self hnested henclosing, Links.markNested_children,
          Links.getElem?_addChild, Links.setParent_children]
        simp only [hfree, and_true]

theorem Linked.foldlM {others : List (Entry NestingRow)} (h : Linked types rows links)
    (hlinks : others.foldlM linkSilently links = .ok links') :
    Linked types (rows ++ others) links' := by
  induction others generalizing rows links with
  | nil =>
      cases hlinks
      rwa [List.append_nil]
  | cons row others ih =>
      rw [List.foldlM_cons, Except.bind_eq_ok] at hlinks
      obtain ⟨next, hnext, hrest⟩ := hlinks
      have hall := ih (h.link hnext) hrest
      rwa [List.append_assoc] at hall

/-- What all the rows lead to. -/
theorem linked_of_foldlM (hlinks : rows.foldlM linkSilently (Links.ofTypes types) = .ok links) :
    Linked types rows links := by
  have hlinked := (linked_ofTypes types).foldlM hlinks
  rwa [List.nil_append] at hlinked

end Nesting

end Unveil
