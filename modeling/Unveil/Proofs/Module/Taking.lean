import Unveil.Proofs.Module.Assembly

/-!
Types taken to their places. The forest is put together from slots, and a slot is empty
once its type was taken. As every type has one place, no slot is looked at again after
that, and the forest is the one that is put together from copies.
-/

namespace Unveil

namespace Nesting

open Logged

theorem mapM_takeSlot_cons (child : Option Nat) (children : List (Option Nat)) (slots : Slots) :
    (child :: children).mapM takeSlot slots = (takeSlot child slots >>= fun first =>
      children.mapM takeSlot first.2 >>= fun others => pure (first.1 :: others.1, others.2)) := by
  rw [List.mapM_cons]
  rfl

/-- The types of these indexes are still in their slots, with the rows that copies
are made of. -/
structure Untaken (types : Array TypeDecl) (built : Array Forest) (slots : Slots)
    (indexes : List Nat) : Prop where
  size_slots : slots.size = types.size
  size_built : built.size = types.size
  held : ∀ index ∈ indexes, ∃ type nested, types[index]? = some type ∧
    built[index]? = some nested ∧ slots[index]? = some (some (type, nested))

namespace Untaken

variable {types : Array TypeDecl} {built : Array Forest} {slots : Slots} {indexes : List Nat}

theorem start (types : Array TypeDecl) {indexes : List Nat}
    (hinside : ∀ index ∈ indexes, index < types.size) :
    Untaken types (.replicate types.size .nil) (types.map fun type => some (type, .nil))
      indexes where
  size_slots := Array.size_map
  size_built := Array.size_replicate
  held index hindex := by
    have hlt := hinside index hindex
    exact ⟨types[index], .nil, by simp [hlt], by simp [hlt], by simp [hlt]⟩

/-- A type that is taken leaves those in other slots. -/
theorem take {index : Nat} (h : Untaken types built slots (index :: indexes))
    (hfresh : index ∉ indexes) :
    Untaken types built (slots.setIfInBounds index none) indexes where
  size_slots := Array.size_setIfInBounds.trans h.size_slots
  size_built := h.size_built
  held other hother := by
    have hdiffer : index ≠ other := by
      rintro rfl
      exact hfresh hother
    rw [Array.getElem?_setIfInBounds_ne hdiffer]
    exact h.held other (List.mem_cons_of_mem _ hother)

/-- Taking a row of children gives the row that copies of them give. -/
theorem mapM_takeSlot {children : List (Option Nat)}
    (h : Untaken types built slots (children.filterMap id ++ indexes))
    (hnodup : (children.filterMap id ++ indexes).Nodup) :
    ∃ row left, children.mapM takeSlot slots = .ok (row, left) ∧
      children.reverse.foldlM (fun rest child => copySlot types built child rest) .nil =
        .ok (.ofSlots row) ∧ Untaken types built left indexes := by
  induction children generalizing slots with
  | nil => exact ⟨[], slots, rfl, rfl, h⟩
  | cons child children ih =>
      rw [mapM_takeSlot_cons, List.reverse_cons, List.foldlM_append]
      cases child with
      | none =>
          obtain ⟨row, left, htaken, hcopied, hleft⟩ := ih h hnodup
          refine ⟨none :: row, left, ?_, ?_, hleft⟩
          · exact Except.bind_eq_ok.mpr ⟨(none, slots), rfl, Except.bind_eq_ok.mpr ⟨_, htaken, rfl⟩⟩
          · rw [hcopied]
            rfl
      | some index =>
          obtain ⟨hfresh, hothers⟩ := List.nodup_cons.mp hnodup
          obtain ⟨type, nested, htype, hnested, hslot⟩ := h.held index (List.mem_cons_self ..)
          obtain ⟨row, left, htaken, hcopied, hleft⟩ := ih (h.take hfresh) hothers
          have hhere : takeSlot (some index) slots =
              .ok (some (type, nested), slots.setIfInBounds index none) :=
            Except.bind_eq_ok.mpr ⟨_, itemAt_eq_ok.mpr hslot, rfl⟩
          refine ⟨some (type, nested) :: row, left, ?_, ?_, hleft⟩
          · exact Except.bind_eq_ok.mpr ⟨_, hhere, Except.bind_eq_ok.mpr ⟨_, htaken, rfl⟩⟩
          · rw [hcopied, Except.ok_bind, List.foldlM_cons, copySlot, itemAt_eq_ok.mpr htype,
              Except.ok_bind, itemAt_eq_ok.mpr hnested]
            rfl

/-- A type whose row is finished is in its slot with that row, if it is there at all. -/
theorem finish (h : Untaken types built slots indexes) {node : Nat}
    {held : Option (TypeDecl × Forest)} (hheld : slots[node]? = some held) (row : Forest) :
    Untaken types (built.setIfInBounds node row)
      (slots.setIfInBounds node (held.map fun (type, _) => (type, row))) indexes where
  size_slots := Array.size_setIfInBounds.trans h.size_slots
  size_built := Array.size_setIfInBounds.trans h.size_built
  held index hindex := by
    obtain ⟨type, nested, htype, hnested, hslot⟩ := h.held index hindex
    by_cases hsame : node = index
    · subst hsame
      obtain rfl := Option.some.inj (hheld.symm.trans hslot)
      refine ⟨type, row, htype, ?_, ?_⟩
      · exact Array.getElem?_setIfInBounds_self_of_lt (Array.getElem?_eq_some_iff.mp hnested).1
      · exact Array.getElem?_setIfInBounds_self_of_lt (Array.getElem?_eq_some_iff.mp hslot).1
    · refine ⟨type, nested, htype, ?_, ?_⟩
      · rwa [Array.getElem?_setIfInBounds_ne hsame]
      · rwa [Array.getElem?_setIfInBounds_ne hsame]

end Untaken

variable {types : List TypeDecl} {rows : List (Entry NestingRow)} {links : Links}
  {built : Array Forest} {slots : Slots} {indexes : List Nat}

/-- The types that stand in a type. -/
def childrenOf (count : Nat) (rows : List (Entry NestingRow)) (outer : Nat) : List Nat :=
  (childSlots count rows outer).filterMap id

/-- A type is completed as it is with copies. -/
theorem Untaken.complete {node : Nat} (h : Linked types rows links) (hnode : node < types.length)
    (huntaken : Untaken links.types built slots (childrenOf types.length rows node ++ indexes))
    (hnodup : (childrenOf types.length rows node ++ indexes).Nodup)
    (hbare : built[node]? = some .nil) :
    ∃ left built', Nesting.complete links slots node = .ok left ∧
      completeCopying links built node = .ok built' ∧ Untaken links.types built' left indexes ∧
      ∀ other, other ≠ node → built'[other]? = built[other]? := by
  have hchildren := itemAt_eq_ok.mpr (h.slots_eq hnode)
  obtain ⟨row, left, htaken, hcopied, hleft⟩ := huntaken.mapM_takeSlot hnodup
  have hcopying : completeCopying links built node = .ok (built.setIfInBounds node (.ofSlots row)) :=
    Except.bind_eq_ok.mpr ⟨_, hchildren, Except.bind_eq_ok.mpr ⟨_, hcopied, rfl⟩⟩
  have hothers (row : Forest) (other : Nat) (hother : other ≠ node) :
      (built.setIfInBounds node row)[other]? = built[other]? :=
    Array.getElem?_setIfInBounds_ne hother.symm
  rw [Nesting.complete, hchildren, Except.ok_bind]
  cases hslots : childSlots types.length rows node with
  | nil =>
      rw [hslots, List.mapM_nil] at htaken
      cases htaken
      have hsame : built.setIfInBounds node (.ofSlots []) = built := by
        apply Array.ext_getElem?
        intro index
        by_cases hindex : index = node
        · subst hindex
          rw [hbare]
          exact Array.getElem?_setIfInBounds_self_of_lt (Array.getElem?_eq_some_iff.mp hbare).1
        · exact hothers _ index hindex
      rw [hsame] at hcopying
      exact ⟨slots, built, rfl, hcopying, hsame ▸ hleft, fun _ _ => rfl⟩
  | cons child children =>
      have hinside : node < left.size := by rwa [hleft.size_slots, h.types_size]
      have hheld : left[node]? = some left[node] := Array.getElem?_eq_getElem hinside
      refine ⟨_, _, ?_, hcopying, hleft.finish hheld (.ofSlots row), hothers _⟩
      rw [← hslots, List.reverse_reverse, htaken, hslots, if_neg (by simp), Except.ok_bind]
      exact Except.bind_eq_ok.mpr ⟨_, itemAt_eq_ok.mpr hheld, rfl⟩

theorem Untaken.foldlM (h : Linked types rows links) {order : List Nat} (horder : order.Nodup)
    (hinside : ∀ node ∈ order, node < types.length)
    (huntaken : Untaken links.types built slots
      (order.flatMap (childrenOf types.length rows) ++ indexes))
    (hnodup : (order.flatMap (childrenOf types.length rows) ++ indexes).Nodup)
    (hbare : ∀ node ∈ order, built[node]? = some .nil) :
    ∃ left built', order.foldlM (Nesting.complete links) slots = .ok left ∧
      order.foldlM (completeCopying links) built = .ok built' ∧
      Untaken links.types built' left indexes := by
  induction order generalizing built slots with
  | nil => exact ⟨slots, built, rfl, rfl, huntaken⟩
  | cons node order ih =>
      rw [List.flatMap_cons, List.append_assoc] at huntaken hnodup
      obtain ⟨hfresh, horder⟩ := List.nodup_cons.mp horder
      obtain ⟨left, built', hcomplete, hcopying, hleft, hothers⟩ :=
        huntaken.complete h (hinside node (List.mem_cons_self ..)) hnodup
          (hbare node (List.mem_cons_self ..))
      rw [List.foldlM_cons, List.foldlM_cons, hcomplete, hcopying, Except.ok_bind, Except.ok_bind]
      refine ih horder (fun other hother => hinside other (List.mem_cons_of_mem _ hother)) hleft
        (List.nodup_append.mp hnodup).2.1 fun other hother => ?_
      rw [hothers other fun hsame => hfresh (hsame ▸ hother)]
      exact hbare other (List.mem_cons_of_mem _ hother)

section Places

variable (count : Nat) (rows : List (Entry NestingRow))

theorem count_filterMap_id (slots : List (Option Nat)) (index : Nat) :
    (slots.filterMap id).count index = slots.count (some index) := by
  induction slots with
  | nil => rfl
  | cons slot slots ih =>
      cases slot with
      | none => simpa using ih
      | some other =>
          have hcons : (some other :: slots).filterMap id = other :: slots.filterMap id := rfl
          rw [hcons, List.count_cons, List.count_cons, ih]
          simp only [beq_iff_eq, Option.some.injEq]

theorem mem_childrenOf {outer index : Nat} :
    index ∈ childrenOf count rows outer ↔ parent? count rows index = some outer := by
  rw [← mem_childSlots]
  simp [childrenOf]

theorem nodup_childrenOf (outer : Nat) : (childrenOf count rows outer).Nodup := by
  rw [List.nodup_iff_count_le_one]
  intro index
  rw [childrenOf, count_filterMap_id, count_childSlots]
  split
  · exact Nat.le_refl _
  · exact Nat.zero_le _

/-- Every type has one place: in one type, or in the outermost row. -/
theorem nodup_places {order : List Nat} (horder : order.Nodup) :
    (order.flatMap (childrenOf count rows) ++ (rootSlots count rows).filterMap id).Nodup := by
  refine List.nodup_append.mpr ⟨List.nodup_flatMap.mpr ⟨?_, ?_⟩, ?_, ?_⟩
  · exact fun outer _ => nodup_childrenOf count rows outer
  · refine horder.imp fun {outer other} hdiffer index houter hother => hdiffer ?_
    rw [mem_childrenOf] at houter hother
    exact Option.some.inj (houter.symm.trans hother)
  · rw [List.nodup_iff_count_le_one]
    intro index
    rw [count_filterMap_id, count_rootSlots]
    split
    · exact Nat.le_refl _
    · exact Nat.zero_le _
  · rintro index hchild _ hroot rfl
    obtain ⟨outer, -, houter⟩ := List.mem_flatMap.mp hchild
    rw [mem_childrenOf] at houter
    have hnone := (mem_rootSlots.mp (by simpa using hroot)).2
    cases houter.symm.trans hnone

theorem lt_of_mem_places (order : List Nat) {index : Nat}
    (hindex : index ∈ order.flatMap (childrenOf count rows) ++
      (rootSlots count rows).filterMap id) : index < count := by
  rcases List.mem_append.mp hindex with hchild | hroot
  · obtain ⟨outer, -, houter⟩ := List.mem_flatMap.mp hchild
    exact parent?_inside ((mem_childrenOf ..).mp houter)
  · exact (mem_rootSlots.mp (by simpa using hroot)).1

end Places

/-- The forest that is put together from the slots is the one put together from
copies. -/
theorem Linked.assemble_eq (h : Linked types rows links) :
    assemble links = assembleCopying links := by
  rw [assemble, assembleCopying]
  refine Except.bind_congr_ok fun found hfound => ?_
  have hperm := innermostFirst_perm found links.types.size
  have horder : (innermostFirst found links.types.size).Nodup :=
    hperm.nodup_iff.mpr List.nodup_range
  have hinside (node : Nat) (hnode : node ∈ innermostFirst found links.types.size) :
      node < types.length :=
    h.types_size ▸ List.mem_range.mp (hperm.mem_iff.mp hnode)
  have hplaces := nodup_places types.length rows horder
  have hbare (node : Nat) (hnode : node ∈ innermostFirst found links.types.size) :
      (Array.replicate links.types.size Forest.nil)[node]? = some .nil := by
    have hlt : node < links.types.size := h.types_size ▸ hinside node hnode
    simp [hlt]
  have huntaken := Untaken.start links.types fun _ hindex =>
    Nat.lt_of_lt_of_eq (lt_of_mem_places types.length rows
      (innermostFirst found links.types.size) hindex) h.types_size.symm
  obtain ⟨left, built, htaken, hcopied, hleft⟩ :=
    huntaken.foldlM h horder hinside hplaces hbare
  have hroots := (List.nodup_append.mp hplaces).2.1
  rw [← List.append_nil ((rootSlots types.length rows).filterMap id)] at hleft hroots
  obtain ⟨row, last, hrow, hforest, -⟩ := hleft.mapM_takeSlot hroots
  rw [← h.roots_eq] at hrow
  rw [← h.roots_eq, ← List.map_reverse, List.foldlM_map] at hforest
  refine Eq.trans (b := .ok (.ofSlots row)) ?_ ?_
  · exact Except.bind_eq_ok.mpr ⟨left, htaken, Except.bind_eq_ok.mpr ⟨(row, last), hrow, rfl⟩⟩
  · exact (Except.bind_eq_ok.mpr ⟨built, hcopied, hforest⟩).symm

theorem yields_build (types : List TypeDecl) (rows : List (Entry NestingRow)) :
    Yields (build types rows) (buildSilently types rows) :=
  (yields_foldlM yields_link _).bind fun _ hlinks =>
    (linked_of_foldlM hlinks).assemble_eq ▸ yields_lift _

end Nesting

end Unveil
