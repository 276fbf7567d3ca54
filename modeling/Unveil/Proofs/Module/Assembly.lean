import Unveil.Proofs.Declaration.Forest
import Unveil.Proofs.Module.Links
import Unveil.Proofs.Safety.Steps

namespace Unveil

namespace Nesting

/-- A row of slots in which the types of these indexes stand, each with the slots
of its own children, and the indexes of all types met in it, in preorder. -/
inductive Stands (declared : Nat → Option TypeDecl) (children : Nat → List (Option Nat)) :
    (slots : List (Option Nat)) → Forest → (met : List Nat) → Prop
  | nil : Stands declared children [] .nil []
  | absent {slots : List (Option Nat)} {rest : Forest} {met : List Nat}
      (hothers : Stands declared children slots rest met) :
      Stands declared children (none :: slots) (.absent rest) met
  | present {index : Nat} {type : TypeDecl} {slots : List (Option Nat)} {nested rest : Forest}
      {inner met : List Nat} (htype : declared index = some type)
      (hinner : Stands declared children (children index) nested inner)
      (hothers : Stands declared children slots rest met) :
      Stands declared children (some index :: slots) (.present type nested rest)
        (index :: (inner ++ met))

namespace Stands

variable {declared : Nat → Option TypeDecl} {children : Nat → List (Option Nat)}
  {slots : List (Option Nat)} {forest : Forest} {met : List Nat}

theorem declared_of_mem (h : Stands declared children slots forest met) {index : Nat}
    (hmem : index ∈ met) : ∃ type, declared index = some type := by
  induction h with
  | nil => cases hmem
  | absent _ ih => exact ih hmem
  | @present first type _ _ _ _ _ htype _ _ ihInner ihOthers =>
      rcases List.mem_cons.mp hmem with rfl | hlater
      · exact ⟨type, htype⟩
      · rcases List.mem_append.mp hlater with hinside | hbehind
        · exact ihInner hinside
        · exact ihOthers hbehind

/-- The slots leave no choice what the forest is. -/
theorem unique {forest' : Forest} {met' : List Nat}
    (h : Stands declared children slots forest met)
    (h' : Stands declared children slots forest' met') : forest = forest' ∧ met = met' := by
  induction h generalizing forest' met' with
  | nil =>
      cases h'
      exact ⟨rfl, rfl⟩
  | absent _ ih =>
      cases h' with
      | absent hothers =>
          obtain ⟨rfl, rfl⟩ := ih hothers
          exact ⟨rfl, rfl⟩
  | present htype _ _ ihInner ihOthers =>
      cases h' with
      | present htype' hinner hothers =>
          obtain rfl := Option.some.inj (htype.symm.trans htype')
          obtain ⟨rfl, rfl⟩ := ihInner hinner
          obtain ⟨rfl, rfl⟩ := ihOthers hothers
          exact ⟨rfl, rfl⟩

/-- The types that are met are those of the forest, in the order of a walk. -/
theorem map_declared (h : Stands declared children slots forest met) :
    met.map declared = forest.preorder.map some := by
  induction h with
  | nil => rfl
  | absent _ ih => exact ih
  | present htype _ _ ihInner ihOthers =>
      rw [List.map_cons, List.map_append, htype, ihInner, ihOthers, Forest.preorder, List.map_cons,
        List.map_append]

/-- A type is met once for each slot of the row that it stands in, and once for each
time that its parent is met. -/
theorem count_eq (h : Stands declared children slots forest met) {parent : Nat → Option Nat}
    (hchildren : ∀ outer index : Nat,
      (children outer).count (some index) = if parent index = some outer then 1 else 0)
    (index : Nat) :
    met.count index = slots.count (some index) + ((parent index).map met.count).getD 0 := by
  induction h with
  | nil =>
      cases parent index with
      | none => rfl
      | some outer => rfl
  | absent _ ih => simpa using ih
  | @present first type slots _ _ inner met htype _ _ ihInner ihOthers =>
      rw [List.count_cons, List.count_append, ihInner, ihOthers, hchildren first index,
        List.count_cons]
      cases hparent : parent index with
      | none =>
          simp only [Option.map_none, Option.getD_none, reduceCtorEq, ↓reduceIte, beq_iff_eq,
            Option.some.injEq]
          omega
      | some outer =>
          simp only [Option.map_some, Option.getD_some, Option.some.injEq, List.count_cons,
            List.count_append, beq_iff_eq, eq_comm (a := outer)]
          omega

/-- Where the rows of all children are known, a row of slots can be put together in
front of what is there. -/
theorem exists_slots {types : Array TypeDecl} {built : Array Forest}
    {children : Nat → List (Option Nat)} {slots others : List (Option Nat)} {rest : Forest}
    {met : List Nat} (hrest : Stands (types[·]?) children others rest met)
    (hslots : ∀ index, some index ∈ slots → index < types.size ∧
      ∃ nested inner, built[index]? = some nested ∧
        Stands (types[·]?) children (children index) nested inner) :
    ∃ row met', slots.reverse.foldlM (fun rest child => copySlot types built child rest) rest =
      .ok row ∧ Stands (types[·]?) children (slots ++ others) row met' := by
  induction slots with
  | nil => exact ⟨rest, met, rfl, hrest⟩
  | cons slot slots ih =>
      obtain ⟨row, behind, hrow, hbehind⟩ :=
        ih fun index hmem => hslots index (List.mem_cons_of_mem _ hmem)
      rw [List.reverse_cons, List.foldlM_append, hrow, Except.ok_bind, List.foldlM_cons]
      cases slot with
      | none => exact ⟨.absent row, behind, rfl, hbehind.absent⟩
      | some index =>
          obtain ⟨hinside, nested, inner, hbuilt, hinner⟩ := hslots index (List.mem_cons_self ..)
          have htype := Array.getElem?_eq_getElem hinside
          refine ⟨.present types[index] nested row, index :: (inner ++ behind), ?_,
            .present htype hinner hbehind⟩
          rw [copySlot, itemAt_of_lt hinside, Except.ok_bind, itemAt_eq_ok.mpr hbuilt]
          rfl

end Stands

variable {types : List TypeDecl} {rows : List (Entry NestingRow)} {links : Links}

/-- The types that are complete and those that are left, which go from the innermost
outwards. -/
structure Ordered (links : Links) (found : Array Nat) (done order : List Nat) : Prop where
  sorted : order.Pairwise fun earlier later => found.getD later 0 ≤ found.getD earlier 0
  mem_iff : ∀ index : Nat, index < links.types.size ↔ index ∈ done ∨ index ∈ order

namespace Ordered

variable {found : Array Nat} {done order : List Nat} {node : Nat}

theorem tail (hordered : Ordered links found done (node :: order)) :
    Ordered links found (node :: done) order where
  sorted := (List.pairwise_cons.mp hordered.sorted).2
  mem_iff index := by
    rw [hordered.mem_iff index, List.mem_cons, List.mem_cons]
    exact or_left_comm.trans or_assoc.symm

/-- All children of the next type are complete. -/
theorem children_done (hordered : Ordered links found done (node :: order))
    (hfound : depths links.types links.parents = .ok found) {child : Nat}
    (hinside : child < links.types.size) (hlies : links.parents[child]? = some (some node)) :
    child ∈ done := by
  have hless := (depths_lt hfound hlies).2
  rcases (hordered.mem_iff child).mp hinside with hmem | hmem
  · exact hmem
  · rcases List.mem_cons.mp hmem with rfl | hlater
    · omega
    · have hle := (List.pairwise_cons.mp hordered.sorted).1 child hlater
      omega

end Ordered

def innermostFirst (found : Array Nat) (count : Nat) : List Nat :=
  (List.range count).mergeSort fun a b => found.getD b 0 ≤ found.getD a 0

theorem innermostFirst_perm (found : Array Nat) (count : Nat) :
    (innermostFirst found count).Perm (List.range count) :=
  List.mergeSort_perm _ _

theorem innermostFirst_pairwise (found : Array Nat) (count : Nat) :
    (innermostFirst found count).Pairwise fun earlier later =>
      found.getD later 0 ≤ found.getD earlier 0 := by
  have hsorted := @List.pairwise_mergeSort _
    (fun a b => decide (found.getD b 0 ≤ found.getD a 0))
    (fun a b c hab hbc => by simp only [decide_eq_true_eq] at *; omega)
    (fun a b => by simp only [Bool.or_eq_true, decide_eq_true_eq]; omega)
    (List.range count)
  exact hsorted.imp of_decide_eq_true

/-- A type that is complete has its row, in which its children stand. -/
structure Standing (types : List TypeDecl) (rows : List (Entry NestingRow)) (links : Links)
    (done : List Nat) (built : Array Forest) : Prop where
  size_eq : built.size = links.types.size
  stands : ∀ index ∈ done, ∃ nested inner, built[index]? = some nested ∧
    Stands (links.types[·]?) (childSlots types.length rows)
      (childSlots types.length rows index) nested inner

/-- One more type is complete. -/
theorem Standing.complete {done : List Nat} {built : Array Forest}
    (hstanding : Standing types rows links done built) (h : Linked types rows links) {node : Nat}
    (hinside : node < links.types.size)
    (hall : ∀ child : Nat, links.parents[child]? = some (some node) → child ∈ done) :
    ∃ built', completeCopying links built node = .ok built' ∧
      Standing types rows links (node :: done) built' := by
  have hsize := h.types_size
  have hnode : node < types.length := hsize ▸ hinside
  have hslots (index : Nat) (hmem : some index ∈ childSlots types.length rows node) :
      index < links.types.size ∧ ∃ nested inner, built[index]? = some nested ∧
        Stands (links.types[·]?) (childSlots types.length rows)
          (childSlots types.length rows index) nested inner := by
    have hparent := mem_childSlots.mp hmem
    have hindex := parent?_inside hparent
    exact ⟨hsize ▸ hindex, hstanding.stands index (hall index (h.lies_iff.mpr hparent))⟩
  obtain ⟨row, met, hrow, hstands⟩ := Stands.exists_slots .nil hslots
  rw [List.append_nil] at hstands
  refine ⟨built.setIfInBounds node row, ?_, ?_, ?_⟩
  · rw [Nesting.completeCopying, itemAt_eq_ok.mpr (h.slots_eq hnode), Except.ok_bind, hrow]
    rfl
  · rw [Array.size_setIfInBounds, hstanding.size_eq]
  · intro index hmem
    by_cases hsame : index = node
    · subst hsame
      refine ⟨row, met, ?_, hstands⟩
      exact Array.getElem?_setIfInBounds_self_of_lt (hstanding.size_eq.symm ▸ hinside)
    · obtain ⟨nested, inner, hbuilt, hinner⟩ :=
        hstanding.stands index ((List.mem_cons.mp hmem).resolve_left hsame)
      refine ⟨nested, inner, ?_, hinner⟩
      rw [Array.getElem?_setIfInBounds_ne (Ne.symm hsame), hbuilt]

theorem Standing.exists_foldlM {found : Array Nat} {order done : List Nat}
    {built : Array Forest} (hstanding : Standing types rows links done built)
    (h : Linked types rows links) (hfound : depths links.types links.parents = .ok found)
    (hordered : Ordered links found done order) :
    ∃ built', order.foldlM (Nesting.completeCopying links) built = .ok built' ∧
      Standing types rows links (order.reverse ++ done) built' := by
  induction order generalizing done built with
  | nil => exact ⟨built, rfl, hstanding⟩
  | cons node order ih =>
      have hall (child : Nat) (hlies : links.parents[child]? = some (some node)) : child ∈ done := by
        apply hordered.children_done hfound _ hlies
        rw [h.types_size]
        exact parent?_inside (h.lies_iff.mp hlies)
      have hinside : node < links.types.size := (hordered.mem_iff node).mpr (by simp)
      obtain ⟨next, hnext, hstanding'⟩ := hstanding.complete h hinside hall
      rw [List.foldlM_cons, hnext, Except.ok_bind, List.reverse_cons, List.append_assoc]
      exact ih hstanding' hordered.tail

/-- In the forest of all types every type is met once. -/
theorem Linked.met_perm (h : Linked types rows links) {found : Array Nat}
    (hfound : depths links.types links.parents = .ok found) {forest : Forest} {met : List Nat}
    (hstands : Stands (links.types[·]?) (childSlots types.length rows)
      (rootSlots types.length rows) forest met) : met.Perm (List.range types.length) := by
  have hcount (index : Nat) := hstands.count_eq (count_childSlots types.length rows) index
  -- A type is met as often as the type around it, which is less deep, and the outermost once.
  have hone (depth index : Nat) (hindex : index < types.length)
      (hdepth : found.getD index 0 = depth) : met.count index = 1 := by
    induction depth using Nat.strongRecOn generalizing index with
    | ind depth ih =>
        rw [hcount index, count_rootSlots]
        cases hparent : parent? types.length rows index with
        | none => simp [hindex]
        | some outer =>
            have hless := (depths_lt hfound (h.lies_iff.mpr hparent)).2
            simpa using ih _ (hdepth ▸ hless) outer (parent?_lt hparent) rfl
  refine List.perm_iff_count.mpr fun index => ?_
  rw [List.nodup_range.count]
  by_cases hindex : index < types.length
  · rw [hone _ index hindex rfl, if_pos (List.mem_range.mpr hindex)]
  · rw [if_neg (hindex ∘ List.mem_range.mp), List.count_eq_zero]
    intro hmem
    obtain ⟨type, htype⟩ := hstands.declared_of_mem hmem
    exact hindex (h.types_size ▸ (Array.getElem?_eq_some_iff.mp htype).1)

theorem Linked.roots_eq (h : Linked types rows links) :
    ((List.range links.types.size).filter fun index =>
      (links.parents.getD index none).isNone).map some = rootSlots types.length rows := by
  rw [rootSlots, h.types_size]
  congr 1
  refine List.filter_congr fun index hindex => ?_
  rw [Array.getD_eq_getD_getElem?, h.parent_eq (List.mem_range.mp hindex)]
  rfl

/-- Once every type has a depth the forest is put together, and every type stands in
its place. -/
theorem Linked.exists_forest (h : Linked types rows links) {found : Array Nat}
    (hfound : depths links.types links.parents = .ok found) :
    ∃ forest met, assembleCopying links = .ok forest ∧
      Stands (links.types[·]?) (childSlots types.length rows)
        (rootSlots types.length rows) forest met ∧
      met.Perm (List.range types.length) := by
  have hsize := h.types_size
  have hperm := innermostFirst_perm found links.types.size
  have hstart : Standing types rows links [] (Array.replicate links.types.size .nil) :=
    ⟨Array.size_replicate, by simp⟩
  have hordered : Ordered links found [] (innermostFirst found links.types.size) := {
    sorted := innermostFirst_pairwise found links.types.size
    mem_iff := fun index => by simp [hperm.mem_iff] }
  obtain ⟨built, hbuilt, hstanding⟩ := hstart.exists_foldlM h hfound hordered
  have hslots (index : Nat) (hmem : some index ∈ rootSlots types.length rows) :
      index < links.types.size ∧ ∃ nested inner, built[index]? = some nested ∧
        Stands (links.types[·]?) (childSlots types.length rows)
          (childSlots types.length rows index) nested inner := by
    have hinside : index < links.types.size := by
      rw [hsize]
      exact (mem_rootSlots.mp hmem).1
    refine ⟨hinside, hstanding.stands index ?_⟩
    simpa [hperm.mem_iff] using hinside
  obtain ⟨forest, met, hforest, hstands⟩ := Stands.exists_slots .nil hslots
  rw [List.append_nil] at hstands
  refine ⟨forest, met, ?_, hstands, h.met_perm hfound hstands⟩
  rw [← h.roots_eq, ← List.map_reverse, List.foldlM_map] at hforest
  rw [assembleCopying, hfound, Except.ok_bind]
  exact (congrArg (· >>= _) hbuilt).trans hforest

/-- Wherever a forest has been put together, every type stands in its place. -/
theorem Linked.stands (h : Linked types rows links) {forest : Forest}
    (hforest : assembleCopying links = .ok forest) :
    ∃ met, Stands (links.types[·]?) (childSlots types.length rows)
        (rootSlots types.length rows) forest met ∧
      met.Perm (List.range types.length) := by
  have hdepths := hforest
  simp only [assembleCopying, Except.bind_eq_ok] at hdepths
  obtain ⟨found, hfound, -⟩ := hdepths
  obtain ⟨forest', met, hforest', hstands, hperm⟩ := h.exists_forest hfound
  obtain rfl : forest = forest' := Except.ok.inj (hforest.symm.trans hforest')
  exact ⟨met, hstands, hperm⟩

/-- The forest holds every type exactly once. -/
theorem Linked.preorder_perm (h : Linked types rows links) {forest : Forest}
    (hforest : assembleCopying links = .ok forest) : forest.preorder.Perm links.types.toList := by
  obtain ⟨met, hstands, hperm⟩ := h.stands hforest
  have hall : (List.range types.length).map (links.types[·]?) = links.types.toList.map some := by
    apply List.ext_getElem
    · simp [h.types_size]
    · intro index hindex _
      have hinside : index < links.types.size := by simpa [h.types_size] using hindex
      simp [hinside]
  have hsome := hperm.map (links.types[·]?)
  rw [hstands.map_declared, hall] at hsome
  simpa using hsome.filterMap id

end Nesting

end Unveil
