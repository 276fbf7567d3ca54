import Unveil.Proofs.Safety.Counters
import Unveil.Proofs.Safety.Loading
import Unveil.Proofs.Writing.Counting

/-!
A load never traps, nor does anything that is done with a module once it is
loaded: an inventory, a pass, or reading the tables again. What can be counted is
few. There is a type for each type row, a type has no more slots than there are
positions to name, and an absent slot among nested types is there for a nesting
row; and all rows lie in metadata of which there is not much.
-/

namespace Unveil

namespace Forest

/-- The absent slots of a forest, of the types nested in it too. -/
def absents : Forest → Nat
  | nil => 0
  | absent rest => rest.absents + 1
  | present _ nested rest => nested.absents + rest.absents

theorem countP_outlineGo (seen : List (Nat × Option TypeDecl)) (depth : Nat)
    (levels : List Forest) :
    (outline.go seen depth levels).countP (·.2.isNone) =
      seen.countP (·.2.isNone) + total (levels.map absents) := by
  fun_induction outline.go seen depth levels with
  | case1 seen => simp
  | case2 seen depth levels ih => simpa [absents] using ih
  | case3 seen depth rest levels ih =>
      simp only [ih, List.countP_cons, List.map_cons, total_cons, absents, Option.isNone_none,
        ↓reduceIte]
      omega
  | case4 seen depth type nested rest levels ih =>
      simp only [ih, List.countP_cons, List.map_cons, total_cons, absents, Option.isNone_some,
        Bool.false_eq_true, ↓reduceIte]
      omega

/-- An outline shows every absent slot. -/
theorem countP_outline (forest : Forest) :
    forest.outline.countP (·.2.isNone) = forest.absents := by
  rw [outline, countP_outlineGo]
  simp

/-- There are few absent slots: some in the outermost row, and for each type no
more than `crowd` in the row nested in it. -/
def Sparse (crowd own : Nat) (forest : Forest) : Prop :=
  forest.absents ≤ own + crowd * forest.preorder.length

end Forest

namespace Nesting

variable {types : List TypeDecl} {rows : List (Entry NestingRow)} {links : Links}
  {built : Array Forest} {crowd own : Nat}

/-- The rows of complete types are no more crowded than allowed. -/
def AllSparse (crowd : Nat) (built : Array Forest) : Prop :=
  ∀ (index : Nat) (row : Forest), built[index]? = some row → row.Sparse crowd crowd

theorem sparse_copySlot {types : Array TypeDecl} {child : Option Nat} {rest row : Forest}
    (hbuilt : AllSparse crowd built) (hrest : rest.Sparse crowd own)
    (h : copySlot types built child rest = .ok row) : row.Sparse crowd (own + 1) := by
  unfold Forest.Sparse at hrest
  cases child with
  | none =>
      cases h
      simp only [Forest.Sparse, Forest.absents, Forest.preorder]
      omega
  | some index =>
      simp only [copySlot, Except.bind_eq_ok, Except.pure_eq_ok, itemAt_eq_ok] at h
      obtain ⟨type, -, nested, hnested, rfl⟩ := h
      have hrow := hbuilt index nested hnested
      unfold Forest.Sparse at hrow
      simp only [Forest.Sparse, Forest.absents, Forest.preorder, List.length_cons,
        List.length_append, Nat.mul_add, Nat.mul_one]
      omega

theorem sparse_slots {types : Array TypeDecl} {children : List (Option Nat)} {rest row : Forest}
    (hbuilt : AllSparse crowd built) (hrest : rest.Sparse crowd own)
    (h : children.foldlM (fun rest child => copySlot types built child rest) rest = .ok row) :
    row.Sparse crowd (own + children.length) := by
  induction children generalizing rest own with
  | nil =>
      cases h
      exact hrest
  | cons child children ih =>
      rw [List.foldlM_cons, Except.bind_eq_ok] at h
      obtain ⟨next, hnext, hothers⟩ := h
      have hrow := ih (sparse_copySlot hbuilt hrest hnext) hothers
      rwa [Nat.add_assoc, Nat.add_comm 1] at hrow

/-- A type has no more slots than there are rows. -/
theorem Linked.length_children_le (h : Linked types rows links) {outer : Nat}
    {children : List (Option Nat)} (hchildren : links.children[outer]? = some children) :
    children.length ≤ rows.length := by
  rw [h.children_eq outer, Option.map_eq_some_iff] at hchildren
  obtain ⟨_, -, rfl⟩ := hchildren
  rw [List.length_reverse]
  exact length_childSlots_le types.length rows outer

theorem Linked.sparse_complete (h : Linked types rows links) {built' : Array Forest} {node : Nat}
    (hbuilt : AllSparse rows.length built) (hcomplete : completeCopying links built node = .ok built') :
    AllSparse rows.length built' := by
  simp only [completeCopying, Except.bind_eq_ok, Except.pure_eq_ok, itemAt_eq_ok] at hcomplete
  obtain ⟨children, hchildren, row, hrow, rfl⟩ := hcomplete
  have hempty : Forest.nil.Sparse rows.length 0 := Nat.zero_le _
  have hsparse := sparse_slots hbuilt hempty hrow
  intro index other hother
  rw [Array.getElem?_setIfInBounds] at hother
  split at hother
  · split at hother
    · cases hother
      have hlength := h.length_children_le hchildren
      unfold Forest.Sparse at hsparse ⊢
      omega
    · cases hother
  · exact hbuilt index other hother

/-- There are at most as many absent slots as nesting rows, for each type and
once more for the top level. -/
theorem Linked.absents_le (h : Linked types rows links) {forest : Forest}
    (hforest : assembleCopying links = .ok forest) :
    forest.absents ≤ types.length + rows.length * types.length := by
  have hlength : forest.preorder.length = types.length := by
    rw [(h.preorder_perm hforest).length_eq, Array.length_toList, h.types_size]
  simp only [assembleCopying, Except.bind_eq_ok] at hforest
  obtain ⟨found, -, built, hbuilt, hroots⟩ := hforest
  have hstart : AllSparse rows.length (Array.replicate links.types.size .nil) := by
    intro index row hrow
    simp only [Array.getElem?_replicate, Option.ite_none_right_eq_some, Option.some.injEq] at hrow
    rw [← hrow.2]
    exact Nat.zero_le _
  have hsparse : AllSparse rows.length built :=
    Except.inside_foldlM hstart (fun _ _ _ _ hbefore hnext => h.sparse_complete hbefore hnext) hbuilt
  have hslots : (((List.range links.types.size).filter fun index =>
      (links.parents.getD index none).isNone).reverse.map some).foldlM
        (fun rest child => copySlot links.types built child rest) .nil = .ok forest := by
    rw [List.foldlM_map]
    exact hroots
  have hempty : Forest.nil.Sparse rows.length 0 := Nat.zero_le _
  have hrow := sparse_slots hsparse hempty hslots
  have hcount := List.length_filter_le
    (fun index => (links.parents.getD index none).isNone) (List.range links.types.size)
  rw [List.length_range, h.types_size] at hcount
  rw [h.types_size] at hrow
  unfold Forest.Sparse at hrow
  rw [List.length_map, List.length_reverse, hlength] at hrow
  omega

end Nesting

theorem total_map_le {α : Type} {weight : α → Nat} {items : List α} {bound : Nat}
    (h : ∀ item ∈ items, weight item ≤ bound) :
    total (items.map weight) ≤ items.length * bound := by
  induction items with
  | nil => exact Nat.zero_le _
  | cons item items ih =>
      have hfirst := h item (List.mem_cons_self ..)
      have hothers := ih fun other hother => h other (List.mem_cons_of_mem _ hother)
      rw [List.map_cons, total_cons, List.length_cons, Nat.succ_mul]
      omega

/-- A type has a slot at most for each position, and one more. -/
theorem MemberPool.length_slots_le {α : Type} {members : List α}
    {pointers? : Option (Array UInt32)} {reach : Nat} {named : List Nat}
    {lists : List (Nat × Nat)} {slots : List (Option α)}
    (h : slots ∈ slotsFrom members pointers? (reach + 1) named lists) :
    slots.length ≤ reach + 1 := by
  have hslots (named rows : List Nat) : (slotsOf members named rows).length = rows.length := by
    induction rows generalizing named with
    | nil => rfl
    | cons row rows ih => rw [slotsOf, List.length_cons, List.length_cons, ih]
  induction lists generalizing named with
  | nil => cases h
  | cons list lists ih =>
      obtain ⟨start, finish⟩ := list
      rcases List.mem_cons.mp h with rfl | hlater
      · rw [List.length_append, hslots, List.length_map]
        unfold positions pastEnd
        split
        · exact Nat.zero_le _
        · rw [List.length_range']
          split
          · rw [List.length_singleton]
            omega
          · rw [List.length_nil]
            omega
      · exact ih hlater

namespace Module

namespace Inventory

/-- The slots of a type that are empty. -/
def emptySlots (type : TypeDecl) : Nat :=
  type.methods.countP Option.isNone + type.fields.countP Option.isNone

/-- An inventory counts the absent types of an outline and the empty slots of
those that are there. -/
theorem absent_foldl (outline : List (Nat × Option TypeDecl)) (start : Inventory) :
    (outline.foldl addSlot start).absent = start.absent + outline.countP (·.2.isNone) +
      total ((outline.filterMap (·.2)).map emptySlots) := by
  induction outline generalizing start with
  | nil => rfl
  | cons slot outline ih =>
      obtain ⟨depth, slot⟩ := slot
      rw [List.foldl_cons, ih, List.countP_cons]
      cases slot with
      | none =>
          simp only [addSlot, Option.isNone_none, ↓reduceIte, List.filterMap_cons]
          omega
      | some type =>
          simp only [addSlot, addType, Option.isNone_some, Bool.false_eq_true, ↓reduceIte,
            List.filterMap_cons, List.map_cons, total_cons, emptySlots]
          omega

end Inventory

theorem absent_inventory (module : Module) : module.inventory.absent =
    module.types.absents + total (module.types.preorder.map Inventory.emptySlots) := by
  have hfold : module.inventory = module.types.outline.foldl Inventory.addSlot ⟨0, 0, 0, 0⟩ := rfl
  rw [hfold, Inventory.absent_foldl, Forest.countP_outline, Forest.filterMap_outline, Nat.zero_add]

namespace Loaded

variable {image : Image} {module : Module}

open RuntimeHeader (metadataLimit)
open AttributeWords (methodsOf fieldsOf)

theorem length_rows (loaded : Loaded image module) {ρ : Type} [TypedRow ρ] [Schema ρ]
    {rows : List (Entry ρ)} (h : loaded.tables.Shows rows) : rows.length ≤ metadataLimit := by
  rw [h.length_eq]
  exact Nat.le_trans (loaded.accepted.rowCount_le _) loaded.size_stream

theorem length_preorder (loaded : Loaded image module) :
    module.types.preorder.length ≤ metadataLimit := by
  rw [loaded.preorder_perm.length_eq, loaded.declares_types.length_eq]
  exact loaded.length_rows loaded.shows_types

theorem length_methods_le (loaded : Loaded image module) :
    loaded.methods.length ≤ metadataLimit := by
  rw [loaded.declares_methods.length_eq]
  exact loaded.length_rows loaded.shows_methods

theorem length_fields_le (loaded : Loaded image module) :
    loaded.fields.length ≤ metadataLimit := by
  rw [loaded.declares_fields.length_eq]
  exact loaded.length_rows loaded.shows_fields

/-- Every slot with a method was granted one of its own. -/
theorem length_methodsOf (loaded : Loaded image module) :
    (methodsOf module.types.preorder).length ≤ metadataLimit := by
  have hall := loaded.methods_perm.length_eq
  have hlimit := loaded.length_methods_le
  rw [List.length_append] at hall
  omega

theorem length_fieldsOf (loaded : Loaded image module) :
    (fieldsOf module.types.preorder).length ≤ metadataLimit := by
  have hall := loaded.fields_perm.length_eq
  have hlimit := loaded.length_fields_le
  rw [List.length_append] at hall
  omega

theorem reach_methods (loaded : Loaded image module) :
    MemberPool.reachVia loaded.methods loaded.methodPointers? ≤ metadataLimit :=
  reachVia_le loaded.length_methods_le fun pointers hsome => Nat.le_trans
    (size_pointers loaded.accepted loaded.methodPointers_eq pointers hsome) loaded.size_stream

theorem reach_fields (loaded : Loaded image module) :
    MemberPool.reachVia loaded.fields loaded.fieldPointers? ≤ metadataLimit :=
  reachVia_le loaded.length_fields_le fun pointers hsome => Nat.le_trans
    (size_pointers loaded.accepted loaded.fieldPointers_eq pointers hsome) loaded.size_stream

theorem emptySlots_le (loaded : Loaded image module) {type : TypeDecl}
    (htype : type ∈ module.types.preorder) :
    Inventory.emptySlots type ≤ 2 * (metadataLimit + 1) := by
  obtain ⟨_, _, _, _, _, hfields, hmethods⟩ := loaded.type_eq htype
  have hfieldSlots := MemberPool.length_slots_le (List.mem_of_getElem? hfields)
  have hmethodSlots := MemberPool.length_slots_le (List.mem_of_getElem? hmethods)
  have hreachFields := loaded.reach_fields
  have hreachMethods := loaded.reach_methods
  have hemptyFields := List.countP_le_length (p := Option.isNone) (l := type.fields)
  have hemptyMethods := List.countP_le_length (p := Option.isNone) (l := type.methods)
  unfold Inventory.emptySlots
  omega

theorem absents_le (loaded : Loaded image module) :
    module.types.absents ≤ metadataLimit + metadataLimit * metadataLimit := by
  have habsents := loaded.linked.absents_le loaded.types_eq
  have htypes : loaded.declarations.length ≤ metadataLimit :=
    loaded.length_declarations ▸ loaded.length_rows loaded.shows_types
  exact Nat.le_trans habsents (Nat.add_le_add htypes
    (Nat.mul_le_mul (loaded.length_rows loaded.shows_nesting) htypes))

theorem small_inventory (loaded : Loaded image module) : module.inventory.Small := by
  obtain ⟨htypes, hmethods, hfields⟩ := inventory_eq module
  have hfew : metadataLimit < Size.limit := by decide
  refine ⟨?_, ?_, ?_, ?_⟩
  · exact htypes ▸ Nat.lt_of_le_of_lt loaded.length_preorder hfew
  · exact hmethods ▸ Nat.lt_of_le_of_lt loaded.length_methodsOf hfew
  · exact hfields ▸ Nat.lt_of_le_of_lt loaded.length_fieldsOf hfew
  · have hslots := total_map_le fun type htype => loaded.emptySlots_le htype
    have hall := Nat.le_trans hslots (Nat.mul_le_mul_right _ loaded.length_preorder)
    rw [absent_inventory]
    exact Nat.lt_of_le_of_lt (Nat.add_le_add loaded.absents_le hall) (by decide)

theorem small_hidden (loaded : Loaded image module) :
    (Tally.sum (module.types.preorder.map TypeDecl.hidden)).Small := by
  have hfew : metadataLimit < Size.limit := by decide
  rw [Forest.sum_hidden]
  exact ⟨Nat.lt_of_le_of_lt (Nat.le_trans List.countP_le_length loaded.length_preorder) hfew,
    Nat.lt_of_le_of_lt (Nat.le_trans List.countP_le_length loaded.length_methodsOf) hfew,
    Nat.lt_of_le_of_lt (Nat.le_trans List.countP_le_length loaded.length_fieldsOf) hfew⟩

end Loaded

/-- Loading never traps. For all bytes, a load whose every index, slice, shift
and sum has to fit comes to what a load comes to, and to no trap. With a module
that was loaded, the same holds of an inventory and of a pass, in whichever way
the partial tallies are shared out; and its tables can be read again, and are
those that the load has read. -/
theorem loading_never_traps [Container.LawfulReader] (data : Bytes) :
    Logged.Yields (ofData data) (ofDataStrictly data) ∧ ofDataStrictly data ≠ .error .trap ∧
      ∀ module, ofDataStrictly data = .ok module →
        module.inventoryStrictly = .ok module.inventory ∧
        (∀ share parallel, (∀ tallies, (share tallies).tallies = tallies) →
          ∃ unveiled, module.unveilStrictly share = .ok unveiled ∧
            Logged.Yields (module.unveil parallel) (.ok unveiled)) ∧
        ∃ loaded : Loaded module.image module,
          module.tablesStrictly = .ok loaded.tables ∧ module.tables = .ok loaded.tables := by
  obtain ⟨hstrict, hplain⟩ := safe_ofData data
  rw [hstrict]
  have hyields : Logged.Yields (ofData data) (ofDataSilently data) :=
    (Logged.yields_lift _).bind fun image _ => yields_load image
  refine ⟨hyields, hplain, fun module hmodule => ?_⟩
  obtain ⟨after, hload⟩ : ∃ after, ofData data #[] = .ok module after := ofData_eq_ok.mpr hmodule
  obtain ⟨⟨loaded⟩, -, -⟩ := loaded_of_ofData hload
  refine ⟨inventoryStrictly_eq loaded.small_inventory, fun share parallel hshare =>
    yields_unveil hshare loaded.small_hidden parallel, loaded, ?_, loaded.tables_eq⟩
  have hsize : loaded.stream.size + 4 < Size.limit :=
    Nat.lt_of_le_of_lt (Nat.add_le_add_right loaded.size_stream 4) (by decide)
  rw [tablesStrictly, loaded.slice_stream, Except.ok_bind, (TablesStream.safe_ofData hsize).eq]
  exact TablesStream.ofData_eq_ok.mpr loaded.accepted

open Framing in
/-- The smallest module is loaded, counted and made public without a trap. -/
theorem loading_never_traps_plain :
    ofDataStrictly plain = .ok plainModule ∧
      plainModule.inventoryStrictly = .ok ⟨1, 1, 1, 0⟩ ∧
      (∃ unveiled, plainModule.unveilStrictly Tallying.inTurn = .ok unveiled) ∧
      (∃ unveiled, plainModule.unveilStrictly Tallying.halving = .ok unveiled) ∧
      ∃ tables, plainModule.tablesStrictly = .ok tables := by
  have hload : ofDataStrictly plain = .ok plainModule := (safe_ofData plain).eq.trans plain_loads
  obtain ⟨-, -, hall⟩ := loading_never_traps plain
  obtain ⟨hinventory, hunveil, loaded, htables, -⟩ := hall plainModule hload
  have hcounts : plainModule.inventory = ⟨1, 1, 1, 0⟩ := by decide +kernel
  obtain ⟨inTurn, hinTurn, -⟩ := hunveil Tallying.inTurn false Tallying.tallies_inTurn
  obtain ⟨byHalves, hbyHalves, -⟩ := hunveil Tallying.halving true Tallying.tallies_halving
  exact ⟨hload, hcounts ▸ hinventory, ⟨inTurn, hinTurn⟩, ⟨byHalves, hbyHalves⟩,
    loaded.tables, htables⟩

end Module

end Unveil
