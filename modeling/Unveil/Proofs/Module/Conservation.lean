import Unveil.Proofs.Module.Backing
import Unveil.Proofs.Module.Framing

namespace Unveil

namespace MemberPool

variable {α : Type}

/-- The members still to be handed out. -/
def rest (pool : MemberPool α) : List α := pool.entries.toList.filterMap id

theorem rest_ofList (members : List α) (pointers? : Option (Array UInt32)) :
    (ofList members pointers?).rest = members := by
  simp [rest, ofList]

theorem length_rest (pool : MemberPool α) : pool.rest.length = pool.unclaimed := by
  rw [rest, unclaimed, List.length_filterMap_eq_countP, ← Array.countP_toList]
  rfl

/-- Taking an entry out leaves the others. -/
theorem perm_filterMap_set {entries : List (Option α)} {index : Nat} {member : α}
    (h : entries[index]? = some (some member)) :
    (member :: (entries.set index none).filterMap id).Perm (entries.filterMap id) := by
  induction entries generalizing index with
  | nil => simp at h
  | cons entry entries ih =>
      cases index with
      | zero =>
          obtain rfl : entry = some member := by simpa using h
          simp
      | succ index =>
          have hothers : (member :: (entries.set index none).filterMap id).Perm
              (entries.filterMap id) := ih (by simpa using h)
          cases entry with
          | none => simpa using hothers
          | some first =>
              simp only [List.set_cons_succ, List.filterMap_cons, id_eq]
              exact (List.Perm.swap first member _).trans (hothers.cons first)

/-- A claim moves at most one member out of the pool. -/
theorem claim_conserves (position : Nat) (pool : MemberPool α) :
    ((claim position pool).1.2.slot.toList ++ (claim position pool).2.rest).Perm pool.rest := by
  obtain ⟨entries, pointers?⟩ := pool
  unfold claim
  dsimp only
  split
  · exact .refl _
  · split
    · exact .refl _
    · exact .refl _
    · rename_i member hmember
      have hentry : entries.toList[(MemberPool.mk entries pointers?).rowOf position - 1]? =
          some (some member) := by
        rw [Array.getElem?_toList]
        exact hmember
      simp only [Claim.slot, Option.toList_some, List.singleton_append, rest,
        Array.toList_setIfInBounds]
      exact perm_filterMap_set hentry

theorem mapM_claim_conserves (places : List Nat) (pool : MemberPool α) :
    ((places.mapM claim pool).1.filterMap (fun claim => claim.2.slot) ++
      (places.mapM claim pool).2.rest).Perm pool.rest := by
  induction places generalizing pool with
  | nil => exact .refl _
  | cons place places ih =>
      have hfirst := claim_conserves place pool
      have hothers := ih (claim place pool).2
      have hstep : (place :: places).mapM claim pool =
          ((claim place pool).1 :: (places.mapM claim (claim place pool).2).1,
            (places.mapM claim (claim place pool).2).2) := by
        rw [List.mapM_cons]
        rfl
      rw [hstep]
      have hslots : (((claim place pool).1 :: (places.mapM claim (claim place pool).2).1).filterMap
          fun claim => claim.2.slot) = (claim place pool).1.2.slot.toList ++
            (places.mapM claim (claim place pool).2).1.filterMap fun claim => claim.2.slot := by
        rw [List.filterMap_cons]
        cases (claim place pool).1.2.slot with
        | none => rfl
        | some member => rfl
      rw [hslots, List.append_assoc]
      exact (hothers.append_left _).trans hfirst

theorem takeSlots_conserves (start finish : Nat) (pool : MemberPool α) :
    ((takeSlots start finish pool).1.filterMap id ++ (takeSlots start finish pool).2.rest).Perm
      pool.rest := by
  by_cases hempty : start = 0 ∨ finish < start
  · simp only [takeSlots, hempty, ↓reduceIte]
    exact .refl _
  · have hclaims := mapM_claim_conserves
      (List.range' start (min finish (pool.reach + 1) - start)) pool
    have hend : (if pool.reach + 1 < finish then [none] else [] : List (Option α)).filterMap id =
        [] := by
      split
      · rfl
      · rfl
    simp only [takeSlots, hempty, ↓reduceIte, List.filterMap_append, List.filterMap_map,
      Function.id_comp, hend, List.append_nil]
    exact hclaims

end MemberPool

namespace Forest

theorem filterMap_outlineGo (seen : List (Nat × Option TypeDecl)) (depth : Nat)
    (levels : List Forest) :
    (outline.go seen depth levels).filterMap (·.2) =
      seen.reverse.filterMap (·.2) ++ levels.flatMap preorder := by
  fun_induction outline.go seen depth levels with
  | case1 seen => simp
  | case2 seen depth levels ih => simpa [preorder] using ih
  | case3 seen depth rest levels ih => simpa [preorder] using ih
  | case4 seen depth type nested rest levels ih => simpa [preorder] using ih

/-- An outline shows every type, in the order of a walk. -/
theorem filterMap_outline (forest : Forest) :
    forest.outline.filterMap (·.2) = forest.preorder := by
  rw [outline, filterMap_outlineGo]
  simp

end Forest

namespace Nesting

/-- A row of types that are there has no empty slot. -/
theorem slots_of_present {types : Array TypeDecl} {built : Array Forest} {indexes : List Nat}
    {rest row : Forest} (hrest : none ∉ rest.slots)
    (h : indexes.foldlM (fun rest index => copySlot types built (some index) rest) rest =
      .ok row) : none ∉ row.slots := by
  induction indexes generalizing rest with
  | nil =>
      cases h
      exact hrest
  | cons index indexes ih =>
      rw [List.foldlM_cons, Except.bind_eq_ok] at h
      obtain ⟨next, hnext, hothers⟩ := h
      simp only [copySlot, Except.bind_eq_ok, Except.pure_eq_ok] at hnext
      obtain ⟨type, -, nested, -, rfl⟩ := hnext
      refine ih ?_ hothers
      rw [Forest.slots_present]
      simpa using hrest

theorem slots_assembleCopying {links : Links} {forest : Forest} (h : assembleCopying links = .ok forest) :
    none ∉ forest.slots := by
  simp only [assembleCopying, Except.bind_eq_ok] at h
  obtain ⟨_, -, built, -, hroots⟩ := h
  refine slots_of_present ?_ hroots
  simp [Forest.slots, Forest.slots.go]

end Nesting

namespace Module

open AttributeWords (methodsOf fieldsOf)

theorem length_filterMap_id {α : Type} (slots : List (Option α)) :
    (slots.filterMap id).length = slots.countP Option.isSome := by
  rw [List.length_filterMap_eq_countP]
  rfl

def Inventory.addSlot (inventory : Inventory) (slot : Nat × Option TypeDecl) : Inventory :=
  match slot.2 with
  | some type => inventory.addType type
  | none => { inventory with absent := inventory.absent + 1 }

/-- An inventory counts the types of an outline and what is in their slots. -/
theorem foldl_addSlot (outline : List (Nat × Option TypeDecl)) (start : Inventory) :
    (outline.foldl Inventory.addSlot start).types =
        start.types + (outline.filterMap (·.2)).length ∧
      (outline.foldl Inventory.addSlot start).methods =
        start.methods + (methodsOf (outline.filterMap (·.2))).length ∧
      (outline.foldl Inventory.addSlot start).fields =
        start.fields + (fieldsOf (outline.filterMap (·.2))).length := by
  induction outline generalizing start with
  | nil => simp [methodsOf, fieldsOf]
  | cons slot outline ih =>
      obtain ⟨depth, slot⟩ := slot
      obtain ⟨htypes, hmethods, hfields⟩ := ih (start.addSlot (depth, slot))
      rw [List.foldl_cons, htypes, hmethods, hfields]
      cases slot with
      | none => exact ⟨rfl, rfl, rfl⟩
      | some type =>
          simp only [Inventory.addSlot, Inventory.addType, List.filterMap_cons, List.length_cons,
            methodsOf, fieldsOf, List.flatMap_cons, List.length_append, length_filterMap_id]
          omega

theorem inventory_eq (module : Module) :
    module.inventory.types = module.types.preorder.length ∧
      module.inventory.methods = (methodsOf module.types.preorder).length ∧
      module.inventory.fields = (fieldsOf module.types.preorder).length := by
  have hfold : module.inventory = module.types.outline.foldl Inventory.addSlot ⟨0, 0, 0, 0⟩ := rfl
  obtain ⟨htypes, hmethods, hfields⟩ := foldl_addSlot module.types.outline ⟨0, 0, 0, 0⟩
  rw [Forest.filterMap_outline, Nat.zero_add] at htypes hmethods hfields
  rw [hfold]
  exact ⟨htypes, hmethods, hfields⟩

/-- The members in the slots of all declarations and those that are left are the
members there were. -/
theorem declare_conserves {strings : StringHeap} {entries : List (Entry TypeRow)}
    {pools left : Pools} {types : List TypeDecl}
    (h : declare strings entries pools = .ok (types, left)) :
    (methodsOf types ++ left.methods.rest).Perm pools.methods.rest ∧
      (fieldsOf types ++ left.fields.rest).Perm pools.fields.rest := by
  induction entries generalizing pools types with
  | nil =>
      cases h
      exact ⟨.refl _, .refl _⟩
  | cons entry entries ih =>
      simp only [declare, Except.bind_eq_ok, Except.pure_eq_ok, Prod.mk.injEq, Prod.exists] at h
      obtain ⟨type, between, htype, others, _, hothers, rfl, rfl⟩ := h
      rw [declareType_eq, Except.bind_eq_ok] at htype
      obtain ⟨_, hdescribe, hpair⟩ := htype
      cases hpair
      obtain ⟨-, -, hfields, hmethods⟩ := describeType_eq_ok hdescribe
      obtain ⟨hmethodsLeft, hfieldsLeft⟩ := ih hothers
      simp only [methodsOf, fieldsOf, List.flatMap_cons, List.append_assoc, hfields, hmethods]
      exact ⟨(hmethodsLeft.append_left _).trans (MemberPool.takeSlots_conserves ..),
        (hfieldsLeft.append_left _).trans (MemberPool.takeSlots_conserves ..)⟩

/-- Declarations of the rows of a table, one for each row and in their order. -/
structure Declares {ρ α : Type} (carries : Entry ρ → α → Prop) (rows : List (Entry ρ))
    (declared : List α) : Prop where
  length_eq : declared.length = rows.length
  carries : ∀ (k : Nat) (declaration : α), declared[k]? = some declaration →
    ∃ entry, rows[k]? = some entry ∧ entry.rid = k + 1 ∧ carries entry declaration

namespace Loaded

variable {image : Image} {module : Module}

theorem declares_types (loaded : Loaded image module) :
    Declares (TypeCarries loaded.strings) loaded.typeRows loaded.links.types.toList where
  length_eq := by
    rw [Array.length_toList, loaded.linked.types_size, loaded.length_declarations]
  carries k type hk := by
    rw [Array.getElem?_toList] at hk
    obtain ⟨entry, hentry, hcarries, -⟩ := loaded.link_eq hk
    exact ⟨entry, hentry, (loaded.shows_types.row_eq k entry hentry).1, hcarries⟩

theorem declares_methods (loaded : Loaded image module) :
    Declares (MethodCarries loaded.strings) loaded.methodRows loaded.methods where
  length_eq := (Except.getElem?_mapM loaded.methods_eq).1
  carries k method hk := by
    obtain ⟨entry, hentry, hof⟩ := (Except.getElem?_mapM loaded.methods_eq).2 k method hk
    exact ⟨entry, hentry, (loaded.shows_methods.row_eq k entry hentry).1, methodOf_carries hof⟩

theorem declares_fields (loaded : Loaded image module) :
    Declares (FieldCarries loaded.strings) loaded.fieldRows loaded.fields where
  length_eq := (Except.getElem?_mapM loaded.fields_eq).1
  carries k field hk := by
    obtain ⟨entry, hentry, hof⟩ := (Except.getElem?_mapM loaded.fields_eq).2 k field hk
    exact ⟨entry, hentry, (loaded.shows_fields.row_eq k entry hentry).1, fieldOf_carries hof⟩

/-- The forest has the types of the declarations, so the same members in its
slots. -/
theorem flatMap_preorder_perm (loaded : Loaded image module) {α : Type}
    (members : TypeDecl → List α)
    (hmarked : ∀ type nested, members { type with isNested := nested } = members type) :
    (module.types.preorder.flatMap members).Perm (loaded.declarations.flatMap members) := by
  have hsame : loaded.links.types.toList.map members = loaded.declarations.map members := by
    refine List.ext_getElem? fun k => ?_
    rw [List.getElem?_map, List.getElem?_map, Array.getElem?_toList, loaded.linked.types_eq k,
      Option.map_map]
    exact congrArg (Option.map · loaded.declarations[k]?) (funext fun type => hmarked type _)
  refine (loaded.preorder_perm.flatMap_right members).trans (.of_eq ?_)
  rw [List.flatMap_def, List.flatMap_def, hsame]

theorem methods_perm (loaded : Loaded image module) :
    (methodsOf module.types.preorder ++ loaded.pools.methods.rest).Perm loaded.methods := by
  have hdeclared := (declare_conserves loaded.declare_eq).1
  rw [MemberPool.rest_ofList] at hdeclared
  exact ((loaded.flatMap_preorder_perm _ fun _ _ => rfl).append_right _).trans hdeclared

theorem fields_perm (loaded : Loaded image module) :
    (fieldsOf module.types.preorder ++ loaded.pools.fields.rest).Perm loaded.fields := by
  have hdeclared := (declare_conserves loaded.declare_eq).2
  rw [MemberPool.rest_ofList] at hdeclared
  exact ((loaded.flatMap_preorder_perm _ fun _ _ => rfl).append_right _).trans hdeclared

end Loaded

/-- Loading conserves declarations. Every type row is one type in the forest, and
no slot of the outermost row is empty; the members in the slots of all types,
together with those that no list named, are one for each member row. Each says
what its row says, and the inventory counts accordingly. -/
theorem loading_conserves [Container.Reader] {data : Bytes} {module : Module} {journal after : Journal}
    (hload : Module.ofData data journal = .ok module after) :
    ∃ (image : Image) (loaded : Loaded image module) (declared : List TypeDecl) (log : Journal),
      Image.ofData data = .ok image ∧ module.tables = .ok loaded.tables ∧
      loaded.tables.rows TypeRow = .ok loaded.typeRows ∧
      loaded.tables.rows MethodRow = .ok loaded.methodRows ∧
      loaded.tables.rows FieldRow = .ok loaded.fieldRows ∧
      typesOf loaded.strings [] loaded.typeRows
        ⟨.ofList loaded.fields loaded.fieldPointers?,
          .ofList loaded.methods loaded.methodPointers?⟩ journal =
        .ok (loaded.declarations, loaded.pools) log ∧
      Declares (TypeCarries loaded.strings) loaded.typeRows declared ∧
      Declares (MethodCarries loaded.strings) loaded.methodRows loaded.methods ∧
      Declares (FieldCarries loaded.strings) loaded.fieldRows loaded.fields ∧
      module.types.preorder.Perm declared ∧ none ∉ module.types.slots ∧
      (methodsOf module.types.preorder ++ loaded.pools.methods.rest).Perm loaded.methods ∧
      (fieldsOf module.types.preorder ++ loaded.pools.fields.rest).Perm loaded.fields ∧
      module.inventory.types = loaded.tables.rowCount .typeDef ∧
      module.inventory.methods + loaded.pools.methods.unclaimed =
        loaded.tables.rowCount .methodDef ∧
      module.inventory.fields + loaded.pools.fields.unclaimed = loaded.tables.rowCount .field := by
  obtain ⟨image, himage, ⟨loaded⟩⟩ := ofData_iff_loaded.mp ⟨after, hload⟩
  have hyields := yields_declare loaded.narrow loaded.strings loaded.typeRows
  rw [loaded.declare_eq] at hyields
  obtain ⟨log, hlog⟩ : ∃ log, typesOf loaded.strings [] loaded.typeRows
      ⟨.ofList loaded.fields loaded.fieldPointers?,
        .ofList loaded.methods loaded.methodPointers?⟩ journal =
      .ok (loaded.declarations, loaded.pools) log := hyields.ok_iff.mpr rfl
  obtain ⟨htypes, hmethods, hfields⟩ := inventory_eq module
  have hmethodCount := loaded.methods_perm.length_eq
  have hfieldCount := loaded.fields_perm.length_eq
  rw [List.length_append, MemberPool.length_rest, ← hmethods, loaded.declares_methods.length_eq,
    loaded.shows_methods.length_eq] at hmethodCount
  rw [List.length_append, MemberPool.length_rest, ← hfields, loaded.declares_fields.length_eq,
    loaded.shows_fields.length_eq] at hfieldCount
  refine ⟨image, loaded, loaded.links.types.toList, log, himage, loaded.tables_eq,
    loaded.accepted.rows_eq_ok.mpr loaded.shows_types,
    loaded.accepted.rows_eq_ok.mpr loaded.shows_methods,
    loaded.accepted.rows_eq_ok.mpr loaded.shows_fields, hlog, loaded.declares_types,
    loaded.declares_methods, loaded.declares_fields, loaded.preorder_perm,
    Nesting.slots_assembleCopying loaded.types_eq, loaded.methods_perm, loaded.fields_perm, ?_,
    hmethodCount, hfieldCount⟩
  rw [htypes, loaded.preorder_perm.length_eq, loaded.declares_types.length_eq]
  exact loaded.shows_types.length_eq

open Framing in
/-- A module with types in types counts every declaration, and the slot of the type that
does not exist. -/
theorem loading_conserves_nested :
    ∃ after, Module.ofData nested #[] = .ok nestedModule after ∧
      ∃ (image : Image) (loaded : Loaded image nestedModule),
        none ∉ nestedModule.types.slots ∧ nestedModule.inventory = ⟨4, 2, 2, 1⟩ ∧
        loaded.tables.rowCount .typeDef = 4 ∧
        loaded.pools.methods.unclaimed = 0 ∧ loaded.pools.fields.unclaimed = 0 ∧
        (methodsOf nestedModule.types.preorder).Perm loaded.methods := by
  obtain ⟨after, hload⟩ := Module.ofData_eq_ok.mpr nested_loads
  obtain ⟨image, loaded, _, _, _, htables, -, -, -, -, -, -, -, -, hslots, hmethods, -, htypes,
    hmethodCount, hfieldCount⟩ := loading_conserves hload
  rw [nested_sound.rowCount_eq htables] at hmethodCount hfieldCount
  have hinventory : nestedModule.inventory = ⟨4, 2, 2, 1⟩ := by decide +kernel
  rw [hinventory] at htypes hmethodCount hfieldCount
  have hnone : loaded.pools.methods.unclaimed = 0 := Nat.add_left_cancel hmethodCount
  have hnone' : loaded.pools.fields.unclaimed = 0 := Nat.add_left_cancel hfieldCount
  have hempty : loaded.pools.methods.rest = [] :=
    List.eq_nil_of_length_eq_zero ((MemberPool.length_rest _).trans hnone)
  rw [hempty, List.append_nil] at hmethods
  exact ⟨after, hload, image, loaded, hslots, hinventory, htypes.symm, hnone, hnone', hmethods⟩

end Module

end Unveil
