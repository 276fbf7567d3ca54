import Unveil.Proofs.Declaration.Forest
import Unveil.Proofs.Module.Declarations
import Unveil.Proofs.Module.Depths

/-!
A forest of other types. Where types are nested depends on how many there are
and on what the nesting rows say of them; of a type itself only the token is
looked at, and nothing but the mark of nesting is changed. So types that have
been changed in other ways come to the same places.
-/

namespace Unveil

section Loops

variable {α β γ δ : Type}

/-- A loop over changed items that comes to changed results. -/
theorem Except.mapM_map {f : α → Except Fault β} {f' : γ → Except Fault δ} {g : α → γ} {h : β → δ}
    {items : List α} (hstep : ∀ item ∈ items, f' (g item) = h <$> f item) :
    (items.map g).mapM f' = List.map h <$> items.mapM f := by
  induction items with
  | nil => rfl
  | cons item items ih =>
      have hothers := ih fun other hother => hstep other (List.mem_cons_of_mem _ hother)
      rw [List.map_cons, List.mapM_cons, List.mapM_cons, hstep item (List.mem_cons_self ..), hothers]
      simp only [map_eq_pure_bind, bind_assoc, pure_bind, List.map_cons]

/-- A loop from a changed start that comes to a changed end. -/
theorem Except.foldlM_map (g : β → γ) {f : β → α → Except Fault β} {f' : γ → α → Except Fault γ}
    (hstep : ∀ state item, f' (g state) item = g <$> f state item) (items : List α) (start : β) :
    items.foldlM f' (g start) = g <$> items.foldlM f start := by
  induction items generalizing start with
  | nil => rfl
  | cons item items ih =>
      rw [List.foldlM_cons, List.foldlM_cons, hstep]
      simp only [map_eq_pure_bind, bind_assoc, pure_bind]
      refine bind_congr fun next => ?_
      rw [ih next, map_eq_pure_bind]

theorem itemAt_map (f : α → β) (items : Array α) (index : Nat) :
    itemAt (items.map f) index = f <$> itemAt items index := by
  unfold itemAt
  rw [Array.getElem?_map]
  cases items[index]? with
  | none => rfl
  | some item => rfl

end Loops

/-- A change that leaves alone what nesting looks at, and does not look at the
mark that nesting makes. -/
structure TypeDecl.Recasts (change : TypeDecl → TypeDecl) : Prop where
  token_eq : ∀ type, (change type).token = type.token
  mark_eq : ∀ type, change { type with isNested := true } =
    { change type with isNested := true }

namespace Nesting

open TypeDecl (Recasts)

/-- The links between changed types. -/
def Links.recast (links : Links) (change : TypeDecl → TypeDecl) : Links :=
  { links with types := links.types.map change }

variable {change : TypeDecl → TypeDecl}

theorem tokenAt_map (h : Recasts change) (types : Array TypeDecl) (index : Nat) :
    tokenAt (types.map change) index = tokenAt types index := by
  unfold tokenAt
  rw [itemAt_map, map_eq_pure_bind, bind_assoc]
  refine bind_congr fun type => ?_
  rw [pure_bind, h.token_eq]

theorem Links.markNested_recast (h : Recasts change) (links : Links) (index : Nat) :
    (links.recast change).markNested index = (links.markNested index).recast change := by
  have htypes : ((links.types.map change).modify index fun type => { type with isNested := true }) =
      (links.types.modify index fun type => { type with isNested := true }).map change := by
    apply Array.ext_getElem?
    intro place
    simp only [Array.getElem?_modify, Array.getElem?_map]
    split
    · rw [Option.map_map, Option.map_map]
      refine Option.map_congr fun type _ => ?_
      exact (h.mark_eq type).symm
    · rfl
  simp only [recast, markNested, htypes]

theorem linkSilently_recast (h : Recasts change) (links : Links) (row : Entry NestingRow) :
    linkSilently (links.recast change) row = (·.recast change) <$> linkSilently links row := by
  have hcount : (links.recast change).types.size = links.types.size := Array.size_map
  have htoken (index : Nat) :
      tokenAt (links.recast change).types index = tokenAt links.types index :=
    tokenAt_map h links.types index
  unfold linkSilently
  simp only [hcount, htoken]
  generalize indexOf? links.types.size row.row.nested = nested?
  generalize indexOf? links.types.size row.row.enclosing = enclosing?
  cases nested? with
  | none =>
      cases enclosing? with
      | none => rfl
      | some enclosing =>
          simp only [map_eq_pure_bind, bind_assoc, pure_bind]
          rfl
  | some nested =>
      cases enclosing? with
      | none =>
          simp only [map_eq_pure_bind, bind_assoc, pure_bind, links.markNested_recast h]
      | some enclosing =>
          simp only [map_eq_pure_bind, bind_assoc]
          refine bind_congr fun token => ?_
          by_cases hsame : nested = enclosing
          · simp only [hsame, ↓reduceIte]
            rfl
          · simp only [hsame, ↓reduceIte, bind_assoc]
            refine bind_congr fun parent => ?_
            cases parent with
            | some existing => simp only [bind_assoc, pure_bind]
            | none =>
                simp only [pure_bind]
                refine congrArg pure (Eq.trans ?_ (Links.markNested_recast h _ nested))
                rfl

/-- On a climb only the tokens of types are looked at. -/
theorem climb_map (h : Recasts change) (types : Array TypeDecl) (parents : Array (Option Nat))
    (visits : Array Visit) (path : List Nat) (current : Option Nat) :
    climb (types.map change) parents visits path current =
      climb types parents visits path current := by
  induction visits, path, current using climb.induct types parents with
  | case1 visits path => rw [climb, climb]
  | case2 visits path node inside depth hdone => grind [climb]
  | case3 visits path node inside hactive token htoken => grind [climb, tokenAt_map]
  | case4 visits path node inside hactive fault hfault => grind [climb, tokenAt_map]
  | case5 visits path node inside hpending parent hparent ih => grind [climb, tokenAt_map]
  | case6 visits path node inside hpending fault hfault => grind [climb, tokenAt_map]
  | case7 visits path node outside => rw [climb, climb, dif_neg outside, dif_neg outside]

theorem depths_map (h : Recasts change) (types : Array TypeDecl) (parents : Array (Option Nat)) :
    depths (types.map change) parents = depths types parents := by
  have hexplore : explore (types.map change) parents = explore types parents := by
    funext visits start
    rw [explore, explore, climb_map h]
  rw [depths, depths, hexplore]

theorem copySlot_map (change : TypeDecl → TypeDecl) (types : Array TypeDecl) (built : Array Forest)
    (child : Option Nat) (rest : Forest) :
    copySlot (types.map change) (built.map (Forest.mapTypes change)) child (rest.mapTypes change) =
      Forest.mapTypes change <$> copySlot types built child rest := by
  cases child with
  | none => rfl
  | some index =>
      simp only [copySlot, itemAt_map, map_eq_pure_bind, bind_assoc, pure_bind]
      rfl

theorem complete_recast (change : TypeDecl → TypeDecl) (links : Links) (built : Array Forest)
    (node : Nat) :
    completeCopying (links.recast change) (built.map (Forest.mapTypes change)) node =
      Array.map (Forest.mapTypes change) <$> completeCopying links built node := by
  have hrow (children : List (Option Nat)) :
      children.foldlM (fun rest child => copySlot (links.recast change).types
        (built.map (Forest.mapTypes change)) child rest) .nil =
      Forest.mapTypes change <$>
        children.foldlM (fun rest child => copySlot links.types built child rest) .nil :=
    Except.foldlM_map (Forest.mapTypes change)
      (fun rest child => copySlot_map change links.types built child rest) children .nil
  simp only [completeCopying, hrow, map_eq_pure_bind, bind_assoc, pure_bind]
  refine bind_congr fun children => bind_congr fun row => ?_
  rw [Array.map_setIfInBounds]

theorem assemble_recast (h : Recasts change) (links : Links) :
    assembleCopying (links.recast change) = Forest.mapTypes change <$> assembleCopying links := by
  have hcount : (links.recast change).types.size = links.types.size := Array.size_map
  have hdepths : depths (links.recast change).types (links.recast change).parents =
      depths links.types links.parents := depths_map h links.types links.parents
  have hblank : Array.replicate links.types.size Forest.nil =
      (Array.replicate links.types.size Forest.nil).map (Forest.mapTypes change) := by
    rw [Array.map_replicate]
    rfl
  simp only [assembleCopying, hcount, hdepths, map_eq_pure_bind, bind_assoc]
  refine bind_congr fun depths => ?_
  rw [hblank, Except.foldlM_map _ (complete_recast change links)]
  simp only [map_eq_pure_bind, bind_assoc, pure_bind, ← hblank]
  refine bind_congr fun built => ?_
  rw [← map_eq_pure_bind]
  exact Except.foldlM_map (Forest.mapTypes change)
    (fun rest index => copySlot_map change links.types built (some index) rest) _ .nil

/-- The forest of changed types is the forest with its types changed. -/
theorem buildSilently_map (h : Recasts change) (types : List TypeDecl)
    (rows : List (Entry NestingRow)) :
    buildSilently (types.map change) rows = Forest.mapTypes change <$> buildSilently types rows := by
  have hstart : Links.ofTypes (types.map change) = (Links.ofTypes types).recast change := by
    simp only [Links.ofTypes, Links.recast, List.length_map, List.map_toArray]
  unfold buildSilently
  rw [hstart, Except.foldlM_map (Links.recast · change) (linkSilently_recast h)]
  simp only [map_eq_pure_bind, bind_assoc, pure_bind, assemble_recast h]

end Nesting

namespace Module

open MemberPool

variable {fieldChange : FieldDecl → FieldDecl} {methodChange : MethodDecl → MethodDecl}
  {change : TypeDecl → TypeDecl} {revise : Entry TypeRow → Entry TypeRow} {strings : StringHeap}

@[simp] theorem reachVia_map {α β : Type} (f : α → β) (members : List α)
    (pointers? : Option (Array UInt32)) :
    reachVia (members.map f) pointers? = reachVia members pointers? := by
  cases pointers? with
  | none => exact List.length_map ..
  | some pointers => rfl

theorem fieldSlots_map (hlists : ∀ entry, (revise entry).row.fieldList = entry.row.fieldList)
    (fields : List FieldDecl) (pointers? : Option (Array UInt32)) (named : List Nat)
    (entries : List (Entry TypeRow)) :
    fieldSlots (fields.map fieldChange) pointers? named (entries.map revise) =
      (fieldSlots fields pointers? named entries).map (List.map (Option.map fieldChange)) := by
  simp only [fieldSlots, fieldSpans, List.map_map, Function.comp_def, hlists, reachVia_map,
    slotsFrom_map]

theorem methodSlots_map (hlists : ∀ entry, (revise entry).row.methodList = entry.row.methodList)
    (methods : List MethodDecl) (pointers? : Option (Array UInt32)) (named : List Nat)
    (entries : List (Entry TypeRow)) :
    methodSlots (methods.map methodChange) pointers? named (entries.map revise) =
      (methodSlots methods pointers? named entries).map (List.map (Option.map methodChange)) := by
  simp only [methodSlots, methodSpans, List.map_map, Function.comp_def, hlists, reachVia_map,
    slotsFrom_map]

/-- Rows that have been revised, with slots that have been changed, describe
the types that have been changed. -/
theorem describe_map {onFields : List (Option FieldDecl) → List (Option FieldDecl)}
    {onMethods : List (Option MethodDecl) → List (Option MethodDecl)}
    {entries : List (Entry TypeRow)}
    (htype : ∀ entry ∈ entries, ∀ fields methods,
      describeType strings (revise entry) (onFields fields) (onMethods methods) =
        change <$> describeType strings entry fields methods)
    (fieldLists : List (List (Option FieldDecl))) (methodLists : List (List (Option MethodDecl))) :
    describe strings (entries.map revise) (fieldLists.map onFields) (methodLists.map onMethods) =
      List.map change <$> describe strings entries fieldLists methodLists := by
  induction entries generalizing fieldLists methodLists with
  | nil => rfl
  | cons entry entries ih =>
      cases fieldLists with
      | nil => rfl
      | cons fields fieldLists =>
          cases methodLists with
          | nil => rfl
          | cons methods methodLists =>
              have hfirst := htype entry (List.mem_cons_self ..) fields methods
              have hothers := ih (fun other hother => htype other (List.mem_cons_of_mem _ hother))
                fieldLists methodLists
              simp only [List.map_cons, describe, hfirst, hothers, map_eq_pure_bind, bind_assoc,
                pure_bind]

/-- Rows that have been revised declare the types that have been changed. -/
theorem declare_map {entries : List (Entry TypeRow)} {fields : List FieldDecl}
    {methods : List MethodDecl} {fieldPointers? methodPointers? : Option (Array UInt32)}
    {declarations : List TypeDecl} {pools : Pools}
    (hfields : ∀ entry, (revise entry).row.fieldList = entry.row.fieldList)
    (hmethods : ∀ entry, (revise entry).row.methodList = entry.row.methodList)
    (htype : ∀ entry ∈ entries, ∀ fields methods,
      describeType strings (revise entry) (fields.map (Option.map fieldChange))
        (methods.map (Option.map methodChange)) =
          change <$> describeType strings entry fields methods)
    (h : declare strings entries ⟨.ofList fields fieldPointers?, .ofList methods methodPointers?⟩ =
      .ok (declarations, pools)) :
    ∃ pools', declare strings (entries.map revise)
      ⟨.ofList (fields.map fieldChange) fieldPointers?,
        .ofList (methods.map methodChange) methodPointers?⟩ =
          .ok (declarations.map change, pools') := by
  have hsource : (declare strings entries
      ⟨.ofList fields fieldPointers?, .ofList methods methodPointers?⟩ >>= fun result =>
        pure result.1) = _ := declare_eq strings (left_ofList _ _) (left_ofList _ _)
  have hrevised : (declare strings (entries.map revise)
      ⟨.ofList (fields.map fieldChange) fieldPointers?,
        .ofList (methods.map methodChange) methodPointers?⟩ >>= fun result => pure result.1) = _ :=
    declare_eq strings (left_ofList _ _) (left_ofList _ _)
  rw [fieldSlots_map hfields, methodSlots_map hmethods, describe_map htype, ← hsource, h] at hrevised
  obtain ⟨⟨types, pools'⟩, hdeclared, htypes⟩ := Except.bind_eq_ok.mp hrevised
  obtain rfl := Except.pure_eq_ok.mp htypes
  exact ⟨pools', hdeclared⟩

end Module

end Unveil
