import Unveil.Module.Load
import Unveil.Proofs.Journal

/-!
Loading without remarks. Each step of a load that adds to the journal has a
counterpart here that only computes, and yields what its counterpart comes to;
so the whole load yields `Module.loadSilently`, and what is known about one is
known about the other.
-/

namespace Unveil

open Logged

namespace MemberPool

variable {α : Type}

/-- The slots of a list, with positions counted beyond any word. -/
def takeSlots (start finish : Nat) (pool : MemberPool α) : List (Option α) × MemberPool α :=
  if start = 0 ∨ finish < start then
    ([], pool)
  else
    let claimed := (List.range' start (min finish (pool.reach + 1) - start)).mapM claim pool
    (claimed.1.map (·.2.slot) ++ if pool.reach + 1 < finish then [none] else [], claimed.2)

/-- A list that is not empty claims its positions one after the other. -/
theorem claimRun_of_nonempty {start finish : Nat} (h : ¬ (start = 0 ∨ finish < start))
    (pool : MemberPool α) : claimRun start finish pool =
      (⟨((List.range' start (min finish pool.stop - start)).mapM claim pool).1,
        decide (pool.stop < finish)⟩,
        ((List.range' start (min finish pool.stop - start)).mapM claim pool).2) := by
  simp only [claimRun, h, ↓reduceIte]
  rfl

/-- What is held at the greatest word is not seen where positions stay below it, nor by
a list that ends at a word. -/
theorem claimRun_eq_takeSlots {start finish : Nat} {pool : MemberPool α}
    (h : pool.reach < wordMax ∨ finish ≤ wordMax) :
    ((claimRun start finish pool).1.slots, (claimRun start finish pool).2) =
      takeSlots start finish pool := by
  by_cases hempty : start = 0 ∨ finish < start
  · simp only [claimRun, takeSlots, hempty, ↓reduceIte, Run.slots]
    rfl
  · have hreach : min finish pool.stop = min finish (pool.reach + 1) := by
      unfold stop length
      omega
    have hends : pool.stop < finish ↔ pool.reach + 1 < finish := by
      unfold stop length
      omega
    rw [claimRun_of_nonempty hempty]
    simp only [takeSlots, hempty, ↓reduceIte, Run.slots, hreach, hends, decide_eq_true_eq]

theorem yields_take (kind : MemberKind) (owner : Token) {start finish : Nat}
    {pool : MemberPool α} (h : pool.reach < wordMax ∨ finish ≤ wordMax) :
    Yields (take kind owner start finish pool) (.ok (takeSlots start finish pool)) := by
  rw [← claimRun_eq_takeSlots h]
  exact (yields_forM fun text _ => yields_warn .members text).after (yields_pure _)

/-- Whatever is handed out, there are as many positions as before. -/
theorem reach_claim (position : Nat) (pool : MemberPool α) :
    (claim position pool).2.reach = pool.reach := by
  obtain ⟨entries, pointers?⟩ := pool
  unfold claim
  generalize rowOf ⟨entries, pointers?⟩ position = row
  dsimp only
  split
  · rfl
  · split
    · rfl
    · rfl
    · unfold reach
      cases pointers? with
      | none => exact Array.size_setIfInBounds
      | some pointers => rfl

theorem reach_mapM_claim (positions : List Nat) (pool : MemberPool α) :
    (positions.mapM claim pool).2.reach = pool.reach := by
  induction positions generalizing pool with
  | nil => rfl
  | cons position positions ih =>
      rw [List.mapM_cons]
      exact (ih _).trans (reach_claim position pool)

theorem reach_takeSlots (start finish : Nat) (pool : MemberPool α) :
    (takeSlots start finish pool).2.reach = pool.reach := by
  unfold takeSlots
  split
  · rfl
  · exact reach_mapM_claim _ _

theorem yields_report (kind : MemberKind) (pool : MemberPool α) :
    Yields (report kind pool) (pure ()) := by
  unfold report
  dsimp only
  split
  · exact yields_pure ()
  · exact yields_debug _ _

end MemberPool

namespace Nesting

def linkSilently (links : Links) (row : Entry NestingRow) : Except Fault Links := do
  let count := links.types.size
  match indexOf? count row.row.nested, indexOf? count row.row.enclosing with
  | some nested, some enclosing =>
      let token ← tokenAt links.types nested
      if nested = enclosing then
        throw (.malformed (.selfNested token))
      else
        match ← itemAt links.parents nested with
        | some existing =>
            let _ ← tokenAt links.types existing
            let _ ← tokenAt links.types enclosing
            pure links
        | none =>
            pure (((links.setParent nested enclosing).addChild enclosing (some nested)).markNested
              nested)
  | none, some enclosing =>
      let _ ← tokenAt links.types enclosing
      pure (links.addChild enclosing none)
  | some nested, none =>
      let _ ← tokenAt links.types nested
      pure (links.markNested nested)
  | none, none => pure links

theorem yields_link (links : Links) (row : Entry NestingRow) :
    Yields (link links row) (linkSilently links row) := by
  unfold link linkSilently
  dsimp only
  generalize indexOf? links.types.size row.row.nested = nested?
  generalize indexOf? links.types.size row.row.enclosing = enclosing?
  match nested?, enclosing? with
  | some nested, some enclosing =>
      refine (yields_lift _).bind fun token _ => ?_
      by_cases hsame : nested = enclosing
      · simp only [hsame, ↓reduceIte]
        exact yields_throw _
      · simp only [hsame, ↓reduceIte]
        refine (yields_lift _).bind fun parent _ => ?_
        cases parent with
        | some existing =>
            exact (yields_lift _).bind fun _ _ => (yields_lift _).bind fun _ _ =>
              (yields_warn _ _).after (yields_pure _)
        | none => exact yields_pure _
  | none, some enclosing =>
      exact (yields_lift _).bind fun _ _ => (yields_warn _ _).after (yields_pure _)
  | some nested, none =>
      exact (yields_lift _).bind fun _ _ => (yields_warn _ _).after (yields_pure _)
  | none, none => exact (yields_warn _ _).after (yields_pure _)

/-- One slot of a row, put in front of the slots behind it. `built` holds the finished
rows of the types that are complete, from which the row is copied. -/
def copySlot (types : Array TypeDecl) (built : Array Forest) (child : Option Nat)
    (rest : Forest) : Except Fault Forest :=
  match child with
  | none => .ok (.absent rest)
  | some index => do
      let type ← itemAt types index
      let nested ← itemAt built index
      pure (.present type nested rest)

/-- Completes a type with copies of its children. -/
def completeCopying (links : Links) (built : Array Forest) (node : Nat) :
    Except Fault (Array Forest) := do
  let children ← itemAt links.children node
  let row ← children.foldlM (fun rest child => copySlot links.types built child rest) .nil
  pure (built.setIfInBounds node row)

/-- The forest that the links describe, put together from copies. -/
def assembleCopying (links : Links) : Except Fault Forest := do
  let count := links.types.size
  let depths ← depths links.types links.parents
  let innermostFirst := (List.range count).mergeSort fun a b =>
    depths.getD b 0 ≤ depths.getD a 0
  let built ← innermostFirst.foldlM (completeCopying links) (Array.replicate count .nil)
  let roots := (List.range count).filter fun index =>
    (links.parents.getD index none).isNone
  roots.reverse.foldlM (fun rest index => copySlot links.types built (some index) rest) .nil

def buildSilently (types : List TypeDecl) (rows : List (Entry NestingRow)) :
    Except Fault Forest := do
  let links ← rows.foldlM linkSilently (Links.ofTypes types)
  assembleCopying links

end Nesting

namespace Module

/-- Lists end before the greatest word. -/
structure Pools.Narrow (pools : Pools) : Prop where
  fields : pools.fields.reach < MemberPool.wordMax
  methods : pools.methods.reach < MemberPool.wordMax

/-- The declaration of a type row, with the members that its lists give it. -/
def declareType (strings : StringHeap) (entry : Entry TypeRow) (next? : Option (Entry TypeRow))
    (pools : Pools) : Except Fault (TypeDecl × Pools) := do
  let fieldStop := match next? with
    | some next => next.row.fieldList.toNat
    | none => pools.fields.reach + 1
  let methodStop := match next? with
    | some next => next.row.methodList.toNat
    | none => pools.methods.reach + 1
  let name ← strings.get entry.row.name.toNat
  let space ← strings.get entry.row.space.toNat
  let methods := pools.methods.takeSlots entry.row.methodList.toNat methodStop
  let fields := pools.fields.takeSlots entry.row.fieldList.toNat fieldStop
  let type : TypeDecl := {
    token := entry.token, name, space
    flags := entry.row.flags
    isNested := false
    methods := methods.1
    fields := fields.1 }
  pure (type, ⟨fields.2, methods.2⟩)

def declare (strings : StringHeap) :
    List (Entry TypeRow) → Pools → Except Fault (List TypeDecl × Pools)
  | [], pools => .ok ([], pools)
  | entry :: others, pools => do
      let (type, pools) ← declareType strings entry others.head? pools
      let (types, pools) ← declare strings others pools
      pure (type :: types, pools)

section Declared

variable {strings : StringHeap} {entry : Entry TypeRow} {next? : Option (Entry TypeRow)}
  {pools after : Pools}

theorem Pools.Narrow.stop_eq (h : pools.Narrow) :
    pools.fields.stop = pools.fields.reach + 1 ∧ pools.methods.stop = pools.methods.reach + 1 := by
  have hfields := h.fields
  have hmethods := h.methods
  unfold MemberPool.stop MemberPool.length
  omega

theorem Pools.Narrow.declareType {type : TypeDecl} (h : pools.Narrow)
    (hdeclare : Module.declareType strings entry next? pools = .ok (type, after)) :
    after.Narrow := by
  simp only [Module.declareType, Except.bind_eq_ok, Except.pure_eq_ok, Prod.mk.injEq] at hdeclare
  obtain ⟨_, -, _, -, -, rfl⟩ := hdeclare
  exact ⟨(MemberPool.reach_takeSlots ..).symm ▸ h.fields,
    (MemberPool.reach_takeSlots ..).symm ▸ h.methods⟩

theorem yields_typeOf (h : pools.Narrow) (strings : StringHeap) (entry : Entry TypeRow)
    (next? : Option (Entry TypeRow)) :
    Yields (typeOf strings entry next? pools) (declareType strings entry next? pools) := by
  unfold typeOf declareType
  rw [h.stop_eq.1, h.stop_eq.2]
  refine (yields_lift _).bind fun name _ => (yields_lift _).bind fun space _ => ?_
  exact (MemberPool.yields_take _ _ (.inl h.methods)).bind fun _ _ =>
    (MemberPool.yields_take _ _ (.inl h.fields)).bind fun _ _ => yields_pure _

theorem yields_typesOf (h : pools.Narrow) (strings : StringHeap) (seen : List TypeDecl)
    (entries : List (Entry TypeRow)) :
    Yields (typesOf strings seen entries pools)
      (declare strings entries pools >>= fun result =>
        pure (seen.reverse ++ result.1, result.2)) := by
  induction entries generalizing seen pools with
  | nil =>
      simp only [declare, typesOf]
      have hnone : ((Except.ok ([], pools) : Except Fault (List TypeDecl × Pools)) >>= fun result =>
          pure (seen.reverse ++ result.1, result.2)) = pure (seen.reverse, pools) := by
        simp [bind, Except.bind]
      rw [hnone]
      exact yields_pure _
  | cons entry others ih =>
      have hchain : (declare strings (entry :: others) pools >>= fun result =>
          pure (seen.reverse ++ result.1, result.2)) =
          (declareType strings entry others.head? pools >>= fun first =>
            declare strings others first.2 >>= fun result =>
              pure ((first.1 :: seen).reverse ++ result.1, result.2)) := by
        simp only [declare, bind_assoc, pure_bind, List.reverse_cons, List.append_assoc,
          List.singleton_append]
      rw [hchain]
      exact (yields_typeOf h strings entry others.head?).bind fun first hfirst =>
        ih (h.declareType hfirst) (first.1 :: seen)

theorem yields_declare (h : pools.Narrow) (strings : StringHeap) (entries : List (Entry TypeRow)) :
    Yields (typesOf strings [] entries pools) (declare strings entries pools) := by
  simpa using yields_typesOf h strings [] entries

end Declared

def readStrings (metadata : Bytes) (root : MetadataRoot) : Except Fault StringHeap :=
  match root.stream? .strings with
  | some header => streamData metadata header >>= StringHeap.ofData
  | none => throw (.malformed .noStringHeap)

def readGuids (metadata : Bytes) (root : MetadataRoot) : Except Fault (Option GuidHeap) :=
  match root.stream? .guids with
  | some header => some <$> (streamData metadata header >>= GuidHeap.ofData)
  | none => pure none

def firstRow (rows : List (Entry ModuleRow)) : Except Fault ModuleRow :=
  match rows with
  | entry :: _ => pure entry.row
  | [] => throw (.malformed .noModuleRow)

/-- Reads the metadata of an image, and from there on everything else. -/
def loadSilently (image : Image) : Except Fault Module := do
  let headerOffset ← image.offsetOf image.runtime.address.toNat
  let headerData ← image.data.slice headerOffset image.runtime.size.toNat
  let header ← RuntimeHeader.ofData headerData
  let offset ← image.offsetOf header.metadata.address.toNat
  let metadata ← image.data.slice offset header.metadata.size.toNat
  let root ← MetadataRoot.ofData metadata
  let tablesHeader ← tablesHeader root
  let strings ← readStrings metadata root
  let guids? ← readGuids metadata root
  let tables ← streamData metadata tablesHeader >>= TablesStream.ofData
  let moduleRows ← tables.rows ModuleRow
  let moduleRow ← firstRow moduleRows
  let name ← strings.get moduleRow.name.toNat
  let mvid ← readMvid guids? moduleRow.mvid
  let fields ← tables.rows FieldRow >>= List.mapM (fieldOf strings)
  let methods ← tables.rows MethodRow >>= List.mapM (methodOf strings)
  let fieldPointers? ← fieldPointers tables
  let methodPointers? ← methodPointers tables
  let typeRows ← tables.rows TypeRow
  let (declarations, _) ← declare strings typeRows
    ⟨.ofList fields fieldPointers?, .ofList methods methodPointers?⟩
  let nestingRows ← tables.rows NestingRow
  let types ← Nesting.buildSilently declarations nestingRows
  let tablesOffset ← Size.add offset tablesHeader.offset.toNat
  let place : Place := {
    offset
    size := header.metadata.size.toNat
    tablesOffset
    tablesSize := tablesHeader.size.toNat
    isLoose := tablesHeader.name == .looseTables }
  pure {
    image, place, header
    runtimeVersion := root.version
    name, mvid
    payload := Payload.classify header methods
    types }

/-- Loads a module from the bytes of its file. -/
def ofDataSilently [Container.Reader] (data : Bytes) : Except Fault Module := do
  loadSilently (← Image.ofData data)

end Module

end Unveil
