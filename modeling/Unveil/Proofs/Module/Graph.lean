import Unveil.Proofs.Module.Recasting
import Unveil.Proofs.Safety.Loading

namespace Unveil

namespace Module

open MemberPool

/-- What a module is made of besides its tables. -/
structure Heaps where
  strings : StringHeap
  guids? : Option GuidHeap

/-- The heaps of an image, with the bytes of its tables stream. -/
def survey (image : Image) : Except Fault (Heaps × Bytes) := do
  let headerOffset ← image.offsetOf image.runtime.address.toNat
  let headerData ← image.data.slice headerOffset image.runtime.size.toNat
  let header ← RuntimeHeader.ofData headerData
  let offset ← image.offsetOf header.metadata.address.toNat
  let metadata ← image.data.slice offset header.metadata.size.toNat
  let root ← MetadataRoot.ofData metadata
  let tablesHeader ← tablesHeader root
  let strings ← readStrings metadata root
  let guids? ← readGuids metadata root
  let stream ← streamData metadata tablesHeader
  pure (⟨strings, guids?⟩, stream)

/-- The heaps and the tables stream of a file. -/
def surveyFile [Container.Reader] (data : Bytes) : Except Fault (Heaps × Bytes) := do
  survey (← Image.ofData data)

/-- What a module declares. -/
structure Graph where
  name : String
  mvid : Option Guid
  types : Forest

def graph (module : Module) : Graph := ⟨module.name, module.mvid, module.types⟩

/-- What some declarations come to, nested as the nesting rows say. -/
def graphFrom (name : String) (mvid : Option Guid) (declared : Except Fault (List TypeDecl))
    (nesting : Except Fault (List (Entry NestingRow))) : Except Fault Graph := do
  let declarations ← declared
  let nestingRows ← nesting
  let types ← Nesting.buildSilently declarations nestingRows
  pure ⟨name, mvid, types⟩

/-- What some tables declare. -/
def graphOf (heaps : Heaps) (tables : TablesStream) : Except Fault Graph := do
  let moduleRows ← tables.rows ModuleRow
  let moduleRow ← firstRow moduleRows
  let name ← heaps.strings.get moduleRow.name.toNat
  let mvid ← readMvid heaps.guids? moduleRow.mvid
  let fields ← tables.rows FieldRow >>= List.mapM (fieldOf heaps.strings)
  let methods ← tables.rows MethodRow >>= List.mapM (methodOf heaps.strings)
  let fieldPointers? ← fieldPointers tables
  let methodPointers? ← methodPointers tables
  let typeRows ← tables.rows TypeRow
  let declared := describe heaps.strings typeRows
    (fieldSlots fields fieldPointers? [] typeRows)
    (methodSlots methods methodPointers? [] typeRows)
  graphFrom name mvid declared (tables.rows NestingRow)

/-- A module declares what its tables do. -/
theorem graph_load {image : Image} {heaps : Heaps} {stream : Bytes} {tables : TablesStream}
    (hsurvey : survey image = .ok (heaps, stream))
    (htables : TablesStream.ofData stream = .ok tables) :
    graph <$> loadSilently image = graphOf heaps tables := by
  simp only [survey, Except.bind_eq_ok, Except.pure_eq_ok, Prod.mk.injEq] at hsurvey
  obtain ⟨headerOffset, hheaderOffset, headerData, hheaderData, header, hheader, offset, hoffset,
    metadata, hmetadata, root, hroot, tablesHeader, htablesHeader, strings, hstrings, guids?,
    hguids, stream, hstream, rfl, rfl⟩ := hsurvey
  have hplace := Image.offsetOf_lt hoffset
  have hdistance := tablesHeader.offset.toNat_lt
  have hsum : Size.add offset tablesHeader.offset.toNat = _ :=
    Size.add_of_lt (by unfold wordLimit at hplace; unfold Size.limit; omega)
  simp only [loadSilently, hheaderOffset, hheaderData, hheader, hoffset, hmetadata, hroot,
    htablesHeader, hstrings, hguids, hstream, htables, hsum, Except.ok_bind, map_bind]
  refine bind_congr fun moduleRows => bind_congr fun moduleRow => bind_congr fun name =>
    bind_congr fun mvid => bind_congr fun fields => bind_congr fun methods =>
    bind_congr fun fieldPointers? => bind_congr fun methodPointers? =>
    bind_congr fun typeRows => ?_
  have hdeclare : (declare strings typeRows
      ⟨.ofList fields fieldPointers?, .ofList methods methodPointers?⟩ >>= fun result =>
        pure result.1) = _ := declare_eq strings (left_ofList _ _) (left_ofList _ _)
  simp only [graphFrom, ← hdeclare, bind_assoc, pure_bind]
  rfl

theorem graph_file [Container.Reader] {data stream : Bytes} {heaps : Heaps} {tables : TablesStream}
    (hsurvey : surveyFile data = .ok (heaps, stream))
    (htables : TablesStream.ofData stream = .ok tables) :
    graph <$> ofDataSilently data = graphOf heaps tables := by
  obtain ⟨image, himage, hheaps⟩ := Except.bind_eq_ok.mp hsurvey
  rw [ofDataSilently, himage, Except.ok_bind, graph_load hheaps htables]

def Graph.mapTypes (change : TypeDecl → TypeDecl) (graph : Graph) : Graph :=
  { graph with types := graph.types.map change }

/-- The graph of changed declarations is the graph with its types changed. -/
theorem graphFrom_map {change : TypeDecl → TypeDecl} (h : TypeDecl.Recasts change) (name : String)
    (mvid : Option Guid) (declared : Except Fault (List TypeDecl))
    (nesting : Except Fault (List (Entry NestingRow))) :
    Graph.mapTypes change <$> graphFrom name mvid declared nesting =
      graphFrom name mvid (List.map change <$> declared) nesting := by
  simp only [graphFrom, map_eq_pure_bind, bind_assoc, pure_bind]
  refine bind_congr fun declarations => bind_congr fun rows => ?_
  rw [Nesting.buildSilently_map h]
  simp only [map_eq_pure_bind, bind_assoc, pure_bind, Graph.mapTypes, Forest.map_eq_mapTypes]

end Module

/-- The type with other slots for its members. -/
def TypeDecl.reslot (onFields : List (Option FieldDecl) → List (Option FieldDecl))
    (onMethods : List (Option MethodDecl) → List (Option MethodDecl)) (type : TypeDecl) :
    TypeDecl :=
  { type with fields := onFields type.fields, methods := onMethods type.methods }

variable {onFields : List (Option FieldDecl) → List (Option FieldDecl)}
  {onMethods : List (Option MethodDecl) → List (Option MethodDecl)}

theorem TypeDecl.recasts_reslot : Recasts (reslot onFields onMethods) where
  token_eq _ := rfl
  mark_eq _ := rfl

theorem Module.describe_reslot (strings : StringHeap) (entries : List (Entry TypeRow))
    (fieldLists : List (List (Option FieldDecl))) (methodLists : List (List (Option MethodDecl))) :
    List.map (TypeDecl.reslot onFields onMethods) <$>
        describe strings entries fieldLists methodLists =
      describe strings entries (fieldLists.map onFields) (methodLists.map onMethods) := by
  have htype : ∀ entry ∈ entries, ∀ fields methods,
      describeType strings (id entry) (onFields fields) (onMethods methods) =
        TypeDecl.reslot onFields onMethods <$> describeType strings entry fields methods := by
    intro entry _ fields methods
    simp only [describeType, map_eq_pure_bind, bind_assoc, pure_bind]
    rfl
  have hmap := describe_map htype fieldLists methodLists
  rw [List.map_id] at hmap
  exact hmap.symm

end Unveil
