import Unveil.Proofs.Module.Conservation
import Unveil.Proofs.Module.Graph
import Unveil.Proofs.Table.Marking

namespace Unveil

namespace MemberPool

variable {α : Type}

/-- The slots of some lists, given where they start. -/
def slotsVia (members : List α) (pointers? : Option (Array UInt32)) (starts : List Nat) :
    List (List (Option α)) :=
  slotsFrom members pointers? (reachVia members pointers? + 1) []
    (spans (reachVia members pointers? + 1) starts)

/-- Where nothing can be named, a list has a slot only for going past the end. -/
theorem slotsFrom_one (members : List α) (pointers? : Option (Array UInt32)) (named : List Nat)
    (lists : List (Nat × Nat)) :
    slotsFrom members pointers? 1 named lists =
      lists.map fun (start, finish) => pastEnd 1 start finish := by
  induction lists generalizing named with
  | nil => rfl
  | cons list lists ih =>
      obtain ⟨start, finish⟩ := list
      have hnone : positions 1 start finish = [] := by
        unfold positions
        split
        · rfl
        · have hempty : min finish 1 - start = 0 := by omega
          rw [hempty]
          rfl
      simp only [slotsFrom, hnone, List.map_cons, List.map_nil, slotsOf, List.nil_append, ih]

theorem slotsVia_of_no_pointers (members : List α) (starts : List Nat) :
    slotsVia members (some #[]) starts =
      (spans 1 starts).map fun (start, finish) => pastEnd 1 start finish :=
  slotsFrom_one members (some #[]) [] _

theorem slotsVia_of_no_members (starts : List Nat) :
    slotsVia ([] : List α) none starts =
      (spans 1 starts).map fun (start, finish) => pastEnd 1 start finish :=
  slotsFrom_one [] none [] _

theorem pastEnd_cases (stop start finish : Nat) :
    (pastEnd stop start finish : List (Option α)) = [] ∨
      (pastEnd stop start finish : List (Option α)) = [none] := by
  unfold pastEnd
  split
  · exact Or.inl rfl
  · split
    · exact Or.inr rfl
    · exact Or.inl rfl

/-- Lists that are redirected to no row come to nothing, or to one empty slot. -/
theorem slots_lost {members : List α} {starts : List Nat} {slots : List (Option α)}
    (h : slots ∈ slotsVia members (some #[]) starts) : slots = [] ∨ slots = [none] := by
  rw [slotsVia_of_no_pointers] at h
  obtain ⟨⟨start, finish⟩, -, rfl⟩ := List.mem_map.mp h
  exact pastEnd_cases 1 start finish

theorem length_slotsVia (members : List α) (pointers? : Option (Array UInt32))
    (starts : List Nat) : (slotsVia members pointers? starts).length = starts.length := by
  rw [slotsVia, length_slotsFrom, length_spans]

end MemberPool

namespace Module

open MemberPool

section Pointers

variable {ρ : Type} [TypedRow ρ] [Schema ρ] {first second : TablesStream} {data data' : Bytes}

/-- Where a pointer table redirects lists to, if it is marked. -/
def pointersVia (ρ : Type) [TypedRow ρ] (target : Entry ρ → UInt32) (tables : TablesStream) :
    Except Fault (Option (Array UInt32)) :=
  if tables.hasTable (TypedRow.table ρ) then do
    let rows ← tables.rows ρ
    pure (some (rows.map target).toArray)
  else
    .ok none

/-- The second stream marks the pointer table, without rows, and the first does
not, so that only in the second are the lists of the members redirected. -/
structure Diverts (first second : TablesStream) (pointers members : TableId) : Prop where
  unmarked : first.hasTable pointers = false
  marked : second.hasTable pointers = true
  members : 0 < first.rowCount members

/-- A pointer table that only the second stream marks redirects lists to no row. -/
theorem pointersVia_of_marked (h : first.MarksMore second)
    (hfirst : TablesStream.Accepted data first) (hsecond : TablesStream.Accepted data' second)
    (target : Entry ρ → UInt32) (hunmarked : first.hasTable (TypedRow.table ρ) = false)
    (hmarked : second.hasTable (TypedRow.table ρ) = true) :
    pointersVia ρ target first = .ok none ∧ pointersVia ρ target second = .ok (some #[]) := by
  have hrows : second.rows ρ = first.rows ρ := h.rows_eq hfirst hsecond
  have habsent : first.extent? (TypedRow.table ρ) = none := by
    simpa [TablesStream.hasTable] using hunmarked
  unfold pointersVia
  rw [hrows, hunmarked, hmarked, TablesStream.Accepted.rows_of_absent habsent]
  exact ⟨rfl, rfl⟩

theorem pointersVia_cases (h : first.MarksMore second)
    (hfirst : TablesStream.Accepted data first) (hsecond : TablesStream.Accepted data' second)
    (target : Entry ρ → UInt32) :
    pointersVia ρ target second = pointersVia ρ target first ∨
      first.hasTable (TypedRow.table ρ) = false ∧ second.hasTable (TypedRow.table ρ) = true := by
  have hrows : second.rows ρ = first.rows ρ := h.rows_eq hfirst hsecond
  have hmarked := h.marked (TypedRow.table ρ)
  unfold pointersVia
  rw [hrows]
  cases hhas : first.hasTable (TypedRow.table ρ) with
  | true =>
      rw [hmarked hhas]
      exact Or.inl rfl
  | false =>
      cases hhas' : second.hasTable (TypedRow.table ρ) with
      | false => exact Or.inl rfl
      | true => exact Or.inr ⟨rfl, rfl⟩

/-- Both streams redirect lists to the same slots, as far as these are looked
at, or cannot tell where to. -/
theorem pointersVia_alike (h : first.MarksMore second)
    (hfirst : TablesStream.Accepted data first) (hsecond : TablesStream.Accepted data' second)
    (target : Entry ρ → UInt32) {α : Type} {members : List α} {table : TableId}
    (hmembers : members.length = first.rowCount table)
    {onSlots : List (Option α) → List (Option α)}
    (hslots : Diverts first second (TypedRow.table ρ) table → ∀ slots, onSlots slots = []) :
    Except.Alike (fun pointers? pointers?' => ∀ starts,
        (slotsVia members pointers?' starts).map onSlots =
          (slotsVia members pointers? starts).map onSlots)
      (pointersVia ρ target first) (pointersVia ρ target second) := by
  rcases pointersVia_cases h hfirst hsecond target with hsame | ⟨hunmarked, hmarked⟩
  · rw [hsame]
    cases pointersVia ρ target first with
    | error fault => exact .error fault
    | ok pointers? => exact .ok fun _ => rfl
  · obtain ⟨hnone, hempty⟩ := pointersVia_of_marked h hfirst hsecond target hunmarked hmarked
    rw [hnone, hempty]
    refine .ok fun starts => ?_
    cases members with
    | nil => rw [slotsVia_of_no_pointers, slotsVia_of_no_members]
    | cons member members =>
        have hcount : 0 < first.rowCount table := hmembers ▸ Nat.succ_pos members.length
        have hblind : onSlots = fun _ => [] := funext (hslots ⟨hunmarked, hmarked, hcount⟩)
        rw [hblind, List.map_const', List.map_const', length_slotsVia, length_slotsVia]

end Pointers

section Streams

variable {first second : TablesStream} {data data' : Bytes}
  {onFields : List (Option FieldDecl) → List (Option FieldDecl)}
  {onMethods : List (Option MethodDecl) → List (Option MethodDecl)}

theorem length_members {ρ α : Type} [TypedRow ρ] [Schema ρ] {tables : TablesStream}
    (h : TablesStream.Accepted data tables) {declare : Entry ρ → Except Fault α} {members : List α}
    (hmembers : (tables.rows ρ >>= List.mapM declare) = .ok members) :
    members.length = tables.rowCount (TypedRow.table ρ) := by
  obtain ⟨rows, hrows, hdeclared⟩ := Except.bind_eq_ok.mp hmembers
  rw [(Except.getElem?_mapM hdeclared).1, (h.rows_eq_ok.mp hrows).length_eq]

theorem fieldPointers_alike (h : first.MarksMore second)
    (hfirst : TablesStream.Accepted data first) (hsecond : TablesStream.Accepted data' second)
    {fields : List FieldDecl} (hlength : fields.length = first.rowCount .field)
    (hfields : Diverts first second .fieldPtr .field → ∀ slots, onFields slots = []) :
    Except.Alike (fun pointers? pointers?' => ∀ entries,
        (fieldSlots fields pointers?' [] entries).map onFields =
          (fieldSlots fields pointers? [] entries).map onFields)
      (fieldPointers first) (fieldPointers second) :=
  (pointersVia_alike h hfirst hsecond (fun entry : Entry FieldPointerRow => entry.row.field)
    hlength hfields).imp fun _ _ hslots _ => hslots _

theorem methodPointers_alike (h : first.MarksMore second)
    (hfirst : TablesStream.Accepted data first) (hsecond : TablesStream.Accepted data' second)
    {methods : List MethodDecl} (hlength : methods.length = first.rowCount .methodDef)
    (hmethods : Diverts first second .methodPtr .methodDef → ∀ slots, onMethods slots = []) :
    Except.Alike (fun pointers? pointers?' => ∀ entries,
        (methodSlots methods pointers?' [] entries).map onMethods =
          (methodSlots methods pointers? [] entries).map onMethods)
      (methodPointers first) (methodPointers second) :=
  (pointersVia_alike h hfirst hsecond (fun entry : Entry MethodPointerRow => entry.row.method)
    hlength hmethods).imp fun _ _ hslots _ => hslots _

/-- The streams declare the same, if only such slots are looked at as are not
diverted. -/
theorem graphOf_alike (h : first.MarksMore second)
    (hfirst : TablesStream.Accepted data first) (hsecond : TablesStream.Accepted data' second)
    (heaps : Heaps)
    (hfields : Diverts first second .fieldPtr .field → ∀ slots, onFields slots = [])
    (hmethods : Diverts first second .methodPtr .methodDef → ∀ slots, onMethods slots = []) :
    Graph.mapTypes (TypeDecl.reslot onFields onMethods) <$> graphOf heaps second =
      Graph.mapTypes (TypeDecl.reslot onFields onMethods) <$> graphOf heaps first := by
  have hrows (ρ : Type) [TypedRow ρ] [Schema ρ] : second.rows ρ = first.rows ρ :=
    h.rows_eq hfirst hsecond
  simp only [graphOf, hrows, map_bind]
  refine bind_congr fun moduleRows => bind_congr fun moduleRow => bind_congr fun name =>
    bind_congr fun mvid => Except.bind_congr_ok fun fields hfieldDecls =>
    Except.bind_congr_ok fun methods hmethodDecls => ?_
  have hfieldsVia := fieldPointers_alike h hfirst hsecond (length_members hfirst hfieldDecls)
    hfields
  have hmethodsVia := methodPointers_alike h hfirst hsecond (length_members hfirst hmethodDecls)
    hmethods
  refine hfieldsVia.bind_eq fun fieldVia fieldVia' hfieldSlots =>
    hmethodsVia.bind_eq fun methodVia methodVia' hmethodSlots =>
    bind_congr fun typeRows => ?_
  simp only [graphFrom_map TypeDecl.recasts_reslot, describe_reslot, hfieldSlots, hmethodSlots]

end Streams

namespace Loaded

variable {image : Image} {module : Module}

theorem survey_eq (loaded : Loaded image module) :
    survey image = .ok (⟨loaded.strings, loaded.guids?⟩, loaded.stream) := by
  have hmetadata := loaded.metadata_eq
  rw [loaded.size_eq] at hmetadata
  simp only [survey, Except.bind_eq_ok, Except.pure_eq_ok]
  exact ⟨_, loaded.headerOffset_eq, _, loaded.headerData_eq, _, loaded.header_eq, _,
    loaded.offset_eq, _, hmetadata, _, loaded.root_eq, _, loaded.tablesHeader_eq, _,
    loaded.strings_eq, _, loaded.guids_eq, _, loaded.stream_eq, rfl⟩

/-- The slots of every type are those that the lists give one of the rows. -/
theorem mem_slots (loaded : Loaded image module) {type : TypeDecl}
    (htype : type ∈ module.types.preorder) :
    type.fields ∈ loaded.fieldSlots ∧ type.methods ∈ loaded.methodSlots := by
  have hslots := loaded.flatMap_preorder_perm (fun type => [(type.fields, type.methods)])
    fun _ _ => rfl
  have hmem : (type.fields, type.methods) ∈
      loaded.declarations.flatMap fun type => [(type.fields, type.methods)] :=
    hslots.mem_iff.mp (List.mem_flatMap.mpr ⟨type, htype, List.mem_singleton_self _⟩)
  obtain ⟨declared, hdeclared, hsame⟩ := List.mem_flatMap.mp hmem
  obtain ⟨k, hk⟩ := List.mem_iff_getElem?.mp hdeclared
  obtain ⟨_, -, -, -, hfields, hmethods⟩ := loaded.declaration_eq hk
  simp only [List.mem_singleton, Prod.mk.injEq] at hsame
  rw [hsame.1, hsame.2]
  exact ⟨List.mem_of_getElem? hfields, List.mem_of_getElem? hmethods⟩

end Loaded

end Module

def TypeDecl.withoutFields (type : TypeDecl) : TypeDecl := { type with fields := [] }

def TypeDecl.withoutMethods (type : TypeDecl) : TypeDecl := { type with methods := [] }

theorem Forest.map_id (forest : Forest) : forest.map id = forest := by
  rw [map_eq_mapTypes]
  induction forest with
  | nil => rfl
  | absent rest ih => rw [mapTypes, ih]
  | present type nested rest ihNested ihRest => rw [mapTypes, ihNested, ihRest]; rfl

namespace Module

open MemberPool
open AttributeWords (methodsOf fieldsOf)

/-- What a module has of another, if its stream marks more tables: everything,
as long as no members are diverted. Members that are diverted are lost, and
nothing else is. -/
structure Retains (first second : TablesStream) (module module' : Module) : Prop where
  name_eq : module'.name = module.name
  mvid_eq : module'.mvid = module.mvid
  same : ¬ Diverts first second .fieldPtr .field → ¬ Diverts first second .methodPtr .methodDef →
    module'.types = module.types ∧ module'.inventory = module.inventory
  types_eq : module'.types.map (fun type => type.withoutFields.withoutMethods) =
    module.types.map (fun type => type.withoutFields.withoutMethods)
  typeCount_eq : module'.inventory.types = module.inventory.types
  fields_eq : ¬ Diverts first second .fieldPtr .field →
    module'.types.map TypeDecl.withoutMethods = module.types.map TypeDecl.withoutMethods ∧
      module'.inventory.fields = module.inventory.fields
  methods_eq : ¬ Diverts first second .methodPtr .methodDef →
    module'.types.map TypeDecl.withoutFields = module.types.map TypeDecl.withoutFields ∧
      module'.inventory.methods = module.inventory.methods
  fields_lost : Diverts first second .fieldPtr .field → module'.inventory.fields = 0 ∧
    ∀ type ∈ module'.types.types, type.fields = [] ∨ type.fields = [none]
  methods_lost : Diverts first second .methodPtr .methodDef → module'.inventory.methods = 0 ∧
    ∀ type ∈ module'.types.types, type.methods = [] ∨ type.methods = [none]

/-- Forests that are the same once their types are changed have the same lists
of what the change leaves alone. -/
theorem flatMap_preorder_eq {α : Type} {change : TypeDecl → TypeDecl} {members : TypeDecl → List α}
    {forest forest' : Forest} (h : forest'.map change = forest.map change)
    (hkept : ∀ type, members (change type) = members type) :
    forest'.preorder.flatMap members = forest.preorder.flatMap members := by
  have hwalk (forest : Forest) :
      (forest.map change).preorder.flatMap members = forest.preorder.flatMap members := by
    rw [Forest.map_eq_mapTypes, Forest.preorder_mapTypes, List.flatMap_map]
    simp only [hkept]
  rw [← hwalk forest', h, hwalk]

/-- Types whose lists lead nowhere have no members. -/
theorem length_of_lost {α : Type} {slotsOf : TypeDecl → List (Option α)} {types : List TypeDecl}
    (h : ∀ type ∈ types, slotsOf type = [] ∨ slotsOf type = [none]) :
    (types.flatMap fun type => (slotsOf type).filterMap id).length = 0 := by
  rw [List.length_eq_zero_iff, List.flatMap_eq_nil_iff]
  intro type htype
  rcases h type htype with hempty | hmissing
  · rw [hempty]
    rfl
  · rw [hmissing]
    rfl

namespace Loaded

variable {image : Image} {module : Module}

theorem fields_lost (loaded : Loaded image module) (h : loaded.fieldPointers? = some #[]) :
    module.inventory.fields = 0 ∧
      ∀ type ∈ module.types.types, type.fields = [] ∨ type.fields = [none] := by
  have hslots : ∀ type ∈ module.types.preorder, type.fields = [] ∨ type.fields = [none] := by
    intro type htype
    have hmem := (loaded.mem_slots htype).1
    rw [fieldSlots, h] at hmem
    exact slots_lost hmem
  rw [(inventory_eq module).2.2, Forest.types_eq_preorder]
  exact ⟨length_of_lost hslots, hslots⟩

theorem methods_lost (loaded : Loaded image module) (h : loaded.methodPointers? = some #[]) :
    module.inventory.methods = 0 ∧
      ∀ type ∈ module.types.types, type.methods = [] ∨ type.methods = [none] := by
  have hslots : ∀ type ∈ module.types.preorder, type.methods = [] ∨ type.methods = [none] := by
    intro type htype
    have hmem := (loaded.mem_slots htype).2
    rw [methodSlots, h] at hmem
    exact slots_lost hmem
  rw [(inventory_eq module).2.1, Forest.types_eq_preorder]
  exact ⟨length_of_lost hslots, hslots⟩

end Loaded

section Files

variable {file file' stream stream' : Bytes} {heaps : Heaps} {first second : TablesStream}
  {module module' : Module}

/-- A module that was loaded from a file whose stream is known. -/
theorem exists_loaded [Container.Reader] (hsurvey : surveyFile file = .ok (heaps, stream))
    (htables : TablesStream.ofData stream = .ok first)
    (hload : ofDataSilently file = .ok module) :
    ∃ (image : Image) (loaded : Loaded image module), loaded.tables = first := by
  obtain ⟨image, himage, hmodule⟩ := Except.bind_eq_ok.mp hload
  obtain ⟨loaded⟩ := loadSilently_eq_ok.mp hmodule
  rw [surveyFile, himage, Except.ok_bind, loaded.survey_eq] at hsurvey
  cases hsurvey
  rw [TablesStream.ofData_eq_ok.mpr loaded.accepted] at htables
  exact ⟨image, loaded, Except.ok.inj htables⟩

variable [Container.Reader] (h : first.MarksMore second)
  (hfile : surveyFile file = .ok (heaps, stream))
  (hfile' : surveyFile file' = .ok (heaps, stream'))
  (hfirst : TablesStream.ofData stream = .ok first)
  (hsecond : TablesStream.ofData stream' = .ok second)

include h hfile hfile' hfirst hsecond

/-- The modules of two such files declare the same, if only such slots are looked
at as are not diverted. -/
theorem graph_alike (onFields : List (Option FieldDecl) → List (Option FieldDecl))
    (onMethods : List (Option MethodDecl) → List (Option MethodDecl))
    (hfields : Diverts first second .fieldPtr .field → ∀ slots, onFields slots = [])
    (hmethods : Diverts first second .methodPtr .methodDef → ∀ slots, onMethods slots = []) :
    Graph.mapTypes (TypeDecl.reslot onFields onMethods) <$> graph <$> ofDataSilently file' =
      Graph.mapTypes (TypeDecl.reslot onFields onMethods) <$> graph <$> ofDataSilently file := by
  rw [graph_file hfile hfirst, graph_file hfile' hsecond]
  exact graphOf_alike h (TablesStream.ofData_eq_ok.mp hfirst) (TablesStream.ofData_eq_ok.mp hsecond)
    heaps hfields hmethods

theorem reslot_graph (hload : ofDataSilently file = .ok module)
    (hload' : ofDataSilently file' = .ok module')
    (onFields : List (Option FieldDecl) → List (Option FieldDecl))
    (onMethods : List (Option MethodDecl) → List (Option MethodDecl))
    (hfields : Diverts first second .fieldPtr .field → ∀ slots, onFields slots = [])
    (hmethods : Diverts first second .methodPtr .methodDef → ∀ slots, onMethods slots = []) :
    module'.graph.mapTypes (TypeDecl.reslot onFields onMethods) =
      module.graph.mapTypes (TypeDecl.reslot onFields onMethods) := by
  have hgraphs := graph_alike h hfile hfile' hfirst hsecond onFields onMethods hfields hmethods
  rw [hload, hload'] at hgraphs
  exact Except.ok.inj hgraphs

theorem retains (hload : ofDataSilently file = .ok module)
    (hload' : ofDataSilently file' = .ok module') :
    Retains first second module module' := by
  have haccepted := TablesStream.ofData_eq_ok.mp hfirst
  have haccepted' := TablesStream.ofData_eq_ok.mp hsecond
  have halike := reslot_graph h hfile hfile' hfirst hsecond hload hload'
  obtain ⟨image', loaded', rfl⟩ := exists_loaded hfile' hsecond hload'
  have hbare := halike (fun _ => []) (fun _ => []) (fun _ _ => rfl) fun _ _ => rfl
  have htypes := congrArg Graph.types hbare
  obtain ⟨htypeCount, hmethodCount, hfieldCount⟩ := inventory_eq module
  obtain ⟨htypeCount', hmethodCount', hfieldCount'⟩ := inventory_eq module'
  refine {
    name_eq := congrArg Graph.name hbare
    mvid_eq := congrArg Graph.mvid hbare
    same := ?_
    types_eq := htypes
    typeCount_eq := ?_
    fields_eq := ?_
    methods_eq := ?_
    fields_lost := ?_
    methods_lost := ?_ }
  · intro hfields hmethods
    have hsame : module'.types.map id = module.types.map id :=
      congrArg Graph.types (halike id id (absurd · hfields) (absurd · hmethods))
    rw [Forest.map_id, Forest.map_id] at hsame
    exact ⟨hsame, congrArg inventoryOf hsame⟩
  · have hwalk := congrArg (fun forest => forest.preorder.length) htypes
    simpa only [Graph.mapTypes, graph, Forest.map_eq_mapTypes, Forest.preorder_mapTypes,
      List.length_map, ← htypeCount, ← htypeCount'] using hwalk
  · intro hfields
    have hkept : module'.types.map TypeDecl.withoutMethods =
        module.types.map TypeDecl.withoutMethods :=
      congrArg Graph.types (halike id (fun _ => []) (absurd · hfields) fun _ _ => rfl)
    refine ⟨hkept, ?_⟩
    rw [hfieldCount, hfieldCount', fieldsOf, fieldsOf, flatMap_preorder_eq hkept fun _ => rfl]
  · intro hmethods
    have hkept : module'.types.map TypeDecl.withoutFields =
        module.types.map TypeDecl.withoutFields :=
      congrArg Graph.types (halike (fun _ => []) id (fun _ _ => rfl) (absurd · hmethods))
    refine ⟨hkept, ?_⟩
    rw [hmethodCount, hmethodCount', methodsOf, methodsOf,
      flatMap_preorder_eq hkept fun _ => rfl]
  · intro hdiverts
    apply loaded'.fields_lost
    have hvia := (pointersVia_of_marked h haccepted haccepted'
      (fun entry : Entry FieldPointerRow => entry.row.field) hdiverts.unmarked hdiverts.marked).2
    exact Except.ok.inj (loaded'.fieldPointers_eq.symm.trans hvia)
  · intro hdiverts
    apply loaded'.methods_lost
    have hvia := (pointersVia_of_marked h haccepted haccepted'
      (fun entry : Entry MethodPointerRow => entry.row.method) hdiverts.unmarked hdiverts.marked).2
    exact Except.ok.inj (loaded'.methodPointers_eq.symm.trans hvia)

/-- The modules of two such files are refused alike, or the second retains what
the first declares. -/
theorem alike_files :
    Except.Alike (Retains first second) (ofDataSilently file) (ofDataSilently file') := by
  have hgraphs := graph_alike h hfile hfile' hfirst hsecond (fun _ => []) (fun _ => [])
    (fun _ _ => rfl) fun _ _ => rfl
  simp only [Functor.map_map] at hgraphs
  apply Except.alike_of_map hgraphs
  intro module module' hload hload'
  exact retains h hfile hfile' hfirst hsecond hload hload'

end Files

/-- Marking tables without rows changes no width and no row size, and a module
keeps what it declares, but for the members of a table whose pointer table is
now marked: their lists lead nowhere. A module that cannot be loaded is refused
for the same fault. -/
theorem marking_retains [Container.Reader] {stream stream' : Bytes} {first second : TablesStream}
    (hfirst : TablesStream.ofData stream = .ok first)
    (hsecond : TablesStream.ofData stream' = .ok second) (hmarks : first.MarksMore second) :
    (∀ column : Column, column.width second.sizes = column.width first.sizes) ∧
    (∀ table, second.sizes.isWide table = first.sizes.isWide table ∧
      second.sizes.rowSize table = first.sizes.rowSize table) ∧
    ∀ file file' heaps, surveyFile file = .ok (heaps, stream) →
      surveyFile file' = .ok (heaps, stream') →
      ∃ result result', Logged.Yields (ofData file) result ∧
        Logged.Yields (ofData file') result' ∧
        Except.Alike (Retains first second) result result' := by
  have halike := hmarks.alike (TablesStream.ofData_eq_ok.mp hfirst)
    (TablesStream.ofData_eq_ok.mp hsecond)
  refine ⟨halike.width_eq, ?_, ?_⟩
  · intro table
    exact ⟨halike.isWide_eq table, halike.rowSize_eq table⟩
  · intro file file' heaps hfile hfile'
    exact ⟨_, _, yields_ofData file, yields_ofData file',
      alike_files hmarks hfile hfile' hfirst hsecond⟩

end Module

namespace Framing

open Unveil.Module (Heaps surveyFile)

/-- The heaps of a framed stream: the empty text and no identifiers. -/
def framedHeaps : Heaps := ⟨⟨#[0]⟩, none⟩

/-- A framed stream is found behind its frame. -/
theorem Framed.survey_eq {stream : List UInt8} (h : Framed stream) :
    surveyFile (file stream) = .ok (framedHeaps, stream.toArray) := by
  have hmetadata : (file stream).slice 416 (headerOf stream).metadata.size.toNat =
      .ok (metadataOf stream) := by
    rw [h.metadataSize_eq]
    exact slice_metadata 0 1 stream
  simp only [surveyFile, Module.survey, Except.bind_eq_ok, Except.pure_eq_ok]
  exact ⟨imageOf stream, h.image_eq, 344, eq_ok_of_toOption h.runtime_eq, _,
    slice_runtimeHeader 0 1 stream, headerOf stream, eq_ok_of_toOption h.header_eq, 416,
    eq_ok_of_toOption h.place_eq, _, hmetadata, rootOf stream, eq_ok_of_toOption h.root_eq, _, rfl,
    _, strings_eq stream, _, rfl, _, h.stream_eq, rfl⟩

theorem survey_plain : surveyFile plain = .ok (framedHeaps, plainStream.toArray) :=
  plain_sound.survey_eq

/-- The smallest stream with a declaration of every kind, in which `FieldPtr` and
`Param` are marked too and have no rows. -/
def pointedStream : List UInt8 :=
  zeros 4 ++ [2, 0, 0, 1] ++ Bytes.spell 8 0x15D ++ zeros 8 ++ Bytes.spell 4 1 ++ Bytes.spell 4 1 ++
    Bytes.spell 4 0 ++ Bytes.spell 4 1 ++ Bytes.spell 4 1 ++ Bytes.spell 4 0 ++ plainStream.drop 40

def pointed : Bytes := file pointedStream

theorem survey_pointed : surveyFile pointed = .ok (framedHeaps, pointedStream.toArray) := by
  have hframed : Framed pointedStream := {
    length_lt := by decide +kernel
    taken_eq := by decide +kernel
    runtime_eq := by decide +kernel
    header_eq := by decide +kernel
    place_eq := by decide +kernel
    root_eq := by decide +kernel }
  exact hframed.survey_eq

/-- Of the two streams the second only marks more tables, among them the
pointers to fields. -/
theorem pointed_marks : ∃ first second, TablesStream.ofData plainStream.toArray = .ok first ∧
    TablesStream.ofData pointedStream.toArray = .ok second ∧ first.MarksMore second ∧
    Module.Diverts first second .fieldPtr .field ∧ second.hasTable .methodPtr = false := by
  have hparts : (do
      let first ← TablesStream.ofData plainStream.toArray
      let second ← TablesStream.ofData pointedStream.toArray
      pure (decide ((second.major = first.major ∧ second.minor = first.minor ∧
        second.heapFlags = first.heapFlags ∧ second.extra = first.extra) ∧
        (∀ table ∈ TableId.all, (first.hasTable table = true → second.hasTable table = true) ∧
          (second.genericRows table).toOption = (first.genericRows table).toOption) ∧
        (first.hasTable .fieldPtr = false ∧ second.hasTable .fieldPtr = true ∧
          0 < first.rowCount .field) ∧ second.hasTable .methodPtr = false))).toOption =
      some true := by
    decide +kernel
  have hparts := eq_ok_of_toOption hparts
  simp only [Except.bind_eq_ok, Except.pure_eq_ok, decide_eq_true_eq] at hparts
  obtain ⟨first, hfirst, second, hsecond, ⟨hmajor, hminor, hflags, hextra⟩, htables,
    ⟨hunmarked, hmarked, hmembers⟩, hmethods⟩ := hparts
  have haccepted := TablesStream.ofData_eq_ok.mp hfirst
  refine ⟨first, second, hfirst, hsecond, ?_, ⟨hunmarked, hmarked, hmembers⟩, hmethods⟩
  exact {
    major_eq := hmajor
    minor_eq := hminor
    heapFlags_eq := hflags
    extra_eq := hextra
    marked table := (htables table table.mem_all).1
    genericRows_eq table := by
      obtain ⟨rows, hrows, -⟩ := haccepted.exists_genericRows table
      have hsame := (htables table table.mem_all).2
      rw [hrows] at hsame ⊢
      exact eq_ok_of_toOption hsame }

/-- Nothing but a mark for a table without rows, and the field is lost. -/
theorem marking_loses_field : ∃ first second module,
    surveyFile plain = .ok (framedHeaps, plainStream.toArray) ∧
    surveyFile pointed = .ok (framedHeaps, pointedStream.toArray) ∧
    TablesStream.ofData plainStream.toArray = .ok first ∧
    TablesStream.ofData pointedStream.toArray = .ok second ∧ first.MarksMore second ∧
    Logged.Yields (Module.ofData plain) (.ok plainModule) ∧
    Logged.Yields (Module.ofData pointed) (.ok module) ∧
    plainModule.inventory.fields = 1 ∧ module.inventory.fields = 0 ∧
    module.types ≠ plainModule.types := by
  obtain ⟨first, second, hfirst, hsecond, hmarks, hdiverts, -⟩ := pointed_marks
  have halike := Module.alike_files hmarks survey_plain survey_pointed hfirst hsecond
  have hyields := Module.yields_ofData plain
  have hyields' := Module.yields_ofData pointed
  have hcounts : plainModule.inventory.fields = 1 := by decide +kernel
  rw [plain_loads] at halike hyields
  generalize Module.ofDataSilently pointed = result at halike hyields'
  obtain - | hretains := halike
  have hlost := (hretains.fields_lost hdiverts).1
  refine ⟨first, second, _, survey_plain, survey_pointed, hfirst, hsecond, hmarks, hyields, hyields',
    hcounts, hlost, ?_⟩
  intro hsame
  have hfields := congrArg (fun forest => (Module.inventoryOf forest).fields) hsame
  rw [Module.inventory] at hcounts hlost
  simp only [hcounts, hlost] at hfields
  cases hfields

/-- The method keeps its slot while the field is lost. -/
theorem marking_retains_pointed : ∃ first second module,
    TablesStream.ofData plainStream.toArray = .ok first ∧
    TablesStream.ofData pointedStream.toArray = .ok second ∧ first.MarksMore second ∧
    second.sizes.rowSize .typeDef = first.sizes.rowSize .typeDef ∧
    Logged.Yields (Module.ofData pointed) (.ok module) ∧
    Module.Retains first second plainModule module ∧
    module.types.map TypeDecl.withoutFields = plainTypes.map TypeDecl.withoutFields ∧
    module.inventory.methods = 1 ∧ module.inventory.fields = 0 := by
  obtain ⟨first, second, hfirst, hsecond, hmarks, hdiverts, hmethods⟩ := pointed_marks
  obtain ⟨-, hsizes, hfiles⟩ := Module.marking_retains hfirst hsecond hmarks
  obtain ⟨result, result', hyields, hyields', halike⟩ :=
    hfiles plain pointed framedHeaps survey_plain survey_pointed
  have hload : ∃ after, Module.ofData plain #[] = .ok plainModule after :=
    Module.ofData_eq_ok.mpr plain_loads
  have hresult : result = .ok plainModule := hyields.ok_iff.mp hload
  subst hresult
  obtain - | hretains := halike
  have hkept := hretains.methods_eq fun hdiverted =>
    Bool.false_ne_true (hmethods.symm.trans hdiverted.marked)
  have hcount : plainModule.inventory.methods = 1 := by decide +kernel
  exact ⟨first, second, _, hfirst, hsecond, hmarks, (hsizes .typeDef).2, hyields', hretains,
    hkept.1, hkept.2.trans hcount, (hretains.fields_lost hdiverts).1⟩

end Framing

end Unveil
