import Unveil.Proofs.Image.Reader
import Unveil.Proofs.Module.Limits
import Unveil.Proofs.Writing.Rewording

namespace Unveil

namespace Module

/-- The steps of a load that ends with `module`. -/
structure Loaded (image : Image) (module : Module) where
  headerOffset : Nat
  headerData : Bytes
  metadata : Bytes
  root : MetadataRoot
  tablesHeader : StreamHeader
  strings : StringHeap
  guids? : Option GuidHeap
  stream : Bytes
  tables : TablesStream
  moduleRows : List (Entry ModuleRow)
  moduleRow : ModuleRow
  fieldRows : List (Entry FieldRow)
  fields : List FieldDecl
  methodRows : List (Entry MethodRow)
  methods : List MethodDecl
  fieldPointers? : Option (Array UInt32)
  methodPointers? : Option (Array UInt32)
  typeRows : List (Entry TypeRow)
  declarations : List TypeDecl
  pools : Pools
  nestingRows : List (Entry NestingRow)
  links : Nesting.Links
  image_eq : module.image = image
  headerOffset_eq : image.offsetOf image.runtime.address.toNat = .ok headerOffset
  headerData_eq : image.data.slice headerOffset image.runtime.size.toNat = .ok headerData
  header_eq : RuntimeHeader.ofData headerData = .ok module.header
  offset_eq : image.offsetOf module.header.metadata.address.toNat = .ok module.place.offset
  size_eq : module.place.size = module.header.metadata.size.toNat
  metadata_eq : image.data.slice module.place.offset module.place.size = .ok metadata
  root_eq : MetadataRoot.ofData metadata = .ok root
  version_eq : module.runtimeVersion = root.version
  tablesHeader_eq : Module.tablesHeader root = .ok tablesHeader
  strings_eq : readStrings metadata root = .ok strings
  guids_eq : readGuids metadata root = .ok guids?
  stream_eq : streamData metadata tablesHeader = .ok stream
  accepted : TablesStream.Accepted stream tables
  moduleRows_eq : tables.Shows moduleRows
  moduleRow_eq : firstRow moduleRows = .ok moduleRow
  name_eq : strings.get moduleRow.name.toNat = .ok module.name
  mvid_eq : readMvid guids? moduleRow.mvid = .ok module.mvid
  shows_fields : tables.Shows fieldRows
  fields_eq : fieldRows.mapM (fieldOf strings) = .ok fields
  shows_methods : tables.Shows methodRows
  methods_eq : methodRows.mapM (methodOf strings) = .ok methods
  payload_eq : module.payload = Payload.classify module.header methods
  fieldPointers_eq : fieldPointers tables = .ok fieldPointers?
  methodPointers_eq : methodPointers tables = .ok methodPointers?
  shows_types : tables.Shows typeRows
  declare_eq : declare strings typeRows
    ⟨.ofList fields fieldPointers?, .ofList methods methodPointers?⟩ = .ok (declarations, pools)
  shows_nesting : tables.Shows nestingRows
  links_eq : nestingRows.foldlM Nesting.linkSilently (Nesting.Links.ofTypes declarations) =
    .ok links
  types_eq : Nesting.assembleCopying links = .ok module.types
  tablesOffset_eq : Size.add module.place.offset tablesHeader.offset.toNat =
    .ok module.place.tablesOffset
  tablesSize_eq : module.place.tablesSize = tablesHeader.size.toNat
  isLoose_eq : module.place.isLoose = (tablesHeader.name == .looseTables)

theorem loadSilently_eq_ok {image : Image} {module : Module} :
    loadSilently image = .ok module ↔ Nonempty (Loaded image module) := by
  constructor
  · intro h
    simp only [loadSilently, Nesting.buildSilently, Except.bind_eq_ok, Except.pure_eq_ok] at h
    obtain ⟨headerOffset, hheaderOffset, headerData, hheaderData, header, hheader, offset, hoffset,
      metadata, hmetadata, root, hroot, tablesHeader, htablesHeader, strings, hstrings, guids?,
      hguids, tables, ⟨stream, hstream, htables⟩, moduleRows, hmoduleRows, moduleRow, hmoduleRow,
      name, hname, mvid, hmvid, fields, ⟨fieldRows, hfieldRows, hfields⟩, methods,
      ⟨methodRows, hmethodRows, hmethods⟩, fieldPointers?, hfieldPointers, methodPointers?,
      hmethodPointers, typeRows, htypeRows, ⟨declarations, pools⟩, hdeclare, nestingRows,
      hnestingRows, types, ⟨links, hlinks, htypes⟩, tablesOffset, htablesOffset, rfl⟩ := h
    have haccepted := TablesStream.ofData_eq_ok.mp htables
    exact ⟨{
      headerOffset, headerData, metadata, root, tablesHeader, strings, guids?, stream, tables,
      moduleRows, moduleRow, fieldRows, fields, methodRows, methods, fieldPointers?,
      methodPointers?, typeRows, declarations, pools, nestingRows, links
      image_eq := rfl
      headerOffset_eq := hheaderOffset
      headerData_eq := hheaderData
      header_eq := hheader
      offset_eq := hoffset
      size_eq := rfl
      metadata_eq := hmetadata
      root_eq := hroot
      version_eq := rfl
      tablesHeader_eq := htablesHeader
      strings_eq := hstrings
      guids_eq := hguids
      stream_eq := hstream
      accepted := haccepted
      moduleRows_eq := haccepted.rows_eq_ok.mp hmoduleRows
      moduleRow_eq := hmoduleRow
      name_eq := hname
      mvid_eq := hmvid
      shows_fields := haccepted.rows_eq_ok.mp hfieldRows
      fields_eq := hfields
      shows_methods := haccepted.rows_eq_ok.mp hmethodRows
      methods_eq := hmethods
      payload_eq := rfl
      fieldPointers_eq := hfieldPointers
      methodPointers_eq := hmethodPointers
      shows_types := haccepted.rows_eq_ok.mp htypeRows
      declare_eq := hdeclare
      shows_nesting := haccepted.rows_eq_ok.mp hnestingRows
      links_eq := hlinks
      types_eq := htypes
      tablesOffset_eq := htablesOffset
      tablesSize_eq := rfl
      isLoose_eq := rfl }⟩
  · rintro ⟨loaded⟩
    simp only [loadSilently, Nesting.buildSilently, Except.bind_eq_ok, Except.pure_eq_ok]
    have h := loaded.accepted
    have hmetadata := loaded.metadata_eq
    rw [loaded.size_eq] at hmetadata
    refine ⟨_, loaded.headerOffset_eq, _, loaded.headerData_eq, _, loaded.header_eq, _,
      loaded.offset_eq, _, hmetadata, _, loaded.root_eq, _, loaded.tablesHeader_eq, _,
      loaded.strings_eq, _, loaded.guids_eq, _,
      ⟨_, loaded.stream_eq, TablesStream.ofData_eq_ok.mpr h⟩, _,
      h.rows_eq_ok.mpr loaded.moduleRows_eq, _, loaded.moduleRow_eq, _, loaded.name_eq, _,
      loaded.mvid_eq, _, ⟨_, h.rows_eq_ok.mpr loaded.shows_fields, loaded.fields_eq⟩, _,
      ⟨_, h.rows_eq_ok.mpr loaded.shows_methods, loaded.methods_eq⟩, _, loaded.fieldPointers_eq,
      _, loaded.methodPointers_eq, _, h.rows_eq_ok.mpr loaded.shows_types, _, loaded.declare_eq,
      _, h.rows_eq_ok.mpr loaded.shows_nesting, _, ⟨_, loaded.links_eq, loaded.types_eq⟩, _,
      loaded.tablesOffset_eq, ?_⟩
    rw [← loaded.size_eq, ← loaded.tablesSize_eq, ← loaded.isLoose_eq, ← loaded.version_eq,
      ← loaded.payload_eq, ← loaded.image_eq]

/-- A module is loaded from bytes, with whatever journal, exactly if there are
such steps. -/
theorem ofData_iff_loaded [Container.Reader] {data : Bytes} {journal : Journal} {module : Module} :
    (∃ after, ofData data journal = .ok module after) ↔
      ∃ image, Image.ofData data = .ok image ∧ Nonempty (Loaded image module) := by
  rw [ofData_eq_ok, ofDataSilently]
  simp only [Except.bind_eq_ok, loadSilently_eq_ok]

/-- What was loaded keeps the bytes that it was loaded from. -/
theorem loaded_of_ofData [Container.Reader] {data : Bytes} {journal after : Journal} {module : Module}
    (h : ofData data journal = .ok module after) :
    Nonempty (Loaded module.image module) ∧
      Nonempty (Image.Opened module.image.data module.image) ∧ module.image.data = data := by
  obtain ⟨image, himage, ⟨loaded⟩⟩ := ofData_iff_loaded.mp ⟨after, h⟩
  obtain ⟨opened⟩ := Image.ofData_eq_ok.mp himage
  obtain rfl := loaded.image_eq
  obtain rfl := opened.data_eq
  exact ⟨⟨loaded⟩, ⟨opened⟩, rfl⟩

namespace Loaded

variable {image : Image} {module : Module}

theorem tablesOffset_sum (loaded : Loaded image module) :
    module.place.offset + loaded.tablesHeader.offset.toNat = module.place.tablesOffset := by
  have hadd := loaded.tablesOffset_eq
  unfold Size.add at hadd
  split at hadd
  · exact Except.ok.inj hadd
  · cases hadd

theorem slice_stream (loaded : Loaded image module) :
    module.image.data.slice module.place.tablesOffset module.place.tablesSize =
      .ok loaded.stream := by
  obtain ⟨hroom, hmetadata⟩ := Bytes.slice_eq_ok.mp loaded.metadata_eq
  obtain ⟨hinside, hstream⟩ := Bytes.slice_eq_ok.mp loaded.stream_eq
  have hsize := Bytes.size_slice loaded.metadata_eq
  rw [loaded.image_eq, loaded.tablesSize_eq, ← loaded.tablesOffset_sum]
  refine Bytes.slice_eq_ok.mpr ⟨by omega, ?_⟩
  rw [← hstream, ← hmetadata, Array.extract_extract]
  congr 1
  omega

theorem tables_eq (loaded : Loaded image module) : module.tables = .ok loaded.tables := by
  rw [Module.tables, loaded.slice_stream]
  exact TablesStream.ofData_eq_ok.mpr loaded.accepted

theorem size_stream (loaded : Loaded image module) :
    loaded.stream.size ≤ RuntimeHeader.metadataLimit :=
  size_stream_le loaded.header_eq (loaded.size_eq ▸ loaded.metadata_eq) loaded.stream_eq

/-- Members are handed out from pools that words can count. -/
theorem narrow (loaded : Loaded image module) :
    Pools.Narrow ⟨.ofList loaded.fields loaded.fieldPointers?,
      .ofList loaded.methods loaded.methodPointers?⟩ := by
  have hfields : loaded.tables.rows FieldRow >>= List.mapM (fieldOf loaded.strings) =
      .ok loaded.fields :=
    Except.bind_eq_ok.mpr ⟨_, loaded.accepted.rows_eq_ok.mpr loaded.shows_fields, loaded.fields_eq⟩
  have hmethods : loaded.tables.rows MethodRow >>= List.mapM (methodOf loaded.strings) =
      .ok loaded.methods :=
    Except.bind_eq_ok.mpr
      ⟨_, loaded.accepted.rows_eq_ok.mpr loaded.shows_methods, loaded.methods_eq⟩
  exact narrow_ofList loaded.accepted (Nat.lt_of_le_of_lt loaded.size_stream (by decide)) hfields
    hmethods loaded.fieldPointers_eq loaded.methodPointers_eq

def worded (loaded : Loaded image module) : TablesStream.Worded loaded.tables where
  types := loaded.typeRows
  methods := loaded.methodRows
  fields := loaded.fieldRows
  shows_types := loaded.shows_types
  shows_methods := loaded.shows_methods
  shows_fields := loaded.shows_fields

end Loaded

end Module

end Unveil
