import Unveil.Proofs.Image.Interpretation
import Unveil.Proofs.Module.Silent

/-!
The plainest file around a tables stream. It has one section, mapped to where it
lies in the file, and metadata with the empty text as its only string. How much
room there is in front of the file header, what stands in the checksum field and
what the tables stream holds is left open. Two such files serve as samples: the
smallest module with a declaration of every kind, and one in which types are
nested, lists begin at the same member and field lists are redirected.
-/

namespace Unveil

namespace Framing

def zeros (count : Nat) : List UInt8 := List.replicate count 0

/-- Where the runtime header starts, with `gap` bytes in front of the file
header. -/
def runtimeAt (gap : Nat) : Nat := 0x40 + gap + 24 + 216 + 40

/-- Where the metadata starts, right behind the runtime header. -/
def metadataAt (gap : Nat) : Nat := runtimeAt gap + 72

/-- Where the tables stream starts, counted from the start of the metadata. -/
def tablesAt : Nat := 57

/-- The file up to the optional header. -/
def fileHeader (gap : Nat) : List UInt8 :=
  Bytes.spell 2 0x5A4D ++ zeros 58 ++ Bytes.spell 4 (0x40 + gap) ++ zeros gap ++
    Bytes.spell 4 0x00004550 ++ zeros 2 ++ Bytes.spell 2 1 ++ zeros 12 ++ Bytes.spell 2 216 ++
    zeros 2

/-- The optional header, of whose directories only the last is given, and the
section header behind it. -/
def optionalHeader (gap checksum length : Nat) : List UInt8 :=
  Bytes.spell 2 0x10B ++ zeros 34 ++ Bytes.spell 4 1 ++ zeros 24 ++ Bytes.spell 4 checksum ++
    zeros 24 ++ Bytes.spell 4 15 ++ zeros 112 ++ Bytes.spell 4 (runtimeAt gap) ++
    Bytes.spell 4 72 ++ zeros 16 ++ Bytes.spell 4 (metadataAt gap + tablesAt + length) ++ zeros 20

def runtimeHeader (gap length : Nat) : List UInt8 :=
  Bytes.spell 4 72 ++ Bytes.spell 2 2 ++ Bytes.spell 2 5 ++ Bytes.spell 4 (metadataAt gap) ++
    Bytes.spell 4 (tablesAt + length) ++ Bytes.spell 4 1 ++ zeros 52

def label (text : List Char) (padding : Nat) : List UInt8 :=
  text.map (fun letter => .ofNat letter.toNat) ++ zeros padding

/-- The metadata up to the tables stream. -/
def metadataRoot (length : Nat) : List UInt8 :=
  Bytes.spell 4 MetadataRoot.magic.toNat ++ zeros 8 ++ Bytes.spell 4 4 ++
    label ['v', '4', '.', '0'] 0 ++ Bytes.spell 2 0 ++ Bytes.spell 2 2 ++
    Bytes.spell 4 56 ++ Bytes.spell 4 1 ++ label ['#', 'S', 't', 'r', 'i', 'n', 'g', 's'] 4 ++
    Bytes.spell 4 tablesAt ++ Bytes.spell 4 length ++ label ['#', '~'] 2 ++ zeros 1

def front (gap checksum length : Nat) : List UInt8 :=
  fileHeader gap ++ optionalHeader gap checksum length ++ runtimeHeader gap length ++
    metadataRoot length

/-- The file around a tables stream. -/
def frame (gap checksum : Nat) (stream : List UInt8) : Bytes :=
  (front gap checksum stream.length ++ stream).toArray

theorem length_fileHeader (gap checksum length : Nat) :
    (fileHeader gap ++ optionalHeader gap checksum length).length = runtimeAt gap := by
  simp only [fileHeader, optionalHeader, zeros, List.length_append, List.length_replicate,
    Bytes.length_spell, runtimeAt]

theorem length_runtimeHeader (gap length : Nat) :
    (runtimeHeader gap length).length = RuntimeHeader.byteSize := by
  simp only [runtimeHeader, zeros, List.length_append, List.length_replicate, Bytes.length_spell,
    RuntimeHeader.byteSize]

theorem length_metadataRoot (length : Nat) : (metadataRoot length).length = tablesAt := by
  simp only [metadataRoot, label, zeros, List.length_append, List.length_replicate,
    List.length_map, List.length_cons, List.length_nil, Bytes.length_spell, tablesAt]

/-- A part of some bytes is found behind what stands in front of it. -/
theorem slice_toArray (before part after : List UInt8) {start length : Nat}
    (hstart : before.length = start) (hlength : part.length = length) :
    Bytes.slice (before ++ part ++ after).toArray start length = .ok part.toArray := by
  subst hstart hlength
  have hroom : before.length + part.length ≤ (before ++ part ++ after).toArray.size := by
    simp only [List.size_toArray, List.length_append]
    omega
  rw [Bytes.slice, if_pos hroom, List.extract_toArray, List.extract_eq_take_drop]
  simp

theorem slice_runtimeHeader (gap checksum : Nat) (stream : List UInt8) :
    (frame gap checksum stream).slice (runtimeAt gap) RuntimeHeader.byteSize =
      .ok (runtimeHeader gap stream.length).toArray := by
  rw [frame, front, List.append_assoc, List.append_assoc]
  rw [← List.append_assoc]
  exact slice_toArray _ _ _ (length_fileHeader ..) (length_runtimeHeader ..)

theorem slice_metadata (gap checksum : Nat) (stream : List UInt8) :
    (frame gap checksum stream).slice (metadataAt gap) (tablesAt + stream.length) =
      .ok (metadataRoot stream.length ++ stream).toArray := by
  have hfront : (fileHeader gap ++ optionalHeader gap checksum stream.length ++
      runtimeHeader gap stream.length).length = metadataAt gap := by
    rw [List.length_append, length_fileHeader, length_runtimeHeader]
    rfl
  have hparts : front gap checksum stream.length ++ stream =
      fileHeader gap ++ optionalHeader gap checksum stream.length ++
        runtimeHeader gap stream.length ++ (metadataRoot stream.length ++ stream) ++ [] := by
    simp only [front, List.append_assoc, List.append_nil]
  rw [frame, hparts]
  exact slice_toArray _ _ _ hfront (by rw [List.length_append, length_metadataRoot])

theorem length_front (gap checksum length : Nat) :
    (front gap checksum length).length = metadataAt gap + tablesAt := by
  rw [front, List.length_append, List.length_append, length_fileHeader, length_runtimeHeader,
    length_metadataRoot]
  rfl

theorem slice_stream (stream : List UInt8) :
    Bytes.slice (metadataRoot stream.length ++ stream).toArray tablesAt stream.length =
      .ok stream.toArray := by
  rw [← List.append_nil (metadataRoot stream.length ++ stream)]
  exact slice_toArray _ _ _ (length_metadataRoot _) rfl

/-- What an image takes over from the container of a file. -/
def taken (data : Bytes) : Option ((Nat × List Section) × (UInt32 × UInt32) ×
    Option Region × Option Region) :=
  (Container.ofData data).toOption.bind fun container =>
    container.optional.map fun header => ((container.start, container.sections),
      (header.fileAlignment, header.checksum), header.directory? Container.runtimeIndex,
      header.directory? Container.certificateIndex)

def file (stream : List UInt8) : Bytes := frame 0 1 stream

def imageOf (stream : List UInt8) : Image where
  data := file stream
  start := 0x40
  checksum := 1
  runtime := ⟨344, 72⟩
  certificates := none
  sections := [⟨(zeros 8).toArray, 0, 0, .ofNat (473 + stream.length), 0⟩]

def headerOf (stream : List UInt8) : RuntimeHeader where
  headerSize := 72
  major := 2
  minor := 5
  metadata := ⟨416, .ofNat (tablesAt + stream.length)⟩
  flags := 1
  entryPoint := 0
  resources := ⟨0, 0⟩
  strongName := ⟨0, 0⟩
  codeManager := ⟨0, 0⟩
  vtableFixups := ⟨0, 0⟩
  exportJumps := ⟨0, 0⟩
  nativeHeader := ⟨0, 0⟩

def metadataOf (stream : List UInt8) : Bytes :=
  (metadataRoot stream.length ++ stream).toArray

def rootOf (stream : List UInt8) : MetadataRoot where
  signature := MetadataRoot.magic
  major := 0
  minor := 0
  reserved := 0
  versionLength := 4
  version := "v4.0"
  flags := 0
  streamCount := 2
  streams := [⟨56, 1, .strings⟩, ⟨57, .ofNat stream.length, .tables⟩]

/-- What stands around a tables stream is read as it was put there. -/
structure Framed (stream : List UInt8) : Prop where
  length_lt : tablesAt + stream.length < 2 ^ 32
  taken_eq : taken (file stream) =
    some ((0x40, (imageOf stream).sections), (1, 1), some ⟨344, 72⟩, none)
  runtime_eq : ((imageOf stream).offsetOf 344).toOption = some 344
  header_eq : (RuntimeHeader.ofData (runtimeHeader 0 stream.length).toArray).toOption =
    some (headerOf stream)
  place_eq : ((imageOf stream).offsetOf 416).toOption = some 416
  root_eq : (MetadataRoot.ofData (metadataOf stream)).toOption = some (rootOf stream)

namespace Framed

variable {stream : List UInt8}

theorem exists_container (h : Framed stream) : ∃ container header,
    Container.ofData (file stream) = .ok container ∧ container.optional = some header ∧
      container.start = 0x40 ∧ container.sections = (imageOf stream).sections ∧
      header.fileAlignment = 1 ∧ header.checksum = 1 ∧
      header.directory? Container.runtimeIndex = some ⟨344, 72⟩ ∧
      header.directory? Container.certificateIndex = none := by
  obtain ⟨container, hcontainer, hparts⟩ := Option.bind_eq_some_iff.mp h.taken_eq
  obtain ⟨header, hheader, hparts⟩ := Option.map_eq_some_iff.mp hparts
  simp only [Prod.mk.injEq, and_assoc] at hparts
  exact ⟨container, header, eq_ok_of_toOption hcontainer, hheader, hparts⟩

theorem image_eq (h : Framed stream) : Image.ofData (file stream) = .ok (imageOf stream) := by
  obtain ⟨container, header, hcontainer, hheader, hstart, hsections, -, hchecksum, hruntime,
    hcertificates⟩ := h.exists_container
  apply Image.ofData_eq_ok.mpr
  exact ⟨{
    container, header
    nonempty := by
      have hroom := (Container.ofData_eq_ok.mp hcontainer).room
      omega
    read_eq := hcontainer
    optional_eq := hheader
    data_eq := rfl
    start_eq := hstart.symm
    checksum_eq := hchecksum.symm
    runtime_eq := by
      rw [hruntime]
      rfl
    certificates_eq := by
      rw [hcertificates]
      rfl
    sections_eq := hsections.symm }⟩

theorem metadataSize_eq (h : Framed stream) :
    (headerOf stream).metadata.size.toNat = tablesAt + stream.length :=
  UInt32.toNat_ofNat_of_lt' h.length_lt

theorem streamSize_eq (h : Framed stream) : (UInt32.ofNat stream.length).toNat = stream.length :=
  UInt32.toNat_ofNat_of_lt' (Nat.lt_of_le_of_lt (Nat.le_add_left ..) h.length_lt)

theorem strings_eq (stream : List UInt8) :
    Module.readStrings (metadataOf stream) (rootOf stream) = .ok ⟨#[0]⟩ := by
  have hzero : (metadataOf stream).slice 56 1 = .ok #[0] :=
    slice_toArray _ (zeros 1) stream (by simp only [label, zeros, List.length_append,
      List.length_replicate, List.length_map, List.length_cons, List.length_nil,
      Bytes.length_spell]) rfl
  exact Except.bind_eq_ok.mpr ⟨#[0], hzero, rfl⟩

theorem stream_eq (h : Framed stream) :
    Module.streamData (metadataOf stream) ⟨57, .ofNat stream.length, .tables⟩ =
      .ok stream.toArray := by
  rw [Module.streamData, h.streamSize_eq]
  exact slice_stream stream

end Framed

/-- The forest of types that are completed in a given order. -/
def assembleIn (order : List Nat) (links : Nesting.Links) : Except Fault Forest := do
  let built ← order.foldlM (Nesting.completeCopying links) (.replicate links.types.size .nil)
  let roots := (List.range links.types.size).filter fun index =>
    (links.parents.getD index none).isNone
  roots.reverse.foldlM (fun rest index => Nesting.copySlot links.types built (some index) rest) .nil

/-- A tables stream with what its tables come to. -/
structure Sample where
  stream : List UInt8
  types : Forest
  depths : Array Nat
  /-- The types, the innermost first. -/
  order : List Nat
  extents : List (TableId × Extent)
  fieldPointers? : Option (Array UInt32)
  methodPointers? : Option (Array UInt32)
  fieldStarts : List Nat
  methodStarts : List Nat

namespace Sample

def rows (sample : Sample) (table : TableId) : Nat :=
  ((sample.extents.lookup table).map Extent.rows).getD 0

/-- The module in the file around a stream. -/
def module (sample : Sample) : Module where
  image := imageOf sample.stream
  place := ⟨416, tablesAt + sample.stream.length, 473, sample.stream.length, false⟩
  header := headerOf sample.stream
  runtimeVersion := "v4.0"
  name := ""
  mvid := none
  payload := ⟨[]⟩
  types := sample.types

/-- The sample says of its stream what a load finds there. -/
structure Sound (sample : Sample) : Prop extends Framed sample.stream where
  order_eq : (List.range sample.depths.size).mergeSort (fun a b =>
    sample.depths.getD b 0 ≤ sample.depths.getD a 0) = sample.order
  types_eq : (do
    let tables ← TablesStream.ofData sample.stream.toArray
    let moduleRow ← tables.rows ModuleRow >>= Module.firstRow
    let fields ← tables.rows FieldRow >>= List.mapM (Module.fieldOf ⟨#[0]⟩)
    let methods ← tables.rows MethodRow >>= List.mapM (Module.methodOf ⟨#[0]⟩)
    let fieldPointers? ← Module.fieldPointers tables
    let methodPointers? ← Module.methodPointers tables
    let typeRows ← tables.rows TypeRow
    let declared ← Module.declare ⟨#[0]⟩ typeRows
      ⟨.ofList fields fieldPointers?, .ofList methods methodPointers?⟩
    let nestingRows ← tables.rows NestingRow
    let links ← nestingRows.foldlM Nesting.linkSilently (Nesting.Links.ofTypes declared.1)
    let depths ← Nesting.depths links.types links.parents
    let types ← assembleIn sample.order links
    pure ((moduleRow.name, moduleRow.mvid, Payload.classify (headerOf sample.stream) methods),
      links.types.size, depths, types)).toOption =
    some ((0, 0, ⟨[]⟩), sample.depths.size, sample.depths, sample.types)
  rows_le : sample.rows .typeDef ≤ 0xFFFFFF ∧ sample.rows .methodDef ≤ 0xFFFFFF ∧
    sample.rows .field ≤ 0xFFFFFF
  extents_eq : (TablesStream.ofData sample.stream.toArray).toOption.map TablesStream.extents =
    some sample.extents
  lists_eq : (do
    let tables ← TablesStream.ofData sample.stream.toArray
    let typeRows ← tables.rows TypeRow
    let fieldPointers? ← Module.fieldPointers tables
    let methodPointers? ← Module.methodPointers tables
    pure (typeRows.map (fun entry : Entry TypeRow => entry.row.fieldList.toNat),
      typeRows.map (fun entry : Entry TypeRow => entry.row.methodList.toNat),
      fieldPointers?, methodPointers?)).toOption =
    some (sample.fieldStarts, sample.methodStarts, sample.fieldPointers?, sample.methodPointers?)

namespace Sound

variable {sample : Sample} {tables : TablesStream}

theorem loads (h : sample.Sound) :
    Module.ofDataSilently (file sample.stream) = .ok sample.module := by
  have hheader : (file sample.stream).slice 344 72 =
      .ok (runtimeHeader 0 sample.stream.length).toArray :=
    slice_runtimeHeader 0 1 sample.stream
  have hmetadata : (file sample.stream).slice 416 (headerOf sample.stream).metadata.size.toNat =
      .ok (metadataOf sample.stream) := by
    rw [h.metadataSize_eq]
    exact slice_metadata 0 1 sample.stream
  have hempty : (⟨#[0]⟩ : StringHeap).get 0 = .ok "" := eq_ok_of_toOption (by decide +kernel)
  have htables := eq_ok_of_toOption h.types_eq
  simp only [Except.bind_eq_ok, Except.pure_eq_ok, Prod.mk.injEq] at htables
  obtain ⟨tables, htables, moduleRow, ⟨moduleRows, hmoduleRows, hmoduleRow⟩, fields,
    ⟨fieldRows, hfieldRows, hfields⟩, methods, ⟨methodRows, hmethodRows, hmethods⟩, fieldPointers?,
    hfieldPointers, methodPointers?, hmethodPointers, typeRows, htypeRows, declared, hdeclared,
    nestingRows, hnestingRows, links, hlinks, depths, hdepths, types, htypes,
    ⟨hname, hmvid, hpayload⟩, hcount, rfl, rfl⟩ := htables
  have hbuild : Nesting.buildSilently declared.1 nestingRows = .ok sample.types := by
    refine Except.bind_eq_ok.mpr ⟨links, hlinks, Except.bind_eq_ok.mpr ⟨_, hdepths, ?_⟩⟩
    rw [hcount, h.order_eq]
    rw [assembleIn, hcount] at htypes
    exact htypes
  refine Except.bind_eq_ok.mpr ⟨imageOf sample.stream, h.image_eq, ?_⟩
  simp only [Module.loadSilently, Except.bind_eq_ok, Except.pure_eq_ok]
  refine ⟨344, eq_ok_of_toOption h.runtime_eq, _, hheader, headerOf sample.stream,
    eq_ok_of_toOption h.header_eq, 416, eq_ok_of_toOption h.place_eq, _, hmetadata,
    rootOf sample.stream, eq_ok_of_toOption h.root_eq, _, rfl, ⟨#[0]⟩, Framed.strings_eq _, none,
    rfl, tables, ⟨_, h.stream_eq, htables⟩, moduleRows, hmoduleRows, moduleRow, hmoduleRow, "", ?_,
    none, ?_, fields, ⟨fieldRows, hfieldRows, hfields⟩, methods, ⟨methodRows, hmethodRows, hmethods⟩,
    fieldPointers?, hfieldPointers, methodPointers?, hmethodPointers, typeRows, htypeRows, declared,
    hdeclared, nestingRows, hnestingRows, sample.types, hbuild, 473, rfl, ?_⟩
  · rw [hname]
    exact hempty
  · rw [hmvid]
    rfl
  · rw [hpayload, h.metadataSize_eq, h.streamSize_eq]
    rfl

theorem slice_tables (sample : Sample) :
    sample.module.image.data.slice sample.module.place.tablesOffset
      sample.module.place.tablesSize = .ok sample.stream.toArray := by
  have hwhole := slice_toArray (front 0 1 sample.stream.length) sample.stream []
    (length_front 0 1 sample.stream.length) rfl
  rwa [List.append_nil] at hwhole

theorem ofData_stream (h : sample.module.tables = .ok tables) :
    TablesStream.ofData sample.stream.toArray = .ok tables := by
  rwa [Module.tables, slice_tables sample, Except.ok_bind] at h

theorem extents (h : sample.Sound) (htables : sample.module.tables = .ok tables) :
    tables.extents = sample.extents := by
  have hextents := h.extents_eq
  rw [ofData_stream htables] at hextents
  exact Option.some.inj hextents

/-- Where the lists of the types start, and what redirects them. -/
theorem lists (h : sample.Sound) (htables : sample.module.tables = .ok tables) :
    (∃ typeRows, tables.rows TypeRow = .ok typeRows ∧
      typeRows.map (·.row.fieldList.toNat) = sample.fieldStarts ∧
      typeRows.map (·.row.methodList.toNat) = sample.methodStarts) ∧
    Module.fieldPointers tables = .ok sample.fieldPointers? ∧
    Module.methodPointers tables = .ok sample.methodPointers? := by
  have hlists := eq_ok_of_toOption h.lists_eq
  simp only [Except.bind_eq_ok, Except.pure_eq_ok, Prod.mk.injEq, ofData_stream htables,
    Except.ok.injEq] at hlists
  obtain ⟨_, rfl, typeRows, htypeRows, _, hfieldPointers, _, hmethodPointers, hfields, hmethods,
    rfl, rfl⟩ := hlists
  exact ⟨⟨typeRows, htypeRows, hfields, hmethods⟩, hfieldPointers, hmethodPointers⟩

theorem rowCount_eq (h : sample.Sound) (htables : sample.module.tables = .ok tables)
    (table : TableId) :
    tables.rowCount table = sample.rows table := by
  rw [TablesStream.rowCount, TablesStream.extent?, h.extents htables, rows]
  cases sample.extents.lookup table with
  | none => rfl
  | some extent => rfl

/-- No table has more rows than tokens can number. -/
theorem rowCounts (h : sample.Sound) (htables : sample.module.tables = .ok tables) :
    tables.rowCount .typeDef ≤ 0xFFFFFF ∧ tables.rowCount .methodDef ≤ 0xFFFFFF ∧
      tables.rowCount .field ≤ 0xFFFFFF := by
  simp only [h.rowCount_eq htables]
  exact h.rows_le

end Sound

end Sample

/-- The smallest tables stream with a declaration of every kind, none of them
public: a module, a type, a field and a method, one row each. -/
def plainStream : List UInt8 :=
  zeros 4 ++ [2, 0, 0, 1] ++ Bytes.spell 8 0x55 ++ zeros 8 ++ Bytes.spell 4 1 ++ Bytes.spell 4 1 ++
    Bytes.spell 4 1 ++ Bytes.spell 4 1 ++ zeros 10 ++
    (Bytes.spell 4 0x100000 ++ zeros 6 ++ Bytes.spell 2 1 ++ Bytes.spell 2 1) ++
    (Bytes.spell 2 1 ++ zeros 4) ++
    (zeros 8 ++ zeros 6)

def plainTypes : Forest :=
  .present {
    token := .ofParts .typeDef 1
    name := ""
    space := ""
    flags := 0x100000
    isNested := false
    methods := [some ⟨.ofParts .methodDef 1, "", 0, 0, 0⟩]
    fields := [some ⟨.ofParts .field 1, "", 1⟩] } .nil .nil

def plainSample : Sample where
  stream := plainStream
  types := plainTypes
  depths := #[0]
  order := [0]
  extents := [(.module, ⟨40, 10, 1⟩), (.typeDef, ⟨50, 14, 1⟩), (.field, ⟨64, 6, 1⟩),
    (.methodDef, ⟨70, 14, 1⟩)]
  fieldPointers? := none
  methodPointers? := none
  fieldStarts := [1]
  methodStarts := [1]

/-- The smallest module with a declaration of every kind. -/
def plain : Bytes := file plainStream

def plainModule : Module := plainSample.module

theorem plain_sound : plainSample.Sound where
  length_lt := by decide +kernel
  taken_eq := by decide +kernel
  runtime_eq := by decide +kernel
  header_eq := by decide +kernel
  place_eq := by decide +kernel
  root_eq := by decide +kernel
  order_eq := by simp [plainSample]
  types_eq := by decide +kernel
  rows_le := by decide
  extents_eq := by decide +kernel
  lists_eq := by decide +kernel

theorem plain_loads : Module.ofDataSilently plain = .ok plainModule := plain_sound.loads

/-- A stream with types in types. The lists of the first two types start with the same
field, pointers turn the order of the fields around, and one of the rows puts a type
that does not exist into the first. -/
def nestedStream : List UInt8 :=
  zeros 4 ++ [2, 0, 0, 1] ++ Bytes.spell 8 0x2000000005D ++ zeros 8 ++ Bytes.spell 4 1 ++
    Bytes.spell 4 4 ++ Bytes.spell 4 2 ++ Bytes.spell 4 2 ++ Bytes.spell 4 2 ++ Bytes.spell 4 3 ++
    zeros 10 ++
    (Bytes.spell 4 0x100000 ++ zeros 6 ++ Bytes.spell 2 1 ++ Bytes.spell 2 1) ++
    (Bytes.spell 4 0x100003 ++ zeros 6 ++ Bytes.spell 2 1 ++ Bytes.spell 2 2) ++
    (Bytes.spell 4 0x100005 ++ zeros 6 ++ Bytes.spell 2 2 ++ Bytes.spell 2 2) ++
    (Bytes.spell 4 0x100000 ++ zeros 6 ++ Bytes.spell 2 3 ++ Bytes.spell 2 3) ++
    (Bytes.spell 2 2 ++ Bytes.spell 2 1) ++
    (Bytes.spell 2 1 ++ zeros 4) ++ (Bytes.spell 2 4 ++ zeros 4) ++
    (zeros 6 ++ Bytes.spell 2 1 ++ zeros 6) ++ (zeros 6 ++ Bytes.spell 2 3 ++ zeros 6) ++
    (Bytes.spell 2 2 ++ Bytes.spell 2 1) ++ (Bytes.spell 2 9 ++ Bytes.spell 2 1) ++
    (Bytes.spell 2 3 ++ Bytes.spell 2 2)

/-- A type without a name. -/
def nameless (rid : Nat) (flags : UInt32) (isNested : Bool) (methods : List (Option MethodDecl))
    (fields : List (Option FieldDecl)) : TypeDecl :=
  ⟨.ofParts .typeDef rid, "", "", flags, isNested, methods, fields⟩

def nestedTypes : Forest :=
  .present (nameless 1 0x100000 false [some ⟨.ofParts .methodDef 1, "", 1, 0, 0⟩] [])
    (.present (nameless 2 0x100003 true [] [some ⟨.ofParts .field 2, "", 4⟩])
      (.present (nameless 3 0x100005 true [some ⟨.ofParts .methodDef 2, "", 3, 0, 0⟩]
        [some ⟨.ofParts .field 1, "", 1⟩]) .nil .nil)
      (.absent .nil))
    (.present (nameless 4 0x100000 false [] []) .nil .nil)

def nestedSample : Sample where
  stream := nestedStream
  types := nestedTypes
  depths := #[0, 1, 2, 0]
  order := [2, 1, 0, 3]
  extents := [(.module, ⟨48, 10, 1⟩), (.typeDef, ⟨58, 14, 4⟩), (.fieldPtr, ⟨114, 2, 2⟩),
    (.field, ⟨118, 6, 2⟩), (.methodDef, ⟨130, 14, 2⟩), (.nestedClass, ⟨158, 4, 3⟩)]
  fieldPointers? := some #[2, 1]
  methodPointers? := none
  fieldStarts := [1, 1, 2, 3]
  methodStarts := [1, 2, 2, 3]

def nested : Bytes := file nestedStream

def nestedModule : Module := nestedSample.module

theorem nested_sound : nestedSample.Sound where
  length_lt := by decide +kernel
  taken_eq := by decide +kernel
  runtime_eq := by decide +kernel
  header_eq := by decide +kernel
  place_eq := by decide +kernel
  root_eq := by decide +kernel
  order_eq := by simp [nestedSample, List.range, List.range.loop, List.mergeSort]
  types_eq := by decide +kernel
  rows_le := by decide
  extents_eq := by decide +kernel
  lists_eq := by decide +kernel

theorem nested_loads : Module.ofDataSilently nested = .ok nestedModule := nested_sound.loads

end Framing

end Unveil
