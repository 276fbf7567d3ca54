import Unveil.Proofs.Module.Limits
import Unveil.Proofs.Safety.Container
import Unveil.Proofs.Safety.Members
import Unveil.Proofs.Safety.Nesting
import Unveil.Proofs.Safety.Tables

namespace Unveil

theorem Bytes.safe_slice (data : Bytes) (start length : Nat) :
    Safe (data.slice start length) (data.slice start length) :=
  Safe.ite (fun _ => Safe.ok _) fun _ => Safe.error rfl

theorem Image.offsetOf_lt {image : Image} {address offset : Nat}
    (h : image.offsetOf address = .ok offset) : offset < 2 * wordLimit := by
  obtain ⟨_, -, hlocate⟩ := Except.bind_eq_ok.mp h
  generalize image.sections = sections at hlocate
  induction sections with
  | nil => cases hlocate
  | cons area others ih =>
      obtain ⟨_, -, hclaimed⟩ := Except.bind_eq_ok.mp hlocate
      split at hclaimed
      · obtain ⟨_, hstored, hsum⟩ := Except.bind_eq_ok.mp hclaimed
        have hdistance := demand_eq_ok.mp hstored
        have hpointer := area.rawPointer.toNat_lt
        have hraw := area.rawSize.toNat_lt
        unfold Size.add at hsum
        split at hsum
        · cases hsum
          unfold wordLimit
          omega
        · cases hsum
      · exact ih hclaimed

namespace Module

def readStringsStrictly (metadata : Bytes) (root : MetadataRoot) : Except Fault StringHeap :=
  match root.stream? .strings with
  | some header => streamData metadata header >>= StringHeap.ofDataStrictly
  | none => throw (.malformed .noStringHeap)

def readMvidStrictly (guids? : Option GuidHeap) (index : UInt32) : Except Fault (Option Guid) :=
  match index.toNat, guids? with
  | 0, _ => .ok none
  | index, some guids => some <$> guids.getStrictly index
  | _, none => .error (.malformed .noGuidHeap)

def fieldOfStrictly (strings : StringHeap) (entry : Entry FieldRow) : Except Fault FieldDecl := do
  let name ← strings.getStrictly entry.row.name.toNat
  let flags ← attributeWord entry.token entry.row.flags
  pure { token := entry.token, name, flags }

def methodOfStrictly (strings : StringHeap) (entry : Entry MethodRow) :
    Except Fault MethodDecl := do
  let name ← strings.getStrictly entry.row.name.toNat
  let flags ← attributeWord entry.token entry.row.flags
  let implFlags ← attributeWord entry.token entry.row.implFlags
  pure { token := entry.token, name, flags, implFlags, address := entry.row.address }

def fieldPointersStrictly (tables : TablesStream) : Except Fault (Option (Array UInt32)) :=
  if tables.hasTable .fieldPtr then do
    let rows ← tables.rowsStrictly FieldPointerRow
    pure (some (rows.map (·.row.field)).toArray)
  else
    .ok none

def methodPointersStrictly (tables : TablesStream) : Except Fault (Option (Array UInt32)) :=
  if tables.hasTable .methodPtr then do
    let rows ← tables.rowsStrictly MethodPointerRow
    pure (some (rows.map (·.row.method)).toArray)
  else
    .ok none

/-- Reads the metadata of an image, and from there on everything else. -/
def loadStrictly (image : Image) : Except Fault Module := do
  let headerOffset ← image.offsetOfStrictly image.runtime.address.toNat
  let headerData ← image.data.slice headerOffset image.runtime.size.toNat
  let header ← RuntimeHeader.ofDataStrictly headerData
  let offset ← image.offsetOfStrictly header.metadata.address.toNat
  let metadata ← image.data.slice offset header.metadata.size.toNat
  let root ← MetadataRoot.ofDataStrictly metadata
  let tablesHeader ← tablesHeader root
  let strings ← readStringsStrictly metadata root
  let guids? ← readGuids metadata root
  let tables ← streamData metadata tablesHeader >>= TablesStream.ofDataStrictly
  let moduleRows ← tables.rowsStrictly ModuleRow
  let moduleRow ← firstRow moduleRows
  let name ← strings.getStrictly moduleRow.name.toNat
  let mvid ← readMvidStrictly guids? moduleRow.mvid
  let fields ← tables.rowsStrictly FieldRow >>= List.mapM (fieldOfStrictly strings)
  let methods ← tables.rowsStrictly MethodRow >>= List.mapM (methodOfStrictly strings)
  let fieldPointers? ← fieldPointersStrictly tables
  let methodPointers? ← methodPointersStrictly tables
  let typeRows ← tables.rowsStrictly TypeRow
  let (declarations, _) ← declareStrictly strings 0 typeRows
    ⟨.ofList fields fieldPointers?, .ofList methods methodPointers?⟩
  let nestingRows ← tables.rowsStrictly NestingRow
  let types ← Nesting.buildStrictly declarations nestingRows
  let tablesOffset ← Size.add offset tablesHeader.offset.toNat
  let place : Place := {
    offset
    size := header.metadata.size.toNat
    tablesOffset
    tablesSize := tablesHeader.size.toNat
    isLoose := tablesHeader.name == .looseTables }
  pure {
    image, place, header
    runtimeVersion := root.version
    name, mvid
    payload := Payload.classify header methods
    types }

def ofDataStrictly [Container.Reader] (data : Bytes) : Except Fault Module := do
  loadStrictly (← Image.ofData data)

def tablesStrictly (module : Module) : Except Fault TablesStream := do
  TablesStream.ofDataStrictly (← module.image.data.slice module.place.tablesOffset
    module.place.tablesSize)

section Parts

variable {data metadata stream : Bytes} {tables : TablesStream} {strings : StringHeap}

theorem safe_streamData (metadata : Bytes) (header : StreamHeader) :
    Safe (streamData metadata header) (streamData metadata header) :=
  metadata.safe_slice _ _

theorem safe_tablesHeader (root : MetadataRoot) :
    Safe (Module.tablesHeader root) (Module.tablesHeader root) := by
  unfold Module.tablesHeader
  split
  · exact Safe.ok _
  · exact Safe.ok _
  · exact Safe.error rfl
  · exact Safe.error rfl

theorem safe_readStrings (metadata : Bytes) (root : MetadataRoot) :
    Safe (readStringsStrictly metadata root) (readStrings metadata root) := by
  unfold readStringsStrictly readStrings
  cases root.stream? .strings with
  | none => exact Safe.error rfl
  | some header => exact (safe_streamData ..).bind fun part _ => StringHeap.safe_ofData part

theorem safe_readGuids (metadata : Bytes) (root : MetadataRoot) :
    Safe (readGuids metadata root) (readGuids metadata root) := by
  unfold readGuids
  cases root.stream? .guids with
  | none => exact Safe.pure none
  | some header => exact ((safe_streamData ..).bind fun part _ => GuidHeap.safe_ofData part).map some

theorem safe_firstRow (rows : List (Entry ModuleRow)) : Safe (firstRow rows) (firstRow rows) := by
  cases rows with
  | nil => exact Safe.error rfl
  | cons entry rows => exact Safe.pure _

theorem safe_readMvid (guids? : Option GuidHeap) (index : UInt32) :
    Safe (readMvidStrictly guids? index) (readMvid guids? index) := by
  have hindex : index.toNat < wordLimit := index.toNat_lt
  unfold readMvidStrictly readMvid
  generalize index.toNat = index at hindex
  cases index with
  | zero => exact Safe.ok none
  | succ index =>
      cases guids? with
      | none => exact Safe.error rfl
      | some guids => exact (guids.safe_get hindex).map some

theorem safe_attributeWord (token : Token) (value : UInt32) :
    Safe (attributeWord token value) (attributeWord token value) :=
  Safe.demand_bind rfl fun _ => Safe.pure _

theorem safe_fieldOf (strings : StringHeap) (entry : Entry FieldRow) :
    Safe (fieldOfStrictly strings entry) (fieldOf strings entry) :=
  (strings.safe_get _).bind fun _ _ => (safe_attributeWord ..).bind fun _ _ => Safe.pure _

theorem safe_methodOf (strings : StringHeap) (entry : Entry MethodRow) :
    Safe (methodOfStrictly strings entry) (methodOf strings entry) :=
  (strings.safe_get _).bind fun _ _ => (safe_attributeWord ..).bind fun _ _ =>
    (safe_attributeWord ..).bind fun _ _ => Safe.pure _

theorem safe_fieldPointers (h : TablesStream.Accepted data tables)
    (hsize : data.size < Size.limit) :
    Safe (fieldPointersStrictly tables) (fieldPointers tables) :=
  Safe.ite (fun _ => (h.safe_rows hsize).bind fun _ _ => Safe.pure _) fun _ => Safe.ok none

theorem safe_methodPointers (h : TablesStream.Accepted data tables)
    (hsize : data.size < Size.limit) :
    Safe (methodPointersStrictly tables) (methodPointers tables) :=
  Safe.ite (fun _ => (h.safe_rows hsize).bind fun _ _ => Safe.pure _) fun _ => Safe.ok none

end Parts

theorem length_declare {strings : StringHeap} {entries : List (Entry TypeRow)}
    {pools left : Pools} {types : List TypeDecl}
    (h : declare strings entries pools = .ok (types, left)) : types.length = entries.length := by
  induction entries generalizing pools types with
  | nil =>
      cases h
      rfl
  | cons entry entries ih =>
      simp only [declare, Except.bind_eq_ok, Except.pure_eq_ok, Prod.mk.injEq, Prod.exists] at h
      obtain ⟨_, _, -, others, _, hothers, rfl, rfl⟩ := h
      rw [List.length_cons, List.length_cons, ih hothers]

theorem safe_load (image : Image) : Safe (loadStrictly image) (loadSilently image) := by
  refine (image.safe_offsetOf _).bind fun headerOffset _ => ?_
  refine (image.data.safe_slice _ _).bind fun headerData hheaderData => ?_
  have hheaderSize := Bytes.size_slice hheaderData
  have hregion := image.runtime.size.toNat_lt
  refine (RuntimeHeader.safe_ofData (by unfold Size.limit; omega)).bind fun header hheader => ?_
  refine (image.safe_offsetOf _).bind fun offset hoffset => ?_
  refine (image.data.safe_slice _ _).bind fun metadata hmetadata => ?_
  have hlimit : metadata.size ≤ 0x10000000 := by
    rw [Bytes.size_slice hmetadata]
    exact RuntimeHeader.metadataSize_le hheader
  refine (MetadataRoot.safe_ofData (by unfold Size.limit; omega)).bind fun root _ => ?_
  refine (safe_tablesHeader root).bind fun tablesHeader _ => ?_
  refine (safe_readStrings metadata root).bind fun strings _ => ?_
  refine (safe_readGuids metadata root).bind fun guids? _ => ?_
  have htables : Safe (streamData metadata tablesHeader >>= TablesStream.ofDataStrictly)
      (streamData metadata tablesHeader >>= TablesStream.ofData) := by
    refine (safe_streamData ..).bind fun stream hstream => ?_
    have hsize := size_streamData hstream
    exact TablesStream.safe_ofData (by unfold Size.limit; omega)
  refine htables.bind fun tables haccepted => ?_
  obtain ⟨stream, hstream, htables⟩ := Except.bind_eq_ok.mp haccepted
  have haccepted := TablesStream.ofData_eq_ok.mp htables
  have hlimit : stream.size ≤ 0x10000000 := size_stream_le hheader hmetadata hstream
  have hsize : stream.size < Size.limit := by unfold Size.limit; omega
  refine (haccepted.safe_rows hsize).bind fun moduleRows _ => ?_
  refine (safe_firstRow moduleRows).bind fun moduleRow _ => ?_
  refine (strings.safe_get _).bind fun name _ => (safe_readMvid ..).bind fun mvid _ => ?_
  refine ((haccepted.safe_rows hsize).bind fun rows _ =>
    Safe.mapM fun entry _ => safe_fieldOf strings entry).bind fun fields hfields => ?_
  refine ((haccepted.safe_rows hsize).bind fun rows _ =>
    Safe.mapM fun entry _ => safe_methodOf strings entry).bind fun methods hmethods => ?_
  refine (safe_fieldPointers haccepted hsize).bind fun fieldPointers? hfieldPointers => ?_
  refine (safe_methodPointers haccepted hsize).bind fun methodPointers? hmethodPointers => ?_
  refine (haccepted.safe_rows hsize).bind fun typeRows htypeRows => ?_
  have hnarrow := narrow_ofList haccepted (Nat.lt_of_le_of_lt hlimit (by decide)) hfields hmethods
    hfieldPointers hmethodPointers
  have htypes := haccepted.length_rows htypeRows
  refine (safe_declare hnarrow strings (by omega)).bind fun ⟨declarations, left⟩ hdeclare => ?_
  have hcount := length_declare hdeclare
  refine (haccepted.safe_rows hsize).bind fun nestingRows _ => ?_
  refine (Nesting.safe_build (by omega)).bind fun types _ => ?_
  have hplace := Image.offsetOf_lt hoffset
  have hdistance := tablesHeader.offset.toNat_lt
  refine Safe.bind ?_ fun tablesOffset _ => Safe.pure _
  rw [Size.add_of_lt (by unfold wordLimit at hplace; unfold Size.limit; omega)]
  exact Safe.ok _

theorem safe_ofData [Container.LawfulReader] (data : Bytes) :
    Safe (ofDataStrictly data) (ofDataSilently data) :=
  (Image.safe_ofData data).bind fun image _ => safe_load image

end Module

end Unveil
