import Unveil.Heaps
import Unveil.Image.Basic
import Unveil.Metadata.Root
import Unveil.Module.Members
import Unveil.Module.Nesting
import Unveil.Payload
import Unveil.Table.Stream

/-!
Loading a module: from the bytes of a file to the forest of its types. Odd
metadata is remarked on and taken as far as it makes sense; only what leaves
no forest at all is refused.
-/

namespace Unveil

/-- Where the metadata and its tables stream lie in the file, and which
spelling the tables stream has. -/
structure Place where
  offset : Nat
  size : Nat
  tablesOffset : Nat
  tablesSize : Nat
  isLoose : Bool
  deriving DecidableEq, Repr

structure Module where
  image : Image
  place : Place
  header : RuntimeHeader
  runtimeVersion : String
  name : String
  mvid : Option Guid
  payload : Payload
  types : Forest
  deriving DecidableEq, Repr

namespace Module

/-- How many declarations a module has, and how many slots are empty. -/
structure Inventory where
  types : Nat
  methods : Nat
  fields : Nat
  absent : Nat
  deriving DecidableEq, Repr

namespace Inventory

/-- What one type adds, with the slots of the types nested in it left to
those. -/
def addType (inventory : Inventory) (type : TypeDecl) : Inventory :=
  { types := inventory.types + 1
    methods := inventory.methods + type.methods.countP Option.isSome
    fields := inventory.fields + type.fields.countP Option.isSome
    absent := inventory.absent + type.methods.countP Option.isNone +
      type.fields.countP Option.isNone }

end Inventory

def inventoryOf (forest : Forest) : Inventory :=
  forest.outline.foldl
    (fun inventory (_, slot) =>
      match slot with
      | some type => inventory.addType type
      | none => { inventory with absent := inventory.absent + 1 })
    ⟨0, 0, 0, 0⟩

def inventory (module : Module) : Inventory := inventoryOf module.types

def streamData (metadata : Bytes) (header : StreamHeader) : Except Fault Bytes :=
  metadata.slice header.offset.toNat header.size.toNat

/-- The tables stream of a directory. Of its two spellings exactly one must be
there. -/
def tablesHeader (root : MetadataRoot) : Except Fault StreamHeader :=
  match root.stream? .tables, root.stream? .looseTables with
  | some header, none => .ok header
  | none, some header => .ok header
  | some _, some _ => .error (.malformed .bothTablesStreams)
  | none, none => .error (.malformed .noTablesStream)

/-- The identifier of a module, if its row names one. -/
def readMvid (guids? : Option GuidHeap) (index : UInt32) : Except Fault (Option Guid) :=
  match index.toNat, guids? with
  | 0, _ => .ok none
  | index, some guids => some <$> guids.get index
  | _, none => .error (.malformed .noGuidHeap)

/-- The attribute word that was read from a 2-byte column. A longer one is
refused. -/
def attributeWord (token : Token) (value : UInt32) : Except Fault UInt16 := do
  demand (value.toNat < 0x10000) (.malformed (.attributeWord token value))
  pure value.toUInt16

def fieldOf (strings : StringHeap) (entry : Entry FieldRow) : Except Fault FieldDecl := do
  let name ← strings.get entry.row.name.toNat
  let flags ← attributeWord entry.token entry.row.flags
  pure { token := entry.token, name, flags }

def methodOf (strings : StringHeap) (entry : Entry MethodRow) : Except Fault MethodDecl := do
  let name ← strings.get entry.row.name.toNat
  let flags ← attributeWord entry.token entry.row.flags
  let implFlags ← attributeWord entry.token entry.row.implFlags
  pure { token := entry.token, name, flags, implFlags, address := entry.row.address }

/-- The members still to be handed out. -/
structure Pools where
  fields : MemberPool FieldDecl
  methods : MemberPool MethodDecl

/-- The declaration of a type row. Its member lists end where those of the
next type start, or with the last member. -/
def typeOf (strings : StringHeap) (entry : Entry TypeRow) (next? : Option (Entry TypeRow))
    (pools : Pools) : Logged (TypeDecl × Pools) := do
  let fieldStop := match next? with
    | some next => next.row.fieldList.toNat
    | none => pools.fields.stop
  let methodStop := match next? with
    | some next => next.row.methodList.toNat
    | none => pools.methods.stop
  let name ← Logged.lift (strings.get entry.row.name.toNat)
  let space ← Logged.lift (strings.get entry.row.space.toNat)
  match pools with
  | ⟨fieldPool, methodPool⟩ =>
    let (methods, methodPool) ←
      methodPool.take .method entry.token entry.row.methodList.toNat methodStop
    let (fields, fieldPool) ←
      fieldPool.take .field entry.token entry.row.fieldList.toNat fieldStop
    let type : TypeDecl := {
      token := entry.token, name, space
      flags := entry.row.flags
      isNested := false
      methods, fields }
    pure (type, ⟨fieldPool, methodPool⟩)

/-- The declarations of the type rows, in order, behind those in `seen`, which
is in reverse. -/
def typesOf (strings : StringHeap) (seen : List TypeDecl) :
    List (Entry TypeRow) → Pools → Logged (List TypeDecl × Pools)
  | [], pools => pure (seen.reverse, pools)
  | entry :: others, pools => do
      let (type, pools) ← typeOf strings entry others.head? pools
      typesOf strings (type :: seen) others pools

def fieldPointers (tables : TablesStream) : Except Fault (Option (Array UInt32)) :=
  if tables.hasTable .fieldPtr then do
    let rows ← tables.rows FieldPointerRow
    pure (some (rows.map (·.row.field)).toArray)
  else
    .ok none

def methodPointers (tables : TablesStream) : Except Fault (Option (Array UInt32)) :=
  if tables.hasTable .methodPtr then do
    let rows ← tables.rows MethodPointerRow
    pure (some (rows.map (·.row.method)).toArray)
  else
    .ok none

/-- Reads the metadata of an image, and from there on everything else. -/
def load (image : Image) : Logged Module := do
  let headerOffset ← Logged.lift (image.offsetOf image.runtime.address.toNat)
  let headerData ← Logged.lift (image.data.slice headerOffset image.runtime.size.toNat)
  let header ← Logged.lift (RuntimeHeader.ofData headerData)
  let offset ← Logged.lift (image.offsetOf header.metadata.address.toNat)
  let size := header.metadata.size.toNat
  let metadata ← Logged.lift (image.data.slice offset size)
  let root ← Logged.lift (MetadataRoot.ofData metadata)
  let tablesHeader ← Logged.lift (tablesHeader root)
  let stringsHeader ← match root.stream? .strings with
    | some header => pure header
    | none => throw (.malformed .noStringHeap)
  let strings ← Logged.lift (streamData metadata stringsHeader >>= StringHeap.ofData)
  let guids? ← match root.stream? .guids with
    | some header => some <$> Logged.lift (streamData metadata header >>= GuidHeap.ofData)
    | none => pure none
  let tables ← Logged.lift (streamData metadata tablesHeader >>= TablesStream.ofData)
  Logged.debug .loading ("Metadata " ++ root.version ++ " with " ++ toString tables.tableCount ++
    " tables in " ++ tablesHeader.name.text ++ " stream")
  let moduleRow ← match ← Logged.lift (tables.rows ModuleRow) with
    | entry :: _ => pure entry.row
    | [] => throw (.malformed .noModuleRow)
  let name ← Logged.lift (strings.get moduleRow.name.toNat)
  let mvid ← Logged.lift (readMvid guids? moduleRow.mvid)
  let fields ← Logged.lift (tables.rows FieldRow >>= List.mapM (fieldOf strings))
  let methods ← Logged.lift (tables.rows MethodRow >>= List.mapM (methodOf strings))
  let payload := Payload.classify header methods
  payload.parts.forM fun part => Logged.debug .loading ("Native content: " ++ part.text)
  let fieldPointers? ← Logged.lift (fieldPointers tables)
  let methodPointers? ← Logged.lift (methodPointers tables)
  let typeRows ← Logged.lift (tables.rows TypeRow)
  let (declarations, pools) ← typesOf strings [] typeRows
    ⟨.ofList fields fieldPointers?, .ofList methods methodPointers?⟩
  pools.fields.report .field
  pools.methods.report .method
  let nestingRows ← Logged.lift (tables.rows NestingRow)
  let types ← Nesting.build declarations nestingRows
  Logged.debug .loading ("Loaded module " ++ name ++ ": " ++ toString declarations.length ++
    " types (" ++ toString types.slots.length ++ " top level), " ++
    toString nestingRows.length ++ " nesting rows")
  let tablesOffset ← Logged.lift (Size.add offset tablesHeader.offset.toNat)
  let place : Place := {
    offset, size, tablesOffset
    tablesSize := tablesHeader.size.toNat
    isLoose := tablesHeader.name == .looseTables }
  pure { image, place, header, runtimeVersion := root.version, name, mvid, payload, types }

def ofData [Container.Reader] (data : Bytes) : Logged Module := do
  load (← Logged.lift (Image.ofData data))

/-- The tables stream of a loaded module, read again from its file. -/
def tables (module : Module) : Except Fault TablesStream := do
  TablesStream.ofData (← module.image.data.slice module.place.tablesOffset
    module.place.tablesSize)

end Module

end Unveil
