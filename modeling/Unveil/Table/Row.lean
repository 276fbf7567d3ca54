import Unveil.Bytes.Basic
import Unveil.Table.Sizes

namespace Unveil

/-- A reference to a row of one of several tables. -/
structure CodedIndex where
  table : TableId
  row : UInt32
  deriving DecidableEq, Repr

namespace CodedIndex

def token (index : CodedIndex) : Token := .ofParts index.table index.row.toNat

/-- The reference that a number stands for. A tag that belongs to no table is
refused. -/
def decode (kind : CodedKind) (value : UInt32) : Except Fault CodedIndex :=
  match kind.targets[value.toNat % (1 <<< kind.tagBits)]? with
  | some table => .ok ⟨table, UInt32.ofNat (value.toNat >>> kind.tagBits)⟩
  | none => .error .outOfBounds

/-- The number that stands for a reference: the row number above the tag, of
which 32 bits are kept. Where a table has several tags the lowest is used. -/
def encode (kind : CodedKind) (index : CodedIndex) : Except Fault UInt32 :=
  match kind.targets.idxOf? index.table with
  | some tag => .ok (UInt32.ofNat (index.row.toNat <<< kind.tagBits + tag))
  | none => .error (.malformed (.notATarget index.table kind))

/-- Reads a coded index from its column. The column has been passed even where
its tag is refused. -/
def scan (sizes : Sizes) (kind : CodedKind) (data : Bytes) : Scan CodedIndex := do
  let value ← Scan.column data (sizes.codedWidth kind == 4)
  match decode kind value with
  | .ok index => pure index
  | .error fault => throw fault

def emit (sizes : Sizes) (kind : CodedKind) (index : CodedIndex) : Emit Unit :=
  match encode kind index with
  | .ok value => Emit.column (sizes.codedWidth kind == 4) value
  | .error fault => throw fault

end CodedIndex

/-- The rows of one table as a structure: which table it is, how long a row is,
and how a row is read and written column by column. -/
class TypedRow (ρ : Type) where
  table : TableId
  size : Sizes → Nat
  scan : Sizes → Bytes → Scan ρ
  emit : Sizes → ρ → Emit Unit

/-- A row with its number and the offset at which it was read. -/
structure Entry (ρ : Type) where
  rid : Nat
  offset : Nat
  row : ρ

def Entry.token {ρ : Type} [TypedRow ρ] (entry : Entry ρ) : Token :=
  .ofParts (TypedRow.table ρ) entry.rid

def Entry.scan (ρ : Type) [TypedRow ρ] (sizes : Sizes) (data : Bytes) (rid : Nat) :
    Scan (Entry ρ) := do
  let offset ← get
  let row ← TypedRow.scan sizes data
  pure ⟨rid, offset, row⟩

structure ModuleRow where
  generation : UInt32
  name : UInt32
  mvid : UInt32
  encId : UInt32
  encBaseId : UInt32
  deriving DecidableEq, Repr

instance : TypedRow ModuleRow where
  table := .module
  size sizes := 2 + sizes.stringWidth + 3 * sizes.guidWidth
  scan sizes data := do
    let generation ← Scan.column data false
    let name ← Scan.column data sizes.wideStrings
    let mvid ← Scan.column data sizes.wideGuids
    let encId ← Scan.column data sizes.wideGuids
    let encBaseId ← Scan.column data sizes.wideGuids
    pure { generation, name, mvid, encId, encBaseId }
  emit sizes row := do
    if row.generation.toNat < 0x10000 then
      Emit.number 2 row.generation.toNat
    else
      throw (.malformed (.generationOverflow row.generation))
    Emit.column sizes.wideStrings row.name
    Emit.column sizes.wideGuids row.mvid
    Emit.column sizes.wideGuids row.encId
    Emit.column sizes.wideGuids row.encBaseId

/-- A type: its attribute word and names, the type it extends, and where its
field and method lists start. -/
structure TypeRow where
  flags : UInt32
  name : UInt32
  space : UInt32
  base : CodedIndex
  fieldList : UInt32
  methodList : UInt32
  deriving DecidableEq, Repr

instance : TypedRow TypeRow where
  table := .typeDef
  size sizes :=
    4 + 2 * sizes.stringWidth + sizes.codedWidth .typeDefOrRef +
      sizes.rowIndexWidth .field + sizes.rowIndexWidth .methodDef
  scan sizes data := do
    let flags ← Scan.u32 data
    let name ← Scan.column data sizes.wideStrings
    let space ← Scan.column data sizes.wideStrings
    let base ← CodedIndex.scan sizes .typeDefOrRef data
    let fieldList ← Scan.column data (sizes.isWide .field)
    let methodList ← Scan.column data (sizes.isWide .methodDef)
    pure { flags, name, space, base, fieldList, methodList }
  emit sizes row := do
    Emit.u32 row.flags
    Emit.column sizes.wideStrings row.name
    Emit.column sizes.wideStrings row.space
    row.base.emit sizes .typeDefOrRef
    Emit.column (sizes.isWide .field) row.fieldList
    Emit.column (sizes.isWide .methodDef) row.methodList

/-- Redirects one position of the field lists to a row of the field table. -/
structure FieldPointerRow where
  field : UInt32
  deriving DecidableEq, Repr

instance : TypedRow FieldPointerRow where
  table := .fieldPtr
  size sizes := sizes.rowIndexWidth .field
  scan sizes data := do
    let field ← Scan.column data (sizes.isWide .field)
    pure { field }
  emit sizes row := Emit.column (sizes.isWide .field) row.field

structure FieldRow where
  flags : UInt32
  name : UInt32
  signature : UInt32
  deriving DecidableEq, Repr

instance : TypedRow FieldRow where
  table := .field
  size sizes := 2 + sizes.stringWidth + sizes.blobWidth
  scan sizes data := do
    let flags ← Scan.column data false
    let name ← Scan.column data sizes.wideStrings
    let signature ← Scan.column data sizes.wideBlobs
    pure { flags, name, signature }
  emit sizes row := do
    Emit.column false row.flags
    Emit.column sizes.wideStrings row.name
    Emit.column sizes.wideBlobs row.signature

structure MethodPointerRow where
  method : UInt32
  deriving DecidableEq, Repr

instance : TypedRow MethodPointerRow where
  table := .methodPtr
  size sizes := sizes.rowIndexWidth .methodDef
  scan sizes data := do
    let method ← Scan.column data (sizes.isWide .methodDef)
    pure { method }
  emit sizes row := Emit.column (sizes.isWide .methodDef) row.method

/-- A method: where its body is, how it is implemented, its attribute word,
name and signature, and where its parameter list starts. -/
structure MethodRow where
  address : UInt32
  implFlags : UInt32
  flags : UInt32
  name : UInt32
  signature : UInt32
  paramList : UInt32
  deriving DecidableEq, Repr

/-- The attribute word of a method stands behind its address and
implementation flags. -/
def MethodRow.flagsOffset : Nat := 6

instance : TypedRow MethodRow where
  table := .methodDef
  size sizes :=
    8 + sizes.stringWidth + sizes.blobWidth + sizes.rowIndexWidth .param
  scan sizes data := do
    let address ← Scan.u32 data
    let implFlags ← Scan.column data false
    let flags ← Scan.column data false
    let name ← Scan.column data sizes.wideStrings
    let signature ← Scan.column data sizes.wideBlobs
    let paramList ← Scan.column data (sizes.isWide .param)
    pure { address, implFlags, flags, name, signature, paramList }
  emit sizes row := do
    Emit.u32 row.address
    Emit.column false row.implFlags
    Emit.column false row.flags
    Emit.column sizes.wideStrings row.name
    Emit.column sizes.wideBlobs row.signature
    Emit.column (sizes.isWide .param) row.paramList

/-- Says that one type is nested in another. -/
structure NestingRow where
  nested : UInt32
  enclosing : UInt32
  deriving DecidableEq, Repr

instance : TypedRow NestingRow where
  table := .nestedClass
  size sizes := 2 * sizes.rowIndexWidth .typeDef
  scan sizes data := do
    let nested ← Scan.column data (sizes.isWide .typeDef)
    let enclosing ← Scan.column data (sizes.isWide .typeDef)
    pure { nested, enclosing }
  emit sizes row := do
    Emit.column (sizes.isWide .typeDef) row.nested
    Emit.column (sizes.isWide .typeDef) row.enclosing

end Unveil
