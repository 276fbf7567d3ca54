import Unveil.Table.Sizes
import Unveil.Pieces

namespace Unveil

/-- What a column holds: a number of fixed width, an index into a heap, a row
of one table, or a coded index. -/
inductive Column where
  | byte
  | half
  | word
  | string
  | guid
  | blob
  | row (table : TableId)
  | coded (kind : CodedKind)
  deriving DecidableEq, Repr

namespace Column

def width (sizes : Sizes) : Column → Nat
  | byte => 1
  | half => 2
  | word => 4
  | string => sizes.stringWidth
  | guid => sizes.guidWidth
  | blob => sizes.blobWidth
  | row table => sizes.rowIndexWidth table
  | coded kind => sizes.codedWidth kind

end Column

namespace TableId

open Column in
/-- The columns of a table, from the first byte of a row to the last. -/
def columns : TableId → List Column
  | module => [half, string, guid, guid, guid]
  | typeRef => [coded .resolutionScope, string, string]
  | typeDef =>
      [word, string, string, coded .typeDefOrRef, row .field, row .methodDef]
  | fieldPtr => [row .field]
  | field => [half, string, blob]
  | methodPtr => [row .methodDef]
  | methodDef => [word, half, half, string, blob, row .param]
  | paramPtr => [row .param]
  | param => [half, half, string]
  | interfaceImpl => [row .typeDef, coded .typeDefOrRef]
  | memberRef => [coded .memberRefParent, string, blob]
  | constant => [byte, byte, coded .hasConstant, blob]
  | customAttribute =>
      [coded .hasCustomAttribute, coded .customAttributeType, blob]
  | fieldMarshal => [coded .hasFieldMarshal, blob]
  | declSecurity => [half, coded .hasDeclSecurity, blob]
  | classLayout => [half, word, row .typeDef]
  | fieldLayout => [word, row .field]
  | standAloneSig => [blob]
  | eventMap => [row .typeDef, row .event]
  | eventPtr => [row .event]
  | event => [half, string, coded .typeDefOrRef]
  | propertyMap => [row .typeDef, row .property]
  | propertyPtr => [row .property]
  | property => [half, string, blob]
  | methodSemantics => [half, row .methodDef, coded .hasSemantics]
  | methodImpl => [row .typeDef, coded .methodDefOrRef, coded .methodDefOrRef]
  | moduleRef => [string]
  | typeSpec => [blob]
  | implMap => [half, coded .memberForwarded, string, row .moduleRef]
  | fieldRva => [word, row .field]
  | encLog => [word, word]
  | encMap => [word]
  | assembly => [word, half, half, half, half, word, blob, string, string]
  | assemblyProcessor => [word]
  | assemblyOs => [word, word, word]
  | assemblyRef => [half, half, half, half, word, blob, string, string, blob]
  | assemblyRefProcessor => [word, row .assemblyRef]
  | assemblyRefOs => [word, word, word, row .assemblyRef]
  | file => [word, string, blob]
  | exportedType => [word, word, string, string, coded .implementation]
  | manifestResource => [word, word, string, coded .implementation]
  | nestedClass => [row .typeDef, row .typeDef]
  | genericParam => [half, half, coded .typeOrMethodDef, string]
  | methodSpec => [coded .methodDefOrRef, blob]
  | genericParamConstraint => [row .genericParam, coded .typeDefOrRef]

end TableId

def Sizes.rowSize (sizes : Sizes) (table : TableId) : Nat :=
  total (table.columns.map (Column.width sizes))

end Unveil
