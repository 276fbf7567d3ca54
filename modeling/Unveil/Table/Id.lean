/-!
The tables of the metadata, and the kinds of coded index. A coded index refers to a row
of one of several tables: its low bits are a tag that picks the table, and the bits above
hold the row number.
-/

namespace Unveil

/-- The tables in the order of their numbers, so that a table's position among
the constructors is its number. -/
inductive TableId where
  | module | typeRef | typeDef | fieldPtr | field | methodPtr | methodDef
  | paramPtr | param | interfaceImpl | memberRef | constant | customAttribute
  | fieldMarshal | declSecurity | classLayout | fieldLayout | standAloneSig
  | eventMap | eventPtr | event | propertyMap | propertyPtr | property
  | methodSemantics | methodImpl | moduleRef | typeSpec | implMap | fieldRva
  | encLog | encMap | assembly | assemblyProcessor | assemblyOs | assemblyRef
  | assemblyRefProcessor | assemblyRefOs | file | exportedType
  | manifestResource | nestedClass | genericParam | methodSpec
  | genericParamConstraint
  deriving DecidableEq, Repr

namespace TableId

/-- Every table, in ascending order of number. A tables stream stores row
counts and rows in this order. -/
def all : List TableId :=
  [.module, .typeRef, .typeDef, .fieldPtr, .field, .methodPtr, .methodDef,
    .paramPtr, .param, .interfaceImpl, .memberRef, .constant, .customAttribute,
    .fieldMarshal, .declSecurity, .classLayout, .fieldLayout, .standAloneSig,
    .eventMap, .eventPtr, .event, .propertyMap, .propertyPtr, .property,
    .methodSemantics, .methodImpl, .moduleRef, .typeSpec, .implMap, .fieldRva,
    .encLog, .encMap, .assembly, .assemblyProcessor, .assemblyOs, .assemblyRef,
    .assemblyRefProcessor, .assemblyRefOs, .file, .exportedType,
    .manifestResource, .nestedClass, .genericParam, .methodSpec,
    .genericParamConstraint]

/-- How many tables the format defines. Presence bits from here on belong to
no table. -/
def count : Nat := 45

theorem all_length : all.length = count := rfl

def number (table : TableId) : Nat := table.ctorIdx

theorem number_lt (table : TableId) : table.number < count := by
  cases table <;> decide

def ofNumber? (number : Nat) : Option TableId := all[number]?

/-- The table with a number already known to be in range. -/
def ofFin (number : Fin count) : TableId :=
  all.get (number.cast all_length.symm)

theorem ofNumber?_number (table : TableId) :
    ofNumber? table.number = some table := by
  cases table <;> rfl

theorem ofFin_number (table : TableId) :
    ofFin ⟨table.number, table.number_lt⟩ = table := by
  cases table <;> rfl

theorem mem_all (table : TableId) : table ∈ all :=
  List.mem_of_getElem? (ofNumber?_number table)

def name : TableId → String
  | module => "Module"
  | typeRef => "TypeRef"
  | typeDef => "TypeDef"
  | fieldPtr => "FieldPtr"
  | field => "Field"
  | methodPtr => "MethodPtr"
  | methodDef => "MethodDef"
  | paramPtr => "ParamPtr"
  | param => "Param"
  | interfaceImpl => "InterfaceImpl"
  | memberRef => "MemberRef"
  | constant => "Constant"
  | customAttribute => "CustomAttribute"
  | fieldMarshal => "FieldMarshal"
  | declSecurity => "DeclSecurity"
  | classLayout => "ClassLayout"
  | fieldLayout => "FieldLayout"
  | standAloneSig => "StandAloneSig"
  | eventMap => "EventMap"
  | eventPtr => "EventPtr"
  | event => "Event"
  | propertyMap => "PropertyMap"
  | propertyPtr => "PropertyPtr"
  | property => "Property"
  | methodSemantics => "MethodSemantics"
  | methodImpl => "MethodImpl"
  | moduleRef => "ModuleRef"
  | typeSpec => "TypeSpec"
  | implMap => "ImplMap"
  | fieldRva => "FieldRVA"
  | encLog => "EncLog"
  | encMap => "EncMap"
  | assembly => "Assembly"
  | assemblyProcessor => "AssemblyProcessor"
  | assemblyOs => "AssemblyOS"
  | assemblyRef => "AssemblyRef"
  | assemblyRefProcessor => "AssemblyRefProcessor"
  | assemblyRefOs => "AssemblyRefOS"
  | file => "File"
  | exportedType => "ExportedType"
  | manifestResource => "ManifestResource"
  | nestedClass => "NestedClass"
  | genericParam => "GenericParam"
  | methodSpec => "MethodSpec"
  | genericParamConstraint => "GenericParamConstraint"

end TableId

inductive CodedKind where
  | typeDefOrRef | hasConstant | hasCustomAttribute | hasFieldMarshal
  | hasDeclSecurity | memberRefParent | hasSemantics | methodDefOrRef
  | memberForwarded | implementation | customAttributeType | resolutionScope
  | typeOrMethodDef
  deriving DecidableEq, Repr

namespace CodedKind

def all : List CodedKind :=
  [.typeDefOrRef, .hasConstant, .hasCustomAttribute, .hasFieldMarshal,
    .hasDeclSecurity, .memberRefParent, .hasSemantics, .methodDefOrRef,
    .memberForwarded, .implementation, .customAttributeType, .resolutionScope,
    .typeOrMethodDef]

/-- The table that each tag stands for, tag zero first. The kind for
attribute constructors leaves tags 0, 1 and 4 unused; they are listed with a
table of the same family because only their number matters, for the width of
the tag. -/
def targets : CodedKind → List TableId
  | typeDefOrRef => [.typeDef, .typeRef, .typeSpec]
  | hasConstant => [.field, .param, .property]
  | hasCustomAttribute =>
      [.methodDef, .field, .typeRef, .typeDef, .param, .interfaceImpl,
        .memberRef, .module, .declSecurity, .property, .event, .standAloneSig,
        .moduleRef, .typeSpec, .assembly, .assemblyRef, .file, .exportedType,
        .manifestResource, .genericParam, .genericParamConstraint, .methodSpec]
  | hasFieldMarshal => [.field, .param]
  | hasDeclSecurity => [.typeDef, .methodDef, .assembly]
  | memberRefParent => [.typeDef, .typeRef, .moduleRef, .methodDef, .typeSpec]
  | hasSemantics => [.event, .property]
  | methodDefOrRef => [.methodDef, .memberRef]
  | memberForwarded => [.field, .methodDef]
  | implementation => [.file, .assemblyRef, .exportedType]
  | customAttributeType =>
      [.methodDef, .methodDef, .methodDef, .memberRef, .memberRef]
  | resolutionScope => [.module, .moduleRef, .assemblyRef, .typeRef]
  | typeOrMethodDef => [.typeDef, .methodDef]

/-- The width of the tag: the bit length of the greatest tag, and none if
there is a single target. -/
def tagBits (kind : CodedKind) : Nat :=
  let count := kind.targets.length
  if count ≤ 1 then 0 else (count - 1).log2 + 1

def name : CodedKind → String
  | typeDefOrRef => "TypeDefOrRef"
  | hasConstant => "HasConstant"
  | hasCustomAttribute => "HasCustomAttribute"
  | hasFieldMarshal => "HasFieldMarshal"
  | hasDeclSecurity => "HasDeclSecurity"
  | memberRefParent => "MemberRefParent"
  | hasSemantics => "HasSemantics"
  | methodDefOrRef => "MethodDefOrRef"
  | memberForwarded => "MemberForwarded"
  | implementation => "Implementation"
  | customAttributeType => "CustomAttributeType"
  | resolutionScope => "ResolutionScope"
  | typeOrMethodDef => "TypeOrMethodDef"

end CodedKind

end Unveil
