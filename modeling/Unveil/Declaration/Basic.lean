import Unveil.Token

/-!
The declarations of a module: its types, and the methods and fields of each, with who may
use them. A declaration keeps the token of the row it was loaded from, which is how a
changed attribute word finds its way back.

A member slot is an `Option`: a type's member list may name a row that does
not exist or that belongs to another type, and the slot then stays empty
rather than shifting those behind it.
-/

namespace Unveil

/-- The visibilities of a type. The first two are for top-level types and the
rest for nested ones; one more visibility would need a fourth bit, so every
bit pattern is one of these. -/
inductive Visibility where
  | notPublic | isPublic | nestedPublic | nestedPrivate | nestedFamily
  | nestedAssembly | nestedFamAndAssem | nestedFamOrAssem
  deriving DecidableEq, Repr

namespace Visibility

def bits : Visibility → UInt32
  | notPublic => 0
  | isPublic => 1
  | nestedPublic => 2
  | nestedPrivate => 3
  | nestedFamily => 4
  | nestedAssembly => 5
  | nestedFamAndAssem => 6
  | nestedFamOrAssem => 7

def ofFlags (flags : UInt32) : Visibility :=
  match (flags &&& 7).toNat with
  | 0 => notPublic
  | 1 => isPublic
  | 2 => nestedPublic
  | 3 => nestedPrivate
  | 4 => nestedFamily
  | 5 => nestedAssembly
  | 6 => nestedFamAndAssem
  | _ => nestedFamOrAssem

def replaceIn (visibility : Visibility) (flags : UInt32) : UInt32 :=
  (flags &&& ~~~7) ||| visibility.bits

/-- Does the visibility speak about a nested type? -/
def isForNested : Visibility → Bool
  | notPublic | isPublic => false
  | _ => true

/-- The visibility that lets everyone use a type. It depends on where the type
stands: a nested type has a public visibility of its own. -/
def widest (nested : Bool) : Visibility :=
  if nested then nestedPublic else isPublic

def name : Visibility → String
  | notPublic => "NotPublic"
  | isPublic => "Public"
  | nestedPublic => "NestedPublic"
  | nestedPrivate => "NestedPrivate"
  | nestedFamily => "NestedFamily"
  | nestedAssembly => "NestedAssembly"
  | nestedFamAndAssem => "NestedFamAndAssem"
  | nestedFamOrAssem => "NestedFamOrAssem"

def all : List Visibility :=
  [notPublic, isPublic, nestedPublic, nestedPrivate, nestedFamily,
    nestedAssembly, nestedFamAndAssem, nestedFamOrAssem]

end Visibility

inductive Access where
  | compilerControlled | isPrivate | famAndAssem | assembly | family
  | famOrAssem | isPublic
  deriving DecidableEq, Repr

namespace Access

def bits : Access → UInt16
  | compilerControlled => 0
  | isPrivate => 1
  | famAndAssem => 2
  | assembly => 3
  | family => 4
  | famOrAssem => 5
  | isPublic => 6

/-- The access right in an attribute word. The pattern seven is reserved and
grants nothing, so it counts as compiler controlled. -/
def ofFlags (flags : UInt16) : Access :=
  match (flags &&& 7).toNat with
  | 1 => isPrivate
  | 2 => famAndAssem
  | 3 => assembly
  | 4 => family
  | 5 => famOrAssem
  | 6 => isPublic
  | _ => compilerControlled

def replaceIn (access : Access) (flags : UInt16) : UInt16 :=
  (flags &&& ~~~7) ||| access.bits

def name : Access → String
  | compilerControlled => "CompilerControlled"
  | isPrivate => "Private"
  | famAndAssem => "FamAndAssem"
  | assembly => "Assembly"
  | family => "Family"
  | famOrAssem => "FamOrAssem"
  | isPublic => "Public"

def all : List Access :=
  [compilerControlled, isPrivate, famAndAssem, assembly, family, famOrAssem, isPublic]

end Access

structure MethodDecl where
  token : Token
  name : String
  flags : UInt16
  implFlags : UInt16
  address : UInt32
  deriving DecidableEq, Repr

namespace MethodDecl

def access (method : MethodDecl) : Access := Access.ofFlags method.flags

def isPublic (method : MethodDecl) : Bool := method.access == .isPublic

def withAccess (method : MethodDecl) (access : Access) : MethodDecl :=
  { method with flags := access.replaceIn method.flags }

/-- Constructors, accessors and operators carry this mark. -/
def isSpecialName (method : MethodDecl) : Bool := method.flags &&& 0x0800 != 0

/-- Is the body machine code? The two low implementation bits say so. -/
def isNative (method : MethodDecl) : Bool := method.implFlags &&& 3 == 1

end MethodDecl

structure FieldDecl where
  token : Token
  name : String
  flags : UInt16
  deriving DecidableEq, Repr

namespace FieldDecl

def access (field : FieldDecl) : Access := Access.ofFlags field.flags

def isPublic (field : FieldDecl) : Bool := field.access == .isPublic

def withAccess (field : FieldDecl) (access : Access) : FieldDecl :=
  { field with flags := access.replaceIn field.flags }

def isStatic (field : FieldDecl) : Bool := field.flags &&& 0x0010 != 0

end FieldDecl

/-- A type without the types nested in it; `Forest` holds those. `isNested` is
kept apart from the type's place because a module may list a type as nested
in a type that does not exist. -/
structure TypeDecl where
  token : Token
  name : String
  space : String
  flags : UInt32
  isNested : Bool
  methods : List (Option MethodDecl)
  fields : List (Option FieldDecl)
  deriving DecidableEq, Repr

namespace TypeDecl

def visibility (type : TypeDecl) : Visibility := Visibility.ofFlags type.flags

def isPublic (type : TypeDecl) : Bool := type.visibility == .widest type.isNested

def withVisibility (type : TypeDecl) (visibility : Visibility) : TypeDecl :=
  { type with flags := visibility.replaceIn type.flags }

def fullName (type : TypeDecl) : String :=
  if type.space.isEmpty then type.name else type.space ++ "." ++ type.name

end TypeDecl

end Unveil
