import Unveil.Pieces

/-!
Paths as a user writes them. A path is kept letter by letter as it was given,
because it is shown to the user again; what it names is worked out from its
pieces, the parts between slashes.

Empty pieces and pieces that are a single dot add nothing, apart from one at
the very front: there the empty piece stands for the root and the dot for the
directory the path starts from.
-/

namespace Unveil

structure Path where
  letters : List Char
  deriving DecidableEq, Repr

namespace Path

def ofText (text : String) : Path := ⟨text.toList⟩

def text (path : Path) : String := String.ofList path.letters

/-- The parts between slashes, of which there is always at least one. -/
def pieces (path : Path) : List (List Char) := Pieces.split '/' path.letters

/-- Does a piece add nothing when another stands before it? -/
def isIdle (piece : List Char) : Bool := piece == [] || piece == ['.']

/-- Pieces in reverse, without the idle ones at the end of the path. -/
def trim : List (List Char) → List (List Char)
  | [] => []
  | [first] => [first]
  | piece :: above => if isIdle piece then trim above else piece :: above

inductive Component where
  | root
  | here
  | up
  | name (letters : List Char)
  deriving DecidableEq, Repr

def stepOf? (piece : List Char) : Option Component :=
  if isIdle piece then none
  else if piece = ['.', '.'] then some .up
  else some (.name piece)

/-- What a path comes to. Two paths with the same components are the same path
in two spellings. -/
def components (path : Path) : List Component :=
  match path.pieces with
  | [] | [[]] => []
  | [] :: rest => .root :: rest.filterMap stepOf?
  | ['.'] :: rest => .here :: rest.filterMap stepOf?
  | pieces => pieces.filterMap stepOf?

def fileName? (path : Path) : Option (List Char) :=
  match trim path.pieces.reverse with
  | [] => none
  | last :: _ => if isIdle last || last == ['.', '.'] then none else some last

/-- The path of some pieces in reverse. A single empty piece is the root. -/
def ofReversed : List (List Char) → Path
  | [[]] => ⟨['/']⟩
  | pieces => ⟨Pieces.join '/' pieces.reverse⟩

/-- The path without its last step. The root and the empty path have none to
leave out. -/
def parent? (path : Path) : Option Path :=
  match trim path.pieces.reverse with
  | [] | [[]] => none
  | _ :: above => some (ofReversed (trim above))

/-- The directories that lead to a place, given its pieces in reverse: the
place itself, the one above it, and so on. The root is left out, as it always
exists. -/
def chain : List (List Char) → List Path
  | [] => []
  | [first] => if first = [] then [] else [ofReversed [first]]
  | piece :: above =>
      if isIdle piece then chain above else ofReversed (piece :: above) :: chain above

/-- A path as it is written and those above it, the longest first. The empty
path leads nowhere. -/
def ancestors (path : Path) : List Path :=
  if path.letters = [] then [] else path :: chain (trim path.pieces.reverse).tail

/-- A path without the slashes at its end. The root is nothing but slashes, and
keeps them. -/
def withoutSlashes (path : Path) : Path :=
  match path.letters.reverse.dropWhile (· = '/') with
  | [] => path
  | letters => ⟨letters.reverse⟩

def isEmpty (path : Path) : Bool := path.letters.isEmpty

def isAbsolute (path : Path) : Bool := path.letters.head? == some '/'

def endsInSlash (path : Path) : Bool := path.letters.getLast? == some '/'

/-- A path that starts from another. An absolute path does not care where it
starts. -/
def join (base path : Path) : Path :=
  if path.isAbsolute then path
  else if base.isEmpty || base.endsInSlash then ⟨base.letters ++ path.letters⟩
  else ⟨base.letters ++ '/' :: path.letters⟩

/-- The directory that a path's place is in, as a path that is not empty. -/
def directory (path : Path) : Path :=
  match path.parent? with
  | none => ⟨['.']⟩
  | some parent => if parent.isEmpty then ⟨['.']⟩ else parent

/-- A name cut at its last dot. A name without a dot, or with none but one in
front, has no extension. -/
def cutName (name : List Char) : List Char × Option (List Char) :=
  let after := (name.reverse.takeWhile (· ≠ '.')).reverse
  match (name.reverse.dropWhile (· ≠ '.')).reverse.dropLast with
  | [] => (name, none)
  | before => (before, some after)

def extension? (path : Path) : Option (List Char) :=
  path.fileName?.bind fun name => (cutName name).2

end Path

end Unveil
