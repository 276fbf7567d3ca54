import Unveil.Bytes.Basic
import Unveil.Store.Path

/-!
What the program asks of a file system. A volume answers questions about paths
and carries out the steps by which a file comes into being. A step that fails
has no effect, and says no more than that it failed; only in making a directory
does it matter why.
-/

namespace Unveil

/-- The kinds of things that a path can name. What is neither a file nor a
directory can be neither read nor entered. -/
inductive Kind where
  | file | directory | other
  deriving DecidableEq, Repr

/-- What comes of making a directory. -/
inductive Making where
  | made
  /-- Something of this name is there. -/
  | taken
  /-- The directory in which it should be made does not exist. -/
  | missing
  | refused
  deriving DecidableEq, Repr

class Volume (m : Type → Type) where
  /-- What is there, if anything is. -/
  kind? : Path → m (Option Kind)
  /-- The path from the root that leads to the same thing without detours, if
  there is anything. -/
  place? : Path → m (Option Path)
  /-- The bytes of a file, if it can be read. -/
  read? : Path → m (Option Bytes)
  makeDirectory : Path → m Making
  /-- Makes an empty file, or empties one. -/
  create : Path → m Bool
  /-- Gives a file a length, filled up with zeros. -/
  resize : Path → Nat → m Bool
  /-- Gets ready to fill a file. -/
  map : Path → m Bool
  /-- Fills a file and waits until that is done. -/
  flush : Path → Bytes → m Bool
  /-- Gives a file another name, in place of what had that name. -/
  rename : Path → Path → m Bool
  remove : Path → m Unit

namespace Volume

variable {m : Type → Type} [Monad m] [Volume m]

def isDirectory (path : Path) : m Bool := do
  pure ((← kind? path) == some .directory)

/-- Makes the first of some directories, each of which is in the one after it,
and those after it as far as they are missing. One that exists is as good as
one that was made. -/
def makeDirectories : List Path → m Bool
  | [] => pure true
  | path :: above => do
      match ← makeDirectory path with
      | .made => pure true
      | .taken => isDirectory path
      | .refused => pure false
      | .missing => do
          if ← makeDirectories above then
            match ← makeDirectory path with
            | .made => pure true
            | .taken => isDirectory path
            | .missing | .refused => pure false
          else
            pure false

/-- Are two paths ways to the same thing? -/
def isSame (a b : Path) : m Bool := do
  match ← place? a, ← place? b with
  | some a, some b => pure (a == b)
  | _, _ => pure false

end Volume

end Unveil
