import Unveil.CommandLine.Failure
import Unveil.Payload
import Unveil.Store.Volume

/-!
What a command line comes to: which module to load, where to write it, and how.
The output must not be the input; that is asked of the file system as it is
before the run.
-/

namespace Unveil.CommandLine

structure Plan where
  input : Path
  output : Path
  parallel : Bool
  /-- The strategy asked for. Without a wish the module decides. -/
  strategy : Option Strategy
  deriving DecidableEq, Repr

namespace Plan

/-- The directory that is made next to the input when no output is given. -/
def defaultDirectory : Path := .ofText "publicized_assemblies"

def nameSuffix : List Char := "_publicized".toList

def markedName (name : List Char) : List Char :=
  match Path.cutName name with
  | (stem, none) => stem ++ nameSuffix
  | (stem, some extension) => stem ++ nameSuffix ++ '.' :: extension

/-- The name of the output, where none is given. -/
def outputName (input : Path) : Except Failure Path :=
  match input.fileName? with
  | some name => .ok ⟨markedName name⟩
  | none => .error (.path (.noFileName input))

variable {m : Type → Type} [Monad m] [Volume m]

/-- Does a path stand for a directory, existing or not? A path without an
extension does. -/
def namesDirectory (path : Path) : m Bool := do
  let exists? ← Volume.isDirectory path
  pure (path.endsInSlash || exists? || path.extension?.isNone)

/-- Where the output goes. -/
def resolveOutput (input : Path) (output? : Option Path) : ExceptT Failure m Path := do
  let name ← ExceptT.mk (pure (outputName input))
  match output? with
  | none => pure ((input.directory.join defaultDirectory).join name)
  | some output =>
      if output.isEmpty then
        throw (.path .emptyOutput)
      if ← ExceptT.lift (namesDirectory output) then
        pure (output.join name)
      else
        pure output

/-- The module to load. It may be named twice, but then both times the same. -/
def chooseInput (arguments : Arguments) : Except Failure Path :=
  match arguments.positional, arguments.input with
  | some positional, some option =>
      if positional.components = option.components then .ok positional
      else .error (.arguments (.differentInputs positional option))
  | some input, none | none, some input => .ok input
  | none, none => .error (.arguments .noInput)

def ofArguments (arguments : Arguments) : ExceptT Failure m Plan := do
  let input ← ExceptT.mk (pure (chooseInput arguments))
  match ← ExceptT.lift (Volume.kind? input) with
  | none => throw (.unreadable input)
  | some .directory | some .other => throw (.path (.notAFile input))
  | some .file =>
      let output ← resolveOutput input arguments.output
      if ← ExceptT.lift (Volume.isSame input output) then
        throw (.path (.replacesInput output))
      pure {
        input, output
        parallel := arguments.has .parallel
        strategy := if arguments.has .native then some .nativeAware else none }

end Plan

end Unveil.CommandLine
