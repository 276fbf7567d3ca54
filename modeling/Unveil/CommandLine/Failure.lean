import Unveil.CommandLine.Arguments
import Unveil.Fault

namespace Unveil

def Fault.text : Fault → String
  | malformed defect => "Malformed - " ++ defect.message
  | unwritable obstacle => "Failed to write output - " ++ obstacle.message
  | fault => fault.message

namespace CommandLine

/-- What is wrong with the arguments. -/
inductive Conflict where
  | misuse (misuse : Misuse)
  | differentInputs (positional option : Path)
  | noInput
  deriving DecidableEq, Repr

inductive Unusable where
  | notAFile (path : Path)
  | noFileName (path : Path)
  | emptyOutput
  | replacesInput (output : Path)
  deriving DecidableEq, Repr

inductive Failure where
  | arguments (conflict : Conflict)
  | path (reason : Unusable)
  | unreadable (input : Path)
  | load (input : Path) (fault : Fault)
  | write (output : Path) (fault : Fault)
  deriving DecidableEq, Repr

def Conflict.text : Conflict → String
  | misuse reason => reason.message
  | differentInputs positional option =>
      "two different inputs given, " ++ positional.text ++ " and " ++ option.text
  | noInput => "no input module given"

def Unusable.text : Unusable → String
  | notAFile path => path.text ++ " is not a file"
  | noFileName path => path.text ++ " has no file name"
  | emptyOutput => "output path is empty"
  | replacesInput output => "output " ++ output.text ++ " would replace the input"

namespace Failure

def text : Failure → String
  | arguments conflict => "invalid arguments - " ++ conflict.text
  | path reason => "unusable path - " ++ reason.text
  | unreadable input => "cannot read input " ++ input.text
  | load input fault => "failed to load " ++ input.text ++ " - " ++ fault.text
  | write output fault => "failed to write " ++ output.text ++ " - " ++ fault.text

/-- Tells the kinds of failure apart, so that scripts can. -/
def exitCode : Failure → Nat
  | arguments _ => 10
  | path _ => 20
  | unreadable _ => 30
  | load _ _ => 40
  | write _ _ => 50

def hint : Failure → Option String
  | arguments _ => some "pass the module as the first argument or with --input, see --help"
  | path _ => some "choose an output path that differs from the input"
  | unreadable _ => some "check the path and the file's read permissions"
  | load _ (.malformed _) | load _ .container =>
      some "only managed .NET modules with a CLR header can be publicized"
  | load _ _ => none
  | write _ _ =>
      some "check free disk space and write permissions of the output directory"

end Failure

end CommandLine

end Unveil
