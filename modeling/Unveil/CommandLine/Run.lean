import Unveil.CommandLine.Filter
import Unveil.CommandLine.Plan
import Unveil.Module.Load
import Unveil.Tally
import Unveil.Writing.Module

namespace Unveil.CommandLine

def widen : List Nat → List String → List Nat
  | widths, [] => widths
  | [], cell :: cells => cell.length :: widen [] cells
  | width :: widths, cell :: cells => max width cell.length :: widen widths cells

def filler (width : Nat) (cell : String) : String :=
  String.ofList (.replicate (width - cell.length) ' ')

def flushLeft (width : Nat) (cell : String) : String :=
  " " ++ cell ++ filler width cell ++ " "

def flushRight (width : Nat) (cell : String) : String :=
  " " ++ filler width cell ++ cell ++ " "

def setRow (widths : List Nat) (cells : List String) : String :=
  match widths.zip cells with
  | [] => ""
  | (width, cell) :: others =>
      String.join (flushLeft width cell ::
        others.map fun (width, cell) => flushRight width cell)

/-- Rows of cells set in columns. Every cell has a blank on each side, and a
column is as wide as its widest cell. -/
def columns (rows : List (List String)) : List String :=
  rows.map (setRow (rows.foldl widen []))

structure Summary where
  name : String
  inventory : Module.Inventory
  tally : Tally
  report : Report
  deriving DecidableEq, Repr

/-- The counts as a table. -/
def Summary.table (summary : Summary) : List String :=
  columns [
    ["", "changed", "total"],
    ["types", toString summary.tally.types, toString summary.inventory.types],
    ["methods", toString summary.tally.methods, toString summary.inventory.methods],
    ["fields", toString summary.tally.fields, toString summary.inventory.fields]]

def Summary.lines (summary : Summary) : List String :=
  ["Publicized " ++ summary.name] ++ summary.table ++
    ["Written to " ++ summary.report.path.text ++ " (" ++ summary.report.strategy.text ++ ")"]

def versionText : String := "publicizer 0.1.0"

def helpLines : List String := [
  "publicizer - make every type, method and field of a .NET module public",
  "",
  "Usage: publicizer [OPTIONS] [INPUT]",
  "",
  "Arguments:",
  "  [INPUT]  Path to the .NET module",
  "",
  "Options:",
  "  -i, --input <INPUT>  Path to the .NET module, instead of the positional argument",
  "  -o, --output <PATH>  Output file or directory (default: <input dir>/publicized_assemblies/)",
  "      --exit           Exit right away instead of waiting for Enter",
  "  -v, --verbose        Enable verbose (debug-level) logging output",
  "      --parallel       Rewrite declarations on all cores",
  "      --native         Patch attribute words in place even for IL-only modules",
  "  -h, --help           Print help",
  "  -V, --version        Print version"]

abbrev Attempt (m : Type → Type) := ExceptT Failure (StateT Journal m)

/-- What a run prints, and how it ended. -/
structure Outcome where
  lines : List String
  complaints : List Complaint
  journal : Journal
  filter : Filter
  result : Except Failure (List Warning)

namespace Outcome

def brief (lines : List String) (result : Except Failure (List Warning)) : Outcome :=
  ⟨lines, [], #[], .ofThreshold .silent, result⟩

def exitCode (outcome : Outcome) : Nat :=
  match outcome.result with
  | .ok _ => 0
  | .error failure => failure.exitCode

def failureText (text : String) (failure : Failure) : String :=
  Text.ofLines (("error: " ++ text) :: (failure.hint.map ("hint: " ++ ·)).toList)

def warningText (warnings : List Warning) : String :=
  Text.ofLines (warnings.map ("warning: " ++ ·.text))

def complaintText (complaints : List Complaint) : String :=
  Text.ofLines (complaints.map ("warning: " ++ ·.text ++ ", ignoring it"))

/-- What goes to the error stream: the complaints about the filter, the journal,
and then the failure or the warnings. -/
def errorText (outcome : Outcome) (text : Failure → String) : String :=
  complaintText outcome.complaints ++ journalText outcome.filter outcome.journal ++
    match outcome.result with
    | .ok warnings => warningText warnings
    | .error failure => failureText (text failure) failure

end Outcome

variable {m : Type → Type} [Monad m] [Volume m]

def note (level : Level) (text : String) : Attempt m Unit := fun journal =>
  pure (.ok (), journal.push ⟨.running, level, text⟩)

/-- Carries out a plan. -/
def carryOut [Container.Reader] (plan : Plan) (tag : String) : Attempt m Summary := do
  let module ← (Module.read plan.input).adapt fun fault =>
    match fault with
    | .unreadable => Failure.unreadable plan.input
    | fault => .load plan.input fault
  let inventory := module.inventory
  note .debug ("Module " ++ module.name ++ " (MVID " ++
    (match module.mvid with
      | some mvid => mvid.text
      | none => "none") ++
    "), runtime " ++ module.runtimeVersion)
  note .debug (toString inventory.types ++ " types, " ++ toString inventory.methods ++
    " methods, " ++ toString inventory.fields ++ " fields, " ++
    toString inventory.absent ++ " absent slots")
  if !module.payload.isIlOnly then
    note .info (module.name ++ " contains native code")
  let (module, tally) ← (Session.logged (module.unveil plan.parallel)).adapt
    (Failure.load plan.input)
  note .debug (toString tally.total ++ " declarations changed")
  let report ← (module.write plan.output plan.strategy tag).adapt
    (Failure.write plan.output)
  pure { name := module.name, inventory, tally, report }

def quiet {α : Type} (step : ExceptT Failure m α) : Attempt m α := fun journal => do
  pure (← step.run, journal)

/-- Makes a plan of what a command line says, and carries it out. -/
def execute [Container.Reader] (arguments : Arguments) (tag : String) : Attempt m Summary := do
  carryOut (← quiet (Plan.ofArguments arguments)) tag

/-- Runs the program. The filter is what the environment says about which
remarks to show, and the tag sets a draft apart from others. -/
def run [Container.Reader] (words : List String) (filter? : Option String) (tag : String) : m Outcome := do
  match Arguments.read words with
  | .error .help => pure (.brief helpLines (.ok []))
  | .error .version => pure (.brief [versionText] (.ok []))
  | .error (.misuse misuse) => pure (.brief [] (.error (.arguments (.misuse misuse))))
  | .ok arguments => do
      let (filter, complaints) :=
        (Filter.ofThreshold (.ofVerbose (arguments.has .verbose))).takeText (filter?.getD "")
      let (result, journal) ← (execute arguments tag).run.run #[]
      match result with
      | .ok summary =>
          pure ⟨summary.lines, complaints, journal, filter, .ok summary.report.warnings⟩
      | .error failure =>
          pure ⟨[], complaints, journal, filter, .error failure⟩

end Unveil.CommandLine
