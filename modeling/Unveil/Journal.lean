import Unveil.Fault

/-!
The journal of a run: remarks on what was found and done, in order. What was
remarked before a failure stays in the journal, also where steps on a file system stand
between the remarks.
-/

namespace Unveil

inductive Level where
  | debug | info | warn
  deriving DecidableEq, Repr

namespace Level

def text : Level → String
  | debug => "DEBUG"
  | info => "INFO"
  | warn => "WARN"

def rank : Level → Nat
  | debug => 0
  | info => 1
  | warn => 2

end Level

/-- The part of the program that a remark comes from. -/
inductive Origin where
  | loading | members | nesting | unveiling | writing | running
  deriving DecidableEq, Repr

namespace Origin

/-- What the parts of the program have in front of their names. -/
def program : String := "publicizer"

/-- The name by which a filter knows a part. A part of a part has the name of
the whole in front of its own. -/
def path : Origin → String
  | loading => program ++ "::metadata::loader"
  | members => program ++ "::metadata::loader::members"
  | nesting => program ++ "::metadata::loader::nesting"
  | unveiling => program ++ "::publicize"
  | writing => program ++ "::write"
  | running => program ++ "::run"

end Origin

structure Remark where
  origin : Origin
  level : Level
  text : String
  deriving DecidableEq, Repr

abbrev Journal := Array Remark

/-- A step that may fail and that adds to a journal in any case. -/
abbrev Logged := EStateM Fault Journal

namespace Logged

def remark (level : Level) (origin : Origin) (text : String) : Logged Unit := fun journal =>
  .ok () (journal.push ⟨origin, level, text⟩)

def debug (origin : Origin) (text : String) : Logged Unit := remark .debug origin text

def warn (origin : Origin) (text : String) : Logged Unit := remark .warn origin text

def lift {α : Type} (result : Except Fault α) : Logged α := fun journal =>
  match result with
  | .ok value => .ok value journal
  | .error fault => .error fault journal

def outcome {α : Type} (step : Logged α) : Except Fault α × Journal :=
  match step #[] with
  | .ok value journal => (.ok value, journal)
  | .error fault journal => (.error fault, journal)

end Logged

/-- A computation on a file system that may fail and that adds to a journal in
any case. -/
abbrev Session (m : Type → Type) := ExceptT Fault (StateT Journal m)

namespace Session

variable {m : Type → Type} [Monad m]

def logged {α : Type} (step : Logged α) : Session m α := fun journal =>
  pure (match step journal with
    | .ok value journal => (.ok value, journal)
    | .error fault journal => (.error fault, journal))

def hosted {α : Type} (step : ExceptT Fault m α) : Session m α := fun journal => do
  pure (← step.run, journal)

end Session

end Unveil
