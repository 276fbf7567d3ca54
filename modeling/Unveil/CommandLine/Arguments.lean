import Unveil.Store.Path
import Unveil.Text.Plain

/-!
Reading a command line. Arguments are taken in one after the other. A word in
front of which an option still waits for its value is that value, unless it
looks like an option itself; after a double dash nothing looks like an option.

A value is not entered at once but when the next argument is recognised, or at
the end. This is seen when an argument is wrong and a value before it is wrong
as well: an argument that is not recognised at all is reported first.
-/

namespace Unveil.CommandLine

inductive Switch where
  | exit | verbose | parallel | native
  deriving DecidableEq, Repr

inductive Slot where
  | positional | input | output
  deriving DecidableEq, Repr

/-- What an option asks for. -/
inductive Request where
  | switch (switch : Switch)
  | value (slot : Slot)
  | help
  | version
  deriving DecidableEq, Repr

def Switch.text : Switch → String
  | exit => "--exit"
  | verbose => "--verbose"
  | parallel => "--parallel"
  | native => "--native"

def Slot.text : Slot → String
  | positional => "[INPUT]"
  | input => "--input <INPUT>"
  | output => "--output <PATH>"

def Request.text : Request → String
  | switch given => given.text
  | value slot => slot.text
  | help => "--help"
  | version => "--version"

def longOption? (name : List Char) : Option Request :=
  match String.ofList name with
  | "exit" => some (.switch .exit)
  | "verbose" => some (.switch .verbose)
  | "parallel" => some (.switch .parallel)
  | "native" => some (.switch .native)
  | "input" => some (.value .input)
  | "output" => some (.value .output)
  | "help" => some .help
  | "version" => some .version
  | _ => none

def shortOption? : Char → Option Request
  | 'v' => some (.switch .verbose)
  | 'i' => some (.value .input)
  | 'o' => some (.value .output)
  | 'h' => some .help
  | 'V' => some .version
  | _ => none

/-- A command line that was understood. -/
structure Arguments where
  switches : List Switch
  positional : Option Path
  input : Option Path
  output : Option Path
  deriving DecidableEq, Repr

namespace Arguments

def none : Arguments := ⟨[], .none, .none, .none⟩

def has (arguments : Arguments) (switch : Switch) : Bool := arguments.switches.contains switch

def get (arguments : Arguments) : Slot → Option Path
  | .positional => arguments.positional
  | .input => arguments.input
  | .output => arguments.output

def set (arguments : Arguments) (slot : Slot) (path : Path) : Arguments :=
  match slot with
  | .positional => { arguments with positional := some path }
  | .input => { arguments with input := some path }
  | .output => { arguments with output := some path }

end Arguments

/-- What is wrong with a command line. -/
inductive Misuse where
  | unexpected (argument : String)
  | valueMissing (slot : Slot)
  | repeated (request : Request)
  | valueUnneeded (value : String) (request : Request)
  deriving DecidableEq, Repr

/-- The text of a misuse, of which only the first line is shown. What the user
has written is shown as plain text. -/
def Misuse.message : Misuse → String
  | unexpected argument =>
      Text.firstLine ("unexpected argument '" ++ Text.plain .ends argument ++ "' found")
  | valueMissing slot =>
      "a value is required for '" ++ slot.text ++ "' but none was supplied"
  | repeated request =>
      "the argument '" ++ request.text ++ "' cannot be used multiple times"
  | valueUnneeded value request =>
      Text.firstLine ("unexpected value '" ++ Text.plain .ends value ++ "' for '" ++ request.text ++
        "' found; no more were expected")

/-- Why the reading of a command line ends early. -/
inductive Stop where
  | help
  | version
  | misuse (misuse : Misuse)
  deriving DecidableEq, Repr

/-- A slot whose value has not been entered yet, and the value if it is
there. -/
structure Pending where
  slot : Slot
  value : Option String

structure Reader where
  arguments : Arguments
  pending : Option Pending
  /-- Is the next word the value of an option? -/
  awaiting : Bool
  /-- Has a double dash been passed? -/
  trailing : Bool
  /-- Has the one positional argument been taken? -/
  filled : Bool

namespace Reader

def start : Reader := ⟨.none, none, false, false, false⟩

def refuse {α : Type} (misuse : Misuse) : Except Stop α := .error (.misuse misuse)

def enter (reader : Reader) (slot : Slot) (value : String) : Except Stop Reader :=
  if (reader.arguments.get slot).isSome then
    refuse (.repeated (.value slot))
  else if value.isEmpty then
    refuse (.valueMissing slot)
  else
    .ok { reader with arguments := reader.arguments.set slot (.ofText value) }

/-- Enters the value that has not been entered yet. -/
def settle (reader : Reader) : Except Stop Reader :=
  match reader.pending with
  | none => .ok reader
  | some ⟨slot, none⟩ => refuse (.valueMissing slot)
  | some ⟨slot, some value⟩ => enter { reader with pending := none } slot value

def word (reader : Reader) (text : String) : Except Stop Reader := do
  if reader.filled then
    refuse (.unexpected text)
  else
    let reader ← reader.settle
    pure { reader with
      pending := some ⟨.positional, some text⟩, awaiting := false, filled := true }

def value (reader : Reader) (text : String) : Reader :=
  { reader with
    pending := reader.pending.map fun pending => { pending with value := some text }
    awaiting := false }

def option (reader : Reader) (request : Request) : Except Stop Reader := do
  let settled ← reader.settle
  let reader := { settled with awaiting := false }
  match request with
  | .help => .error .help
  | .version => .error .version
  | .switch switch =>
      if reader.arguments.has switch then
        refuse (.repeated request)
      else
        pure { reader with arguments :=
          { reader.arguments with switches := switch :: reader.arguments.switches } }
  | .value slot => pure { reader with pending := some ⟨slot, none⟩, awaiting := true }

/-- Takes in an option that a value is attached to. -/
def optionWith (reader : Reader) (request : Request) (text : String) :
    Except Stop Reader := do
  match request with
  | .value slot => do
      let reader ← reader.settle
      enter { reader with awaiting := false } slot text
  | _ => refuse (.valueUnneeded text request)

/-- Takes in a long option, of which this is what follows the dashes. -/
def long (reader : Reader) (text : List Char) : Except Stop Reader :=
  let name := text.takeWhile (· ≠ '=')
  match longOption? name, text.dropWhile (· ≠ '=') with
  | none, _ => refuse (.unexpected (String.ofList ('-' :: '-' :: name)))
  | some request, [] => reader.option request
  | some request, _ :: value => reader.optionWith request (String.ofList value)

/-- Takes in a cluster of short options, of which these are the letters. The
value of an option may follow its letter, with or without an equals sign. -/
def short (reader : Reader) : List Char → Except Stop Reader
  | [] => .ok reader
  | letter :: rest =>
      match shortOption? letter with
      | none => refuse (.unexpected (String.ofList ['-', letter]))
      | some (.value slot) =>
          match rest with
          | [] => reader.option (.value slot)
          | '=' :: value => reader.optionWith (.value slot) (String.ofList value)
          | value => reader.optionWith (.value slot) (String.ofList value)
      | some request => do (← reader.option request).short rest

def argument (reader : Reader) (text : String) : Except Stop Reader :=
  if reader.trailing then
    reader.word text
  else
    match text.toList with
    | ['-', '-'] => .ok { reader with trailing := true }
    | '-' :: '-' :: name => reader.long name
    | '-' :: letter :: rest => reader.short (letter :: rest)
    | _ => if reader.awaiting then .ok (reader.value text) else reader.word text

end Reader

def Arguments.read (words : List String) : Except Stop Arguments := do
  let reader ← words.foldlM Reader.argument Reader.start
  pure (← reader.settle).arguments

end Unveil.CommandLine
