import Unveil.CommandLine.Run

namespace Unveil

def succeeds (action : IO Unit) : IO Bool := do
  try
    action
    pure true
  catch _ =>
    pure false

def answer? {α : Type} (action : IO α) : IO (Option α) := do
  try
    pure (some (← action))
  catch _ =>
    pure none

instance : Volume IO where
  kind? path := answer? do
    let place ← IO.FS.realPath path.text
    match (← place.metadata).type with
    | .file => pure Kind.file
    | .dir => pure Kind.directory
    | _ => pure Kind.other
  place? path := answer? do
    let place ← IO.FS.realPath path.text
    let _ ← place.metadata
    pure (Path.ofText place.toString)
  read? path := answer? do pure (← IO.FS.readBinFile path.text).data
  makeDirectory path := do
    try
      IO.FS.createDir path.text
      pure .made
    catch
      | .alreadyExists .. => pure .taken
      | .noFileOrDirectory .. => pure .missing
      | _ => pure .refused
  create path := succeeds (IO.FS.writeBinFile path.text .empty)
  resize path size := succeeds (IO.FS.writeBinFile path.text ⟨.replicate size 0⟩)
  map _ := pure true
  flush path data := succeeds (IO.FS.writeBinFile path.text ⟨data⟩)
  rename source target := succeeds (IO.FS.rename source.text target.text)
  remove path := do
    let _ ← succeeds (IO.FS.removeFile path.text)

end Unveil

/-- Runs the program on its command line. A draft is told apart from others by
the time at which the run began. -/
def main (words : List String) : IO UInt32 := do
  let filter ← IO.getEnv "RUST_LOG"
  let tag := toString (← IO.monoNanosNow)
  let _ := Unveil.Container.portable
  let outcome ← Unveil.CommandLine.run words filter tag
  IO.print (Unveil.Text.ofLines outcome.lines)
  IO.eprint (outcome.errorText Unveil.CommandLine.Failure.text)
  pure (UInt32.ofNat outcome.exitCode)
