import Unveil.Image.Basic
import Unveil.Journal
import Unveil.Module.Load
import Unveil.Payload
import Unveil.Store.Path
import Unveil.Tally
import Unveil.Writing.Draft
import Unveil.Writing.Emission

/-!
What a caller does with a module in a file system: load it, make its
declarations public, and write it to a file. Each adds to the journal what it
did, whether it comes to an end or not. The bytes to be written start out as those of
the image; what the strategy changes is put in their place, so the length stays.
-/

namespace Unveil

/-- A reason to look twice at a written file. -/
inductive Warning where
  /-- The native parts are taken over as they are; whether they still fit the
  metadata is not known. -/
  | nativeContent (parts : List NativePart)
  | strongName
  | authenticode
  deriving DecidableEq, Repr

def Warning.text : Warning → String
  | nativeContent parts =>
      parts.foldl (fun text part => text ++ "\n  - " ++ part.text)
        "module contains native content, output is best effort and may not load"
  | strongName =>
      "strong-name signature is invalidated, re-sign the module or skip verification"
  | authenticode => "Authenticode signature is invalidated"

structure Report where
  path : Path
  strategy : Strategy
  /-- How many rows have another attribute word than in the source. -/
  changed : Nat
  /-- The checksum, if it was brought up to date. -/
  checksum : Option UInt32
  warnings : List Warning
  deriving DecidableEq, Repr

structure Rendering where
  data : Bytes
  /-- How many rows have another attribute word than in the source. -/
  changed : Nat
  checksum : Option UInt32
  deriving DecidableEq, Repr

def Bytes.place (data : Bytes) (offset : Nat) (part : Bytes) : Except Fault Bytes := do
  demand (offset + part.size ≤ data.size)
    (.unwritable (.pastEnd offset part.size data.size))
  pure (data.overwrite offset part.toList)

namespace Module

/-- The image with the tables stream laid out anew, and with a checksum that
fits it if the image has one at all. -/
def renderManaged (module : Module) (tables : TablesStream) (words : AttributeWords) :
    Except Fault Rendering := do
  let (changed, stream) ← Emission.emit tables words
  let data ← module.image.data.place module.place.tablesOffset stream
  if module.image.checksum = 0 then
    pure { data, changed, checksum := none }
  else
    let field := module.image.checksumOffset
    let checksum := Checksum.compute data field
    let data ← data.place field (Bytes.spell 4 checksum.toNat).toArray
    pure { data, changed, checksum := some checksum }

def renderNativeAware (module : Module) (tables : TablesStream) (words : AttributeWords) :
    Except Fault Rendering := do
  let (changed, data) ←
    Emit.fill (Patch.apply module.place.tablesOffset tables words) module.image.data
  pure { data, changed, checksum := none }

def render (module : Module) (strategy : Strategy) (tables : TablesStream)
    (words : AttributeWords) : Except Fault Rendering :=
  match strategy with
  | .managed => module.renderManaged tables words
  | .nativeAware => module.renderNativeAware tables words

end Module

namespace Module

variable {m : Type → Type} [Monad m] [Volume m]

def read [Container.Reader] (path : Path) : Session m Module := do
  match ← Session.hosted (ExceptT.lift (Volume.read? path)) with
  | some data => Session.logged (ofData data)
  | none => throw .unreadable

/-- Makes every declaration of a module public. -/
def unveil (module : Module) (parallel : Bool) : Logged (Module × Tally) := do
  let (types, tally) := module.types.unveil parallel
  Logged.debug .unveiling ("Publicized " ++ toString tally.types ++ " types, " ++
    toString tally.methods ++ " methods, " ++ toString tally.fields ++ " fields in " ++
    module.name)
  pure ({ module with types }, tally)

/-- What the caller should know about a written module. The signatures only
matter if something was changed. -/
def warnings (module : Module) (changed : Nat) : List Warning :=
  let native := if module.payload.isIlOnly then [] else [.nativeContent module.payload.parts]
  let signed := module.header.isStrongNameSigned || module.header.strongName.size != 0
  let strongName := if changed ≠ 0 ∧ signed then [Warning.strongName] else []
  let authenticode :=
    if changed ≠ 0 ∧ module.image.certificates.isSome then [Warning.authenticode] else []
  native ++ strongName ++ authenticode

/-- Writes a module to a file, with the words that its declarations have
now. -/
def write (module : Module) (target : Path) (strategy? : Option Strategy) (tag : String) :
    Session m Report := do
  let strategy := strategy?.getD (.forPayload module.payload)
  let tables ← Session.logged (Logged.lift module.tables)
  let draft ← Session.hosted (Draft.start target module.image.data.size tag)
  Session.logged (Logged.debug .writing ("Writing " ++ module.name ++ " to " ++ target.text ++
    " (" ++ strategy.text ++ ")"))
  match module.render strategy tables (.ofForest module.types) with
  | .error fault => do
      Session.hosted draft.discard
      throw fault
  | .ok { data, changed, checksum } => do
      let warnings := module.warnings changed
      Session.logged (warnings.forM fun warning =>
        Logged.warn .writing (module.name ++ ": " ++ warning.text))
      Session.hosted (draft.finish data)
      Session.logged (Logged.debug .writing ("Wrote " ++ toString changed ++ " changed rows to " ++
        target.text))
      pure { path := target, strategy, changed, checksum, warnings }

end Module

end Unveil
