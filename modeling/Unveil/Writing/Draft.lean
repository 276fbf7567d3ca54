import Unveil.Fault
import Unveil.Store.Volume

/-!
Writing a file so that it appears whole or not at all. The bytes first go into
a draft, a file of its own next to the target, and the draft takes the target's
name when it is complete. If anything fails on the way, the draft is removed
and the target stays as it was.
-/

namespace Unveil

structure Draft where
  path : Path
  target : Path
  deriving DecidableEq, Repr

def Obstacle.raise {m : Type → Type} {α : Type} [Monad m] (obstacle : Obstacle) :
    ExceptT Fault m α :=
  throw (.unwritable obstacle)

namespace Draft

/-- The name of a draft: hidden, and set apart from other drafts by a tag. -/
def nameFor (name : List Char) (tag : String) : Path :=
  ⟨'.' :: name ++ '.' :: tag.toList ++ ".tmp".toList⟩

variable {m : Type → Type} [Monad m] [Volume m]

def discard (draft : Draft) : ExceptT Fault m Unit :=
  ExceptT.lift (Volume.remove draft.path)

/-- Removes a draft on account of an obstacle. -/
def fail {α : Type} (draft : Draft) (obstacle : Obstacle) : ExceptT Fault m α := do
  draft.discard
  obstacle.raise

/-- Makes a draft of `size` zero bytes for a target, and the directories in
which the target should be. -/
def start (target : Path) (size : Nat) (tag : String) : ExceptT Fault m Draft := do
  match target.fileName? with
  | none => (Obstacle.noFileName target.text).raise
  | some name =>
    let directory := target.directory
    if !(← ExceptT.lift (Volume.makeDirectories directory.ancestors)) then
      (Obstacle.directory directory.text).raise
    let draft : Draft := ⟨directory.join (nameFor name tag), target⟩
    if !(← ExceptT.lift (Volume.create draft.path)) then
      (Obstacle.temporary draft.path.text).raise
    if !(← ExceptT.lift (Volume.resize draft.path size)) then
      draft.fail .size
    if !(← ExceptT.lift (Volume.map draft.path)) then
      draft.fail .mapping
    pure draft

def finish (draft : Draft) (data : Bytes) : ExceptT Fault m Unit := do
  if !(← ExceptT.lift (Volume.flush draft.path data)) then
    draft.fail .flush
  if !(← ExceptT.lift (Volume.rename draft.path draft.target)) then
    draft.fail (.move draft.target.text)

end Draft

end Unveil
