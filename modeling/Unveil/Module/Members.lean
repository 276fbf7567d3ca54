import Unveil.Journal
import Unveil.Bytes.Basic

/-!
Handing out members to types. A type's row says where its list of fields and
its list of methods start; a list goes up to where the next type's starts.
Lists may overlap, run backwards or past the end, so a member is given to the
first list that names it and no list gets it again.
-/

namespace Unveil

inductive MemberKind where
  | field | method
  deriving DecidableEq, Repr

def MemberKind.text : MemberKind → String
  | field => "field"
  | method => "method"

/-- The members that may still be handed out, in the order of their rows. With
pointers, a list names positions of a table that redirects to rows. -/
structure MemberPool (α : Type) where
  entries : Array (Option α)
  pointers? : Option (Array UInt32)

/-- What one position of a list came to: a member, or the row that it names in
vain. -/
inductive Claim (α : Type) where
  | granted (member : α)
  | missing (row : Nat)
  | taken (row : Nat)
  deriving DecidableEq, Repr

namespace Claim

variable {α : Type}

def slot : Claim α → Option α
  | granted member => some member
  | missing _ | taken _ => none

def warning? (kind : MemberKind) (owner : Token) (position : Nat) : Claim α → Option String
  | granted _ => none
  | missing row =>
      some (owner.text ++ ": " ++ kind.text ++ " entry " ++ toString position ++
        " points to missing row " ++ toString row)
  | taken row =>
      some (owner.text ++ ": " ++ kind.text ++ " row " ++ toString row ++
        " already belongs to another type")

end Claim

/-- What a list came to: a claim for each position, and whether the list went
on past the end of what it could name. -/
structure Run (α : Type) where
  claims : List (Nat × Claim α)
  pastEnd : Bool

namespace Run

variable {α : Type}

/-- One slot for each position, and one more for all that lies past the
end. -/
def slots (run : Run α) : List (Option α) :=
  run.claims.map (·.2.slot) ++ if run.pastEnd then [none] else []

end Run

namespace MemberPool

variable {α : Type}

def ofList (members : List α) (pointers? : Option (Array UInt32)) : MemberPool α :=
  ⟨(members.map some).toArray, pointers?⟩

/-- The greatest word. Positions are words, so counts of them are held there. -/
def wordMax : Nat := 0xFFFFFFFF

def reach (pool : MemberPool α) : Nat :=
  match pool.pointers? with
  | some pointers => pointers.size
  | none => pool.entries.size

/-- How many positions a list can name. -/
def length (pool : MemberPool α) : Nat := min pool.reach wordMax

/-- Where the list of the last type ends. -/
def stop (pool : MemberPool α) : Nat := min (pool.length + 1) wordMax

/-- The row that a position names. Positions and rows are counted from one,
and row zero is none. -/
def rowOf (pool : MemberPool α) (position : Nat) : Nat :=
  match pool.pointers? with
  | some pointers => (pointers.getD (position - 1) 0).toNat
  | none => position

def claim (position : Nat) : StateM (MemberPool α) (Nat × Claim α) := fun pool =>
  let row := pool.rowOf position
  if row = 0 then
    ((position, .missing row), pool)
  else
    match pool with
    | ⟨entries, pointers?⟩ =>
      match entries[row - 1]? with
      | none => ((position, .missing row), ⟨entries, pointers?⟩)
      | some none => ((position, .taken row), ⟨entries, pointers?⟩)
      | some (some member) =>
          ((position, .granted member), ⟨entries.setIfInBounds (row - 1) none, pointers?⟩)

/-- Claims the members of a list from `start` up to `finish`. A list that
starts at zero or runs backwards is empty. -/
def claimRun (start finish : Nat) : StateM (MemberPool α) (Run α) := fun pool =>
  if start = 0 ∨ finish < start then
    (⟨[], false⟩, pool)
  else
    let stop := pool.stop
    let (claims, pool) := (List.range' start (min finish stop - start)).mapM claim pool
    (⟨claims, stop < finish⟩, pool)

def unclaimed (pool : MemberPool α) : Nat := pool.entries.countP Option.isSome

def warnings (kind : MemberKind) (owner : Token) (start finish stop : Nat) (run : Run α) :
    List String :=
  let list := owner.text ++ ": " ++ kind.text ++ " list " ++ toString start ++ ".." ++
    toString finish
  let invalid :=
    if (start = 0 ∨ finish < start) ∧ finish ≠ start then
      [owner.text ++ ": invalid " ++ kind.text ++ " list " ++ toString start ++ ".." ++
        toString finish ++ ", treated as empty"]
    else
      []
  invalid ++
    run.claims.filterMap (fun (position, claim) => claim.warning? kind owner position) ++
    if run.pastEnd then [list ++ " runs past the last row " ++ toString (stop - 1)] else []

def take (kind : MemberKind) (owner : Token) (start finish : Nat) (pool : MemberPool α) :
    Logged (List (Option α) × MemberPool α) := do
  let stop := pool.stop
  let (run, pool) := claimRun start finish pool
  (warnings kind owner start finish stop run).forM (Logged.warn .members)
  pure (run.slots, pool)

/-- Remarks on members that belong to no type. -/
def report (kind : MemberKind) (pool : MemberPool α) : Logged Unit :=
  let count := pool.unclaimed
  if count = 0 then
    pure ()
  else
    Logged.debug .members (toString count ++ " " ++ kind.text ++ " rows belong to no type")

end MemberPool

end Unveil
