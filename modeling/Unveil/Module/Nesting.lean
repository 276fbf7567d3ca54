import Unveil.Journal
import Unveil.Declaration.Forest
import Unveil.Table.Row

/-!
Building the forest of types. Every nesting row names a nested type and the
type around it. The first row that names a type as nested decides where it
goes; later rows for it are remarked on and dropped. Types are counted from
zero here, rows from one.

Following the types around a type must come to an end, since no type can be
nested in itself by any detour. The forest is put together from the innermost
types outwards, so that a type is complete before it takes its place.
-/

namespace Unveil.Nesting

/-- What the nesting rows come to. A type's children are listed in reverse,
with nothing for a child that does not exist. -/
structure Links where
  types : Array TypeDecl
  parents : Array (Option Nat)
  children : Array (List (Option Nat))

def Links.ofTypes (types : List TypeDecl) : Links where
  types := types.toArray
  parents := Array.replicate types.length none
  children := Array.replicate types.length []

/-- The type that a row number refers to. -/
def indexOf? (count : Nat) (row : UInt32) : Option Nat :=
  if row.toNat ≠ 0 ∧ row.toNat ≤ count then some (row.toNat - 1) else none

def tokenAt (types : Array TypeDecl) (index : Nat) : Except Fault Token := do
  pure (← itemAt types index).token

def Links.markNested (links : Links) (index : Nat) : Links :=
  { links with types := links.types.modify index fun type => { type with isNested := true } }

/-- Adds a child, or the place of a missing one, to a type. -/
def Links.addChild (links : Links) (enclosing : Nat) (child : Option Nat) : Links :=
  { links with children := links.children.modify enclosing (child :: ·) }

def Links.setParent (links : Links) (nested enclosing : Nat) : Links :=
  { links with parents := links.parents.setIfInBounds nested (some enclosing) }

def link (links : Links) (row : Entry NestingRow) : Logged Links := do
  let count := links.types.size
  match indexOf? count row.row.nested, indexOf? count row.row.enclosing with
  | some nested, some enclosing =>
      let token ← Logged.lift (tokenAt links.types nested)
      if nested = enclosing then
        throw (.malformed (.selfNested token))
      else
        match ← Logged.lift (itemAt links.parents nested) with
        | some existing =>
            let kept ← Logged.lift (tokenAt links.types existing)
            let dropped ← Logged.lift (tokenAt links.types enclosing)
            Logged.warn .nesting (token.text ++ " is nested in both " ++ kept.text ++ " and " ++
              dropped.text ++ ", keeping " ++ kept.text)
            pure links
        | none =>
            pure (((links.setParent nested enclosing).addChild enclosing (some nested)).markNested
              nested)
  | none, some enclosing =>
      let token ← Logged.lift (tokenAt links.types enclosing)
      Logged.warn .nesting (token.text ++ ": nested type row " ++
        toString row.row.nested.toNat ++ " does not exist")
      pure (links.addChild enclosing none)
  | some nested, none =>
      let token ← Logged.lift (tokenAt links.types nested)
      Logged.warn .nesting (token.text ++ ": enclosing type row " ++
        toString row.row.enclosing.toNat ++ " does not exist, kept at top level")
      pure (links.markNested nested)
  | none, none =>
      Logged.warn .nesting (row.token.text ++ ": references no existing type")
      pure links

/-- How far the search for a type's depth has come. -/
inductive Visit where
  | pending
  | active
  | done (depth : Nat)
  deriving DecidableEq, Repr

def pendingCount (visits : Array Visit) : Nat := visits.countP (· == .pending)

theorem pendingCount_set_lt {visits : Array Visit} {node : Nat}
    (inside : node < visits.size) (isPending : visits[node] = .pending) :
    pendingCount (visits.set node .active) < pendingCount visits := by
  have positive : 0 < visits.countP (· == .pending) := by
    rw [Array.countP_pos_iff]
    exact ⟨visits[node], Array.getElem_mem inside, by simp [isPending]⟩
  simp only [pendingCount, Array.countP_set, isPending]
  simp only [beq_self_eq_true, ↓reduceIte]
  have differs : (Visit.active == Visit.pending) = false := rfl
  simp only [differs, Bool.false_eq_true, ↓reduceIte]
  omega

/-- Goes from a type to the types around it, up to a top-level type or one
whose depth is known. The answer is the depth of the last type met, the state
of the search, and the types met, last first. Meeting one of them again means
going in a circle. -/
def climb (types : Array TypeDecl) (parents : Array (Option Nat)) (visits : Array Visit)
    (path : List Nat) (current : Option Nat) :
    Except Fault (Nat × Array Visit × List Nat) :=
  match current with
  | none => .ok (0, visits, path)
  | some node =>
    if inside : node < visits.size then
      match _state : visits[node] with
      | .done depth => .ok (depth + 1, visits, path)
      | .active =>
          match tokenAt types node with
          | .ok token => .error (.malformed (.nestingCycle token))
          | .error fault => .error fault
      | .pending =>
          match itemAt parents node with
          | .ok parent => climb types parents (visits.set node .active) (node :: path) parent
          | .error fault => .error fault
    else
      .error .trap
termination_by pendingCount visits
decreasing_by exact pendingCount_set_lt inside _state

/-- Gives the types met on a climb their depths, each one more than the type
before it. -/
def settle (base : Nat) (path : List Nat) (visits : Array Visit) : Array Visit :=
  (path.foldl
    (fun (visits, depth) node => (visits.setIfInBounds node (.done depth), depth + 1))
    (visits, base)).1

def explore (types : Array TypeDecl) (parents : Array (Option Nat)) (visits : Array Visit)
    (start : Nat) : Except Fault (Array Visit) := do
  let (base, visits, path) ← climb types parents visits [] (some start)
  pure (settle base path visits)

/-- How many types there are around each type. -/
def depths (types : Array TypeDecl) (parents : Array (Option Nat)) :
    Except Fault (Array Nat) := do
  let visits ← (List.range parents.size).foldlM (explore types parents)
    (Array.replicate parents.size .pending)
  pure (visits.map fun visit =>
    match visit with
    | .done depth => depth
    | .pending | .active => 0)

/-- The types while the forest is put together. Each has a slot, in which it
stands with the finished row of its children until it is taken to its place. -/
abbrev Slots := Array (Option (TypeDecl × Forest))

/-- Takes what a child's slot holds. Nothing is left there. -/
def takeSlot (child : Option Nat) : StateT Slots (Except Fault) (Option (TypeDecl × Forest)) :=
  fun slots =>
    match child with
    | none => .ok (none, slots)
    | some index => do
        let held ← itemAt slots index
        pure (held, slots.setIfInBounds index none)

/-- Completes a type: its children, which are listed in reverse, are taken into
its row. -/
def complete (links : Links) (slots : Slots) (node : Nat) : Except Fault Slots := do
  let children ← itemAt links.children node
  if children.isEmpty then
    pure slots
  else do
    let (row, slots) ← children.reverse.mapM takeSlot slots
    let held ← itemAt slots node
    pure (slots.setIfInBounds node (held.map fun (type, _) => (type, .ofSlots row)))

/-- The forest that the links describe. -/
def assemble (links : Links) : Except Fault Forest := do
  let count := links.types.size
  let depths ← depths links.types links.parents
  let innermostFirst := (List.range count).mergeSort fun a b =>
    depths.getD b 0 ≤ depths.getD a 0
  let slots ← innermostFirst.foldlM (complete links)
    (links.types.map fun type => some (type, .nil))
  let roots := (List.range count).filter fun index =>
    (links.parents.getD index none).isNone
  let (row, _) ← (roots.map some).mapM takeSlot slots
  pure (.ofSlots row)

def build (types : List TypeDecl) (rows : List (Entry NestingRow)) : Logged Forest := do
  let links ← rows.foldlM link (Links.ofTypes types)
  Logged.lift (assemble links)

end Unveil.Nesting
