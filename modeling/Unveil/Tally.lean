import Unveil.Declaration.Forest

/-!
Making declarations public, and the count of what that changed. The pass
changes the visibility bits of every declaration in the forest and nothing
else. A declaration that is public already keeps its word, so it does not
count.
-/

namespace Unveil

structure Tally where
  types : Nat
  methods : Nat
  fields : Nat
  deriving DecidableEq, Repr

namespace Tally

def zero : Tally := ⟨0, 0, 0⟩

def add (a b : Tally) : Tally :=
  ⟨a.types + b.types, a.methods + b.methods, a.fields + b.fields⟩

def sum (tallies : List Tally) : Tally := tallies.foldl add zero

def total (tally : Tally) : Nat := tally.types + tally.methods + tally.fields

end Tally

/-- A way of combining partial tallies: every tally is taken in once, and the
sums may be bracketed at will. -/
inductive Tallying where
  | nothing
  | one (tally : Tally)
  | both (left right : Tallying)

namespace Tallying

def result : Tallying → Tally
  | nothing => .zero
  | one tally => tally
  | both left right => left.result.add right.result

def tallies : Tallying → List Tally
  | nothing => []
  | one tally => [tally]
  | both left right => left.tallies ++ right.tallies

/-- The bracketing that halves the list until single tallies are left. -/
def halving (tallies : List Tally) : Tallying :=
  match tallies with
  | [] => nothing
  | [tally] => one tally
  | first :: second :: others =>
      let all := first :: second :: others
      let middle := all.length / 2
      both (halving (all.take middle)) (halving (all.drop middle))
termination_by tallies.length
decreasing_by
  all_goals simp [List.length_take, List.length_drop]
  all_goals omega

end Tallying

def MethodDecl.unveil (method : MethodDecl) : MethodDecl := method.withAccess .isPublic

def FieldDecl.unveil (field : FieldDecl) : FieldDecl := field.withAccess .isPublic

namespace TypeDecl

def unveil (type : TypeDecl) : TypeDecl :=
  { type.withVisibility (.widest type.isNested) with
    methods := type.methods.map (·.map MethodDecl.unveil)
    fields := type.fields.map (·.map FieldDecl.unveil) }

def hidden (type : TypeDecl) : Tally where
  types := if type.isPublic then 0 else 1
  methods := type.methods.countP (·.any (!·.isPublic))
  fields := type.fields.countP (·.any (!·.isPublic))

end TypeDecl

namespace Forest

/-- The types that wait to be visited, after those of a row have been put on
top, its last slot uppermost. -/
def stack (waiting : List (TypeDecl × Forest)) : Forest → List (TypeDecl × Forest)
  | nil => waiting
  | absent rest => stack waiting rest
  | present type nested rest => stack ((type, nested) :: waiting) rest

/-- The visits that a stack of waiting types still leads to. -/
def stackWeight (waiting : List (TypeDecl × Forest)) : Nat :=
  total (waiting.map fun entry => entry.2.weight)

theorem stackWeight_stack (waiting : List (TypeDecl × Forest)) (row : Forest) :
    stackWeight (stack waiting row) < stackWeight waiting + row.weight := by
  induction row generalizing waiting with
  | nil => simp [stack, weight]
  | absent rest ih =>
      have := ih waiting
      simp only [stack, weight]
      omega
  | present type nested rest _ ih =>
      have := ih ((type, nested) :: waiting)
      simp only [stack, weight, stackWeight, List.map_cons, total_cons] at this ⊢
      omega

/-- The types in the order in which a pass visits them: the type put on the
stack last comes first, and the types nested in it are stacked when it has
been visited. -/
def visits (seen : List TypeDecl) : List (TypeDecl × Forest) → List TypeDecl
  | [] => seen.reverse
  | (type, nested) :: waiting => visits (type :: seen) (stack waiting nested)
termination_by waiting => stackWeight waiting
decreasing_by
  have := stackWeight_stack waiting nested
  simp only [stackWeight, List.map_cons, total_cons] at this ⊢
  omega

/-- What making a top-level slot public changes, it and everything nested in
it. -/
def hiddenIn : Option (TypeDecl × Forest) → Tally
  | none => .zero
  | some (type, nested) =>
      .sum ((visits [] [(type, nested)]).map TypeDecl.hidden)

/-- Makes every declaration of a forest public. The partial tallies of the
top-level slots are added up one after the other, or by halves when the slots
are shared out. -/
def unveil (forest : Forest) (parallel : Bool) : Forest × Tally :=
  let partials := forest.slots.map hiddenIn
  (forest.map TypeDecl.unveil,
    if parallel then (Tallying.halving partials).result else .sum partials)

end Forest

end Unveil
