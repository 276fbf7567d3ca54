import Unveil.Declaration.Basic
import Unveil.Pieces

/-!
The types of a module and their nesting. A forest is a row of slots; each slot
is absent, or holds a type together with the forest of types nested in it.

Nesting may be as deep as a file likes, and a row as long, so the functions
that run keep the levels they still have to finish in a list of their own
instead of calling themselves. `Forest.preorder` says by plain recursion what
order they keep.
-/

namespace Unveil

/-- A row of type slots: the first slot and the slots after it. -/
inductive Forest where
  | nil
  | absent (rest : Forest)
  | present (type : TypeDecl) (nested rest : Forest)
  deriving DecidableEq, Repr

namespace Forest

/-- Every type before the types nested in it, and those before the types that
follow. -/
def preorder : Forest → List TypeDecl
  | nil => []
  | absent rest => rest.preorder
  | present type nested rest => type :: (nested.preorder ++ rest.preorder)

/-- One for every slot and every end of a row: how many steps a walk can
take. -/
def weight : Forest → Nat
  | nil => 1
  | absent rest => rest.weight + 1
  | present _ nested rest => nested.weight + rest.weight + 1

def levelsWeight (levels : List Forest) : Nat := total (levels.map weight)

/-- The next type of a walk and the levels left after it. The innermost level
comes first; a level that is used up, and an absent slot, are passed over. -/
def next? : List Forest → Option (TypeDecl × List Forest)
  | [] => none
  | nil :: levels => next? levels
  | absent rest :: levels => next? (rest :: levels)
  | present type nested rest :: levels => some (type, nested :: rest :: levels)
termination_by levels => levelsWeight levels
decreasing_by
  all_goals simp [levelsWeight, weight]

theorem levelsWeight_next? {levels left : List Forest} {type : TypeDecl}
    (found : next? levels = some (type, left)) :
    levelsWeight left < levelsWeight levels := by
  fun_induction next? levels with
  | case1 => cases found
  | case2 levels ih =>
      have := ih found
      simp only [levelsWeight, List.map_cons, total_cons, weight] at this ⊢
      omega
  | case3 rest levels ih =>
      have := ih found
      simp only [levelsWeight, List.map_cons, total_cons, weight] at this ⊢
      omega
  | case4 type nested rest levels =>
      cases found
      simp only [levelsWeight, List.map_cons, total_cons, weight]
      omega

/-- The types that a walk still meets, behind those in `seen`, which is in
reverse. -/
def walk (seen : List TypeDecl) (levels : List Forest) : List TypeDecl :=
  match _found : next? levels with
  | none => seen.reverse
  | some (type, left) => walk (type :: seen) left
termination_by levelsWeight levels
decreasing_by exact levelsWeight_next? _found

/-- Every type of a forest, in the order of a walk. -/
def types (forest : Forest) : List TypeDecl := walk [] [forest]

/-- Every slot with its depth, a type's slots right behind it. -/
def outline (forest : Forest) : List (Nat × Option TypeDecl) :=
  go [] 0 [forest]
where
  /-- The first of the levels lies at `depth`, which is kept so that the levels
  need not be counted. -/
  go (seen : List (Nat × Option TypeDecl)) :
      (depth : Nat) → List Forest → List (Nat × Option TypeDecl)
    | _, [] => seen.reverse
    | depth, nil :: levels => go seen (depth - 1) levels
    | depth, absent rest :: levels => go ((depth, none) :: seen) depth (rest :: levels)
    | depth, present type nested rest :: levels =>
        go ((depth, some type) :: seen) (depth + 1) (nested :: rest :: levels)
  termination_by _ levels => levelsWeight levels
  decreasing_by
    all_goals simp [levelsWeight, weight]
    all_goals omega

def slots (forest : Forest) : List (Option (TypeDecl × Forest)) :=
  go [] forest
where
  go (seen : List (Option (TypeDecl × Forest))) :
      Forest → List (Option (TypeDecl × Forest))
    | nil => seen.reverse
    | absent rest => go (none :: seen) rest
    | present type nested rest => go (some (type, nested) :: seen) rest

def ofSlots (slots : List (Option (TypeDecl × Forest))) : Forest :=
  slots.foldr
    (fun slot rest =>
      match slot with
      | none => absent rest
      | some (type, nested) => present type nested rest)
    nil

/-- `done` in reverse, followed by `level`. -/
def revAppend : (done level : Forest) → Forest
  | nil, level => level
  | absent rest, level => revAppend rest (absent level)
  | present type nested rest, level => revAppend rest (present type nested level)

/-- A level that has been left for the types nested in one of its types: that
type, the slots before it in reverse, and the slots after it. -/
structure Frame where
  done : Forest
  type : TypeDecl
  todo : Forest

/-- The whole forest around a finished innermost level. -/
def close (level : Forest) : List Frame → Forest
  | [] => level
  | frame :: frames =>
      close (frame.done.revAppend (present frame.type level frame.todo)) frames

def passWeight (level : Forest) (frames : List Frame) : Nat :=
  2 * level.weight + total (frames.map fun frame => 2 * frame.todo.weight + 1)

/-- Changes the types of `level` and of what the frames have still to do.
The types in `done` and in the frames have been changed already. -/
def revise (change : TypeDecl → TypeDecl) :
    (done level : Forest) → (frames : List Frame) → Forest
  | done, nil, [] => done.revAppend nil
  | done, nil, frame :: frames =>
      revise change (present frame.type (done.revAppend nil) frame.done) frame.todo frames
  | done, absent rest, frames => revise change (absent done) rest frames
  | done, present type nested rest, frames =>
      revise change nil nested (⟨done, change type, rest⟩ :: frames)
termination_by _ level frames => passWeight level frames
decreasing_by
  all_goals simp [passWeight, weight]
  all_goals omega

/-- The forest with every type changed and every slot in its place. -/
def map (change : TypeDecl → TypeDecl) (forest : Forest) : Forest :=
  revise change nil forest []

/-- A type in its place: the levels around it, its own level split before and
after it, and the types nested in it. -/
structure Focus where
  done : Forest
  type : TypeDecl
  nested : Forest
  todo : Forest
  frames : List Frame

/-- The forest around a type. -/
def Focus.forest (focus : Focus) : Forest :=
  close (focus.done.revAppend (present focus.type focus.nested focus.todo)) focus.frames

/-- The type that a walk meets after `index` others, in its place. -/
def focus? (forest : Forest) (index : Nat) : Option Focus :=
  go index nil forest []
where
  go : Nat → (done level : Forest) → List Frame → Option Focus
    | _, _, nil, [] => none
    | index, done, nil, frame :: frames =>
        go index (present frame.type (done.revAppend nil) frame.done) frame.todo frames
    | index, done, absent rest, frames => go index (absent done) rest frames
    | 0, done, present type nested rest, frames => some ⟨done, type, nested, rest, frames⟩
    | index + 1, done, present type nested rest, frames =>
        go index nil nested (⟨done, type, rest⟩ :: frames)
  termination_by _ _ level frames => passWeight level frames
  decreasing_by
    all_goals simp [passWeight, weight]
    all_goals omega

end Forest

end Unveil
