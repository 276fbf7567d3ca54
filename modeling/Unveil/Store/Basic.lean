import Unveil.Store.Volume

/-!
A file system as a value: what is at which place, and which directory paths
start from. Places are lists of names from the root down, so no two of them
are the same thing; paths are walked piece by piece, and every piece has to
start from a directory that is there.

`Host` puts such a store among things that can fail: it says of each step that
is still to come whether it fails.
-/

namespace Unveil

abbrev Location := List (List Char)

inductive Node where
  | file (data : Bytes)
  | directory
  deriving DecidableEq, Repr

structure Store where
  nodes : List (Location × Node)
  /-- The directory that relative paths start from. -/
  home : Location
  deriving DecidableEq, Repr

namespace Store

/-- A store with nothing but an empty directory to work in. -/
def empty : Store :=
  let home : Location := ["home".toList]
  { nodes := [(home, .directory)], home }

/-- What is at a place. The root is always a directory. -/
def node? (store : Store) (place : Location) : Option Node :=
  if place = [] then some .directory else store.nodes.lookup place

def erase (store : Store) (place : Location) : Store :=
  { store with nodes := store.nodes.filter (·.1 ≠ place) }

def put (store : Store) (place : Location) (node : Node) : Store :=
  let cleared := store.erase place
  { cleared with nodes := (place, node) :: cleared.nodes }

theorem lookup_erased (nodes : List (Location × Node)) {place other : Location}
    (differs : other ≠ place) :
    (nodes.filter (·.1 ≠ place)).lookup other = nodes.lookup other := by
  induction nodes with
  | nil => rfl
  | cons entry rest ih =>
      obtain ⟨key, node⟩ := entry
      by_cases same : key = place
      · have missed : (other == key) = false := by
          rw [same]
          exact beq_eq_false_iff_ne.mpr differs
        simp only [List.filter_cons, same, ne_eq, not_true_eq_false, decide_false,
          Bool.false_eq_true, ↓reduceIte]
        rw [← same, List.lookup_cons, missed, ← ih, same]
      · simp only [List.filter_cons, ne_eq, same, not_false_eq_true, decide_true, ↓reduceIte,
          List.lookup_cons]
        rw [ih]

theorem node?_put (store : Store) (place other : Location) (node : Node)
    (below : other ≠ []) :
    (store.put place node).node? other =
      if other = place then some node else store.node? other := by
  by_cases same : other = place
  · rw [if_pos same]
    rw [same] at below ⊢
    simp [node?, put, below]
  · have missed : (other == place) = false := beq_eq_false_iff_ne.mpr same
    simp only [node?, put, erase, if_neg below, if_neg same, List.lookup_cons, missed]
    exact lookup_erased store.nodes same

theorem node?_erase (store : Store) {place other : Location} (differs : other ≠ place) :
    (store.erase place).node? other = store.node? other := by
  simp only [node?, erase]
  split
  · rfl
  · exact lookup_erased store.nodes differs

/-- Why a path leads nowhere: a directory on it is missing, or something stands
in the way that no directory can mend. -/
inductive Block where
  | missing | refused
  deriving DecidableEq, Repr

def nameLimit : Nat := 255

def pathLimit : Nat := 4095

def byteSize (letters : List Char) : Nat := (String.ofList letters).utf8ByteSize

/-- One step of a walk, from a directory that has to be there. -/
def step (store : Store) (place : Location) (piece : List Char) : Except Block Location :=
  match store.node? place with
  | none => .error .missing
  | some (.file _) => .error .refused
  | some .directory =>
      if Path.isIdle piece then .ok place
      else if piece = ['.', '.'] then .ok place.dropLast
      else if nameLimit < byteSize piece then .error .refused
      else .ok (place ++ [piece])

/-- The place that a path leads to. All but the last step lead to something
that exists; whether the last does is for the caller to see. -/
def walk (store : Store) (path : Path) : Except Block Location :=
  if path.isEmpty then
    .error .missing
  else if pathLimit < byteSize path.letters ∨ '\x00' ∈ path.letters then
    .error .refused
  else
    path.pieces.foldlM store.step (if path.isAbsolute then [] else store.home)

def find? (store : Store) (path : Path) : Option (Location × Node) :=
  match store.walk path with
  | .ok place => (store.node? place).map fun node => (place, node)
  | .error _ => none

def kind? (store : Store) (path : Path) : Option Kind :=
  (store.find? path).map fun (_, node) =>
    match node with
    | .file _ => .file
    | .directory => .directory

/-- The plain way from the root to a place. -/
def pathTo (place : Location) : Path := ⟨'/' :: Pieces.join '/' place⟩

def place? (store : Store) (path : Path) : Option Path :=
  (store.find? path).map fun (place, _) => pathTo place

def read? (store : Store) (path : Path) : Option Bytes :=
  (store.find? path).bind fun (_, node) =>
    match node with
    | .file data => some data
    | .directory => none

/-- Makes a directory. Its name may have slashes behind it, although there is
nothing yet to go on from. -/
def makeDirectory (store : Store) (path : Path) : Making × Store :=
  match store.walk path.withoutSlashes with
  | .error .missing => (.missing, store)
  | .error .refused => (.refused, store)
  | .ok place =>
      match store.node? place with
      | some _ => (.taken, store)
      | none => (.made, store.put place .directory)

/-- Gives a file these bytes. Nothing but a file can be there already. -/
def fill (store : Store) (path : Path) (data : Bytes) : Bool × Store :=
  match store.walk path with
  | .error _ => (false, store)
  | .ok place =>
      match store.node? place with
      | some .directory => (false, store)
      | _ => (true, store.put place (.file data))

def remove (store : Store) (path : Path) : Store :=
  match store.find? path with
  | some (place, .file _) => store.erase place
  | _ => store

/-- Gives a file another name. The new name must be a name, and no directory
may have it. -/
def rename (store : Store) (source target : Path) : Bool × Store :=
  match store.find? source, store.walk target with
  | some (old, .file data), .ok new =>
      match target.pieces.getLast?, store.node? new with
      | some last, node =>
          if Path.isIdle last ∨ last = ['.', '.'] ∨ node = some .directory then
            (false, store)
          else
            (true, (store.erase old).put new (.file data))
      | none, _ => (false, store)
  | _, _ => (false, store)

/-- Everything below the directory that relative paths start from, by the path
from there, and the bytes of what is a file. A directory's path ends in a
slash. -/
def contents (store : Store) : List (String × Option Bytes) :=
  let found := store.nodes.filterMap fun (place, node) =>
    match place.drop store.home.length, node with
    | [], _ => none
    | below, .file data => some (String.ofList (Pieces.join '/' below), some data)
    | below, .directory => some (String.ofList (Pieces.join '/' below ++ ['/']), none)
  found.mergeSort fun a b => !(b.1 < a.1)

end Store

/-- A store whose steps may fail: each that is still to come takes the next
refusal, and where none is left it does not fail. -/
structure Host where
  store : Store
  refusals : List Bool

abbrev Hosted := StateM Host

namespace Host

def sound (store : Store) : Host := ⟨store, []⟩

/-- Looks at the store. -/
def see {α : Type} (look : Store → α) : Hosted α := fun host => (look host.store, host)

/-- Takes a step, or gives `failed` as its result without taking it. -/
def attempt {α : Type} (act : Store → α × Store) (failed : α) : Hosted α := fun host =>
  match host.refusals with
  | true :: refusals => (failed, { host with refusals })
  | refusals =>
      let (result, store) := act host.store
      (result, ⟨store, refusals.tail⟩)

instance : Volume Hosted where
  kind? path := see (·.kind? path)
  place? path := see (·.place? path)
  read? path := see (·.read? path)
  makeDirectory path := attempt (·.makeDirectory path) .refused
  create path := attempt (·.fill path #[]) false
  resize path size := attempt (·.fill path (.replicate size 0)) false
  map path := attempt (fun store => ((store.read? path).isSome, store)) false
  flush path data := attempt (·.fill path data) false
  rename source target := attempt (·.rename source target) false
  remove path := fun host => ((), { host with store := host.store.remove path })

end Host

end Unveil
