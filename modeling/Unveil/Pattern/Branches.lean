import Unveil.Pattern.Reading
import Unveil.Text.Naming

/-!
Groups, the branches to choose from in them, and repetitions. What has been
read is kept as a draft, in which every group that is open waits for its
parenthesis.
-/

namespace Unveil.Pattern

open Reading

/-- The branches of a group, the last of them first, and that one item by item,
the last first as well. -/
structure Branches where
  /-- Where the first branch begins. -/
  start : Nat
  finished : List Expression
  /-- Where the last branch begins. -/
  lastStart : Nat
  items : List Expression

namespace Branches

def begin (start : Nat) : Branches := ⟨start, [], start, []⟩

def add (branches : Branches) (item : Expression) : Branches :=
  { branches with items := item :: branches.items }

def last (branches : Branches) (stop : Nat) : Expression :=
  .ofParts ⟨branches.lastStart, stop⟩ branches.items.reverse

def next (branches : Branches) (sign : Nat) : Branches :=
  { branches with
    finished := branches.last sign :: branches.finished, lastStart := sign + 1, items := [] }

def expression (branches : Branches) (stop : Nat) : Expression :=
  .ofBranches ⟨branches.start, stop⟩ (branches.last stop :: branches.finished).reverse

end Branches

/-- How a group is told apart from others. -/
inductive Label where
  | number (number : Nat)
  | flags (changes : List (Flag × Bool))
  deriving DecidableEq, Repr

/-- An open group: the place of its parenthesis, how it is labelled, and what
was read before it. -/
structure Group where
  start : Nat
  label : Label
  loose : Bool
  before : Branches

/-- What has been read: the open groups, the innermost first, what is in the
innermost, how many groups have a number, and the names that groups have. -/
structure Draft where
  groups : List Group
  branches : Branches
  numbered : Nat
  names : List (List Char × Span)

namespace Draft

def start : Draft := ⟨[], .begin 0, 0, []⟩

def add (draft : Draft) (expression : Expression) : Draft :=
  { draft with branches := draft.branches.add expression }

end Draft

def groupName (names : List (List Char × Span)) : Reading (List Char × Span) := do
  if (← peek?).isNone then
    refuseHere .nameOpen
  let start ← place
  let name := (← ahead).takeWhile (· ≠ '>')
  let isLetter (letter : Char) : Bool := letter == '_' || Text.isAlphabetic letter
  let isFit (letter : Char) : Bool :=
    isLetter letter || Text.isNumeric letter || letter == '.' || letter == '[' || letter == ']'
  let fit := match name with
    | [] => []
    | first :: rest => if isLetter first then first :: rest.takeWhile isFit else []
  pass fit.length
  if fit.length < name.length then
    refuseNext .nameLetter
  let stop ← place
  if (← peek?).isNone then
    refuseHere .nameOpen
  pass 1
  if name = [] then
    refuse .nameEmpty start start
  match names.lookup name with
  | some earlier => throw ⟨.nameRepeated, ⟨start, stop⟩, some earlier⟩
  | none => pure (name, ⟨start, stop⟩)

/-- Flags, up to the colon or the parenthesis behind them. `minus?` is where the
minus sign in front of those that are taken back was read, and `seen` holds the
flags that were read, and where. -/
def flagList : Nat → Option Nat → List (Flag × Bool × Nat) →
    Reading (List (Flag × Bool × Nat))
  | 0, _, seen => pure seen
  | fuel + 1, minus?, seen => do
      let here ← place
      let goOn (minus? : Option Nat) (seen : List (Flag × Bool × Nat)) := do
        pass 1
        if (← peek?).isNone then
          refuseHere .flagMissing
        flagList fuel minus? seen
      let repeats (defect : Defect) (earlier : Nat) :=
        throw ⟨defect, ⟨here, here + 1⟩, some ⟨earlier, earlier + 1⟩⟩
      match ← peek? with
      | none => refuseHere .flagMissing
      | some letter =>
          if letter = ':' ∨ letter = ')' then
            match minus?.filter fun minus => seen.all fun (_, _, place) => place < minus with
            | some minus => refuse .flagsEndInMinus minus (minus + 1)
            | none => pure seen
          else if letter = '-' then
            match minus? with
            | some earlier => repeats .minusRepeated earlier
            | none => goOn (some here) seen
          else
            match Flag.ofLetter? letter with
            | none => refuseNext .flagUnknown
            | some flag =>
                match seen.lookup flag with
                | some (_, earlier) => repeats .flagRepeated earlier
                | none => goOn minus? ((flag, minus?.isNone, here) :: seen)

/-- Opens a group, or sets flags for the rest of the one that is open. -/
def openGroup (draft : Draft) : Reading Draft := do
  let start ← place
  advance
  let inner ← place
  let loose := (← get).loose
  for look in ["?=", "?!", "?<=", "?<!"] do
    if ← passIf look then
      refuseFrom .lookAround start
  let opened (label : Label) (numbered : Nat) : Reading Draft := do
    pure { draft with
      groups := ⟨start, label, loose, draft.branches⟩ :: draft.groups
      branches := .begin (← place)
      numbered }
  let number := draft.numbered + 1
  if (← passIf "?P<") || (← passIf "?<") then
    let name ← groupName draft.names
    pure { (← opened (.number number) number) with names := name :: draft.names }
  else if ← passIf "?" then
    if (← peek?).isNone then
      refuse .groupOpen start (start + 1)
    let seen ← flagList ((← ahead).length + 1) none []
    let changes := seen.reverse.map fun (flag, on, _) => (flag, on)
    let closes := (← peek?) == some ')'
    pass 1
    if closes ∧ changes = [] then
      refuse .nothingRepeated inner inner
    match changes.lookup .loose with
    | some on => modify fun reader => { reader with loose := on }
    | none => pure ()
    if closes then
      pure (draft.add (.flags changes ⟨start, ← place⟩))
    else
      opened (.flags changes) draft.numbered
  else
    opened (.number number) number

/-- Closes the innermost group. -/
def closeGroup (draft : Draft) : Reading Draft := do
  match draft.groups with
  | [] => refuseNext .groupClosed
  | innermost :: groups => do
      modify fun reader => { reader with loose := innermost.loose }
      let inner := draft.branches.expression (← place)
      pass 1
      let span : Span := ⟨innermost.start, ← place⟩
      let closed := match innermost.label with
        | .number number => Expression.group number inner span
        | .flags changes => .flagged changes inner span
      pure { draft with groups, branches := innermost.before.add closed }

/-- The last item that was read, and the branches without it. Flags are no item
to repeat. -/
def repeatable (branches : Branches) : Reading (Expression × Branches) :=
  match branches.items with
  | [] | .flags _ _ :: _ => refuseHere .nothingRepeated
  | item :: items => pure (item, { branches with items })

/-- A repetition that a sign stands for. With a question mark behind the sign as
little as possible is taken. -/
def repeatedBySign (branches : Branches) (least : Nat) (most? : Option Nat) :
    Reading Branches := do
  let (item, branches) ← repeatable branches
  pass 1
  let greedy := (← peek?) != some '?'
  if !greedy then
    pass 1
  pure (branches.add (.repeated item least most? greedy ⟨item.span.start, ← place⟩))

def repeatedByCount (branches : Branches) : Reading Branches := do
  let (item, branches) ← repeatable branches
  let start ← place
  let unlessEnd : Reading Unit := do
    if (← peek?).isNone then
      refuseFrom .countOpen start
  advance
  unlessEnd
  let first ← count
  unlessEnd
  let (least, most?) ←
    if (← peek?) = some ',' then do
      advance
      unlessEnd
      if (← peek?) = some '\x7d' then
        pure (← settled first, none)
      else
        let least ← settled first
        pure (least, some (← settled (← count)))
    else do
      let exact ← settled first
      pure (exact, some exact)
  if (← peek?) ≠ some '\x7d' then
    refuseFrom .countOpen start
  advance
  let greedy := (← peek?) != some '?'
  if !greedy then
    pass 1
  if most?.any (· < least) then
    refuseFrom .countReversed start
  pure (branches.add (.repeated item least most? greedy ⟨item.span.start, ← place⟩))

end Unveil.Pattern
