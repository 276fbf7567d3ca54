import Unveil.Pattern.Escape

namespace Unveil.Pattern

open Reading

/-- An open set: the stretch that opens it, whether it is turned round, what is
combined already, and the items beside one another at the end of it, the last
first. `place` is where they begin if there are none. -/
structure OpenSet where
  opened : Span
  negated : Bool
  left? : Option (SetOperation × SetExpression)
  place : Nat
  items : List SetExpression

namespace OpenSet

def add (set : OpenSet) (item : SetExpression) : OpenSet :=
  { set with items := item :: set.items }

def addLetter (set : OpenSet) (letter : Char) (start : Nat) : OpenSet :=
  set.add (.atom (.letter ⟨letter, false, ⟨start, start + 1⟩⟩))

def combined (set : OpenSet) : SetExpression :=
  let right := SetExpression.ofItems set.place set.items.reverse
  match set.left? with
  | none => right
  | some (operation, left) => .operate operation left right

/-- Goes on at a place, behind an operation. -/
def combine (set : OpenSet) (operation : SetOperation) (place : Nat) : OpenSet :=
  { set with left? := some (operation, set.combined), place, items := [] }

end OpenSet

/-- Passes the dashes that a set begins with. They stand for themselves. -/
def leadingDashes (start : Nat) : Nat → OpenSet → Reading OpenSet
  | 0, set => pure set
  | fuel + 1, set => do
      if (← peek?) = some '-' then do
        let dash ← place
        advance
        if (← peek?).isNone then
          refuse .setOpen start start
        else
          leadingDashes start fuel (set.addLetter '-' dash)
      else
        pure set

/-- Opens a set. A closing bracket right at its beginning stands for itself. -/
def openSet : Reading OpenSet := do
  let start ← place
  let unlessEnd : Reading Unit := do
    if (← peek?).isNone then
      refuseFrom .setOpen start
  advance
  unlessEnd
  let negated := (← peek?) == some '^'
  if negated then
    advance
    unlessEnd
  let set ← leadingDashes start (← ahead).length
    ⟨⟨start, start⟩, negated, none, ← place, []⟩
  let bracket ← place
  let set ←
    if set.items.isEmpty ∧ (← peek?) = some ']' then do
      advance
      unlessEnd
      pure (set.addLetter ']' bracket)
    else
      pure set
  pure { set with opened := ⟨start, ← place⟩ }

/-- A set by its name between colons, in brackets. -/
def namedSet? : Reading (Option SetExpression) := do
  let start ← place
  let letters ← ahead
  match letters with
  | '[' :: ':' :: rest =>
      let negated := rest.head? == some '^'
      let rest := if negated then rest.drop 1 else rest
      let name := rest.takeWhile (· ≠ ':')
      match (rest.drop name.length).take 2, Letters.named? name with
      | [':', ']'], some set => do
          pass (name.length + (if negated then 5 else 4))
          pure (some (.named set negated ⟨start, ← place⟩))
      | _, _ => pure none
  | _ => pure none

def setAtom : Reading Escaped := do
  let start ← place
  match ← peek? with
  | some '\\' => escape
  | some letter => do
      pass 1
      pure (.atom (.letter ⟨letter, false, ⟨start, start + 1⟩⟩))
  | none => refuseHere .escapeOpen

/-- An end of a range, which has to be a letter. -/
def rangeEnd (escaped : Escaped) : Reading Written :=
  match escaped with
  | .atom (.letter written) => pure written
  | _ => refuse .rangeEnd escaped.span.start escaped.span.stop

/-- The letter behind a dash, by which it is decided what the dash stands for.
Where blanks stand for nothing, it is the first one that is no blank, if there is
one, and a number sign is passed over as well. -/
def behindDash (letters : List Char) (loose : Bool) : Option Char :=
  if loose then
    match letters.dropWhile Text.isBlank with
    | '#' :: rest => (rest.dropWhile Text.isBlank).head?.or letters.head?
    | rest => rest.head?.or letters.head?
  else letters.head?

def setItem (opened : Span) : Reading SetExpression := do
  let unlessEnd : Reading Unit := do
    if (← peek?).isNone then
      refuse .setOpen opened.start opened.stop
  let first ← setAtom
  skip
  unlessEnd
  let next? := behindDash ((← ahead).drop 1) (← get).loose
  if (← peek?) ≠ some '-' ∨ next? = some ']' ∨ next? = some '-' then
    match first with
    | .atom written => pure (.atom written)
    | .condition _ span => refuse .letterInSetOnly span.start span.stop
  else
    advance
    unlessEnd
    let last ← setAtom
    let low ← rangeEnd first
    let high ← rangeEnd last
    if high.letter < low.letter then
      refuse .rangeReversed low.span.start high.span.stop
    else
      pure (.range low high)

def setRest : Nat → OpenSet → Reading SetExpression
  | 0, set => pure set.combined
  | fuel + 1, set => do
      skip
      match ← ahead with
      | [] => refuse .setOpen set.opened.start set.opened.stop
      | '[' :: _ => do
          match ← namedSet? with
          | some named => setRest fuel (set.add named)
          | none => do
              let start ← place
              let inner ← openSet
              let content ← setRest fuel inner
              setRest fuel (set.add (.bracket inner.negated content ⟨start, ← place⟩))
      | ']' :: _ => do
          pass 1
          pure set.combined
      | '&' :: '&' :: _ => do
          pass 2
          setRest fuel (set.combine .both (← place))
      | '-' :: '-' :: _ => do
          pass 2
          setRest fuel (set.combine .minus (← place))
      | '~' :: '~' :: _ => do
          pass 2
          setRest fuel (set.combine .oneOf (← place))
      | _ => do setRest fuel (set.add (← setItem set.opened))

def bracketed : Reading Expression := do
  let start ← place
  let set ← openSet
  let content ← setRest ((← ahead).length + 1) set
  pure (.set set.negated content ⟨start, ← place⟩)

end Unveil.Pattern
