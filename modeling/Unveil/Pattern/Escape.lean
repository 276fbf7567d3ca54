import Unveil.Pattern.Reading

namespace Unveil.Pattern

open Reading

/-- What a backslash and the letters behind it stand for. -/
inductive Escaped where
  | atom (written : Atom)
  | condition (asked : Condition) (span : Span)
  deriving DecidableEq, Repr

def Escaped.span : Escaped → Span
  | .atom written => written.span
  | condition _ span => span

/-- An edge of a word by its name in braces. Where something else is in the
braces, they are left for a count. -/
def edge? (start : Nat) : Reading (Option Edge) := do
  let isNameLetter (letter : Char) : Bool := letter.isAlpha || letter == '-'
  let before ← get
  let brace ← place
  advance
  let inner ← place
  match ← peek? with
  | none => refuseFrom .edgeOrCountOpen start
  | some letter =>
      if isNameLetter letter then do
        let name ← Reading.takeWhile isNameLetter
        if (← peek?) ≠ some '\x7d' then
          refuseFrom .edgeOpen brace
        else do
          let stop ← place
          pass 1
          match String.ofList name with
          | "start" => pure (some .start)
          | "end" => pure (some .stop)
          | "start-half" => pure (some .noneBefore)
          | "end-half" => pure (some .noneAfter)
          | _ => refuse .edgeUnknown inner stop
      else do
        set before
        pure none

def property (start : Nat) : Reading Atom := do
  advance
  match ← peek? with
  | none => refuseHere .escapeOpen
  | some '\x7b' => do
      advance
      let name ← Reading.takeWhile (· ≠ '\x7d')
      if (← peek?).isNone then
        refuseHere .escapeOpen
      else do
        pass 1
        pure (.property name ⟨start, ← place⟩)
  | some '\\' => refuseNext .propertyMarked
  | some letter => do
      advance
      pure (.property [letter] ⟨start, ← place⟩)

def controlLetter? : Char → Option Char
  | 'a' => some '\x07'
  | 'f' => some '\x0c'
  | 't' => some '\t'
  | 'n' => some '\n'
  | 'r' => some '\r'
  | 'v' => some '\x0b'
  | _ => none

/-- The letters that stand for a set, and whether for all but that set. -/
def setLetter? : Char → Option (Shorthand × Bool)
  | 'd' => some (.digit, false)
  | 's' => some (.blank, false)
  | 'w' => some (.word, false)
  | 'D' => some (.digit, true)
  | 'S' => some (.blank, true)
  | 'W' => some (.word, true)
  | _ => none

/-- The letters that stand for a condition on the place. -/
def conditionLetter? : Char → Option Condition
  | 'A' => some .textStart
  | 'z' => some .textEnd
  | 'b' => some (.word .any)
  | 'B' => some (.word .none)
  | '<' => some (.word .start)
  | '>' => some (.word .stop)
  | _ => none

/-- May a letter stand for itself behind a backslash? Letters and digits may
not, as they have a meaning there or may get one. -/
def isEscapable (letter : Char) : Bool :=
  letter < '\x80' && !letter.isAlphanum && letter != '<' && letter != '>'

def escape : Reading Escaped := do
  let start ← place
  pass 1
  match ← peek? with
  | none => refuseFrom .escapeOpen start
  | some 'x' => do pure (.atom (.letter (← coded start 2)))
  | some 'u' => do pure (.atom (.letter (← coded start 4)))
  | some 'U' => do pure (.atom (.letter (← coded start 8)))
  | some 'p' | some 'P' => do pure (.atom (← property start))
  | some letter => do
      pass 1
      let span : Span := ⟨start, ← place⟩
      if letter.isDigit then refuseFrom .backreference start
      else if isEscapable letter then pure (.atom (.letter ⟨letter, false, span⟩))
      else
        match setLetter? letter, controlLetter? letter, conditionLetter? letter with
        | some (kind, negated), _, _ => pure (.atom (.shorthand kind negated span))
        | none, some control, _ => pure (.atom (.letter ⟨control, false, span⟩))
        | none, none, some asked =>
            if asked = .word .any ∧ (← peek?) = some '\x7b' then
              let edge := (← edge? start).getD .any
              pure (.condition (.word edge) ⟨start, ← place⟩)
            else
              pure (.condition asked span)
        | none, none, none => refuseFrom .escapeUnknown start

end Unveil.Pattern
