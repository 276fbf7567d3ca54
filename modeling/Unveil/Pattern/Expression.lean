import Unveil.Pattern.Flaw
import Unveil.Pattern.Letters

namespace Unveil.Pattern

inductive Flag where
  /-- Letters stand for their capital and small forms. -/
  | caseless
  /-- Lines begin and end within the text as well. -/
  | lined
  /-- A dot also stands for the end of a line. -/
  | dotAll
  /-- Repetitions that took as much as possible take as little, and the other
  way round. -/
  | swapped
  /-- Letters are those of all scripts, and not only the first 128. -/
  | wide
  /-- Lines also end at carriage returns. -/
  | returns
  /-- Blanks stand for nothing, and neither do comments. -/
  | loose
  deriving DecidableEq, Repr

namespace Flag

def ofLetter? : Char → Option Flag
  | 'i' => some caseless
  | 'm' => some lined
  | 's' => some dotAll
  | 'U' => some swapped
  | 'u' => some wide
  | 'R' => some returns
  | 'x' => some loose
  | _ => none

end Flag

structure Flags where
  has : Flag → Bool

namespace Flags

def usual : Flags := ⟨(· == .wide)⟩

def set (flags : Flags) (flag : Flag) (on : Bool) : Flags :=
  ⟨fun other => if other = flag then on else flags.has other⟩

def setAll (flags : Flags) (changes : List (Flag × Bool)) : Flags :=
  changes.foldl (fun flags (flag, on) => flags.set flag on) flags

end Flags

/-- A letter that stands for itself, and whether it was written as a code of two
digits, which may stand for a byte. -/
structure Written where
  letter : Char
  byCode : Bool
  span : Span
  deriving DecidableEq, Repr

/-- The sets of letters that a single letter behind a backslash stands for. -/
inductive Shorthand where
  | digit | blank | word
  deriving DecidableEq, Repr

/-- What stands for one letter. -/
inductive Atom where
  | letter (written : Written)
  | shorthand (kind : Shorthand) (negated : Bool) (span : Span)
  | property (name : List Char) (span : Span)
  deriving DecidableEq, Repr

def Atom.span : Atom → Span
  | letter written => written.span
  | shorthand _ _ span => span
  | property _ span => span

inductive Edge where
  | any | none | start | stop
  /-- No word ends or goes on here. -/
  | noneBefore
  /-- No word begins or goes on here. -/
  | noneAfter
  deriving DecidableEq, Repr

/-- What an expression may ask of a place. -/
inductive Condition where
  | textStart | textEnd
  /-- The start of the text, or of a line. -/
  | start
  /-- The end of the text, or of a line. -/
  | stop
  | word (edge : Edge)
  deriving DecidableEq, Repr

inductive SetOperation where
  | both | minus | oneOf
  deriving DecidableEq, Repr

/-- What is written in brackets. -/
inductive SetExpression where
  | nothing (span : Span)
  | atom (written : Atom)
  | range (first last : Written)
  /-- A set of plain letters by its name. -/
  | named (letters : Letters) (negated : Bool) (span : Span)
  | bracket (negated : Bool) (content : SetExpression) (span : Span)
  /-- Two items at least. -/
  | union (items : List SetExpression) (span : Span)
  | operation (operator : SetOperation) (left right : SetExpression) (span : Span)
  deriving Repr

namespace SetExpression

def span : SetExpression → Span
  | nothing span => span
  | .atom written => written.span
  | range first last => ⟨first.span.start, last.span.stop⟩
  | named _ _ span | bracket _ _ span | union _ span | operation _ _ _ span => span

def ofItems (place : Nat) : List SetExpression → SetExpression
  | [] => nothing ⟨place, place⟩
  | [item] => item
  | first :: second :: rest =>
      union (first :: second :: rest)
        ⟨first.span.start, ((second :: rest).getLast (by simp)).span.stop⟩

def operate (operator : SetOperation) (left right : SetExpression) : SetExpression :=
  .operation operator left right ⟨left.span.start, right.span.stop⟩

end SetExpression

inductive Expression where
  | nothing (span : Span)
  | atom (written : Atom)
  | dot (span : Span)
  | condition (asked : Condition) (span : Span)
  /-- A set in brackets. -/
  | set (negated : Bool) (content : SetExpression) (span : Span)
  /-- Flags for the rest of the group. -/
  | flags (changes : List (Flag × Bool)) (span : Span)
  /-- An expression again and again, so many times at least and at most. -/
  | repeated (inner : Expression) (least : Nat) (most? : Option Nat) (greedy : Bool)
      (span : Span)
  /-- A group, with the number by which it can be told apart from others. -/
  | group (number : Nat) (inner : Expression) (span : Span)
  /-- A group that has no number, but flags of its own. -/
  | flagged (changes : List (Flag × Bool)) (inner : Expression) (span : Span)
  /-- Two expressions at least, one behind the other. -/
  | sequence (parts : List Expression) (span : Span)
  /-- Two expressions at least, to choose from. -/
  | choice (branches : List Expression) (span : Span)
  deriving Repr

namespace Expression

def span : Expression → Span
  | .atom written => written.span
  | nothing span | dot span | condition _ span | set _ _ span | flags _ span
  | repeated _ _ _ _ span | group _ _ span | flagged _ _ span | sequence _ span
  | choice _ span => span

def ofParts (span : Span) : List Expression → Expression
  | [] => nothing span
  | [part] => part
  | parts => sequence parts span

def ofBranches (span : Span) : List Expression → Expression
  | [branch] => branch
  | branches => choice branches span

end Expression

end Unveil.Pattern
