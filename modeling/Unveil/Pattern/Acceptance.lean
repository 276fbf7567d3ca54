import Unveil.Pattern.Bracket
import Unveil.Pattern.Branches
import Unveil.Pattern.Expression
import Unveil.Pattern.Meaning
import Unveil.Pattern.Room

/-!
Which texts are accepted as patterns: those of expressions without a flaw that are not
too deep, for patterns that do not take too much room and do not ask for edges of words
that are not known. An expression is read from left to right up to the first flaw, which
is reported with the stretch of the text that shows it.
-/

namespace Unveil.Pattern

def depthLimit : Nat := 250

mutual

/-- The first part of what is written in brackets that begins a level which there
is no room for. -/
def SetExpression.tooDeep? (room : Nat) : SetExpression → Option Span
  | .bracket _ content span => if room = 0 then some span else content.tooDeep? (room - 1)
  | .union items span => if room = 0 then some span else firstSetTooDeep? (room - 1) items
  | .operation _ left right span =>
      if room = 0 then some span
      else (left.tooDeep? (room - 1)).or (right.tooDeep? (room - 1))
  | .nothing _ | .atom _ | .range _ _ | .named _ _ _ => none

def firstSetTooDeep? (room : Nat) : List SetExpression → Option Span
  | [] => none
  | item :: items => (item.tooDeep? room).or (firstSetTooDeep? room items)

end

mutual

def Expression.tooDeep? (room : Nat) : Expression → Option Span
  | .set _ content span => if room = 0 then some span else content.tooDeep? (room - 1)
  | .repeated inner _ _ _ span | .group _ inner span | .flagged _ inner span =>
      if room = 0 then some span else inner.tooDeep? (room - 1)
  | .sequence parts span | .choice parts span =>
      if room = 0 then some span else firstTooDeep? (room - 1) parts
  | .nothing _ | .atom _ | .dot _ | .condition _ _ | .flags _ _ => none

def firstTooDeep? (room : Nat) : List Expression → Option Span
  | [] => none
  | part :: parts => (part.tooDeep? room).or (firstTooDeep? room parts)

end

open Reading

/-- What stands for itself, or has a meaning of its own. -/
def primitive (letter : Char) : Reading Expression := do
  let start ← place
  if letter = '\\' then
    match ← escape with
    | .atom written => pure (.atom written)
    | .condition asked span => pure (.condition asked span)
  else
    pass 1
    let span : Span := ⟨start, start + 1⟩
    pure (match letter with
      | '.' => .dot span
      | '^' => .condition .start span
      | '$' => .condition .stop span
      | letter => .atom (.letter ⟨letter, false, span⟩))

/-- Reads on, up to the end. -/
def readRest : Nat → Draft → Reading Draft
  | 0, draft => pure draft
  | fuel + 1, draft => do
      skip
      let repeats (branches : Reading Branches) : Reading Draft := do
        readRest fuel { draft with branches := ← branches }
      match ← peek? with
      | none => pure draft
      | some '(' => do readRest fuel (← openGroup draft)
      | some ')' => do readRest fuel (← closeGroup draft)
      | some '|' => do
          let sign ← place
          pass 1
          readRest fuel { draft with branches := draft.branches.next sign }
      | some '[' => do readRest fuel (draft.add (← bracketed))
      | some '?' => repeats (repeatedBySign draft.branches 0 (some 1))
      | some '*' => repeats (repeatedBySign draft.branches 0 none)
      | some '+' => repeats (repeatedBySign draft.branches 1 none)
      | some '\x7b' => repeats (repeatedByCount draft.branches)
      | some letter => do readRest fuel (draft.add (← primitive letter))

/-- A whole expression, in which no group is left open and nothing lies too
deep. -/
def whole (length : Nat) : Reading Expression := do
  let draft ← readRest (length + 1) .start
  match draft.groups with
  | innermost :: _ => refuse .groupOpen innermost.start (innermost.start + 1)
  | [] =>
      let expression := draft.branches.expression (← place)
      match expression.tooDeep? depthLimit with
      | some span => refuse (.tooDeep depthLimit) span.start span.stop
      | none => pure expression

def Expression.read (text : String) : Except Flaw Expression :=
  let letters := text.toList
  match whole letters.length ⟨letters, 0, false⟩ with
  | .ok expression _ => .ok expression
  | .error flaw _ => .error flaw

/-- Why a text is not accepted as a pattern. -/
inductive Refusal where
  | flawed (flaw : Flaw)
  | tooLarge
  | edgesUnknown
  deriving DecidableEq, Repr

/-- The room that a pattern may take in either direction. -/
def roomLimit : Nat := 10 * 0x100000

def Refusal.text (pattern : String) : Refusal → String
  | flawed flaw => flaw.text pattern
  | tooLarge => "Compiled regex exceeds size limit of " ++ toString roomLimit ++ " bytes."
  | edgesUnknown => "error building NFA"

/-- Does a pattern ask for an edge of a word that is not plain? -/
def asksUnknown : Pattern → Bool
  | empty | text _ | anyOf _ => false
  | atPlace (.word _ plain) => !plain
  | atPlace _ => false
  | sequence first rest | choice first rest => first.asksUnknown || rest.asksUnknown
  | repeated inner _ _ _ | group _ inner => inner.asksUnknown

/-- Accepts a pattern as it is, or refuses it. -/
def accept (pattern : Pattern) : Except Refusal Pattern :=
  if roomLimit < pattern.searchRoom .forward then .error .tooLarge
  else if pattern.asksUnknown then .error .edgesUnknown
  else if roomLimit < pattern.searchRoom .backward then .error .tooLarge
  else .ok pattern

def read (text : String) : Except Refusal Pattern :=
  let understood := do
    let expression ← Expression.read text
    expression.pattern.run' .usual
  match understood with
  | .ok pattern => pattern.accept
  | .error flaw => .error (.flawed flaw)

/-- A pattern that is read takes no more room than it may, in either direction,
and asks for nothing that is not known. -/
theorem accept_eq_ok_iff {pattern accepted : Pattern} :
    pattern.accept = .ok accepted ↔
      accepted = pattern ∧ (∀ direction, pattern.searchRoom direction ≤ roomLimit) ∧
        pattern.asksUnknown = false := by
  unfold accept
  constructor
  · intro same
    split at same
    · cases same
    · split at same
      · cases same
      · split at same
        · cases same
        · rename_i forward known backward
          refine ⟨(Except.ok.inj same).symm, fun direction => ?_, by simpa using known⟩
          cases direction <;> omega
  · rintro ⟨rfl, small, known⟩
    have forward := small .forward
    have backward := small .backward
    rw [if_neg (by omega), if_neg (by simp [known]), if_neg (by omega)]

end Unveil.Pattern
