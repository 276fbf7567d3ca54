import Unveil.Pattern.Expression
import Unveil.Text.Naming

namespace Unveil.Pattern

/-- Where a reader is: the letters still to be read, the number of those passed,
and whether blanks and comments stand for nothing. -/
structure Reader where
  rest : List Char
  passed : Nat
  loose : Bool
  deriving DecidableEq, Repr

abbrev Reading := EStateM Flaw Reader

/-- How many letters at the front of a text stand for nothing. -/
def idle (inComment : Bool) : List Char → Nat
  | [] => 0
  | letter :: rest =>
      if inComment then idle (letter != '\n') rest + 1
      else if letter = '#' then idle true rest + 1
      else if Text.isBlank letter then idle false rest + 1
      else 0

namespace Reading

def place : Reading Nat := do pure (← get).passed

def peek? : Reading (Option Char) := do pure (← get).rest.head?

def ahead : Reading (List Char) := do pure (← get).rest

def pass (count : Nat) : Reading Unit :=
  modify fun reader =>
    { reader with rest := reader.rest.drop count, passed := reader.passed + count }

def skip : Reading Unit := do
  let reader ← get
  if reader.loose then
    pass (idle false reader.rest)

def advance : Reading Unit := do
  pass 1
  skip

def passIf (text : String) : Reading Bool := do
  if text.toList.isPrefixOf (← ahead) then
    pass text.length
    pure true
  else
    pure false

def refuse {α : Type} (defect : Defect) (start stop : Nat) : Reading α :=
  throw ⟨defect, ⟨start, stop⟩, none⟩

def refuseFrom {α : Type} (defect : Defect) (start : Nat) : Reading α := do
  refuse defect start (← place)

def refuseHere {α : Type} (defect : Defect) : Reading α := do
  refuseFrom defect (← place)

def refuseNext {α : Type} (defect : Defect) : Reading α := do
  refuse defect (← place) ((← place) + 1)

def takeWhile (test : Char → Bool) : Reading (List Char) := do
  go ((← ahead).length)
where
  go : Nat → Reading (List Char)
    | 0 => pure []
    | fuel + 1 => do
        match ← peek? with
        | none => pure []
        | some letter =>
            if test letter then do
              advance
              pure (letter :: (← go fuel))
            else
              pure []

end Reading

open Reading

def digitValue (letter : Char) : Nat :=
  if letter.isDigit then letter.toNat - '0'.toNat
  else letter.toLower.toNat - 'a'.toNat + 10

def number (base : Nat) (digits : List Char) : Nat :=
  digits.foldl (fun value digit => value * base + digitValue digit) 0

def isHexDigit (letter : Char) : Bool :=
  letter.isDigit || ('a' ≤ letter.toLower && letter.toLower ≤ 'f')

/-- The largest count that a repetition may have. -/
def countLimit : Nat := 0xFFFFFFFF

/-- A count with blanks around it, or what is wrong with it, and the stretch
that its digits take. -/
def count : Reading (Except Defect Nat × Span) := do
  pass ((← ahead).takeWhile Text.isBlank).length
  let start ← place
  let digits ← Reading.takeWhile Char.isDigit
  let span : Span := ⟨start, ← place⟩
  let _ ← Reading.takeWhile Text.isBlank
  if digits = [] then pure (.error .countMissing, span)
  else if countLimit < number 10 digits then pure (.error .numberTooLarge, span)
  else pure (.ok (number 10 digits), span)

def settled : Except Defect Nat × Span → Reading Nat
  | (.ok count, _) => pure count
  | (.error defect, span) => refuse defect span.start span.stop

/-- The letter with a code. -/
def letterOfCode (digits : List Char) (start stop : Nat) : Reading Char :=
  let code := number 16 digits
  if code.isValidChar then pure (Char.ofNat code) else refuse .codeNoLetter start stop

def codeDigits : Nat → Reading (List Char)
  | 0 => pure []
  | count + 1 => do
      match ← peek? with
      | none => refuseHere .escapeOpen
      | some digit =>
          if isHexDigit digit then do
            advance
            pure (digit :: (← codeDigits count))
          else
            refuseNext .codeDigit

/-- A letter by its code, behind a backslash at `start`: a fixed number of
digits, or any number of them in braces. -/
def coded (start digits : Nat) : Reading Written := do
  advance
  let opening ← place
  match ← peek? with
  | none => refuseHere .escapeOpen
  | some '\x7b' => do
      advance
      let code ← Reading.takeWhile isHexDigit
      let stop ← place
      match ← peek? with
      | none => refuseFrom .escapeOpen opening
      | some '\x7d' => do
          advance
          if code = [] then refuseFrom .codeEmpty opening
          else
            let letter ← letterOfCode code (opening + 1) stop
            pure ⟨letter, false, ⟨start, ← place⟩⟩
      | some _ => refuseNext .codeDigit
  | some _ => do
      let code ← codeDigits digits
      let letter ← letterOfCode code opening (← place)
      pure ⟨letter, digits == 2, ⟨start, ← place⟩⟩

end Unveil.Pattern
