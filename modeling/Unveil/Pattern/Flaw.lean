import Unveil.Text.Plain

namespace Unveil.Pattern

inductive Defect where
  | letterInSetOnly
  | rangeReversed
  | rangeEnd
  | setOpen
  | numberTooLarge
  | codeEmpty
  | codeNoLetter
  | codeDigit
  | escapeOpen
  | escapeUnknown
  | flagsEndInMinus
  | flagRepeated
  | minusRepeated
  | flagMissing
  | flagUnknown
  | nameRepeated
  | nameEmpty
  | nameLetter
  | nameOpen
  | groupOpen
  | groupClosed
  | countReversed
  | countMissing
  | countOpen
  | nothingRepeated
  | edgeOpen
  | edgeUnknown
  | edgeOrCountOpen
  | propertyMarked
  | propertyUnknown
  | propertyValueUnknown
  | shorthandUnknown
  | caseUnknown
  | bytesOnly
  | plainOnly
  | tooDeep (limit : Nat)
  | backreference
  | lookAround
  deriving DecidableEq, Repr

def Defect.text : Defect → String
  | letterInSetOnly => "invalid escape sequence found in character class"
  | rangeReversed => "invalid character class range, the start must be <= the end"
  | rangeEnd => "invalid range boundary, must be a literal"
  | setOpen => "unclosed character class"
  | numberTooLarge => "decimal literal invalid"
  | codeEmpty => "hexadecimal literal empty"
  | codeNoLetter => "hexadecimal literal is not a Unicode scalar value"
  | codeDigit => "invalid hexadecimal digit"
  | escapeOpen => "incomplete escape sequence, reached end of pattern prematurely"
  | escapeUnknown => "unrecognized escape sequence"
  | flagsEndInMinus => "dangling flag negation operator"
  | flagRepeated => "duplicate flag"
  | minusRepeated => "flag negation operator repeated"
  | flagMissing => "expected flag but got end of regex"
  | flagUnknown => "unrecognized flag"
  | nameRepeated => "duplicate capture group name"
  | nameEmpty => "empty capture group name"
  | nameLetter => "invalid capture group character"
  | nameOpen => "unclosed capture group name"
  | groupOpen => "unclosed group"
  | groupClosed => "unopened group"
  | countReversed => "invalid repetition count range, the start must be <= the end"
  | countMissing => "repetition quantifier expects a valid decimal"
  | countOpen => "unclosed counted repetition"
  | nothingRepeated => "repetition operator missing expression"
  | edgeOpen =>
      "special word boundary assertion is either unclosed or contains an invalid character"
  | edgeUnknown =>
      "unrecognized special word boundary assertion, valid choices are: start, end, " ++
        "start-half or end-half"
  | edgeOrCountOpen =>
      "found either the beginning of a special word boundary or a bounded repetition on a " ++
        "\\b with an opening brace, but no closing brace"
  | propertyMarked => "invalid Unicode character class"
  | propertyUnknown => "Unicode property not found"
  | propertyValueUnknown => "Unicode property value not found"
  | shorthandUnknown =>
      "Unicode-aware Perl class not found (make sure the unicode-perl feature is enabled)"
  | caseUnknown =>
      "Unicode-aware case insensitivity matching is not available (make sure the " ++
        "unicode-case feature is enabled)"
  | bytesOnly => "pattern can match invalid UTF-8"
  | plainOnly => "Unicode not allowed here"
  | tooDeep limit =>
      "exceed the maximum number of nested parentheses/brackets (" ++ toString limit ++ ")"
  | backreference => "backreferences are not supported"
  | lookAround =>
      "look-around, including look-ahead and look-behind, is not supported"

/-- A stretch of a pattern, by how many letters are before its start and before
its end. -/
structure Span where
  start : Nat
  stop : Nat
  deriving DecidableEq, Repr

/-- A defect and where it is. If it repeats something, that is pointed out as
well. -/
structure Flaw where
  defect : Defect
  span : Span
  earlier? : Option Span
  deriving DecidableEq, Repr

/-- A place in a text of several lines: how many lines are before it, and how
many letters of its own line. -/
structure Spot where
  line : Nat
  column : Nat
  deriving DecidableEq, Repr

def Spot.ofOffset (letters : List Char) (offset : Nat) : Spot :=
  let before := letters.take offset
  ⟨before.count '\n', (before.reverse.takeWhile (· ≠ '\n')).length⟩

structure Stretch where
  start : Spot
  stop : Spot
  deriving DecidableEq, Repr

namespace Stretch

def ofSpan (letters : List Char) (span : Span) : Stretch :=
  ⟨.ofOffset letters span.start, .ofOffset letters span.stop⟩

def isLine (stretch : Stretch) : Bool := stretch.start.line == stretch.stop.line

def text (stretch : Stretch) : String :=
  "on line " ++ toString (stretch.start.line + 1) ++ " (column " ++
    toString (stretch.start.column + 1) ++ ") through line " ++
    toString (stretch.stop.line + 1) ++ " (column " ++ toString stretch.stop.column ++ ")"

end Stretch

/-- A line that points at stretches of the line above it, of which the first
`reached` letters are passed. An empty stretch is pointed at as well. -/
def underline : Nat → List Stretch → String
  | _, [] => ""
  | reached, stretch :: rest =>
      let start := stretch.start.column
      let length := max 1 (stretch.stop.column - start)
      String.ofList (.replicate (start - reached) ' ' ++ .replicate length '^') ++
        underline (max reached start + length) rest

def lineNumber (count line : Nat) : String :=
  let width := (toString count).length
  let number := toString (line + 1)
  String.ofList (.replicate (width - number.length) ' ') ++ number ++ ": "

/-- The lines of a pattern, each with what stands in front of it, and under it
what points at stretches of it. -/
def underlined (mark : Nat → String) (stretches : List Stretch) (lines : List String) :
    String :=
  Text.ofLines (lines.zipIdx.flatMap fun (text, line) =>
    let margin := mark line
    let within := stretches.filter fun stretch => stretch.isLine && stretch.start.line == line
    (margin ++ text) ::
      if within.isEmpty then []
      else [String.ofList (.replicate margin.length ' ') ++ underline 0 within])

/-- A flaw in a pattern as it is shown to the user. -/
def Flaw.text (pattern : String) (flaw : Flaw) : String :=
  let letters := pattern.toList
  let stretches := (flaw.earlier?.toList ++ [flaw.span]).map (Stretch.ofSpan letters)
  let lines := Text.lines pattern
  let shown :=
    if '\n' ∈ letters then
      let ruler := String.ofList (.replicate 79 '~')
      let count := lines.length + (if letters.getLast? = some '\n' then 1 else 0)
      let notes := (stretches.filter (!·.isLine)).map Stretch.text
      ruler ++ "\n" ++ underlined (lineNumber count) stretches lines ++ ruler ++ "\n" ++
        Text.ofLines notes
    else underlined (fun _ => "    ") stretches lines
  "regex parse error:\n" ++ shown ++ "error: " ++ flaw.defect.text

end Unveil.Pattern
