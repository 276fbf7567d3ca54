import Unveil.Pattern.Basic

/-!
What an expression stands for. Its parts are understood from left to right, under
the flags that are set up to there. Where letters are those of all scripts, it is
not known which of them are digits, blanks or parts of words, and which are
capital and small forms of one another. Where they are the first 128 only, a
pattern must not take part of a letter, so it cannot ask for what is not among
those 128.
-/

namespace Unveil.Pattern

/-- What is understood under the flags set so far, and may set others. -/
abbrev Meaning := StateT Flags (Except Flaw)

def flawAt {α : Type} (defect : Defect) (span : Span) : Except Flaw α :=
  .error ⟨defect, span, none⟩

def Shorthand.letters : Shorthand → Letters
  | digit => .ofRanges [('0', '9')]
  | blank => .ofRanges [('\t', '\r'), (' ', ' ')]
  | word => .ofRanges [('0', '9'), ('A', 'Z'), ('_', '_'), ('a', 'z')]

/-- The name of a property as it is compared: in small letters, without blanks,
dashes and underscores, and without the word "is" at its beginning. -/
def propertyName (name : List Char) : List Char :=
  let name := if (name.take 2).map Char.toLower = ['i', 's'] then name.drop 2 else name
  (name.filter fun letter =>
    letter < '\x80' && letter != ' ' && letter != '_' && letter != '-').map Char.toLower

/-- The set that a property stands for. None is known. Some names are those of a
value and not of a property. -/
def propertyLetters (flags : Flags) (name : List Char) (span : Span) : Except Flaw Letters :=
  if !flags.has .wide then flawAt .plainOnly span
  else if ["cf", "sc", "lc"].contains (String.ofList (propertyName name)) then
    flawAt .propertyValueUnknown span
  else flawAt .propertyUnknown span

/-- The set that a shorthand stands for. -/
def shorthandLetters (flags : Flags) (kind : Shorthand) (negated : Bool) (span : Span) :
    Except Flaw Letters :=
  if flags.has .wide then flawAt .shorthandUnknown span
  else if negated then flawAt .bytesOnly span
  else .ok kind.letters

/-- Is a letter written as a byte which is no letter on its own? -/
def Written.isByte (written : Written) (flags : Flags) : Bool :=
  !flags.has .wide && written.byCode && '\x80' ≤ written.letter

def Written.member (written : Written) (flags : Flags) : Except Flaw Nat :=
  if written.isByte flags then flawAt .bytesOnly written.span
  else if !flags.has .wide && '\x80' ≤ written.letter then flawAt .plainOnly written.span
  else .ok written.letter.toNat

namespace SetExpression

/-- Are letters or ranges listed that are not in brackets of their own? -/
def listsLetters : SetExpression → Bool
  | union items _ => items.any isLetters
  | item => isLetters item
where
  isLetters : SetExpression → Bool
    | .atom (.letter _) | range _ _ => true
    | _ => false

def fold (flags : Flags) (content : SetExpression) (span : Span) (letters : Letters) :
    Except Flaw Letters :=
  if !flags.has .caseless then .ok letters
  else if !flags.has .wide then .ok letters.anyCase
  else if content.listsLetters then flawAt .caseUnknown span
  else .ok letters

def turn (flags : Flags) (negated : Bool) (span : Span) (letters : Letters) :
    Except Flaw Letters :=
  if !negated then .ok letters
  else if flags.has .wide then .ok letters.other
  else flawAt .bytesOnly span

mutual

/-- The set that is written in brackets. -/
def letters (flags : Flags) : SetExpression → Except Flaw Letters
  | nothing _ => .ok .empty
  | .atom (.letter written) => do
      let code ← written.member flags
      pure (.range code code)
  | .atom (.shorthand kind negated span) => shorthandLetters flags kind negated span
  | .atom (.property name span) => propertyLetters flags name span
  | range first last => do
      let low ← first.member flags
      let high ← last.member flags
      pure (.range low high)
  | named set negated span =>
      if flags.has .wide && flags.has .caseless then flawAt .caseUnknown span
      else turn flags negated span (set.cased (flags.has .caseless))
  | bracket negated content span => do
      turn flags negated span (← fold flags content span (← content.letters flags))
  | union items _ => unionLetters flags items
  | operation operator left right _ => do
      let a ← left.letters flags
      let b ← right.letters flags
      let b ← fold flags right right.span b
      let a ← fold flags left left.span a
      pure (match operator with
        | .both => a.both b
        | .minus => a.minus b
        | .oneOf => a.oneOf b)

def unionLetters (flags : Flags) : List SetExpression → Except Flaw Letters
  | [] => .ok .empty
  | item :: items => do
      let first ← item.letters flags
      let rest ← unionLetters flags items
      pure (first.either rest)

end

end SetExpression

def Written.pattern (written : Written) (flags : Flags) : Except Flaw Pattern :=
  if written.isByte flags then flawAt .bytesOnly written.span
  else if !flags.has .caseless then .ok (text [written.letter])
  else if flags.has .wide then flawAt .caseUnknown written.span
  else if written.letter.isAlpha then .ok (ofLetters (Letters.one written.letter).anyCase)
  else .ok (text [written.letter])

/-- What a dot stands for: any letter, or any but those that end a line. -/
def dotLetters (flags : Flags) : Letters :=
  if flags.has .dotAll then Letters.other .empty
  else if flags.has .returns then Letters.other (.ofRanges [('\n', '\n'), ('\r', '\r')])
  else Letters.other (.one '\n')

def dotPattern (flags : Flags) (span : Span) : Except Flaw Pattern :=
  if flags.has .wide then .ok (ofLetters (dotLetters flags)) else flawAt .bytesOnly span

def Condition.place (flags : Flags) : Condition → Place
  | textStart => .textStart
  | textEnd => .textEnd
  | start => if flags.has .lined then .lineStart (flags.has .returns) else .textStart
  | stop => if flags.has .lined then .lineEnd (flags.has .returns) else .textEnd
  | word edge => .word edge (!flags.has .wide)

namespace Expression

def underFlags (changes : List (Flag × Bool)) (inner : Meaning Pattern) : Meaning Pattern := do
  let flags ← get
  modify (·.setAll changes)
  let pattern ← inner
  modify fun _ => flags
  pure pattern

mutual

/-- The pattern that an expression stands for. -/
def pattern : Expression → Meaning Pattern
  | nothing _ => pure empty
  | .atom (.letter written) => do liftM (written.pattern (← get))
  | .atom (.shorthand kind negated span) => do
      ofLetters <$> liftM (shorthandLetters (← get) kind negated span)
  | .atom (.property name span) => do
      ofLetters <$> liftM (propertyLetters (← get) name span)
  | dot span => do
      let flags ← get
      liftM (dotPattern flags span)
  | condition asked _ => do pure (atPlace (asked.place (← get)))
  | .set negated content span => do
      ofLetters <$> liftM ((SetExpression.bracket negated content span).letters (← get))
  | flags changes _ => do
      modify (·.setAll changes)
      pure empty
  | repeated inner least most? greedy _ => do
      let again ← inner.pattern
      pure (ofRepetition again least most? (greedy != (← get).has .swapped))
  | group number inner _ => .group number <$> underFlags [] inner.pattern
  | flagged changes inner _ => underFlags changes inner.pattern
  | sequence parts _ => ofSequence <$> patterns parts
  | choice branches _ => ofChoice <$> patterns branches

def patterns : List Expression → Meaning (List Pattern)
  | [] => pure []
  | part :: parts => do
      let first ← part.pattern
      pure (first :: (← patterns parts))

end

end Expression

end Unveil.Pattern
