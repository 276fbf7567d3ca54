import Unveil.Pattern.Expression
import Unveil.Pieces

/-!
Patterns that a text may hold somewhere, as the expressions for them are
understood. A pattern is put together by rules that keep it simple: letters one
behind the other are one text, what matches nothing but the empty text is not
repeated more than once, letters to choose from are one set, and what all
branches of a choice begin with stands before the choice.
-/

namespace Unveil

/-- What a pattern can ask of a place, without taking a letter. -/
inductive Pattern.Place where
  | textStart | textEnd
  /-- Lines end at line feeds, and perhaps at carriage returns as well. -/
  | lineStart (returns : Bool)
  | lineEnd (returns : Bool)
  /-- An edge of a word made of plain letters, or of letters of any script. -/
  | word (edge : Pattern.Edge) (plain : Bool)
  deriving DecidableEq, Repr

inductive Pattern where
  | empty
  | text (letters : List Char)
  | anyOf (letters : Pattern.Letters)
  | atPlace (place : Pattern.Place)
  | sequence (first rest : Pattern)
  | choice (first rest : Pattern)
  /-- A pattern again and again, so many times at least and at most. Taken as
  often as possible, or as seldom. -/
  | repeated (inner : Pattern) (least : Nat) (most? : Option Nat) (greedy : Bool)
  | group (number : Nat) (inner : Pattern)
  deriving DecidableEq, Repr

namespace Pattern

def parts : Pattern → List Pattern
  | empty => []
  | sequence first rest => first :: rest.parts
  | pattern => [pattern]

def branches : Pattern → List Pattern
  | choice first rest => first :: rest.branches
  | pattern => [pattern]

def ofParts : List Pattern → Pattern
  | [] => empty
  | [part] => part
  | part :: parts => sequence part (ofParts parts)

def ofBranches : List Pattern → Pattern
  | [] => anyOf .empty
  | [branch] => branch
  | branch :: branches => choice branch (ofBranches branches)

/-- Texts that follow one another are one text. -/
def melt : List Pattern → List Pattern
  | text letters :: parts =>
      match melt parts with
      | text more :: others => text (letters ++ more) :: others
      | others => text letters :: others
  | part :: parts => part :: melt parts
  | [] => []

def ofSequence (patterns : List Pattern) : Pattern := ofParts (melt (patterns.flatMap parts))

/-- A pattern for one letter of a set. -/
def ofLetters (letters : Letters) : Pattern :=
  match letters.single? with
  | some letter => text [letter]
  | none => anyOf letters

/-- Does a pattern match nothing but the empty text, if anything? -/
def isStill : Pattern → Bool
  | empty | atPlace _ => true
  | text _ | anyOf _ => false
  | sequence first rest | choice first rest => first.isStill && rest.isStill
  | repeated inner _ _ _ | group _ inner => inner.isStill

def ofRepetition (inner : Pattern) (least : Nat) (most? : Option Nat) (greedy : Bool) :
    Pattern :=
  let (least, most?) :=
    if inner.isStill then (min least 1, some (min (most?.getD 1) 1)) else (least, most?)
  if most? = some 0 then empty
  else if least = 1 ∧ most? = some 1 then inner
  else repeated inner least most? greedy

def letter? : Pattern → Option Char
  | text [letter] => some letter
  | _ => none

def letters? : Pattern → Option Letters
  | anyOf letters => some letters
  | _ => none

/-- The longest list that two lists begin with. -/
def sharedStart : List Pattern → List Pattern → List Pattern
  | first :: rest, other :: others =>
      if first = other then first :: sharedStart rest others else []
  | _, _ => []

/-- The parts with which all branches begin, if each of them has several. -/
def shared : List Pattern → List Pattern
  | [] => []
  | branch :: branches =>
      let several (branch : Pattern) := 1 < branch.parts.length
      if (branch :: branches).all several then
        branches.foldl (fun start other => sharedStart start other.parts) branch.parts
      else []

def nodes : Pattern → Nat
  | empty | text _ | anyOf _ | atPlace _ => 1
  | sequence first rest | choice first rest => first.nodes + rest.nodes + 1
  | repeated inner _ _ _ | group _ inner => inner.nodes + 1

/-- A pattern of patterns to choose from, if they share no more than so many
parts at their beginnings, one behind the other. -/
def ofChoiceWithin : Nat → List Pattern → Pattern
  | fuel, patterns =>
      let branches := patterns.flatMap branches
      match branches with
      | [] | [_] => ofBranches branches
      | _ =>
          match branches.mapM letter?, branches.mapM letters? with
          | some letters, _ => ofLetters (.ofRanges (letters.map fun letter => (letter, letter)))
          | none, some sets => ofLetters (sets.foldl .either .empty)
          | none, none =>
              match fuel, shared branches with
              | _, [] | 0, _ => ofBranches branches
              | fuel + 1, start =>
                  let rests := branches.map fun branch =>
                    ofSequence (branch.parts.drop start.length)
                  ofSequence (start ++ [ofChoiceWithin fuel rests])

def ofChoice (patterns : List Pattern) : Pattern :=
  ofChoiceWithin (total (patterns.map nodes)) patterns

end Pattern

end Unveil
