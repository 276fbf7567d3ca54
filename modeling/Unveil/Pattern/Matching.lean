import Unveil.Pattern.Basic

/-!
Whether a text holds a pattern. A pattern is taken as a step on marks between
the letters of the text: from the places where it may begin it leads to the
places where it may then end. A text holds the pattern if, begun anywhere, it
ends somewhere.
-/

namespace Unveil.Pattern

def isWordLetter (letter : Char) : Bool := letter.isAlphanum || letter == '_'

def Edge.holds (left right : Bool) : Edge → Bool
  | any => left != right
  | none => left == right
  | start => !left && right
  | stop => left && !right
  | noneBefore => !left
  | noneAfter => !right

/-- Is a place, with the letters around it, what a pattern asks for? The edges of
words that are not plain are not known. -/
def Place.holds (place : Place) (before? after? : Option Char) : Bool :=
  match place with
  | textStart => before?.isNone
  | textEnd => after?.isNone
  | lineStart returns =>
      before?.all (· == '\n') ||
        (returns && before? == some '\r' && after? != some '\n')
  | lineEnd returns =>
      (after?.all (· == '\n') && !(returns && after?.isSome && before? == some '\r')) ||
        (returns && after? == some '\r')
  | word edge plain =>
      plain && edge.holds (before?.any isWordLetter) (after?.any isWordLetter)

/-- Which of the places around the letters of a text are marked: one mark in
front of each letter, and one at the end. -/
abbrev Marks := List Bool

namespace Marks

def or (a b : Marks) : Marks := List.zipWith (· || ·) a b

/-- The marks behind the letters that pass a test and have a mark in front. -/
def past (test : Char → Bool) (text : List Char) (marks : Marks) : Marks :=
  false :: List.zipWith (fun letter marked => marked && test letter) text marks

/-- The marks at places that are what a pattern asks for. -/
def keep (place : Place) (text : List Char) (marks : Marks) : Marks :=
  let around := List.zip (none :: text.map some) (text.map some ++ [none])
  List.zipWith (fun (before?, after?) marked => marked && place.holds before? after?) around
    marks

/-- A step taken so many times, or until nothing changes any more. -/
def again (step : Marks → Marks) : Nat → Marks → Marks
  | 0, marks => marks
  | times + 1, marks =>
      let next := step marks
      if next = marks then marks else again step times next

end Marks

/-- The places where a pattern may end that begins at one of some places. -/
def step (text : List Char) : Pattern → Marks → Marks
  | empty, marks => marks
  | .text letters, marks =>
      letters.foldl (fun marks letter => marks.past (· == letter) text) marks
  | anyOf letters, marks => marks.past letters.contains text
  | atPlace place, marks => marks.keep place text
  | sequence first rest, marks => rest.step text (first.step text marks)
  | choice first rest, marks => (first.step text marks).or (rest.step text marks)
  | repeated inner least most? _, marks =>
      let wider (marks : Marks) := marks.or (inner.step text marks)
      let begun := Marks.again (inner.step text) least marks
      let further := match most? with
        | some most => most - least
        | none => text.length + 1
      Marks.again wider further begun
  | group _ inner, marks => inner.step text marks

/-- Does a text hold the pattern? -/
def isIn (pattern : Pattern) (text : String) : Bool :=
  let letters := text.toList
  (pattern.step letters (List.replicate (letters.length + 1) true)).any id

def steps (text : List Char) (patterns : List Pattern) (marks : Marks) : Marks :=
  patterns.foldl (fun marks pattern => pattern.step text marks) marks

/-- A pattern leads where its parts lead one after the other. -/
theorem steps_parts (text : List Char) (pattern : Pattern) (marks : Marks) :
    steps text pattern.parts marks = pattern.step text marks := by
  induction pattern generalizing marks with
  | sequence first rest _ ih =>
      rw [parts, step]
      exact ih (first.step text marks)
  | _ => rfl

theorem step_ofParts (text : List Char) (patterns : List Pattern) (marks : Marks) :
    (ofParts patterns).step text marks = steps text patterns marks := by
  induction patterns generalizing marks with
  | nil => rfl
  | cons first rest ih =>
      cases rest with
      | nil => rfl
      | cons second others =>
          rw [ofParts, step, ih]
          · rfl
          · simp

theorem steps_melt (text : List Char) (patterns : List Pattern) (marks : Marks) :
    steps text (melt patterns) marks = steps text patterns marks := by
  induction patterns generalizing marks with
  | nil => rfl
  | cons first rest ih =>
      have behind : steps text (first :: melt rest) marks = steps text (first :: rest) marks :=
        ih (first.step text marks)
      cases first with
      | text letters =>
          rw [← behind, melt]
          split
          · rename_i more others joined
            simp [joined, steps, step]
          · rfl
      | _ => exact behind

theorem step_ofSequence (text : List Char) (patterns : List Pattern) (marks : Marks) :
    (ofSequence patterns).step text marks = steps text patterns marks := by
  rw [ofSequence, step_ofParts, steps_melt]
  induction patterns generalizing marks with
  | nil => rfl
  | cons first rest ih =>
      rw [List.flatMap_cons, steps, List.foldl_append]
      exact (congrArg _ (steps_parts text first marks)).trans (ih _)

end Unveil.Pattern
