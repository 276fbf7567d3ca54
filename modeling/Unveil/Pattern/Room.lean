import Unveil.Pattern.Basic
import Unveil.Pattern.Spelling
import Unveil.Pieces

/-!
How much room a pattern takes as an automaton, which is what a search for it
would run. A state takes some room, every range of bytes that leads out of a
state with several such ranges takes more, and so does every way of a state that
makes a choice. A repetition takes the room of its pattern as often as it is
counted. The automaton is built for reading a text in either direction.
-/

namespace Unveil.Pattern

inductive Direction where
  | forward | backward
  deriving DecidableEq, Repr

/-- The room that a pattern takes. A pattern that ends in a choice, which may
lead on or back again, takes the room of one more way when it goes on. -/
structure Room where
  size : Nat
  endsInChoice : Bool
  deriving DecidableEq, Repr

namespace Room

def state : Nat := 32

/-- What a range of bytes takes in a state with several ranges. -/
def range : Nat := 8

/-- What a way takes in a state that makes a choice. -/
def way : Nat := 4

def states (count : Nat) : Room := ⟨count * state, false⟩

/-- The room of a pattern with something behind it. -/
def joined (room : Room) : Nat := room.size + if room.endsInChoice then way else 0

def before (first second : Room) : Room := ⟨first.joined + second.size, second.endsInChoice⟩

/-- A choice that either takes a pattern or passes it by, so that both come to
the same state in the end. -/
def optional (room : Room) : Room := ⟨2 * state + 2 * way + room.joined, false⟩

/-- A pattern that may be taken any number of times. One that may match the empty
text is entered by a choice of its own. -/
def anyTimes (room : Room) (mayBeEmpty : Bool) : Room :=
  if mayBeEmpty then ⟨3 * state + 4 * way + room.joined, false⟩
  else ⟨state + way + room.joined, true⟩

def atLeast (room : Room) (least : Nat) : Room :=
  ⟨least * room.joined + state + way, true⟩

def exactly (room : Room) (times : Nat) : Room :=
  if times = 0 then states 1
  else ⟨(times - 1) * room.joined + room.size, room.endsInChoice⟩

def between (room : Room) (least more : Nat) : Room :=
  ⟨(exactly room least).joined + state + more * (state + 2 * way + room.joined), false⟩

end Room

def rangesRoom (count : Nat) : Nat := Room.state + count * Room.range

/-- The room for one letter of a set. Reading forward, rows of bytes with the
same end share the states for it; reading backward, those with the same
start. -/
def Letters.room (direction : Direction) (letters : Letters) : Room :=
  if letters.isPlain then ⟨Room.state + rangesRoom letters.ranges.length, false⟩
  else
    let rows := letters.rows
    match direction with
    | .forward =>
        let shared := (ends 4 rows).eraseDups
        ⟨Room.state + total (shared.map fun rows => rangesRoom (heads rows).length), false⟩
    | .backward =>
        let shared := (starts rows).eraseDups
        ⟨(2 + shared.length) * Room.state + rows.length * Room.way, false⟩

/-- The bytes of a text, in the order in which they are read. -/
def spelled (direction : Direction) (letters : List Char) : List UInt8 :=
  let bytes := letters.flatMap String.utf8EncodeChar
  match direction with
  | .forward => bytes
  | .backward => bytes.reverse

/-- Texts to choose from, parted where one of them is over, which counts once if
it comes before all others. -/
def segments (texts : List (List UInt8)) : List (List (List UInt8)) :=
  let later := texts.dropWhile (·.isEmpty)
  let parted := Pieces.split [] later
  if later.length < texts.length then [] :: parted else parted

def firstBytes (texts : List (List UInt8)) : List UInt8 :=
  (texts.filterMap List.head?).eraseDups

def behindByte (byte : UInt8) (texts : List (List UInt8)) : List (List UInt8) :=
  (texts.filter (·.head? == some byte)).map (·.drop 1)

/-- The room for texts to choose from, of no more than so many bytes each. Those
that begin alike share the states for it, as long as no text that comes before
one of them is over there. -/
def textsRoom : Nat → List (List UInt8) → Nat
  | 0, _ => 0
  | depth + 1, texts =>
      let parted := segments texts
      let ways := (parted.filter (!·.isEmpty)).length + (parted.length - 1)
      Room.state + ways * Room.way + total (parted.map fun texts =>
        let bytes := firstBytes texts
        let own :=
          match bytes with
          | [] => 0
          | [_] => Room.state
          | bytes => rangesRoom bytes.length
        own + total (bytes.map fun byte =>
          let rests := behindByte byte texts
          if rests.all (·.isEmpty) then 0 else textsRoom depth rests))

def text? : Pattern → Option (List Char)
  | text letters => some letters
  | _ => none

/-- How many letters' bytes a pattern takes at least, if it can match at all. -/
def leastLength? : Pattern → Option Nat
  | empty | atPlace _ => some 0
  | text letters => some letters.length
  | anyOf letters => if letters.turns = [] then none else some 1
  | sequence first rest => do pure ((← first.leastLength?) + (← rest.leastLength?))
  | choice first rest => do pure (min (← first.leastLength?) (← rest.leastLength?))
  | repeated inner least _ _ => do pure ((← inner.leastLength?) * least)
  | group _ inner => inner.leastLength?

/-- The room of a pattern, if that of a choice is known for its branches, with the
ways to them. Where all branches are texts, they share states. -/
def closed (direction : Direction) (room : Room) : Pattern → Room
  | choice first rest =>
      match (choice first rest).branches.mapM text? with
      | some texts =>
          let texts := texts.map (spelled direction)
          ⟨Room.state + textsRoom (total (texts.map List.length)) texts, false⟩
      | none => ⟨2 * Room.state + room.size, false⟩
  | _ => room

def openRoom (direction : Direction) : Pattern → Room
  | empty | atPlace _ => .states 1
  | text letters => .states (spelled direction letters).length
  | anyOf letters => letters.room direction
  | sequence first rest =>
      let first := closed direction (first.openRoom direction) first
      let rest := closed direction (rest.openRoom direction) rest
      match direction with
      | .forward => first.before rest
      | .backward => rest.before first
  | choice first rest =>
      let last := rest.openRoom direction
      let others := match rest with
        | choice _ _ => last.size
        | _ => Room.way + last.joined
      ⟨Room.way + (closed direction (first.openRoom direction) first).joined + others, false⟩
  | repeated inner least most? _ =>
      let once := closed direction (inner.openRoom direction) inner
      match least, most? with
      | 0, some 1 => once.optional
      | 0, none => once.anyTimes (inner.leastLength?.getD 0 == 0)
      | least, none => once.atLeast least
      | least, some most =>
          if most = least then once.exactly least else once.between least (most - least)
  | group _ inner =>
      let inner' := closed direction (inner.openRoom direction) inner
      match direction with
      | .forward => ⟨2 * Room.state + inner'.joined, false⟩
      | .backward => inner'

def room (direction : Direction) (pattern : Pattern) : Room :=
  closed direction (pattern.openRoom direction) pattern

/-- Can a pattern begin only where something is asked of the place, among others
what a test looks for? -/
def beginsAt (test : Place → Bool) : Pattern → Bool
  | empty | text _ | anyOf _ => false
  | atPlace place => test place
  | sequence first rest => first.beginsAt test || (first.isStill && rest.beginsAt test)
  | choice first rest => first.beginsAt test && rest.beginsAt test
  | repeated inner least _ _ => 0 < least && inner.beginsAt test
  | group _ inner => inner.beginsAt test

def endsAt (test : Place → Bool) : Pattern → Bool
  | empty | text _ | anyOf _ => false
  | atPlace place => test place
  | sequence first rest => rest.endsAt test || (rest.isStill && first.endsAt test)
  | choice first rest => first.endsAt test && rest.endsAt test
  | repeated inner least _ _ => 0 < least && inner.endsAt test
  | group _ inner => inner.endsAt test

/-- The room of the automaton that looks for a pattern in a text: the pattern as
one group, the state that is reached with it, and in front of it the bytes that
are passed before it begins. None are passed if it begins only where the text
does. -/
def searchRoom (direction : Direction) (pattern : Pattern) : Nat :=
  let fixed : Bool := match direction with
    | .forward => pattern.beginsAt (· == .textStart)
    | .backward => pattern.endsAt (· == .textEnd)
  let passing :=
    if fixed then Room.states 1
    else (Room.mk (Room.state + rangesRoom 1) false).anyTimes false
  passing.joined + (room direction (group 0 pattern)).joined + Room.state

end Unveil.Pattern
