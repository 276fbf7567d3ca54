import Unveil.Pieces

/-!
Plain text for an output that is not a terminal, and the lines of a text. The sequences
by which a text steers a terminal are left out, and so are control characters other than
those that move to another place on the page.

A sequence begins with an escape character. What the next characters are says
how long it goes on: a bracket opens a control that ends with a letter, a
closing bracket a command that ends with a bell, and some letters a string that
a terminator or another escape character ends. Cancelling ends every sequence.

A move to another place on the page is shown even within a sequence. Whether the
sequence is over by that depends on the output: it may as well pause, and go on
with the next control character.
-/

namespace Unveil.Text

def withoutReturn (line : List Char) : List Char :=
  if line.getLast? = some '\r' then line.dropLast else line

/-- The lines of which the last is still open. -/
def closeLines : List (List Char) → List (List Char)
  | [] => []
  | [last] => if last = [] then [] else [last]
  | line :: rest => withoutReturn line :: closeLines rest

def lines (text : String) : List String :=
  (closeLines (Pieces.split '\n' text.toList)).map String.ofList

def firstLine (text : String) : String := (lines text).headD ""

def ofLines (lines : List String) : String := String.join (lines.map (· ++ "\n"))

theorem closeLines_cons {line : List Char} {rest : List (List Char)} (more : rest ≠ []) :
    closeLines (line :: rest) = withoutReturn line :: closeLines rest := by
  cases rest with
  | nil => exact absurd rfl more
  | cons next others => rfl

/-- A line that can be told apart from its ending. -/
def IsLine (line : String) : Prop :=
  '\n' ∉ line.toList ∧ line.toList.getLast? ≠ some '\r'

/-- Lines that are put together come apart again as they were. -/
theorem lines_ofLines {texts : List String} (proper : ∀ line ∈ texts, IsLine line) :
    lines (ofLines texts) = texts := by
  induction texts with
  | nil => rfl
  | cons line rest ih =>
      obtain ⟨unbroken, unreturned⟩ := proper line List.mem_cons_self
      have later := ih fun other found => proper other (List.mem_cons_of_mem _ found)
      have spelled : (ofLines (line :: rest)).toList =
          line.toList ++ '\n' :: (ofLines rest).toList := by
        simp [ofLines, String.join_cons]
      rw [lines, spelled, Pieces.split_append unbroken,
        closeLines_cons (Pieces.split_ne_nil _ _), List.map_cons, withoutReturn,
        if_neg unreturned, String.ofList_toList]
      exact congrArg (line :: ·) later

/-- How far a string for a device has come. Only its body, and what stands in
place of a body that has no meaning, can be ended by a terminator. -/
inductive DevicePart where
  | opening
  | numbers
  | between
  | body
  | nonsense
  deriving DecidableEq, Repr

/-- How far into a sequence a text is. -/
inductive Mode where
  | plain
  /-- Right behind an escape character. -/
  | escape
  /-- In an escape sequence of more than one character. -/
  | longEscape
  | control
  | command
  | string
  | device (part : DevicePart)
  deriving DecidableEq, Repr

/-- What a move to another place on the page does to the sequence it is in. -/
inductive Interruption where
  | ends
  | pauses
  deriving DecidableEq, Repr

/-- How far into a sequence a text is, and whether the sequence pauses. -/
structure Steering where
  mode : Mode
  paused : Bool
  deriving DecidableEq, Repr

def isLayout (letter : Char) : Bool :=
  letter == '\t' || letter == '\n' || letter == '\x0c' || letter == '\r'

def isControl (letter : Char) : Bool := letter < ' ' || letter == '\x7f'

/-- Does a character end a string? The terminator is a byte, and counts wherever
it is among the bytes of a character. -/
def isTerminator (letter : Char) : Bool := (String.utf8EncodeChar letter).contains 0x9c

namespace DevicePart

def next (part : DevicePart) (letter : Char) : DevicePart :=
  match part with
  | body => body
  | nonsense => nonsense
  | part =>
      if letter < '0' then between
      else if letter < '@' then
        match part with
        | between => nonsense
        | numbers => if letter < '<' then numbers else nonsense
        | _ => numbers
      else body

def canEnd : DevicePart → Bool
  | body | nonsense => true
  | opening | numbers | between => false

end DevicePart

namespace Mode

def inner (mode : Mode) (letter : Char) : Mode :=
  match mode with
  | escape =>
      if letter < '0' then longEscape
      else
        match letter with
        | '[' => control
        | ']' => command
        | 'P' => device .opening
        | 'X' | '^' | '_' => string
        | _ => plain
  | longEscape => if letter < '0' then longEscape else plain
  | control => if letter < '@' then control else plain
  | device part => device (part.next letter)
  | mode => mode

def behind (mode : Mode) (letter : Char) : Mode :=
  if isControl letter then
    if mode = command ∧ letter = '\x07' then plain else mode
  else if '~' < letter then
    match mode with
    | string => if isTerminator letter then plain else string
    | device part => if part.canEnd && isTerminator letter then plain else device part
    | mode => mode
  else inner mode letter

def shows (mode : Mode) (letter : Char) : Bool :=
  match mode with
  | plain => isLayout letter || !isControl letter
  | escape | longEscape | control => isLayout letter
  | command | string | device _ => false

end Mode

namespace Steering

def free : Steering := ⟨.plain, false⟩

/-- Where a character leads to, and whether it is shown. A sequence that pauses
is forgotten at a character that is not a plain one. -/
def next (interruption : Interruption) (steering : Steering) (letter : Char) :
    Steering × Bool :=
  if letter = '\x1b' then (⟨.escape, false⟩, false)
  else if letter = '\x18' ∨ letter = '\x1a' then (free, false)
  else if steering.paused && Mode.plain.shows letter then
    (if '~' < letter then free else steering, true)
  else if steering.mode.shows letter then
    (if steering.mode = .plain ∨ interruption = .ends then free else ⟨steering.mode, true⟩,
      true)
  else (⟨steering.mode.behind letter, false⟩, false)

end Steering

def shown (interruption : Interruption) : Steering → List Char → List Char
  | _, [] => []
  | steering, letter :: rest =>
      match steering.next interruption letter with
      | (steering, true) => letter :: shown interruption steering rest
      | (steering, false) => shown interruption steering rest

/-- A text as plain text. -/
def plain (interruption : Interruption) (text : String) : String :=
  String.ofList (shown interruption .free text.toList)

theorem shown_eq_self {interruption : Interruption} {text : List Char}
    (printable : ∀ letter ∈ text, isControl letter = false) :
    shown interruption .free text = text := by
  induction text with
  | nil => rfl
  | cons letter rest ih =>
      have clean := printable letter List.mem_cons_self
      have stays : Steering.next interruption .free letter = (.free, true) := by
        have not_steering (other : Char) (steering : isControl other = true) :
            letter ≠ other := by
          rintro rfl
          rw [clean] at steering
          exact Bool.false_ne_true steering
        simp [Steering.next, Steering.free, Mode.shows, not_steering '\x1b' (by decide),
          not_steering '\x18' (by decide), not_steering '\x1a' (by decide), clean]
      simp only [shown, stays]
      rw [ih fun other found => printable other (List.mem_cons_of_mem _ found)]

theorem Mode.shows_plain {mode : Mode} {letter : Char} (visible : mode.shows letter = true) :
    Mode.plain.shows letter = true := by
  cases mode <;> simp_all [Mode.shows]

theorem Steering.next_shown {interruption : Interruption} {steering after : Steering}
    {letter : Char} (moved : steering.next interruption letter = (after, true)) :
    isLayout letter = true ∨ isControl letter = false := by
  have visible : Mode.plain.shows letter = true := by
    unfold Steering.next at moved
    split at moved
    · cases moved
    · split at moved
      · cases moved
      · split at moved
        · rename_i resumed
          exact (Bool.and_eq_true_iff.mp resumed).2
        · split at moved
          · rename_i shown
            exact Mode.shows_plain shown
          · cases moved
  simpa [Mode.shows] using visible

/-- What is shown of a text holds no control characters but those that move to
another place on the page, wherever it begins. -/
theorem mem_shown {interruption : Interruption} {steering : Steering} {text : List Char}
    {letter : Char} (found : letter ∈ shown interruption steering text) :
    isLayout letter = true ∨ isControl letter = false := by
  induction text generalizing steering with
  | nil => cases found
  | cons first rest ih =>
      rw [shown] at found
      split at found
      · rename_i after moved
        rcases List.mem_cons.mp found with rfl | later
        · exact Steering.next_shown moved
        · exact ih later
      · exact ih found

end Unveil.Text
