import Unveil.Pattern.Letters

/-!
How the letters of a set are spelled in bytes. A set is spelled in rows, each of
which has a range of bytes for every byte of a letter: any choice of one byte
from each range spells a letter of the set.
-/

namespace Unveil.Pattern

/-- The ranges from which the bytes of a letter are chosen, one after the other. -/
abbrev Row := List (Nat × Nat)

/-- What the bytes behind the first one of a letter begin at. -/
def followBase : Nat := 0x80

def followCount : Nat := 64

def anyFollow : Nat × Nat := (followBase, followBase + followCount - 1)

/-- The rows for the numbers of a range, written with a first byte from `base` on
and so many bytes behind it. -/
def numberRows (base : Nat) : Nat → Nat → Nat → List Row
  | 0, low, high => [[(base + low, base + high)]]
  | follow + 1, low, high =>
      let block := followCount.pow (follow + 1)
      let first := low / block
      let last := high / block
      let within (digit from' upTo : Nat) : List Row :=
        (numberRows followBase follow from' upTo).map ((base + digit, base + digit) :: ·)
      if first = last then within first (low % block) (high % block)
      else
        let begun := low % block ≠ 0
        let cut := high % block ≠ block - 1
        let whole := (if begun then first + 1 else first, if cut then last - 1 else last)
        (if begun then within first (low % block) (block - 1) else []) ++
          (if whole.1 ≤ whole.2 then
            [(base + whole.1, base + whole.2) :: .replicate (follow + 1) anyFollow]
          else []) ++
          (if cut then within last 0 (high % block) else [])

/-- The codes that are spelled alike: the first and the last of them, what the
first byte begins at, and how many bytes are behind it. No letter has a code
between the third and the fourth range. -/
def codeClasses : List (Nat × Nat × Nat × Nat) := [
  (0, 0x7f, 0, 0),
  (0x80, 0x7ff, 0xc0, 1),
  (0x800, 0xd7ff, 0xe0, 2),
  (0xe000, 0xffff, 0xe0, 2),
  (0x10000, Letters.lastCode, 0xf0, 3)]

def rangeRows (first last : Nat) : List Row :=
  codeClasses.flatMap fun (low, high, base, follow) =>
    let low := max low first
    let high := min high last
    if low ≤ high then numberRows base follow low high else []

def Letters.rows (letters : Letters) : List Row :=
  letters.ranges.flatMap fun (first, last) => rangeRows first last

/-- The first ranges of some rows, each with what follows it in the rows that
begin with it. Rows that begin alike stand beside one another. -/
def heads : List Row → List ((Nat × Nat) × List Row)
  | [] => []
  | [] :: rows => heads rows
  | (range :: rest) :: rows =>
      match heads rows with
      | (next, rests) :: others =>
          if next = range then (range, rest :: rests) :: others
          else (range, [rest]) :: (next, rests) :: others
      | [] => [(range, [rest])]

/-- What can be left of some rows, behind so many ranges at most: the ends of the
rows that begin alike, down to the last range. -/
def ends : Nat → List Row → List (List Row)
  | 0, _ => []
  | depth + 1, rows =>
      rows :: (heads rows).flatMap fun (_, rests) =>
        if rests = [[]] then [] else ends depth rests

def starts (rows : List Row) : List Row :=
  rows.flatMap fun row => (List.range row.length).map fun length => row.take (length + 1)

end Unveil.Pattern
