/-!
Sets of letters, as a pattern describes them. A set is given by its turns: the
codes at which, from code 0 on, the letters begin or cease to belong to it. The
operations on sets ask at every turn of what they put together whether the
letters there belong to the result.
-/

namespace Unveil.Pattern

structure Letters where
  turns : List Nat
  deriving DecidableEq, Repr

namespace Letters

/-- Does a code belong to a set with some turns? `inside` says whether the codes
in front of the first turn do. -/
def holdsBehind (inside : Bool) : List Nat → Nat → Bool
  | [], _ => inside
  | turn :: turns, code => if code < turn then inside else holdsBehind (!inside) turns code

def holds (letters : Letters) (code : Nat) : Bool := holdsBehind false letters.turns code

def contains (letters : Letters) (letter : Char) : Bool := letters.holds letter.toNat

def changes (test : Nat → Bool) (before : Bool) : List Nat → List Nat
  | [] => []
  | code :: codes =>
      if test code = before then changes test before codes
      else code :: changes test (test code) codes

/-- The set of what passes a test, if the test answers differently only from
some codes on. -/
def ofTest (test : Nat → Bool) (codes : List Nat) : Letters :=
  ⟨changes test false (codes.mergeSort (· ≤ ·))⟩

theorem holdsBehind_changes {test : Nat → Bool} {before : Bool} {codes : List Nat} {code : Nat}
    (sorted : codes.Pairwise (· ≤ ·)) :
    (holdsBehind before (changes test before codes) code = before ∧ ∀ c ∈ codes, code < c) ∨
      ∃ last ∈ codes, last ≤ code ∧ (∀ c ∈ codes, c ≤ code → c ≤ last) ∧
        holdsBehind before (changes test before codes) code = test last := by
  induction codes generalizing before with
  | nil => exact Or.inl ⟨rfl, by simp⟩
  | cons first rest ih =>
      obtain ⟨least, sorted⟩ := List.pairwise_cons.mp sorted
      by_cases early : code < first
      · left
        have ahead : ∀ c ∈ first :: rest, code < c := by
          intro c found
          rcases List.mem_cons.mp found with rfl | found
          · exact early
          · exact Nat.lt_of_lt_of_le early (least c found)
        refine ⟨?_, ahead⟩
        rw [changes]
        split
        · rcases @ih before sorted with ⟨same, _⟩ | ⟨last, found, reached, _⟩
          · exact same
          · exact absurd (ahead last (List.mem_cons_of_mem _ found)) (by omega)
        · simp [holdsBehind, early]
      · right
        have settled : ∀ {state : Bool}, state = test first →
            ∃ last ∈ first :: rest, last ≤ code ∧
              (∀ c ∈ first :: rest, c ≤ code → c ≤ last) ∧
              holdsBehind state (changes test state rest) code = test last := by
          rintro state rfl
          rcases @ih (test first) sorted with
            ⟨same, ahead⟩ | ⟨last, found, reached, top, answer⟩
          · refine ⟨first, List.mem_cons_self, by omega, ?_, same⟩
            intro c found below
            rcases List.mem_cons.mp found with rfl | found
            · exact Nat.le_refl _
            · exact absurd (ahead c found) (by omega)
          · refine ⟨last, List.mem_cons_of_mem _ found, reached, ?_, answer⟩
            intro c found' below
            rcases List.mem_cons.mp found' with rfl | found'
            · exact least last found
            · exact top c found' below
        rw [changes]
        split
        · rename_i same
          exact settled same.symm
        · rename_i other
          have flipped : (!before) = test first := by
            cases before <;> cases h : test first <;> simp_all
          obtain ⟨last, found, reached, top, answer⟩ := settled rfl
          refine ⟨last, found, reached, top, ?_⟩
          rw [holdsBehind, if_neg early, flipped]
          exact answer

/-- A set made for a test holds what passes it, if 0 is among the codes and the
test answers for every code as it does for the last of the codes that is not
behind it. -/
theorem holds_ofTest {test : Nat → Bool} {codes : List Nat} {code : Nat} (zero : 0 ∈ codes)
    (steady : ∀ last ∈ codes, last ≤ code → (∀ c ∈ codes, c ≤ code → c ≤ last) →
      test code = test last) :
    (ofTest test codes).holds code = test code := by
  have member (c : Nat) : c ∈ codes.mergeSort (· ≤ ·) ↔ c ∈ codes := List.mem_mergeSort
  have sorted : (codes.mergeSort (· ≤ ·)).Pairwise (· ≤ ·) := by
    have := @List.pairwise_mergeSort Nat (fun a b => decide (a ≤ b))
      (by simpa using fun a b c => Nat.le_trans) (by simpa using Nat.le_total) codes
    simpa using this
  rcases @holdsBehind_changes test false _ code sorted with
    ⟨_, ahead⟩ | ⟨last, found, reached, top, answer⟩
  · exact absurd (ahead 0 ((member 0).mpr zero)) (by omega)
  · rw [steady last ((member last).mp found) reached
      (fun c found below => top c ((member c).mpr found) below)]
    exact answer

theorem holdsBehind_steady {inside : Bool} {turns : List Nat} {low high : Nat} (le : low ≤ high)
    (none : ∀ turn ∈ turns, turn ≤ high → turn ≤ low) :
    holdsBehind inside turns high = holdsBehind inside turns low := by
  induction turns generalizing inside with
  | nil => rfl
  | cons turn turns ih =>
      have first := none turn List.mem_cons_self
      rw [holdsBehind, holdsBehind, ih fun other found => none other (List.mem_cons_of_mem _ found)]
      by_cases past : high < turn
      · rw [if_pos past, if_pos (by omega)]
      · rw [if_neg past, if_neg (by omega)]

/-- Two sets put together as an operation on the answers says. -/
def combine (operation : Bool → Bool → Bool) (a b : Letters) : Letters :=
  ofTest (fun code => operation (a.holds code) (b.holds code)) (0 :: a.turns ++ b.turns)

theorem contains_combine (operation : Bool → Bool → Bool) (a b : Letters) (letter : Char) :
    (combine operation a b).contains letter =
      operation (a.contains letter) (b.contains letter) := by
  refine holds_ofTest (by simp) fun last _ reached top => ?_
  have same (letters : Letters)
      (part : ∀ turn ∈ letters.turns, turn ∈ 0 :: a.turns ++ b.turns) :
      letters.holds letter.toNat = letters.holds last :=
    holdsBehind_steady reached fun turn found below => top turn (part turn found) below
  rw [same a (by simp +contextual), same b (by simp +contextual)]

def empty : Letters := ⟨[]⟩

def other (letters : Letters) : Letters := combine (fun _ held => !held) empty letters

def either (a b : Letters) : Letters := combine (· || ·) a b

def both (a b : Letters) : Letters := combine (· && ·) a b

def minus (a b : Letters) : Letters := combine (· && !·) a b

def oneOf (a b : Letters) : Letters := combine (· != ·) a b

def lastCode : Nat := 0x10ffff

def range (first last : Nat) : Letters :=
  ⟨first :: (if last < lastCode then [last + 1] else [])⟩

def one (letter : Char) : Letters := range letter.toNat letter.toNat

def ofRanges (ranges : List (Char × Char)) : Letters :=
  ranges.foldl (fun letters (first, last) => letters.either (range first.toNat last.toNat)) empty

/-- The ranges that a set is made of, with gaps between them. -/
def ranges (letters : Letters) : List (Nat × Nat) := pairs letters.turns
where
  pairs : List Nat → List (Nat × Nat)
    | first :: next :: turns => (first, next - 1) :: pairs turns
    | [first] => [(first, lastCode)]
    | [] => []

def single? (letters : Letters) : Option Char :=
  match letters.ranges with
  | [(first, last)] => if first = last then some (Char.ofNat first) else none
  | _ => none

def isPlain (letters : Letters) : Bool := letters.ranges.all fun (_, last) => last < 0x80

def caseShift : Nat := 'a'.toNat - 'A'.toNat

/-- The capital letters and the small letters of a set of the first 128 letters,
each in both forms. -/
def anyCase (letters : Letters) : Letters :=
  let held (code : Nat) : Bool :=
    letters.holds code ||
      ('A'.toNat ≤ code && code ≤ 'Z'.toNat && letters.holds (code + caseShift)) ||
      ('a'.toNat ≤ code && code ≤ 'z'.toNat && letters.holds (code - caseShift))
  ofTest held (0 :: letters.turns ++ letters.turns.map (· + caseShift) ++
    letters.turns.map (· - caseShift) ++ ['A', '[', 'a', '\x7b'].map Char.toNat)

def cased (caseless : Bool) (letters : Letters) : Letters :=
  if caseless then letters.anyCase else letters

def named? (name : List Char) : Option Letters :=
  ofRanges <$> match String.ofList name with
  | "alnum" => some [('0', '9'), ('A', 'Z'), ('a', 'z')]
  | "alpha" => some [('A', 'Z'), ('a', 'z')]
  | "ascii" => some [('\x00', '\x7f')]
  | "blank" => some [('\t', '\t'), (' ', ' ')]
  | "cntrl" => some [('\x00', '\x1f'), ('\x7f', '\x7f')]
  | "digit" => some [('0', '9')]
  | "graph" => some [('!', '~')]
  | "lower" => some [('a', 'z')]
  | "print" => some [(' ', '~')]
  | "punct" => some [('!', '/'), (':', '@'), ('[', '\x60'), ('\x7b', '~')]
  | "space" => some [('\t', '\r'), (' ', ' ')]
  | "upper" => some [('A', 'Z')]
  | "word" => some [('0', '9'), ('A', 'Z'), ('_', '_'), ('a', 'z')]
  | "xdigit" => some [('0', '9'), ('A', 'F'), ('a', 'f')]
  | _ => none

end Letters

end Unveil.Pattern
