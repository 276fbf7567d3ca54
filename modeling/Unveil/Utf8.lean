/-!
Text in UTF-8. `Utf8.next` reads one character or finds out how many bytes
cannot begin one; strict and lenient reading both follow from it. Where a
sequence breaks off, the bytes before the break count as one unreadable
character, and the byte at the break is read anew.
-/

namespace Unveil.Utf8

/-- The ranges in which the bytes behind a leading byte must lie, or nothing
for a byte that leads no sequence. The first range is narrower where the full
one would allow overlong forms, surrogates or code points past the last. -/
def continuations? (lead : Nat) : Option (List (Nat × Nat)) :=
  if lead < 0x80 then some []
  else if lead < 0xC2 then none
  else if lead < 0xE0 then some [(0x80, 0xBF)]
  else if lead = 0xE0 then some [(0xA0, 0xBF), (0x80, 0xBF)]
  else if lead = 0xED then some [(0x80, 0x9F), (0x80, 0xBF)]
  else if lead < 0xF0 then some [(0x80, 0xBF), (0x80, 0xBF)]
  else if lead = 0xF0 then some [(0x90, 0xBF), (0x80, 0xBF), (0x80, 0xBF)]
  else if lead < 0xF4 then some [(0x80, 0xBF), (0x80, 0xBF), (0x80, 0xBF)]
  else if lead = 0xF4 then some [(0x80, 0x8F), (0x80, 0xBF), (0x80, 0xBF)]
  else none

/-- The bits of the code point that a leading byte holds. -/
def leadBits (lead : Nat) : Nat :=
  if lead < 0x80 then lead
  else if lead < 0xE0 then lead % 32
  else if lead < 0xF0 then lead % 16
  else lead % 8

/-- Goes through the bytes behind a leading byte, each of which adds six bits,
and stops in front of one that is out of its range. -/
def follow (value : Nat) : List (Nat × Nat) → List UInt8 → Option Char × List UInt8
  | [], rest => (some (Char.ofNat value), rest)
  | _ :: _, [] => (none, [])
  | (low, high) :: ranges, byte :: rest =>
      if low ≤ byte.toNat ∧ byte.toNat ≤ high then
        follow (value * 64 + byte.toNat % 64) ranges rest
      else
        (none, byte :: rest)

def next (lead : UInt8) (rest : List UInt8) : Option Char × List UInt8 :=
  match continuations? lead.toNat with
  | some ranges => follow (leadBits lead.toNat) ranges rest
  | none => (none, rest)

theorem length_follow_le (value : Nat) (ranges : List (Nat × Nat)) (bytes : List UInt8) :
    (follow value ranges bytes).2.length ≤ bytes.length := by
  induction ranges generalizing value bytes with
  | nil => simp [follow]
  | cons range ranges ih =>
      obtain ⟨low, high⟩ := range
      cases bytes with
      | nil => simp [follow]
      | cons byte rest =>
          simp only [follow]
          split
          · exact Nat.le_succ_of_le (ih _ rest)
          · exact Nat.le_refl _

theorem length_next_le (lead : UInt8) (rest : List UInt8) :
    (next lead rest).2.length ≤ rest.length := by
  unfold next
  split
  · exact length_follow_le _ _ _
  · exact Nat.le_refl _

def characters : List UInt8 → List (Option Char)
  | [] => []
  | lead :: rest => (next lead rest).1 :: characters (next lead rest).2
termination_by bytes => bytes.length
decreasing_by
  have := length_next_le lead rest
  simp only [List.length_cons]
  omega

def decode? (bytes : List UInt8) : Option String :=
  ((characters bytes).mapM id).map String.ofList

/-- The text of a byte sequence, with the replacement character for what
cannot be read. -/
def decodeLossy (bytes : List UInt8) : String :=
  String.ofList ((characters bytes).map (·.getD '\uFFFD'))

end Unveil.Utf8
