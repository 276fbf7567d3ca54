import Unveil.Bytes.Basic
import Unveil.Utf8

/-!
The heaps. That of strings holds texts in UTF-8, each ended by a zero byte; metadata
refers to a text by the offset of its first byte, which may be in the middle of another.
That of GUIDs holds identifiers of sixteen bytes each, counted from one.
-/

namespace Unveil

structure StringHeap where
  data : Bytes

namespace StringHeap

/-- A string heap starts with the empty text, so index zero can stand for no
name. -/
def ofData (data : Bytes) : Except Fault StringHeap :=
  if (data[0]? : Option UInt8) = some 0 then
    .ok ⟨data⟩
  else
    .error (.malformed .stringHeap)

/-- The bytes from `index` up to the next zero byte, behind those in `seen`,
which is in reverse. There is nothing if no zero byte follows. -/
def untilZero (data : Bytes) (index : Nat) (seen : List UInt8) : Option (List UInt8) :=
  if inside : index < data.size then
    if data[index] = 0 then
      some seen.reverse
    else
      untilZero data (index + 1) (data[index] :: seen)
  else
    none
termination_by data.size - index

def get (heap : StringHeap) (index : Nat) : Except Fault String :=
  if index < heap.data.size then
    match (untilZero heap.data index []).bind Utf8.decode? with
    | some text => .ok text
    | none => .error (.malformed (.stringAt index))
  else
    .error .outOfBounds

end StringHeap

structure Guid where
  bytes : Bytes
  deriving DecidableEq, Repr

namespace Guid

/-- The usual form in groups of digits. The first three groups are numbers
stored least significant byte first, the others are bytes in order. -/
def text (guid : Guid) : String :=
  let group (indexes : List Nat) : String :=
    String.join (indexes.map fun index =>
      Hexadecimal.padded 2 (Hexadecimal.lower (guid.bytes.getD index 0).toNat))
  String.intercalate "-"
    [group [3, 2, 1, 0], group [5, 4], group [7, 6], group [8, 9],
      group [10, 11, 12, 13, 14, 15]]

end Guid

structure GuidHeap where
  data : Bytes

namespace GuidHeap

def ofData (data : Bytes) : Except Fault GuidHeap :=
  if data.size < 16 then .error (.malformed .guidHeap) else .ok ⟨data⟩

/-- The identifier with a given number. The end of its bytes is found by a
product that no check precedes, so a number from the top of the 64-bit range
has none. -/
def get (heap : GuidHeap) (index : Nat) : Except Fault Guid := do
  demand (1 ≤ index) .outOfBounds
  let stop ← Size.mul index 16
  demand (stop ≤ heap.data.size) .outOfBounds
  pure ⟨← heap.data.cut ((index - 1) * 16) ((index - 1) * 16 + 16)⟩

end GuidHeap

end Unveil
