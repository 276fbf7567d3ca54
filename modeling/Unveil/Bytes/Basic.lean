import Unveil.Fault

/-!
Byte sequences and the little-endian numbers in them. `Bytes.number` reads a
number of any width, `Bytes.spell` gives the bytes that read back as it, and
`Bytes.overwrite` puts bytes in place of others without changing the length.

Taking part of a sequence comes in two forms. `Bytes.slice` is for ranges that
come from the data and answers `outOfBounds`; `Bytes.cut`, `itemAt` and
`Size.add` are for ranges that the code around them has already made sure of,
and answer `trap` where that is not so.

A scan reads with a moving offset and keeps it when it fails, so a caller can see how
far it came. A sheet is a buffer of fixed length with the place where the next value
goes; a write that fails keeps what the writes before it have put down.
-/

namespace Unveil

abbrev Bytes := Array UInt8

namespace Bytes

/-- The number spelled by the `width` bytes from `start` on, least significant
byte first. Bytes past the end count as zero. -/
def number (data : Bytes) (start : Nat) : Nat → Nat
  | 0 => 0
  | width + 1 => (data.getD start 0).toNat + 256 * number data (start + 1) width

/-- The `width` low bytes of a number, least significant first. -/
def spell : Nat → Nat → List UInt8
  | 0, _ => []
  | width + 1, value => UInt8.ofNat value :: spell width (value / 256)

/-- `data` with `part` in place of what was there from `start` on. Bytes that
would come to lie past the end are dropped, so the length never changes. -/
def overwrite (data : Bytes) (start : Nat) : List UInt8 → Bytes
  | [] => data
  | byte :: rest => overwrite (data.setIfInBounds start byte) (start + 1) rest

@[simp] theorem length_spell (width value : Nat) : (spell width value).length = width := by
  induction width generalizing value with
  | zero => rfl
  | succ width ih => simp [spell, ih]

@[simp] theorem size_overwrite (data : Bytes) (start : Nat) (part : List UInt8) :
    (overwrite data start part).size = data.size := by
  induction part generalizing data start with
  | nil => rfl
  | cons byte rest ih => simp [overwrite, ih]

def slice (data : Bytes) (start length : Nat) : Except Fault Bytes :=
  if start + length ≤ data.size then
    .ok (data.extract start (start + length))
  else
    .error .outOfBounds

/-- The bytes from `start` up to `stop`, for a range known to lie inside. -/
def cut (data : Bytes) (start stop : Nat) : Except Fault Bytes :=
  if start ≤ stop ∧ stop ≤ data.size then
    .ok (data.extract start stop)
  else
    .error .trap

def rest (data : Bytes) (start : Nat) : Except Fault Bytes :=
  data.cut start data.size

end Bytes

/-- The item at an index known to lie inside. -/
def itemAt {α : Type} (items : Array α) (index : Nat) : Except Fault α :=
  match items[index]? with
  | some item => .ok item
  | none => .error .trap

namespace Size

/-- Sizes and offsets are 64-bit numbers. -/
def limit : Nat := 0x10000000000000000

/-- A sum of sizes that is known to stay in range. -/
def add (a b : Nat) : Except Fault Nat :=
  if a + b < limit then .ok (a + b) else .error .trap

def mul (a b : Nat) : Except Fault Nat :=
  if a * b < limit then .ok (a * b) else .error .trap

end Size

/-- A reader of one value that moves an offset. -/
abbrev Scan := EStateM Fault Nat

namespace Scan

/-- The number in the next `width` bytes. The offset stays where it is if they
are not all there. -/
def number (data : Bytes) (width : Nat) : Scan Nat := fun offset =>
  if offset + width ≤ data.size then
    .ok (data.number offset width) (offset + width)
  else
    .error .outOfBounds offset

def u8 (data : Bytes) : Scan UInt8 := UInt8.ofNat <$> number data 1

def u16 (data : Bytes) : Scan UInt16 := UInt16.ofNat <$> number data 2

def u32 (data : Bytes) : Scan UInt32 := UInt32.ofNat <$> number data 4

def u64 (data : Bytes) : Scan UInt64 := UInt64.ofNat <$> number data 8

/-- The value of a column that is four bytes wide if `wide` holds and two
bytes otherwise. -/
def column (data : Bytes) (wide : Bool) : Scan UInt32 :=
  UInt32.ofNat <$> number data (if wide then 4 else 2)

def valueAt {α : Type} (scan : Scan α) (offset : Nat) : Except Fault α :=
  match scan offset with
  | .ok value _ => .ok value
  | .error fault _ => .error fault

/-- The value that a scan of `data` finds at `offset`, for an offset known to
lie inside. -/
def valueInside {α : Type} (scan : Scan α) (data : Bytes) (offset : Nat) : Except Fault α :=
  if offset ≤ data.size then scan.valueAt offset else .error .trap

end Scan

namespace Cursor

/-- Goes to a position, of which the end of the data is the last. -/
def seek (data : Bytes) (position : Nat) : Scan Unit := fun offset =>
  if position ≤ data.size then .ok () position else .error .outOfBounds offset

def advance (data : Bytes) (step : Nat) : Scan Unit := fun offset =>
  seek data (offset + step) offset

def remaining (data : Bytes) (offset : Nat) : Nat := data.size - offset

def take (data : Bytes) (length : Nat) : Scan Bytes := fun offset =>
  if length ≤ remaining data offset then
    match data.cut offset (offset + length) with
    | .ok part => .ok part (offset + length)
    | .error fault => .error fault offset
  else
    .error .outOfBounds offset

end Cursor

structure Sheet where
  bytes : Bytes
  offset : Nat
  deriving DecidableEq, Repr

/-- A writer of values onto a sheet. -/
abbrev Emit := EStateM Fault Sheet

namespace Emit

/-- Puts the `width` low bytes of `value` down and moves past them. Nothing
happens if there is no room. -/
def number (width value : Nat) : Emit Unit := fun sheet =>
  match sheet with
  | ⟨bytes, offset⟩ =>
      if offset + width ≤ bytes.size then
        .ok () ⟨bytes.overwrite offset (Bytes.spell width value), offset + width⟩
      else
        .error .outOfBounds ⟨bytes, offset⟩

def u8 (value : UInt8) : Emit Unit := number 1 value.toNat

def u16 (value : UInt16) : Emit Unit := number 2 value.toNat

def u32 (value : UInt32) : Emit Unit := number 4 value.toNat

def u64 (value : UInt64) : Emit Unit := number 8 value.toNat

/-- Writes a column that is four bytes wide if `wide` holds and two bytes
otherwise. A value that two bytes cannot hold is refused rather than cut. -/
def column (wide : Bool) (value : UInt32) : Emit Unit :=
  if wide then
    u32 value
  else if value.toNat < 0x10000 then
    number 2 value.toNat
  else
    throw (.malformed (.columnOverflow value))

def bytes (part : Bytes) : Emit Unit := fun sheet =>
  match sheet with
  | ⟨bytes, offset⟩ =>
      if offset + part.size ≤ bytes.size then
        .ok () ⟨bytes.overwrite offset part.toList, offset + part.size⟩
      else
        .error .outOfBounds ⟨bytes, offset⟩

def position : Emit Nat := fun sheet => .ok sheet.offset sheet

def goTo (offset : Nat) : Emit Unit := fun sheet => .ok () { sheet with offset }

def size : Emit Nat := fun sheet => .ok sheet.bytes.size sheet

def lift {α : Type} (result : Except Fault α) : Emit α := fun sheet =>
  match result with
  | .ok value => .ok value sheet
  | .error fault => .error fault sheet

/-- Writes onto a sheet from its start, and gives the result with the bytes
that are then on it. -/
def fill {α : Type} (emit : Emit α) (blank : Bytes) : Except Fault (α × Bytes) :=
  match emit ⟨blank, 0⟩ with
  | .ok value sheet => .ok (value, sheet.bytes)
  | .error fault _ => .error fault

end Emit

end Unveil
