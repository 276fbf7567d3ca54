import Unveil.Bytes.Basic
import Unveil.Image.Container

/-!
The file image of a module: its bytes together with what its container says
about them, and its checksum. An image always has a runtime header directory, because a
file without one is no module.
-/

namespace Unveil

namespace Checksum

/-- Adds a word and brings a carry around. -/
def addWord (sum word : Nat) : Nat :=
  let sum := sum + word
  if 0xFFFF < sum then sum % 0x10000 + sum / 0x10000 else sum

/-- The sum of the words from `offset` on, added to `sum`. A word that starts
inside the four bytes of the field is passed over; an odd byte at the end
counts as a word with nothing above it. -/
def sumFrom (data : Bytes) (field : Nat) (offset sum : Nat) : Nat :=
  if offset < data.size then
    if field ≤ offset ∧ offset < field + 4 then
      sumFrom data field (offset + 2) sum
    else
      sumFrom data field (offset + 2) (addWord sum (data.number offset 2))
  else
    sum
termination_by data.size - offset

def compute (data : Bytes) (field : Nat) : UInt32 :=
  UInt32.ofNat (sumFrom data field 0 0 + data.size)

end Checksum

structure Image where
  data : Bytes
  /-- Where the file header starts. -/
  start : Nat
  checksum : UInt32
  runtime : Region
  certificates : Option Region
  sections : List Section
  deriving DecidableEq, Repr

namespace Image

def ofData [Container.Reader] (data : Bytes) : Except Fault Image := do
  demand (data.size ≠ 0) .empty
  let container ← Container.Reader.read data
  match container.optional with
  | none => .error (.malformed .noOptionalHeader)
  | some header =>
    match (header.directory? Container.runtimeIndex).filter Region.isGiven with
    | none => .error (.malformed .noRuntimeDirectory)
    | some runtime =>
        .ok {
          data, runtime
          start := container.start
          checksum := header.checksum
          certificates :=
            (header.directory? Container.certificateIndex).filter Region.isGiven
          sections := container.sections }

/-- Where the checksum is stored: behind the signature and the file header, in
the optional header. -/
def checksumOffset (image : Image) : Nat :=
  image.start + 4 + 20 + Container.checksumDistance

/-- The addresses that a section claims: as many as it has when loaded, or as
it stores where it does not say. -/
def span (area : Section) : UInt32 :=
  if area.virtualSize = 0 then area.rawSize else area.virtualSize

/-- The file offset of an address. The first section that claims the address
decides, and a section on the way to it whose addresses leave the 32-bit range
spoils the whole search. -/
def locate (address : Nat) : List Section → Except Fault Nat
  | [] => .error (.malformed (.unmappedAddress address))
  | area :: others => do
      let first := area.virtualAddress.toNat
      let stop := first + (span area).toNat
      demand (stop < 0x100000000)
        (.malformed (.sectionOverflow area.virtualAddress (span area)))
      if first ≤ address ∧ address < stop then
        let distance := address - first
        demand (distance < area.rawSize.toNat)
          (.malformed (.uninitializedAddress address))
        Size.add area.rawPointer.toNat distance
      else
        locate address others

def offsetOf (image : Image) (address : Nat) : Except Fault Nat := do
  demand (address < 0x100000000) (.malformed (.addressTooLarge address))
  locate address image.sections

end Image

end Unveil
