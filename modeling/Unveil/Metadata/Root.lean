import Unveil.Bytes.Basic
import Unveil.Utf8

/-!
The root of the metadata: a signature, a version text, and the directory of
streams. The version text has a length of its own, so the directory can start
at any offset. A stream is a range of the metadata with a name that says what the range
holds.
-/

namespace Unveil

inductive StreamName where
  | strings | userStrings | blobs | guids | tables | looseTables
  deriving DecidableEq, Repr

namespace StreamName

def all : List StreamName := [strings, userStrings, blobs, guids, tables, looseTables]

/-- The name as it is stored. Tables come in two spellings; the loose one
allows tables that redirect member lists. -/
def text : StreamName → String
  | strings => "#Strings"
  | userStrings => "#US"
  | blobs => "#Blob"
  | guids => "#GUID"
  | tables => "#~"
  | looseTables => "#-"

def ofText? (text : String) : Option StreamName :=
  all.find? fun name => name.text == text

end StreamName

/-- The place of a stream, counted from the start of the metadata. -/
structure StreamHeader where
  offset : UInt32
  size : UInt32
  name : StreamName
  deriving DecidableEq, Repr

namespace StreamHeader

/-- A name and the zero byte behind it must fit this many bytes. -/
def nameReach : Nat := 32

def ofData (data : Bytes) : Except Fault StreamHeader := do
  demand (9 ≤ data.size) .outOfBounds
  let name ← data.cut 8 (min data.size (8 + nameReach))
  match name.toList.idxOf? 0 with
  | none => .error (.malformed .unterminatedStreamName)
  | some length =>
    let text := Utf8.decodeLossy (name.toList.take length)
    match StreamName.ofText? text with
    | none => .error (.malformed (.unknownStream text))
    | some name => do
        let offset ← (Scan.u32 data).valueAt 0
        let size ← (Scan.u32 data).valueInside data 4
        pure { offset, size, name }

/-- The bytes that the header takes: its name is ended by a zero byte and
filled up to a multiple of four bytes. -/
def headerSize (header : StreamHeader) : Nat :=
  8 + (header.name.text.utf8ByteSize + 1 + 3) / 4 * 4

end StreamHeader

structure MetadataRoot where
  signature : UInt32
  major : UInt16
  minor : UInt16
  reserved : UInt32
  versionLength : UInt32
  version : String
  flags : UInt16
  streamCount : UInt16
  streams : List StreamHeader
  deriving DecidableEq, Repr

namespace MetadataRoot

def magic : UInt32 := 0x424A5342

def shortestHeader : Nat := 9

/-- Refuses a stream that does not lie inside metadata of the given size. -/
def demandInside (header : StreamHeader) (size : Nat) : Except Fault Unit := do
  let stop := header.offset.toNat + header.size.toNat
  demand (stop < 0x100000000) (.malformed (.streamOverflow header.offset header.size))
  demand (stop ≤ size) .outOfBounds

/-- Reads `left` more stream headers, of which the first starts at `offset`.
Those in `seen`, in reverse, have been read already. -/
def readStreams (front : Bytes) (size : Nat) :
    (left offset : Nat) → (seen : List StreamHeader) → Except Fault (List StreamHeader)
  | 0, _, seen => .ok seen.reverse
  | left + 1, offset, seen => do
      demand (offset ≤ size) .outOfBounds
      let header ← StreamHeader.ofData (← front.rest offset)
      demandInside header size
      demand (seen.all (·.name ≠ header.name))
        (.malformed (.duplicateStream header.name.text))
      readStreams front size left (offset + header.headerSize) (header :: seen)

/-- The version text: one character for each byte before the first zero
byte. -/
def versionText (field : Bytes) : String :=
  String.ofList ((field.toList.takeWhile (· ≠ 0)).map fun byte => Char.ofNat byte.toNat)

/-- Reads the root of metadata of the given size from the bytes in front, as far
as the directory goes. The streams themselves need not be at hand. -/
def ofFront (front : Bytes) (size : Nat) : Except Fault MetadataRoot := do
  demand (36 ≤ size) .outOfBounds
  let signature ← (Scan.u32 front).valueAt 0
  demand (signature = magic) (.malformed (.metadataSignature signature))
  let versionLength ← (Scan.u32 front).valueAt 12
  let versionEnd := 16 + versionLength.toNat
  demand (versionEnd + 4 ≤ size) .outOfBounds
  let version := versionText (← front.cut 16 versionEnd)
  let flags ← (Scan.u16 front).valueAt versionEnd
  let streamCount ← (Scan.u16 front).valueAt (versionEnd + 2)
  demand (streamCount ≠ 0 ∧ streamCount.toNat * shortestHeader ≤ size)
    (.malformed (.streamCount streamCount.toNat))
  let streams ← readStreams front size streamCount.toNat (versionEnd + 4) []
  let major ← (Scan.u16 front).valueInside front 4
  let minor ← (Scan.u16 front).valueInside front 6
  let reserved ← (Scan.u32 front).valueInside front 8
  pure { signature, major, minor, reserved, versionLength, version, flags, streamCount, streams }

def ofData (data : Bytes) : Except Fault MetadataRoot := ofFront data data.size

def stream? (root : MetadataRoot) (name : StreamName) : Option StreamHeader :=
  root.streams.find? (·.name == name)

end MetadataRoot

end Unveil
