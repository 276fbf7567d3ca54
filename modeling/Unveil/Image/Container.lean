import Unveil.Metadata.RuntimeHeader
import Unveil.Utf8

/-!
The container of a module: a portable executable. Only what leads to the
metadata is looked at, and the entries on the way are checked as far as a
loader would follow them. A container that fails any check is refused as a
whole.
-/

namespace Unveil

/-- A stretch of the file that is mapped to a stretch of the loaded image. The
two may differ in length. -/
structure Section where
  name : Bytes
  virtualSize : UInt32
  virtualAddress : UInt32
  rawSize : UInt32
  rawPointer : UInt32
  deriving DecidableEq, Repr

/-- The part of the headers that only executables have. -/
structure OptionalHeader where
  fileAlignment : UInt32
  checksum : UInt32
  directories : List Region
  deriving DecidableEq, Repr

/-- The directory with a given number. One that is all zero, or past the
stated count, is absent. -/
def OptionalHeader.directory? (header : OptionalHeader) (index : Nat) : Option Region :=
  header.directories[index]?.filter fun region => region.address != 0 || region.size != 0

structure Container where
  /-- Where the file header starts. -/
  start : Nat
  optional : Option OptionalHeader
  sections : List Section
  deriving DecidableEq, Repr

namespace Container

def check (condition : Prop) [Decidable condition] : Except Fault Unit :=
  demand condition .container

def number (data : Bytes) (offset width : Nat) : Except Fault Nat := do
  check (offset + width ≤ data.size)
  pure (data.number offset width)

def u32 (data : Bytes) (offset : Nat) : Except Fault UInt32 :=
  UInt32.ofNat <$> number data offset 4

/-- The distance of the checksum from the start of the optional header. -/
def checksumDistance : Nat := 64

/-- The directory that leads to the runtime header. -/
def runtimeIndex : Nat := 14

/-- The directory that lists certificates. It alone holds a file offset. -/
def certificateIndex : Nat := 4

/-- Reads the optional header. Its two forms differ in where the directories
are. -/
def readOptional (data : Bytes) (start : Nat) : Except Fault OptionalHeader := do
  let magic ← number data start 2
  check (magic = 0x10B ∨ magic = 0x20B)
  let countAt := start + (if magic = 0x10B then 92 else 108)
  let count ← number data countAt 4
  check (count ≤ 16)
  let directories ← (List.range count).mapM fun index => do
    let address ← u32 data (countAt + 4 + index * 8)
    let size ← u32 data (countAt + 8 + index * 8)
    pure (Region.mk address size)
  let fileAlignment ← u32 data (start + 36)
  let checksum ← u32 data (start + checksumDistance)
  pure { fileAlignment, checksum, directories }

def isDigit64 (byte : UInt8) : Bool :=
  (0x41 ≤ byte && byte ≤ 0x5A) || (0x61 ≤ byte && byte ≤ 0x7A) || (0x30 ≤ byte && byte ≤ 0x39) ||
    byte == 0x2B || byte == 0x2F

/-- May a section have this name? A slash in front announces a decimal
number, and two announce one with the base 64. -/
def isSectionName (name : Bytes) : Bool :=
  match name.toList.takeWhile (· ≠ 0) with
  | 0x2F :: 0x2F :: digits => digits.all isDigit64
  | 0x2F :: digits =>
      let digits := if digits.head? = some 0x2B then digits.drop 1 else digits
      !digits.isEmpty && digits.all fun digit => 0x30 ≤ digit && digit ≤ 0x39
  | _ => true

def readSection (data : Bytes) (offset : Nat) : Except Fault Section := do
  check (offset + 40 ≤ data.size)
  let name ← data.cut offset (offset + 8)
  check (isSectionName name)
  let virtualSize ← u32 data (offset + 8)
  let virtualAddress ← u32 data (offset + 12)
  let rawSize ← u32 data (offset + 16)
  let rawPointer ← u32 data (offset + 20)
  pure { name, virtualSize, virtualAddress, rawSize, rawPointer }

def roundUp (n unit : Nat) : Nat := (n + unit - 1) / unit * unit

/-- How much of a section a loader maps: its stored bytes up to the next
aligned file offset, but not more pages than it stores or asks for. -/
def mappedLength (alignment : Nat) (area : Section) : Nat :=
  let pointer := area.rawPointer.toNat
  let raw := area.rawSize.toNat
  let virtual := area.virtualSize.toNat
  if raw = 0 then
    0
  else
    let stored := min
      (roundUp (pointer + raw) alignment - pointer / 0x200 * 0x200)
      (roundUp raw 0x1000)
    if virtual = 0 then stored else min stored (roundUp virtual 0x1000)

/-- The file offset that a loader finds for an address. -/
def find (alignment : Nat) (sections : List Section) (address : Nat) :
    Except Fault Nat := do
  check (alignment ≠ 0 ∧ 1 <<< alignment.log2 = alignment)
  let home := sections.find? fun area =>
    area.virtualAddress.toNat ≤ address &&
      address < area.virtualAddress.toNat + mappedLength alignment area
  match home with
  | some area => pure (area.rawPointer.toNat + (address - area.virtualAddress.toNat))
  | none => .error .container

/-- Follows the runtime directory as far as the end of the version text. -/
def checkRuntime (data : Bytes) (alignment : Nat) (sections : List Section)
    (runtime : Region) : Except Fault Unit := do
  let header ← find alignment sections runtime.address.toNat
  check (header + 72 ≤ data.size)
  let address ← number data (header + 8) 4
  let size ← number data (header + 12) 4
  let metadata ← find alignment sections address
  check (metadata + 4 ≤ data.size)
  check (metadata + size ≤ data.size)
  let length ← number data (metadata + 12) 4
  check (metadata + 16 + length ≤ data.size)
  let version ← data.cut (metadata + 16) (metadata + 16 + length)
  check ((Utf8.decode? version.toList).isSome = true)
  check (metadata + 16 + length + 4 ≤ data.size)

/-- Goes through the certificates between two file offsets. Each starts at a
multiple of eight bytes behind the one before it. -/
def checkCertificates (data : Bytes) (offset stop : Nat) : Except Fault Unit := do
  if offset < stop then
    let length ← number data offset 4
    let revision ← number data (offset + 4) 2
    let kind ← number data (offset + 6) 2
    check (revision = 0x100 ∨ revision = 0x200)
    check (1 ≤ kind ∧ kind ≤ 4)
    check (offset + 8 + (length - 8) ≤ data.size)
    checkCertificates data (roundUp (offset + 8 + (length - 8)) 8) stop
  else
    pure ()
termination_by stop - offset
decreasing_by
  simp only [roundUp]
  omega

/-- Reads a container. -/
def ofData (data : Bytes) : Except Fault Container := do
  check ((← number data 0 2) = 0x5A4D)
  check (0x40 ≤ data.size)
  let start ← number data 0x3C 4
  check ((← number data start 4) = 0x00004550)
  check (0x40 ≤ start)
  check (start + 24 ≤ data.size)
  let sectionCount ← number data (start + 6) 2
  let optionalSize ← number data (start + 20) 2
  let optional ←
    if optionalSize = 0 then pure none else some <$> readOptional data (start + 24)
  check (sectionCount ≤ data.size / 40)
  let sections ← (List.range sectionCount).mapM fun index =>
    readSection data (start + 24 + optionalSize + index * 40)
  match optional with
  | none => pure ()
  | some header => do
      match header.directory? runtimeIndex with
      | none => pure ()
      | some runtime =>
          checkRuntime data header.fileAlignment.toNat sections runtime
      match header.directory? certificateIndex with
      | none => pure ()
      | some certificates => do
          let first := certificates.address.toNat
          let stop := first + certificates.size.toNat
          check (stop ≤ data.size)
          checkCertificates data first stop
  pure { start, optional, sections }

/-- Tells which files are containers. -/
class Reader where
  read : Bytes → Except Fault Container

instance (priority := low) portable : Reader := ⟨ofData⟩

end Container

end Unveil
