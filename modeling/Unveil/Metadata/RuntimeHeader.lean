import Unveil.Bytes.Basic

namespace Unveil

/-- An address range of the loaded image. -/
structure Region where
  address : UInt32
  size : UInt32
  deriving DecidableEq, Repr

namespace Region

def isGiven (region : Region) : Bool := region.address != 0 && region.size != 0

def isHalfGiven (region : Region) : Bool := (region.address == 0) != (region.size == 0)

def scan (data : Bytes) : Scan Region := do
  let address ← Scan.u32 data
  let size ← Scan.u32 data
  pure { address, size }

end Region

structure RuntimeHeader where
  headerSize : UInt32
  major : UInt16
  minor : UInt16
  metadata : Region
  flags : UInt32
  entryPoint : UInt32
  resources : Region
  strongName : Region
  codeManager : Region
  vtableFixups : Region
  exportJumps : Region
  nativeHeader : Region
  deriving DecidableEq, Repr

namespace RuntimeHeader

/-- The size of the header, which it also states. -/
def byteSize : Nat := 72

def metadataLimit : Nat := 0x10000000

def refuseIf (condition : Bool) (defect : Defect) : Scan Unit :=
  if condition then throw (.malformed defect) else pure ()

/-- Reads the fields one after the other. A field that makes no sense is
refused before the next is looked at. Flags without a meaning are kept. -/
def scan (data : Bytes) : Scan RuntimeHeader := do
  let headerSize ← Scan.u32 data
  refuseIf (headerSize.toNat != byteSize) (.runtimeHeaderSize headerSize)
  let major ← Scan.u16 data
  let minor ← Scan.u16 data
  refuseIf (major == 0 || 10 < major.toNat) (.runtimeVersion major)
  let address ← Scan.u32 data
  refuseIf (address == 0) .noMetadataAddress
  let size ← Scan.u32 data
  refuseIf (size == 0) .noMetadataSize
  refuseIf (metadataLimit < size.toNat) (.metadataTooLarge size)
  let flags ← Scan.u32 data
  let entryPoint ← Scan.u32 data
  let resources ← Region.scan data
  refuseIf resources.isHalfGiven .resources
  let strongName ← Region.scan data
  refuseIf strongName.isHalfGiven .strongName
  let codeManager ← Region.scan data
  let vtableFixups ← Region.scan data
  refuseIf vtableFixups.isHalfGiven .vtableFixups
  let exportJumps ← Region.scan data
  let nativeHeader ← Region.scan data
  pure { headerSize, major, minor, metadata := { address, size }, flags, entryPoint,
         resources, strongName, codeManager, vtableFixups, exportJumps, nativeHeader }

def ofData (data : Bytes) : Except Fault RuntimeHeader := do
  demand (byteSize ≤ data.size) .outOfBounds
  (scan data).valueAt 0

def knownFlags (header : RuntimeHeader) : UInt32 := header.flags &&& 0x0003001F

def isIlOnly (header : RuntimeHeader) : Bool := header.flags &&& 0x1 != 0

def isStrongNameSigned (header : RuntimeHeader) : Bool := header.flags &&& 0x8 != 0

/-- Is the entry point an address of machine code rather than a token? -/
def hasNativeEntryPoint (header : RuntimeHeader) : Bool := header.flags &&& 0x10 != 0

end RuntimeHeader

end Unveil
