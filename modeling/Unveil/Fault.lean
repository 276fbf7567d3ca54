import Unveil.Token
import Unveil.Table.Id

/-!
Everything that can go wrong, by cause. The wording of each cause stands in
`Defect.message`, `Obstacle.message` and `Fault.message` and nowhere else, so
code that finds a fault only says what it found.
-/

namespace Unveil

/-- What is wrong with data that was read, or with values that should be
written into a column. -/
inductive Defect where
  /-- A value is too large for a 2-byte column. -/
  | columnOverflow (value : UInt32)
  /-- A value is too large for a byte column of a row. -/
  | byteOverflow (table : TableId) (row : Nat) (value : UInt32)
  /-- A value is too large for a fixed 2-byte column of a row. -/
  | halfOverflow (table : TableId) (row : Nat) (value : UInt32)
  | valueCount (table : TableId) (row given expected : Nat)
  /-- The generation of a module row is too large for its 2-byte column. -/
  | generationOverflow (generation : UInt32)
  /-- A coded index of this kind cannot refer to the table. -/
  | notATarget (table : TableId) (kind : CodedKind)
  | noTables
  /-- The string heap does not start with the empty string. -/
  | stringHeap
  /-- No terminated, well-formed text starts here. -/
  | stringAt (index : Nat)
  | guidHeap
  /-- No zero byte ends the name of a stream within its reach. -/
  | unterminatedStreamName
  | unknownStream (name : String)
  | metadataSignature (found : UInt32)
  /-- A directory lists no stream, or more than the metadata can hold. -/
  | streamCount (count : Nat)
  /-- A stream's end leaves the 32-bit range. -/
  | streamOverflow (offset size : UInt32)
  | duplicateStream (name : String)
  | runtimeHeaderSize (found : UInt32)
  | runtimeVersion (major : UInt16)
  | noMetadataAddress
  | noMetadataSize
  | metadataTooLarge (size : UInt32)
  /-- Only one of address and size of the resources is given. -/
  | resources
  /-- Only one of address and size of the strong name is given. -/
  | strongName
  /-- Only one of address and size of the vtable fixups is given. -/
  | vtableFixups
  | noRuntimeDirectory
  | noOptionalHeader
  | addressTooLarge (address : Nat)
  /-- A section ends past the 32-bit address space. -/
  | sectionOverflow (address span : UInt32)
  /-- An address lies in a section's part that the file does not store. -/
  | uninitializedAddress (address : Nat)
  /-- An address lies in no section. -/
  | unmappedAddress (address : Nat)
  | bothTablesStreams
  | noTablesStream
  | noStringHeap
  | noModuleRow
  | noGuidHeap
  /-- An attribute word is longer than the two bytes of its column. -/
  | attributeWord (token : Token) (value : UInt32)
  | selfNested (token : Token)
  | nestingCycle (token : Token)
  /-- The header written for a tables stream has another size than the one
  that was read. -/
  | headerSize (found expected : Nat)
  deriving DecidableEq, Repr

/-- What stopped an output file from being written. -/
inductive Obstacle where
  | noFileName (target : String)
  | directory (path : String)
  | temporary (path : String)
  | size
  | mapping
  | flush
  | move (target : String)
  | pastEnd (offset length fileSize : Nat)
  deriving DecidableEq, Repr

/-- A failure of any operation on a module. -/
inductive Fault where
  | malformed (defect : Defect)
  /-- Data ends before what should be read, or room before what should be
  written. -/
  | outOfBounds
  | empty
  /-- A tables stream marks a table as present that the format does not
  define. -/
  | unknownTable (number : Nat)
  | container
  | unreadable
  | unwritable (obstacle : Obstacle)
  /-- A table was written with another extent than the one it was read
  from. -/
  | displacedTable (table : TableId) (expected found : Nat)
  /-- An access that nothing guarded fell outside its data, or a size left
  the 64-bit range. -/
  | trap
  deriving DecidableEq, Repr

def Defect.message : Defect → String
  | columnOverflow value =>
      "Value 0x" ++ Hexadecimal.upper value.toNat ++ " does not fit a 2-byte column"
  | byteOverflow table row value =>
      table.name ++ " row " ++ toString row ++ ": value 0x" ++
        Hexadecimal.upper value.toNat ++ " does not fit a byte column"
  | halfOverflow table row value =>
      table.name ++ " row " ++ toString row ++ ": value 0x" ++
        Hexadecimal.upper value.toNat ++ " does not fit a 2-byte column"
  | valueCount table row given expected =>
      table.name ++ " row " ++ toString row ++ " has " ++ toString given ++
        " values, expected " ++ toString expected
  | generationOverflow generation =>
      "Module generation does not fit a 2-byte column - " ++ toString generation.toNat
  | notATarget table kind =>
      "Table " ++ table.name ++ " is not a target of coded index " ++ kind.name
  | noTables => "No valid rows in any of the tables"
  | stringHeap => "Provided #Strings heap is empty"
  | stringAt index => "Invalid string at index - " ++ toString index
  | guidHeap => "Data for #GUID heap is too small"
  | unterminatedStreamName => "Stream header name is not terminated"
  | unknownStream name => "Invalid stream header name - " ++ name
  | metadataSignature found =>
      "CIL_HEADER_MAGIC does not match - " ++ toString found.toNat
  | streamCount count => "Invalid stream count - " ++ toString count
  | streamOverflow offset size =>
      "Stream offset and size cause integer overflow - " ++
        toString offset.toNat ++ " + " ++ toString size.toNat
  | duplicateStream name => "Duplicate stream - " ++ name
  | runtimeHeaderSize found =>
      "Invalid CLR header size: expected 72, got " ++ toString found.toNat
  | runtimeVersion major => "Invalid major runtime version: " ++ toString major.toNat
  | noMetadataAddress => "Metadata RVA cannot be zero"
  | noMetadataSize => "Metadata size cannot be zero"
  | metadataTooLarge size =>
      "Metadata size " ++ toString size.toNat ++ " exceeds reasonable limit (256MB)"
  | resources => "Resource values are invalid"
  | strongName => "Strong name values are invalid"
  | vtableFixups => "VTable fixups are invalid"
  | noRuntimeDirectory => "File does not have a CLR runtime header directory"
  | noOptionalHeader => "File does not have an OptionalHeader"
  | addressTooLarge address => "RVA too large to fit in u32: " ++ toString address
  | sectionOverflow address span =>
      "Section malformed, causing integer overflow - " ++
        toString address.toNat ++ " + " ++ toString span.toNat
  | uninitializedAddress address =>
      "RVA 0x" ++ Hexadecimal.lower address ++ " points into uninitialized section data"
  | unmappedAddress address =>
      "RVA could not be converted to offset - " ++ toString address
  | bothTablesStreams => "Both #~ and #- tables streams are present"
  | noTablesStream => "No tables stream present"
  | noStringHeap => "No #Strings heap present"
  | noModuleRow => "Module table is missing or empty"
  | noGuidHeap => "Module MVID set without a #GUID heap"
  | attributeWord token value =>
      token.text ++ ": attribute word 0x" ++ Hexadecimal.upper value.toNat
  | selfNested token => token.text ++ " is nested inside itself"
  | nestingCycle token => "Nesting cycle through " ++ token.text
  | headerSize found expected =>
      "Re-emitted tables header has " ++ toString found ++ " bytes, expected " ++
        toString expected

/-- The text of an obstacle. Of what the operating system said only the
failed step is kept. -/
def Obstacle.message : Obstacle → String
  | noFileName target => target ++ " does not name a file"
  | directory path => "Failed to create directory " ++ path
  | temporary path => "Failed to create " ++ path
  | size => "Failed to set file size"
  | mapping => "Failed to create memory mapping"
  | flush => "Failed to flush memory mapping"
  | move target => "Failed to move output to " ++ target
  | pastEnd offset length fileSize =>
      "Write would exceed file size: offset=" ++ toString offset ++ ", len=" ++
        toString length ++ ", file_size=" ++ toString fileSize

def Fault.message : Fault → String
  | malformed defect => defect.message
  | outOfBounds => "Out of Bound read would have occurred!"
  | empty => "Provided input was empty"
  | unknownTable number =>
      "Unknown metadata table - 0x" ++
        Hexadecimal.padded 2 (Hexadecimal.upper number)
  | container => "not a portable executable"
  | unreadable => "cannot be read"
  | unwritable obstacle => obstacle.message
  | displacedTable table expected found =>
      "Re-emitted " ++ table.name ++ " occupies " ++ toString found ++
        " bytes, layout reserves " ++ toString expected
  | trap => "unguarded access"

/-- Goes on only where a condition holds, and stops with a fault where it does
not. -/
def demand (condition : Prop) [Decidable condition] (fault : Fault) : Except Fault Unit :=
  if condition then .ok () else .error fault

end Unveil
