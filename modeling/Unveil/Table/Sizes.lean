import Unveil.Bytes.Basic

/-!
The row counts and heap flags of a tables stream, and the widths of columns
that follow from them. A column that refers to rows or heap entries is two
bytes wide as long as two bytes can name every row or entry, and four bytes
wide otherwise, so nothing in a tables stream can be found before these are
known.
-/

namespace Unveil

/-- What fixes the width of every column. A table that the stream does not
mark as present has no count, which is not the same as a count of zero. -/
structure Sizes where
  counts : Vector (Option Nat) TableId.count
  wideStrings : Bool
  wideGuids : Bool
  wideBlobs : Bool
  deriving DecidableEq, Repr

namespace Sizes

/-- The sizes for given row counts. Of the heap flags the three low bits widen
the indexes into strings, GUIDs and blobs. -/
def ofCounts (count? : TableId → Option Nat) (heapFlags : UInt8) : Sizes where
  counts := Vector.ofFn fun number => count? (TableId.ofFin number)
  wideStrings := heapFlags &&& 1 != 0
  wideGuids := heapFlags &&& 2 != 0
  wideBlobs := heapFlags &&& 4 != 0

def count? (sizes : Sizes) (table : TableId) : Option Nat :=
  sizes.counts.get ⟨table.number, table.number_lt⟩

def rows (sizes : Sizes) (table : TableId) : Nat := (sizes.count? table).getD 0

/-- The bits that a row number of the table takes. A table that is present but
empty is given one bit, one that is not present none. -/
def rowBits (sizes : Sizes) (table : TableId) : Nat :=
  match sizes.count? table with
  | none => 0
  | some 0 => 1
  | some rows => rows.log2 + 1

def isWide (sizes : Sizes) (table : TableId) : Bool := 0xFFFF < sizes.rows table

/-- The width of a column that refers to rows of one table. -/
def rowIndexWidth (sizes : Sizes) (table : TableId) : Nat :=
  if 16 < sizes.rowBits table then 4 else 2

/-- The bits that a coded index takes: those of its tag and those of the
longest row number among its targets. -/
def codedBits (sizes : Sizes) (kind : CodedKind) : Nat :=
  (kind.targets.map sizes.rowBits).foldl max 0 + kind.tagBits

def codedWidth (sizes : Sizes) (kind : CodedKind) : Nat :=
  if 16 < sizes.codedBits kind then 4 else 2

def stringWidth (sizes : Sizes) : Nat := if sizes.wideStrings then 4 else 2

def guidWidth (sizes : Sizes) : Nat := if sizes.wideGuids then 4 else 2

def blobWidth (sizes : Sizes) : Nat := if sizes.wideBlobs then 4 else 2

def present (mask : UInt64) : List TableId :=
  TableId.all.filter fun table => mask.toNat.testBit table.number

def scanCounts (data : Bytes) (tables : List TableId) : Scan (List (TableId × Nat)) :=
  tables.mapM fun table => do
    let rows ← Scan.u32 data
    pure (table, rows.toNat)

/-- The sizes that a tables stream with a given presence mask states. The row
counts stand behind the 24 bytes of the fixed header, the heap flags in byte
six of it. -/
def read (data : Bytes) (mask : UInt64) : Except Fault Sizes := do
  let counts ← (scanCounts data (present mask)).valueAt 24
  let flags ← (Scan.u8 data).valueInside data 6
  pure (ofCounts (fun table => counts.lookup table) flags)

end Sizes

end Unveil
