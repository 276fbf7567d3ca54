import Unveil.Table.View

namespace Unveil

/-- Where a table lies in its stream. -/
structure Extent where
  offset : Nat
  rowSize : Nat
  rows : Nat
  deriving DecidableEq, Repr

namespace Extent

def size (extent : Extent) : Nat := extent.rowSize * extent.rows

def rowOffset? (extent : Extent) (rid : Nat) : Option Nat :=
  if rid = 0 ∨ extent.rows < rid then
    none
  else
    some (extent.offset + (rid - 1) * extent.rowSize)

end Extent

structure TablesStream where
  data : Bytes
  major : UInt8
  minor : UInt8
  heapFlags : UInt8
  mask : UInt64
  sorted : UInt64
  sizes : Sizes
  extra : Option UInt32
  headerSize : Nat
  extents : List (TableId × Extent)

namespace TablesStream

/-- The heap flag that announces one more word behind the row counts. -/
def extraFlag : UInt8 := 0x40

def bitCount (mask : UInt64) : Nat :=
  (List.range 64).countP mask.toNat.testBit

/-- The lowest mark that belongs to no table. -/
def unknownBit? (mask : UInt64) : Option Nat :=
  (List.range 64).find? fun bit => TableId.count ≤ bit && mask.toNat.testBit bit

/-- The word behind the row counts, if the heap flags announce one, and where
the first table starts. -/
def scanExtra (data : Bytes) (heapFlags : UInt8) (offset : Nat) :
    Except Fault (Option UInt32 × Nat) :=
  if heapFlags &&& extraFlag != 0 then do
    demand (offset + 4 ≤ data.size) .outOfBounds
    let extra ← (Scan.u32 data).valueInside data offset
    pure (some extra, offset + 4)
  else
    .ok (none, offset)

/-- Gives every table the place behind the one before it. A table that would
end past `limit` is refused. -/
def place (sizes : Sizes) (limit : Nat) :
    (offset : Nat) → List TableId → Except Fault (List (TableId × Extent))
  | _, [] => .ok []
  | offset, table :: others => do
      let extent : Extent := ⟨offset, sizes.rowSize table, sizes.rows table⟩
      let stop := offset + extent.size
      demand (stop ≤ limit) .outOfBounds
      let placed ← place sizes limit stop others
      pure ((table, extent) :: placed)

def ofData (data : Bytes) : Except Fault TablesStream := do
  demand (24 ≤ data.size) .outOfBounds
  let mask ← (Scan.u64 data).valueInside data 8
  demand (mask ≠ 0) (.malformed .noTables)
  match unknownBit? mask with
  | some bit => .error (.unknownTable bit)
  | none =>
    let heapFlags ← (Scan.u8 data).valueInside data 6
    let sizes ← Sizes.read data mask
    let (extra, headerSize) ← scanExtra data heapFlags (24 + 4 * bitCount mask)
    let extents ← place sizes data.size headerSize (Sizes.present mask)
    let major ← (Scan.u8 data).valueInside data 4
    let minor ← (Scan.u8 data).valueInside data 5
    let sorted ← (Scan.u64 data).valueInside data 16
    pure { data, major, minor, heapFlags, mask, sorted, sizes, extra, headerSize, extents }

def tableCount (stream : TablesStream) : Nat := bitCount stream.mask

def extent? (stream : TablesStream) (table : TableId) : Option Extent :=
  stream.extents.lookup table

def hasTable (stream : TablesStream) (table : TableId) : Bool :=
  (stream.extent? table).isSome

/-- The row count of a table, which is zero if it is not present. -/
def rowCount (stream : TablesStream) (table : TableId) : Nat :=
  match stream.extent? table with
  | some extent => extent.rows
  | none => 0

/-- The end of the last table, or of the header if there is none. -/
def tablesEnd (stream : TablesStream) : Nat :=
  stream.extents.foldl
    (fun reached (_, extent) => max reached (extent.offset + extent.size))
    stream.headerSize

def view? (stream : TablesStream) (ρ : Type) [TypedRow ρ] :
    Except Fault (Option (TableView ρ)) :=
  match stream.extent? (TypedRow.table ρ) with
  | none => .ok none
  | some extent => do
      let data ← stream.data.rest extent.offset
      pure (TableView.ofData ρ data extent.rows stream.sizes).toOption

def rows (stream : TablesStream) (ρ : Type) [TypedRow ρ] :
    Except Fault (List (Entry ρ)) := do
  match ← stream.view? ρ with
  | some table => table.rows
  | none => pure []

def genericRows (stream : TablesStream) (table : TableId) :
    Except Fault (List GenericRow) :=
  match stream.extent? table with
  | none => .ok []
  | some extent =>
      ((List.range' 1 extent.rows).mapM
        (GenericRow.scan stream.sizes table stream.data)).valueAt extent.offset

end TablesStream

end Unveil
