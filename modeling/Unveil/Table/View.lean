import Unveil.Bytes.Basic
import Unveil.Table.Column
import Unveil.Table.Row

/-!
A table as a stretch of bytes with a row count. Its rows can be read all at
once, one by one until the first that cannot be read, or each on its own. A row of any
table can also be taken as plain column values and carried over value by value, whatever
they mean.
-/

namespace Unveil

structure GenericRow where
  table : TableId
  rid : Nat
  values : List UInt32
  deriving DecidableEq, Repr

namespace GenericRow

def scanValues (sizes : Sizes) (table : TableId) (data : Bytes) : Scan (List UInt32) :=
  table.columns.mapM fun column =>
    UInt32.ofNat <$> Scan.number data (column.width sizes)

def scan (sizes : Sizes) (table : TableId) (data : Bytes) (rid : Nat) :
    Scan GenericRow := do
  let values ← scanValues sizes table data
  pure ⟨table, rid, values⟩

def emitValue (sizes : Sizes) (table : TableId) (rid : Nat) (column : Column)
    (value : UInt32) : Emit Unit :=
  match column with
  | .byte =>
      if value.toNat < 0x100 then Emit.number 1 value.toNat
      else throw (.malformed (.byteOverflow table rid value))
  | .half =>
      if value.toNat < 0x10000 then Emit.number 2 value.toNat
      else throw (.malformed (.halfOverflow table rid value))
  | .word => Emit.u32 value
  | other => Emit.column (other.width sizes == 4) value

/-- Writes a row. A row whose values do not match its columns in number is
refused before anything is written. -/
def emit (sizes : Sizes) (row : GenericRow) : Emit Unit :=
  let columns := row.table.columns
  if columns.length ≠ row.values.length then
    throw (.malformed
      (.valueCount row.table row.rid row.values.length columns.length))
  else
    (columns.zip row.values).forM fun (column, value) =>
      emitValue sizes row.table row.rid column value

end GenericRow

structure TableView (ρ : Type) where
  data : Bytes
  count : Nat
  sizes : Sizes

namespace TableView

variable {ρ : Type} [TypedRow ρ]

/-- The table that takes the first bytes of `data`, which must hold all its
rows. -/
def ofData (ρ : Type) [TypedRow ρ] (data : Bytes) (count : Nat) (sizes : Sizes) :
    Except Fault (TableView ρ) :=
  if data.size < count * TypedRow.size ρ sizes then
    .error .outOfBounds
  else
    .ok ⟨data, count, sizes⟩

def rowSize (table : TableView ρ) : Nat := TypedRow.size ρ table.sizes

def size (table : TableView ρ) : Nat := table.count * table.rowSize

/-- The row with a given number, counted from one, if there is one and it can
be read. -/
def row? (table : TableView ρ) (rid : Nat) : Option (Entry ρ) :=
  if rid = 0 ∨ table.count < rid then
    none
  else
    ((Entry.scan ρ table.sizes table.data rid).valueAt
      ((rid - 1) * table.rowSize)).toOption

/-- Every row, or the fault of the first that cannot be read. -/
def rows (table : TableView ρ) : Except Fault (List (Entry ρ)) :=
  ((List.range' 1 table.count).mapM
    (Entry.scan ρ table.sizes table.data)).valueAt 0

/-- The rows before the first that cannot be read. -/
def readable (table : TableView ρ) : List (Entry ρ) :=
  go table.count 1 0 []
where
  /-- Goes on with row `rid` at `offset`, at most `left` rows. -/
  go : (left rid offset : Nat) → List (Entry ρ) → List (Entry ρ)
    | 0, _, _, seen => seen.reverse
    | left + 1, rid, offset, seen =>
        match Entry.scan ρ table.sizes table.data rid offset with
        | .ok entry next => go left (rid + 1) next (entry :: seen)
        | .error _ _ => seen.reverse

end TableView

end Unveil
