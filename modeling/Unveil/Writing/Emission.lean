import Unveil.Writing.Words

/-!
New attribute words, put down in two ways. A tables stream can be laid out anew: every
column of every row is written again from its value. The sizes do not change, so each
table must come to lie exactly where it was; that is checked, and nothing is written
that would move a byte.

Or the words are changed in place. The sheet holds the whole image, and only the words
that differ are written, each at the place where its row has it. All rows of a table are
read before its first word is written, and a row that cannot be read is found in the
first of the three tables, so a patch that fails has written nothing.
-/

namespace Unveil

namespace Emission

/-- The header of the stream, and behind it the row counts of the tables
present. The reserved bytes are taken over as they are. -/
def header (stream : TablesStream) : Emit Unit := do
  Emit.number 4 (stream.data.number 0 4)
  Emit.u8 stream.major
  Emit.u8 stream.minor
  Emit.u8 stream.heapFlags
  Emit.number 1 (stream.data.number 7 1)
  Emit.u64 stream.mask
  Emit.u64 stream.sorted
  stream.extents.forM fun (_, extent) => Emit.number 4 extent.rows
  match stream.extra with
  | some extra => Emit.u32 extra
  | none => pure ()
  let found ← Emit.position
  if found ≠ stream.headerSize then
    throw (.malformed (.headerSize found stream.headerSize))

/-- A row with its new word, if it has one that differs, and the count of rows
changed so far. -/
def wordedRow {ρ : Type} [WordedRow ρ] (stream : TablesStream) (words : AttributeWords)
    (changed : Nat) (entry : Entry ρ) : Emit Nat := do
  match entry.changedWord? words with
  | some word => do
      TypedRow.emit stream.sizes (WordedRow.withWord entry.row word)
      pure (changed + 1)
  | none => do
      TypedRow.emit stream.sizes entry.row
      pure changed

def wordedTable (ρ : Type) [WordedRow ρ] (stream : TablesStream) (words : AttributeWords) :
    Emit Nat := do
  let rows ← Emit.lift (stream.rows ρ)
  rows.foldlM (wordedRow stream words) 0

def plainTable (stream : TablesStream) (table : TableId) : Emit Nat := do
  let rows ← Emit.lift (stream.genericRows table)
  rows.forM fun row => row.emit stream.sizes
  pure 0

def tableRows (stream : TablesStream) (words : AttributeWords) : TableId → Emit Nat
  | .typeDef => wordedTable TypeRow stream words
  | .methodDef => wordedTable MethodRow stream words
  | .field => wordedTable FieldRow stream words
  | table => plainTable stream table

def placedTable (stream : TablesStream) (words : AttributeWords)
    (table : TableId) (extent : Extent) : Emit Nat := do
  let start ← Emit.position
  let changed ← tableRows stream words table
  let stop ← Emit.position
  if start ≠ extent.offset ∨ stop - start ≠ extent.size then
    throw (.displacedTable table extent.size (stop - start))
  pure changed

def padding (stream : TablesStream) : Emit Unit := do
  let stop ← Emit.position
  Emit.bytes (← Emit.lift (stream.data.rest stop))

def stream (stream : TablesStream) (words : AttributeWords) : Emit Nat := do
  header stream
  let changed ← stream.extents.foldlM
    (fun changed (table, extent) => do
      pure (changed + (← placedTable stream words table extent)))
    0
  padding stream
  pure changed

/-- The bytes of the stream with new attribute words in it, and the number of
rows changed. -/
def emit (tables : TablesStream) (words : AttributeWords) : Except Fault (Nat × Bytes) :=
  Emit.fill (stream tables words) (.replicate tables.data.size 0)

end Emission

namespace Patch

/-- Writes the new word of a row whose table starts at `start`, if it has one
that differs, and counts it. -/
def row {ρ : Type} [WordedRow ρ] (start : Nat) (words : AttributeWords)
    (changed : Nat) (entry : Entry ρ) : Emit Nat := do
  match entry.changedWord? words with
  | some word => do
      Emit.goTo (start + entry.offset + WordedRow.wordOffset ρ)
      Emit.number (WordedRow.wordWidth ρ) word.toNat
      pure (changed + 1)
  | none => pure changed

def table (ρ : Type) [WordedRow ρ] (base : Nat) (tables : TablesStream)
    (words : AttributeWords) : Emit Nat := do
  match tables.extent? (TypedRow.table ρ) with
  | some extent => do
      let rows ← Emit.lift (tables.rows ρ)
      rows.foldlM (row (base + extent.offset) words) 0
  | none => pure 0

/-- Writes the new words of a tables stream that starts at `base`, and gives
the number of rows changed. -/
def apply (base : Nat) (tables : TablesStream) (words : AttributeWords) : Emit Nat := do
  if (← Emit.size) < base + tables.data.size then
    throw .outOfBounds
  let types ← table TypeRow base tables words
  let methods ← table MethodRow base tables words
  let fields ← table FieldRow base tables words
  pure (types + methods + fields)

end Patch

end Unveil
