import Unveil.Proofs.Table.Transcript

/-!
Structured rows and generic rows of one format. A structured row has a cell for
each column of its table, which holds the value of the column or, for a coded
index, the reference it stands for. `Cellular` says that this is all there is
in the row, and that it is written as these columns; so the row is as long as a
generic row, is read from the same bytes and written as the same bytes.
-/

namespace Unveil

/-- What a structured row has in place of a column. -/
inductive Cell where
  | value (number : UInt32)
  | reference (index : CodedIndex)
  deriving DecidableEq, Repr

/-- A word as a column of two widths, of which it has the greater. -/
theorem Sizes.width_word (sizes : Sizes) :
    Column.word.width sizes = if true then 4 else 2 := rfl

namespace Column

/-- What a number in a column says. -/
def cell : Column → UInt32 → Except Fault Cell
  | coded kind, number => Cell.reference <$> CodedIndex.decode kind number
  | _, number => .ok (.value number)

def isCoded : Column → Bool
  | coded _ => true
  | _ => false

/-- What the numbers in some columns say, or the fault of the first that says
nothing. -/
def cells (columns : List Column) (values : List UInt32) : Except Fault (List Cell) :=
  (columns.zip values).mapM fun (column, value) => column.cell value

variable {sizes : Sizes} {column : Column} {columns : List Column} {value : UInt32}
  {values : List UInt32} {wide : Bool} {rest : Emit Unit}

theorem emitAll_cons : emitAll sizes (column :: columns) (value :: values) =
    (Emit.number (column.width sizes) value.toNat >>= fun _ => emitAll sizes columns values) :=
  rfl

theorem emit_last (hwidth : column.width sizes = if wide then 4 else 2)
    (hfits : column.Fits sizes value) :
    Emit.column wide value = emitAll sizes [column] [value] := by
  rw [emit_of_fits hwidth hfits, emitAll_cons]
  exact (bind_pure _).symm

theorem emit_then (hwidth : column.width sizes = if wide then 4 else 2)
    (hfits : column.Fits sizes value) (hrest : rest = emitAll sizes columns values) :
    (Emit.column wide value >>= fun _ => rest) =
      emitAll sizes (column :: columns) (value :: values) := by
  rw [emit_of_fits hwidth hfits, emitAll_cons, hrest]

/-- Where no column is coded, any numbers say something. -/
theorem exists_cells (hplain : ∀ column ∈ columns, column.isCoded = false)
    (values : List UInt32) : ∃ found, cells columns values = .ok found := by
  apply Except.exists_mapM
  rintro ⟨column, value⟩ hmem
  have hcolumn := hplain column (List.of_mem_zip hmem).1
  cases column with
  | coded kind => cases hcolumn
  | byte => exact ⟨_, rfl⟩
  | half => exact ⟨_, rfl⟩
  | word => exact ⟨_, rfl⟩
  | string => exact ⟨_, rfl⟩
  | guid => exact ⟨_, rfl⟩
  | blob => exact ⟨_, rfl⟩
  | row table => exact ⟨_, rfl⟩

end Column

/-- A structured row as the cells of its columns. -/
class Cellular (ρ : Type) [TypedRow ρ] [Schema ρ] where
  cells : ρ → List Cell
  cells_eq {values : List UInt32} (hlength : values.length = (TypedRow.table ρ).columns.length) :
    cells <$> (Schema.ofValues values : Except Fault ρ) =
      Column.cells (TypedRow.table ρ).columns values
  emit_eq {sizes : Sizes} {values : List UInt32} {row : ρ}
    (hfits : List.Forall₂ (Column.Fits sizes) (TypedRow.table ρ).columns values)
    (hrow : Schema.ofValues values = .ok row) :
    TypedRow.emit sizes row = Column.emitAll sizes (TypedRow.table ρ).columns values

/-- A row without a coded index is made of any numbers. -/
theorem Cellular.exists_row {ρ : Type} [TypedRow ρ] [Schema ρ] [Cellular ρ]
    (hplain : ∀ column ∈ (TypedRow.table ρ).columns, column.isCoded = false)
    {values : List UInt32} (hlength : values.length = (TypedRow.table ρ).columns.length) :
    ∃ row : ρ, Schema.ofValues values = .ok row := by
  obtain ⟨found, hfound⟩ := Column.exists_cells hplain values
  obtain ⟨row, hrow, -⟩ := Except.map_eq_ok.mp ((cells_eq hlength).trans hfound)
  exact ⟨row, hrow⟩

instance : Cellular ModuleRow where
  cells row :=
    [.value row.generation, .value row.name, .value row.mvid, .value row.encId,
      .value row.encBaseId]
  cells_eq {values} hlength := by
    match values, hlength with
    | [_, _, _, _, _], _ => rfl
  emit_eq {sizes values row} hfits hrow := by
    rcases hfits with _ | ⟨hgeneration, _ | ⟨hname, _ | ⟨hmvid, _ | ⟨hencId, _ |
      ⟨hencBaseId, ⟨⟩⟩⟩⟩⟩⟩
    cases hrow
    have hbound : _ < 0x10000 := Column.fits_iff.mp hgeneration
    simp only [TypedRow.emit, hbound, ↓reduceIte]
    rw [Column.emit_then rfl hname <| Column.emit_then rfl hmvid <|
      Column.emit_then rfl hencId <| Column.emit_last rfl hencBaseId]
    rfl

instance : Cellular TypeRow where
  cells row :=
    [.value row.flags, .value row.name, .value row.space, .reference row.base,
      .value row.fieldList, .value row.methodList]
  cells_eq {values} hlength := by
    match values, hlength with
    | [_, _, _, base, _, _], _ =>
        change _ <$> (CodedIndex.decode .typeDefOrRef base >>= _) =
          (do let cell ← Cell.reference <$> CodedIndex.decode .typeDefOrRef base; _)
        cases CodedIndex.decode .typeDefOrRef base with
        | ok index => rfl
        | error fault => rfl
  emit_eq {sizes values row} hfits hrow := by
    rcases hfits with _ | ⟨hflags, _ | ⟨hname, _ | ⟨hspace, _ | ⟨hbase, _ | ⟨hfieldList, _ |
      ⟨hmethodList, ⟨⟩⟩⟩⟩⟩⟩⟩
    obtain ⟨index, hindex, hrow⟩ := Except.bind_eq_ok.mp hrow
    cases hrow
    have hencode := CodedIndex.encode_of_decode (by decide) hindex
    simp only [TypedRow.emit, CodedIndex.emit, hencode]
    exact Column.emit_then sizes.width_word hflags <| Column.emit_then rfl hname <|
      Column.emit_then rfl hspace <| Column.emit_then (sizes.codedWidth_eq _) hbase <|
      Column.emit_then (sizes.rowIndexWidth_eq _) hfieldList <|
      Column.emit_last (sizes.rowIndexWidth_eq _) hmethodList

instance : Cellular FieldPointerRow where
  cells row := [.value row.field]
  cells_eq {values} hlength := by
    match values, hlength with
    | [_], _ => rfl
  emit_eq {sizes values row} hfits hrow := by
    rcases hfits with _ | ⟨hfield, ⟨⟩⟩
    cases hrow
    exact Column.emit_last (sizes.rowIndexWidth_eq _) hfield

instance : Cellular FieldRow where
  cells row := [.value row.flags, .value row.name, .value row.signature]
  cells_eq {values} hlength := by
    match values, hlength with
    | [_, _, _], _ => rfl
  emit_eq {sizes values row} hfits hrow := by
    rcases hfits with _ | ⟨hflags, _ | ⟨hname, _ | ⟨hsignature, ⟨⟩⟩⟩⟩
    cases hrow
    exact Column.emit_then rfl hflags <| Column.emit_then rfl hname <|
      Column.emit_last rfl hsignature

instance : Cellular MethodPointerRow where
  cells row := [.value row.method]
  cells_eq {values} hlength := by
    match values, hlength with
    | [_], _ => rfl
  emit_eq {sizes values row} hfits hrow := by
    rcases hfits with _ | ⟨hmethod, ⟨⟩⟩
    cases hrow
    exact Column.emit_last (sizes.rowIndexWidth_eq _) hmethod

instance : Cellular MethodRow where
  cells row :=
    [.value row.address, .value row.implFlags, .value row.flags, .value row.name,
      .value row.signature, .value row.paramList]
  cells_eq {values} hlength := by
    match values, hlength with
    | [_, _, _, _, _, _], _ => rfl
  emit_eq {sizes values row} hfits hrow := by
    rcases hfits with _ | ⟨haddress, _ | ⟨himplFlags, _ | ⟨hflags, _ | ⟨hname, _ |
      ⟨hsignature, _ | ⟨hparamList, ⟨⟩⟩⟩⟩⟩⟩⟩
    cases hrow
    exact Column.emit_then sizes.width_word haddress <| Column.emit_then rfl himplFlags <|
      Column.emit_then rfl hflags <| Column.emit_then rfl hname <|
      Column.emit_then rfl hsignature <| Column.emit_last (sizes.rowIndexWidth_eq _) hparamList

instance : Cellular NestingRow where
  cells row := [.value row.nested, .value row.enclosing]
  cells_eq {values} hlength := by
    match values, hlength with
    | [_, _], _ => rfl
  emit_eq {sizes values row} hfits hrow := by
    rcases hfits with _ | ⟨hnested, _ | ⟨henclosing, ⟨⟩⟩⟩
    cases hrow
    exact Column.emit_then (sizes.rowIndexWidth_eq _) hnested <|
      Column.emit_last (sizes.rowIndexWidth_eq _) henclosing

/-- The tables whose rows are read as structures. -/
inductive TypedTable where
  | module | typeDef | fieldPtr | field | methodPtr | methodDef | nestedClass
  deriving DecidableEq, Repr

namespace TypedTable

/-- The rows of a table as structures. -/
def Row : TypedTable → Type
  | module => ModuleRow
  | typeDef => TypeRow
  | fieldPtr => FieldPointerRow
  | field => FieldRow
  | methodPtr => MethodPointerRow
  | methodDef => MethodRow
  | nestedClass => NestingRow

instance (kind : TypedTable) : TypedRow kind.Row :=
  match kind with
  | module => inferInstanceAs (TypedRow ModuleRow)
  | typeDef => inferInstanceAs (TypedRow TypeRow)
  | fieldPtr => inferInstanceAs (TypedRow FieldPointerRow)
  | field => inferInstanceAs (TypedRow FieldRow)
  | methodPtr => inferInstanceAs (TypedRow MethodPointerRow)
  | methodDef => inferInstanceAs (TypedRow MethodRow)
  | nestedClass => inferInstanceAs (TypedRow NestingRow)

instance (kind : TypedTable) : Schema kind.Row :=
  match kind with
  | module => inferInstanceAs (Schema ModuleRow)
  | typeDef => inferInstanceAs (Schema TypeRow)
  | fieldPtr => inferInstanceAs (Schema FieldPointerRow)
  | field => inferInstanceAs (Schema FieldRow)
  | methodPtr => inferInstanceAs (Schema MethodPointerRow)
  | methodDef => inferInstanceAs (Schema MethodRow)
  | nestedClass => inferInstanceAs (Schema NestingRow)

instance (kind : TypedTable) : Cellular kind.Row :=
  match kind with
  | module => inferInstanceAs (Cellular ModuleRow)
  | typeDef => inferInstanceAs (Cellular TypeRow)
  | fieldPtr => inferInstanceAs (Cellular FieldPointerRow)
  | field => inferInstanceAs (Cellular FieldRow)
  | methodPtr => inferInstanceAs (Cellular MethodPointerRow)
  | methodDef => inferInstanceAs (Cellular MethodRow)
  | nestedClass => inferInstanceAs (Cellular NestingRow)

/-- Which table it is. -/
def table (kind : TypedTable) : TableId := TypedRow.table kind.Row

/-- The row of a type cannot be read if the tag of its base, which is the
fourth column, stands for no table. -/
def Refuses (kind : TypedTable) (values : List UInt32) : Prop :=
  kind = .typeDef ∧ ∃ base, values[3]? = some base ∧ base.toNat % 4 = 3

theorem ofValues_cases (kind : TypedTable) {values : List UInt32}
    (hlength : values.length = kind.table.columns.length) :
    (¬ kind.Refuses values ∧ ∃ row : kind.Row, Schema.ofValues values = .ok row) ∨
      (kind.Refuses values ∧
        (Schema.ofValues values : Except Fault kind.Row) = .error .outOfBounds) := by
  have hplain (hkind : kind ≠ .typeDef)
      (hcolumns : ∀ column ∈ kind.table.columns, column.isCoded = false) :
      ¬ kind.Refuses values ∧ ∃ row : kind.Row, Schema.ofValues values = .ok row :=
    ⟨fun hrefuses => hkind hrefuses.1, Cellular.exists_row hcolumns hlength⟩
  cases kind with
  | typeDef =>
      match values, hlength with
      | [_, _, _, base, _, _], _ =>
          rcases CodedIndex.decode_typeDefOrRef base with
            ⟨hvalid, index, hindex⟩ | ⟨hinvalid, hfault⟩
          · left
            constructor
            · rintro ⟨-, other, hother, htag⟩
              cases hother
              omega
            · exact ⟨_, Except.bind_eq_ok.mpr ⟨index, hindex, rfl⟩⟩
          · right
            constructor
            · exact ⟨rfl, base, rfl, by omega⟩
            · exact Except.bind_eq_error.mpr (Or.inl hfault)
  | module => exact Or.inl (hplain (by decide) (by decide))
  | fieldPtr => exact Or.inl (hplain (by decide) (by decide))
  | field => exact Or.inl (hplain (by decide) (by decide))
  | methodPtr => exact Or.inl (hplain (by decide) (by decide))
  | methodDef => exact Or.inl (hplain (by decide) (by decide))
  | nestedClass => exact Or.inl (hplain (by decide) (by decide))

/-- The structured rows of a table and its generic rows are of one format. They
are of one length, and wherever a row is there both are read from exactly its
bytes: the structured row has what the values of the generic one say, column by
column, and it is refused only for a base that refers to no table. Both are
written alike on any sheet, and where there is room, as the bytes they were
read from. -/
theorem same_format (kind : TypedTable) (sizes : Sizes) :
    TypedRow.size kind.Row sizes = sizes.rowSize kind.table ∧
    ∀ data rid offset, offset + sizes.rowSize kind.table ≤ data.size →
      ∃ generic : GenericRow, generic.table = kind.table ∧ generic.rid = rid ∧
        GenericRow.scan sizes kind.table data rid offset =
          .ok generic (offset + sizes.rowSize kind.table) ∧
        (kind.Refuses generic.values → ∃ stop,
          Entry.scan kind.Row sizes data rid offset = .error .outOfBounds stop) ∧
        (¬ kind.Refuses generic.values → ∃ row : kind.Row,
          Entry.scan kind.Row sizes data rid offset =
            .ok ⟨rid, offset, row⟩ (offset + sizes.rowSize kind.table) ∧
          Column.cells kind.table.columns generic.values = .ok (Cellular.cells row) ∧
          TypedRow.emit sizes row = GenericRow.emit sizes generic ∧
          ∀ bytes start, start + sizes.rowSize kind.table ≤ bytes.size → ∃ after,
            TypedRow.emit sizes row ⟨bytes, start⟩ =
              .ok () ⟨after, start + sizes.rowSize kind.table⟩ ∧
            Bytes.Copied data offset (sizes.rowSize kind.table) bytes start after) := by
  refine ⟨Schema.size_eq sizes, ?_⟩
  intro data rid offset hroom
  have hlength := Column.length_valuesAt sizes data kind.table.columns offset
  refine ⟨_, rfl, rfl, GenericRow.scan_eq hroom, ?_, ?_⟩
  · intro hrefuses
    rcases kind.ofValues_cases hlength with ⟨hreads, -⟩ | ⟨-, hfault⟩
    · exact absurd hrefuses hreads
    · exact Schema.entry_of_fault hroom hfault
  · intro hreads
    rcases kind.ofValues_cases hlength with ⟨-, row, hrow⟩ | ⟨hrefuses, -⟩
    · have hfits := GenericRow.fits_of_scanned sizes kind.table data rid offset
      have hcells := Cellular.cells_eq (ρ := kind.Row) hlength
      have hemit : TypedRow.emit sizes row = GenericRow.emit sizes
          ⟨kind.table, rid, Column.valuesAt sizes data kind.table.columns offset⟩ :=
        (Cellular.emit_eq hfits hrow).trans (GenericRow.emit_of_fits hfits).symm
      rw [hrow] at hcells
      refine ⟨row, Schema.entry_of_row hroom hrow, hcells.symm, hemit, ?_⟩
      intro bytes start hfree
      rw [hemit]
      refine ⟨_, GenericRow.emit_eq hfits hfree, ?_⟩
      rw [Column.spelled_valuesAt]
      exact Bytes.copied_overwrite hfree
    · exact absurd hrefuses hreads

/-- The sizes of a stream in which a reference to a type takes four bytes, the
number of a type two. -/
def wideBases : Sizes :=
  .ofCounts (fun
    | .typeDef => some 0x4000
    | .field => some 0x10000
    | _ => none) 0

/-- A type with a base of four bytes is read and written with all its bytes, and
one whose base has the fourth tag is refused. -/
theorem same_format_sample :
    ∃ row stop,
      Entry.scan (Row .typeDef) wideBases
        #[1, 0, 0, 0, 2, 0, 3, 0, 9, 0, 0, 0, 1, 0, 1, 0, 1, 0] 4 0 = .ok ⟨4, 0, row⟩ 18 ∧
      Cellular.cells row = [.value 1, .value 2, .value 3, .reference ⟨.typeRef, 2⟩,
        .value 0x10001, .value 1] ∧
      TypedRow.emit wideBases row ⟨.replicate 20 7, 1⟩ =
        .ok () ⟨#[7, 1, 0, 0, 0, 2, 0, 3, 0, 9, 0, 0, 0, 1, 0, 1, 0, 1, 0, 7], 19⟩ ∧
      Entry.scan (Row .typeDef) wideBases
        #[1, 0, 0, 0, 2, 0, 3, 0, 11, 0, 0, 0, 1, 0, 1, 0, 1, 0] 4 0 =
          .error .outOfBounds stop := by
  have hsize : wideBases.rowSize (table .typeDef) = 18 := by decide +kernel
  obtain ⟨-, hrows⟩ := same_format .typeDef wideBases
  obtain ⟨good, -, -, hgood, -, hread⟩ := hrows
    #[1, 0, 0, 0, 2, 0, 3, 0, 9, 0, 0, 0, 1, 0, 1, 0, 1, 0] 4 0 (by rw [hsize]; decide)
  obtain ⟨bad, -, -, hbad, hrefused, -⟩ := hrows
    #[1, 0, 0, 0, 2, 0, 3, 0, 11, 0, 0, 0, 1, 0, 1, 0, 1, 0] 4 0 (by rw [hsize]; decide)
  obtain rfl : good = ⟨.typeDef, 4, [1, 2, 3, 9, 0x10001, 1]⟩ := by
    cases hgood
    rfl
  obtain rfl : bad = ⟨.typeDef, 4, [1, 2, 3, 11, 0x10001, 1]⟩ := by
    cases hbad
    rfl
  have hreads : ¬ Refuses .typeDef [1, 2, 3, 9, 0x10001, 1] := by
    rintro ⟨-, base, hbase, htag⟩
    cases hbase
    exact absurd htag (by decide)
  obtain ⟨row, hscan, hcells, -, hemit⟩ := hread hreads
  obtain ⟨after, hafter, -⟩ := hemit (.replicate 20 7) 1 (by rw [hsize]; decide)
  obtain ⟨stop, hstop⟩ := hrefused ⟨rfl, 11, rfl, by decide⟩
  rw [hsize] at hscan hafter
  obtain rfl : row = TypeRow.mk 1 2 3 ⟨.typeRef, 2⟩ 0x10001 1 := by
    cases hscan
    rfl
  obtain rfl : after =
      #[7, 1, 0, 0, 0, 2, 0, 3, 0, 9, 0, 0, 0, 1, 0, 1, 0, 1, 0, 7] := by
    cases hafter
    rfl
  exact ⟨_, stop, hscan, rfl, hafter, hstop⟩

end TypedTable

end Unveil
