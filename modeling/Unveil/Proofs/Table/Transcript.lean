import Mathlib.Data.List.Forall2
import Unveil.Proofs.Bytes.Putting
import Unveil.Proofs.Table.GenericRow

/-!
Rows and the bytes they are spelled with. Values that fit their columns are
spelled by exactly the bytes of a row, and are read back from them; so a row of
any table that was read is written byte for byte, wherever there is room, and a
row whose values do not fit is never written.
-/

namespace Unveil

namespace Column

/-- A value fits a column that has as many bits. -/
def Fits (sizes : Sizes) (column : Column) (value : UInt32) : Prop :=
  value.toNat < 2 ^ (8 * column.width sizes)

/-- The bytes of some values in their columns. -/
def spelled (sizes : Sizes) (columns : List Column) (values : List UInt32) : List UInt8 :=
  (columns.zip values).flatMap fun (column, value) =>
    Bytes.spell (column.width sizes) value.toNat

/-- Puts values down one after the other, each in the width of its column. -/
def emitAll (sizes : Sizes) (columns : List Column) (values : List UInt32) : Emit Unit :=
  (columns.zip values).forM fun (column, value) =>
    Emit.number (column.width sizes) value.toNat

variable {sizes : Sizes} {column : Column} {columns : List Column} {value : UInt32}
  {values : List UInt32} {data bytes : Bytes} {offset start : Nat}

theorem puts_emitAll (sizes : Sizes) (columns : List Column) (values : List UInt32) :
    Emit.Puts (emitAll sizes columns values) (spelled sizes columns values) :=
  Emit.puts_forM fun _ _ => Emit.puts_number _ _

theorem fits_iff : column.Fits sizes value ↔ value.toNat < 256 ^ column.width sizes := by
  rw [Fits, Nat.pow_mul]

/-- What was read from a column fits it. -/
theorem fits_number (sizes : Sizes) (data : Bytes) (column : Column) (offset : Nat) :
    column.Fits sizes (UInt32.ofNat (data.number offset (column.width sizes))) := by
  rw [fits_iff, Bytes.toNat_ofNat_number data offset (column.width_bounds sizes).2]
  exact Bytes.number_lt data offset (column.width sizes)

theorem fits_valuesAt (sizes : Sizes) (data : Bytes) (columns : List Column) (offset : Nat) :
    List.Forall₂ (Fits sizes) columns (valuesAt sizes data columns offset) := by
  induction columns generalizing offset with
  | nil => exact .nil
  | cons column columns ih => exact .cons (fits_number sizes data column offset) (ih _)

theorem length_spelled (h : List.Forall₂ (Fits sizes) columns values) :
    (spelled sizes columns values).length = total (columns.map (width sizes)) := by
  induction h with
  | nil => rfl
  | cons hfits hothers ih =>
      simp only [spelled] at ih
      simp only [spelled, List.zip_cons_cons, List.flatMap_cons, List.length_append,
        Bytes.length_spell, ih, List.map_cons, total_cons]

/-- The values that were read from a row are spelled by the bytes of the row. -/
theorem spelled_valuesAt (sizes : Sizes) (data : Bytes) (columns : List Column) (offset : Nat) :
    spelled sizes columns (valuesAt sizes data columns offset) =
      (List.range' offset (total (columns.map (width sizes)))).map fun i => data.getD i 0 := by
  induction columns generalizing offset with
  | nil => rfl
  | cons column columns ih =>
      have hothers := ih (offset + column.width sizes)
      have hfirst := Bytes.spell_number data offset (column.width sizes)
      simp only [spelled] at hothers
      simp only [spelled, valuesAt, List.zip_cons_cons, List.flatMap_cons, hothers,
        Bytes.toNat_ofNat_number data offset (column.width_bounds sizes).2, hfirst,
        List.map_cons, total_cons, ← List.range'_append_1, List.map_append]

/-- Values that were put down are read back. -/
theorem valuesAt_overwrite (h : List.Forall₂ (Fits sizes) columns values)
    (hroom : start + total (columns.map (width sizes)) ≤ bytes.size) :
    valuesAt sizes (bytes.overwrite start (spelled sizes columns values)) columns start =
      values := by
  induction h generalizing bytes start with
  | nil => rfl
  | @cons column value columns values hfits hothers ih =>
      rw [List.map_cons, total_cons] at hroom
      have hsplit : spelled sizes (column :: columns) (value :: values) =
          Bytes.spell (column.width sizes) value.toNat ++ spelled sizes columns values := rfl
      rw [hsplit, Bytes.overwrite_append, Bytes.length_spell, valuesAt,
        ih (by rw [Bytes.size_overwrite]; omega)]
      have hfirst : Bytes.number ((bytes.overwrite start
            (Bytes.spell (column.width sizes) value.toNat)).overwrite
              (start + column.width sizes) (spelled sizes columns values)) start
            (column.width sizes) = value.toNat := by
        calc _ = Bytes.number (bytes.overwrite start
              (Bytes.spell (column.width sizes) value.toNat)) start (column.width sizes) := by
              apply Bytes.number_congr
              intro i _ hi
              exact Bytes.getD_overwrite_outside (Or.inl hi)
          _ = value.toNat % 256 ^ column.width sizes :=
              Bytes.number_overwrite_spell (by omega)
          _ = value.toNat := Nat.mod_eq_of_lt (fits_iff.mp hfits)
      rw [hfirst, UInt32.ofNat_toNat]

/-- A column of one of two widths takes any value that fits. -/
theorem emit_of_fits {wide : Bool} (hwidth : column.width sizes = if wide then 4 else 2)
    (hfits : column.Fits sizes value) :
    Emit.column wide value = Emit.number (column.width sizes) value.toNat := by
  rw [fits_iff, hwidth] at hfits
  rw [hwidth]
  cases wide with
  | true => rfl
  | false =>
      have hbound : value.toNat < 0x10000 := hfits
      simp only [Emit.column, hbound, Bool.false_eq_true, ↓reduceIte]

/-- A column of one of two widths takes no other value. -/
theorem fits_of_emit {wide : Bool} (hwidth : column.width sizes = if wide then 4 else 2)
    {sheet after : Sheet} (h : Emit.column wide value sheet = .ok () after) :
    column.Fits sizes value := by
  rw [fits_iff, hwidth]
  cases wide with
  | true => exact value.toNat_lt
  | false =>
      by_cases hbound : value.toNat < 0x10000
      · exact hbound
      · simp only [Emit.column, hbound, Bool.false_eq_true, ↓reduceIte] at h
        cases h

end Column

namespace GenericRow

variable {sizes : Sizes} {table : TableId} {rid offset start : Nat} {data bytes : Bytes}

/-- The row has one value for each column of its table, and each fits. -/
def Fits (sizes : Sizes) (row : GenericRow) : Prop :=
  List.Forall₂ (Column.Fits sizes) row.table.columns row.values

theorem emitValue_of_fits {column : Column} {value : UInt32}
    (hfits : column.Fits sizes value) :
    emitValue sizes table rid column value =
      Emit.number (column.width sizes) value.toNat := by
  by_cases hbyte : column = .byte
  · subst hbyte
    have hbound : value.toNat < 0x100 := Column.fits_iff.mp hfits
    simp only [emitValue, hbound, ↓reduceIte, Column.width]
  by_cases hhalf : column = .half
  · subst hhalf
    have hbound : value.toNat < 0x10000 := Column.fits_iff.mp hfits
    simp only [emitValue, hbound, ↓reduceIte, Column.width]
  rw [emitValue_eq value hbyte hhalf]
  exact Column.emit_of_fits (Column.width_eq_of_wide hbyte hhalf) hfits

theorem fits_of_emitValue {column : Column} {value : UInt32} {sheet after : Sheet}
    (h : emitValue sizes table rid column value sheet = .ok () after) :
    column.Fits sizes value := by
  by_cases hbyte : column = .byte
  · subst hbyte
    by_cases hbound : value.toNat < 0x100
    · exact Column.fits_iff.mpr hbound
    · simp only [emitValue, hbound, ↓reduceIte] at h
      cases h
  by_cases hhalf : column = .half
  · subst hhalf
    by_cases hbound : value.toNat < 0x10000
    · exact Column.fits_iff.mpr hbound
    · simp only [emitValue, hbound, ↓reduceIte] at h
      cases h
  rw [emitValue_eq value hbyte hhalf] at h
  exact Column.fits_of_emit (Column.width_eq_of_wide hbyte hhalf) h

theorem emit_of_fits {row : GenericRow} (hfits : row.Fits sizes) :
    emit sizes row = Column.emitAll sizes row.table.columns row.values := by
  have hvalues (columns : List Column) (values : List UInt32)
      (h : List.Forall₂ (Column.Fits sizes) columns values) :
      ((columns.zip values).forM fun item =>
        emitValue sizes row.table row.rid item.1 item.2) =
        Column.emitAll sizes columns values := by
    induction h with
    | nil => rfl
    | @cons column value columns values hfirst hothers ih =>
        change (emitValue sizes row.table row.rid column value >>= fun _ =>
          (columns.zip values).forM _) = _
        rw [emitValue_of_fits hfirst, ih]
        rfl
  have hlength := hfits.length_eq
  simp only [emit, hlength, ne_eq, not_true_eq_false, ↓reduceIte]
  exact hvalues _ _ hfits

/-- Only a row that fits its table is ever written. -/
theorem fits_of_emit {row : GenericRow} {sheet after : Sheet}
    (h : emit sizes row sheet = .ok () after) : row.Fits sizes := by
  have hvalues (columns : List Column) (values : List UInt32) (sheet after : Sheet)
      (hlength : columns.length = values.length)
      (h : ((columns.zip values).forM fun item =>
        emitValue sizes row.table row.rid item.1 item.2) sheet = .ok () after) :
      List.Forall₂ (Column.Fits sizes) columns values := by
    induction columns generalizing values sheet with
    | nil =>
        obtain rfl : values = [] := List.length_eq_zero_iff.mp hlength.symm
        exact .nil
    | cons column columns ih =>
        cases values with
        | nil => cases hlength
        | cons value values =>
            change (emitValue sizes row.table row.rid column value >>= fun _ =>
              (columns.zip values).forM _) sheet = _ at h
            obtain ⟨_, between, hfirst, hothers⟩ := EStateM.bind_eq_ok.mp h
            exact .cons (fits_of_emitValue hfirst)
              (ih values between (Nat.succ.inj hlength) hothers)
  unfold emit at h
  split at h
  · cases h
  · rename_i hlength
    exact hvalues _ _ _ _ (not_not.mp hlength) h

theorem fits_of_scanned (sizes : Sizes) (table : TableId) (data : Bytes) (rid offset : Nat) :
    Fits sizes ⟨table, rid, Column.valuesAt sizes data table.columns offset⟩ :=
  Column.fits_valuesAt sizes data table.columns offset

/-- A row that fits is spelled into the place it is written to. -/
theorem emit_eq {row : GenericRow} (hfits : row.Fits sizes)
    (hroom : start + sizes.rowSize row.table ≤ bytes.size) :
    emit sizes row ⟨bytes, start⟩ =
      .ok () ⟨bytes.overwrite start (Column.spelled sizes row.table.columns row.values),
        start + sizes.rowSize row.table⟩ := by
  have hlength : (Column.spelled sizes row.table.columns row.values).length =
      sizes.rowSize row.table := Column.length_spelled hfits
  have hputs := Column.puts_emitAll sizes row.table.columns row.values bytes start
  rw [hlength] at hputs
  rw [emit_of_fits hfits, hputs hroom]

/-- Columns that go past the end of the data cannot all be read. -/
theorem mapM_scan_of_short {columns : List Column}
    (hshort : data.size < offset + total (columns.map (Column.width sizes)))
    (hsome : columns ≠ [] ∨ offset ≤ data.size) :
    ∃ stop, columns.mapM (Column.scan sizes data) offset = .error .outOfBounds stop := by
  induction columns generalizing offset with
  | nil =>
      rw [List.map_nil, total_nil] at hshort
      have hinside := hsome.resolve_left (· rfl)
      omega
  | cons column columns ih =>
      rw [List.map_cons, total_cons] at hshort
      rw [List.mapM_cons]
      by_cases hroom : offset + column.width sizes ≤ data.size
      · rw [← Nat.add_assoc] at hshort
        obtain ⟨stop, hothers⟩ := ih hshort (Or.inr hroom)
        refine ⟨stop, ?_⟩
        rw [Column.bind_scan hroom]
        exact EStateM.bind_of_error hothers
      · have hfirst : column.scan sizes data offset = .error .outOfBounds offset := by
          simp only [Column.scan, Functor.map, EStateM.map, Scan.number, hroom, ↓reduceIte]
        exact ⟨offset, EStateM.bind_of_error hfirst⟩

theorem scan_of_short (hshort : data.size < offset + sizes.rowSize table) :
    ∃ stop, scan sizes table data rid offset = .error .outOfBounds stop := by
  have hcolumns : data.size < offset + total (table.columns.map (Column.width sizes)) := hshort
  obtain ⟨stop, hvalues⟩ := mapM_scan_of_short hcolumns (Or.inl table.columns_ne_nil)
  exact ⟨stop, EStateM.bind_of_error hvalues⟩

/-- Rows of any table go through unchanged. A row that is there is read from
exactly its bytes, and is written as these bytes wherever there is room, with
nothing around them touched; one that is cut off is refused. A row that fits its
table is written wherever there is room and read back as it was, and one that
has more or fewer values than columns, or a value too large for its column, is
never written. -/
theorem round_trips (sizes : Sizes) :
    (∀ table data rid offset, offset + sizes.rowSize table ≤ data.size →
      ∃ row : GenericRow, row.table = table ∧ row.rid = rid ∧
        scan sizes table data rid offset = .ok row (offset + sizes.rowSize table) ∧
        ∀ bytes start, start + sizes.rowSize table ≤ bytes.size → ∃ after,
          emit sizes row ⟨bytes, start⟩ = .ok () ⟨after, start + sizes.rowSize table⟩ ∧
          Bytes.Copied data offset (sizes.rowSize table) bytes start after) ∧
    (∀ table data rid offset, data.size < offset + sizes.rowSize table → ∃ stop,
      scan sizes table data rid offset = .error .outOfBounds stop) ∧
    (∀ row : GenericRow, row.Fits sizes →
      ∀ bytes start, start + sizes.rowSize row.table ≤ bytes.size → ∃ after,
        emit sizes row ⟨bytes, start⟩ = .ok () ⟨after, start + sizes.rowSize row.table⟩ ∧
        scan sizes row.table after row.rid start =
          .ok row (start + sizes.rowSize row.table)) ∧
    (∀ row : GenericRow, ¬ row.Fits sizes →
      ∀ sheet after, emit sizes row sheet ≠ .ok () after) := by
  refine ⟨?_, ?_, ?_, ?_⟩
  · intro table data rid offset hroom
    refine ⟨_, rfl, rfl, scan_eq hroom, ?_⟩
    intro bytes start hfree
    refine ⟨_, emit_eq (fits_of_scanned sizes table data rid offset) hfree, ?_⟩
    rw [Column.spelled_valuesAt]
    exact Bytes.copied_overwrite hfree
  · intro table data rid offset hshort
    exact scan_of_short hshort
  · intro row hfits bytes start hroom
    refine ⟨_, emit_eq hfits hroom, ?_⟩
    rw [scan_eq (by rwa [Bytes.size_overwrite]), Column.valuesAt_overwrite hfits hroom]
  · intro row hmisfit sheet after h
    exact hmisfit (fits_of_emit h)

/-- The sizes of a stream with so many types that their numbers take four bytes. -/
def manyTypes : Sizes :=
  .ofCounts (fun table => if table = .typeDef then some 0x10000 else none) 0

/-- A row whose last column is wide is read and written with all its bytes, and one
with a value of three bytes in a column of two is not written. -/
theorem round_trips_sample :
    ∃ row after stop,
      scan manyTypes .classLayout #[9, 1, 0, 0x10, 0, 0, 0, 2, 0, 1, 0] 7 1 = .ok row 11 ∧
      row.values = [1, 0x10, 0x10002] ∧
      emit manyTypes row ⟨.replicate 13 9, 2⟩ = .ok () ⟨after, 12⟩ ∧
      after = #[9, 9, 1, 0, 0x10, 0, 0, 0, 2, 0, 1, 0, 9] ∧
      scan manyTypes .classLayout #[9, 1, 0, 0x10, 0, 0, 0, 2, 0, 1] 7 1 =
        .error .outOfBounds stop ∧
      (∃ written, emit manyTypes ⟨.moduleRef, 1, [0xFFFF]⟩ ⟨.replicate 3 9, 1⟩ =
          .ok () ⟨written, 3⟩ ∧
        scan manyTypes .moduleRef written 1 1 = .ok ⟨.moduleRef, 1, [0xFFFF]⟩ 3) ∧
      ∀ sheet written, emit manyTypes ⟨.moduleRef, 1, [0x10000]⟩ sheet ≠ .ok () written := by
  have hsize : manyTypes.rowSize .classLayout = 10 := by decide +kernel
  have hfits : Fits manyTypes ⟨.moduleRef, 1, [0xFFFF]⟩ := by
    unfold Fits
    exact .cons (show (0xFFFF : UInt32).toNat < 2 ^ (8 * 2) by decide) .nil
  have hmisfit : ¬ Fits manyTypes ⟨.moduleRef, 1, [0x10000]⟩ := by
    unfold Fits
    rintro (_ | ⟨hvalue, -⟩)
    exact absurd hvalue (show ¬ (0x10000 : UInt32).toNat < 2 ^ (8 * 2) by decide)
  obtain ⟨hread, hshort, hfit, hrefused⟩ := round_trips manyTypes
  obtain ⟨row, -, -, hscan, hwrite⟩ := hread .classLayout
    #[9, 1, 0, 0x10, 0, 0, 0, 2, 0, 1, 0] 7 1 (by rw [hsize]; decide)
  obtain ⟨after, hemit, -⟩ := hwrite (.replicate 13 9) 2 (by rw [hsize]; decide)
  obtain ⟨stop, hcut⟩ := hshort .classLayout #[9, 1, 0, 0x10, 0, 0, 0, 2, 0, 1] 7 1
    (by rw [hsize]; decide)
  obtain ⟨written, hwritten⟩ := hfit ⟨.moduleRef, 1, [0xFFFF]⟩ hfits (.replicate 3 9) 1 (by decide)
  rw [hsize] at hscan hemit
  obtain rfl : row = ⟨.classLayout, 7, [1, 0x10, 0x10002]⟩ := by
    cases hscan
    rfl
  obtain rfl : after = #[9, 9, 1, 0, 0x10, 0, 0, 0, 2, 0, 1, 0, 9] := by
    cases hemit
    rfl
  exact ⟨_, _, stop, hscan, rfl, hemit, rfl, hcut, ⟨written, hwritten⟩,
    hrefused ⟨.moduleRef, 1, [0x10000]⟩ hmisfit⟩

end GenericRow

end Unveil
