import Unveil.Proofs.Table.Rows

namespace Unveil

namespace GenericRow

variable {sizes : Sizes} {table : TableId} {rid offset : Nat}

theorem mapM_scan {data : Bytes} {columns : List Column}
    (hroom : offset + total (columns.map (Column.width sizes)) ≤ data.size) :
    columns.mapM (Column.scan sizes data) offset =
      .ok (Column.valuesAt sizes data columns offset)
        (offset + total (columns.map (Column.width sizes))) := by
  induction columns generalizing offset with
  | nil => rfl
  | cons column columns ih =>
      simp only [List.map_cons, total_cons] at hroom ⊢
      have hothers : columns.mapM (Column.scan sizes data) (offset + column.width sizes) = _ :=
        ih (by omega)
      rw [List.mapM_cons, Column.bind_scan (by omega), EStateM.bind_of_ok hothers, Nat.add_assoc]
      rfl

/-- A row that is there can be read, whatever is in it. -/
theorem scan_eq {data : Bytes} (hroom : offset + sizes.rowSize table ≤ data.size) :
    scan sizes table data rid offset =
      .ok ⟨table, rid, Column.valuesAt sizes data table.columns offset⟩
        (offset + sizes.rowSize table) := by
  have hvalues : scanValues sizes table data offset = _ := mapM_scan hroom
  rw [scan, EStateM.bind_of_ok hvalues]
  rfl

/-- How a column is written that is neither a byte nor half a word. -/
theorem emitValue_eq {column : Column} (value : UInt32) (hbyte : column ≠ .byte)
    (hhalf : column ≠ .half) : emitValue sizes table rid column value =
      Emit.column (column.width sizes == 4) value := by
  cases column with
  | byte => exact absurd rfl hbyte
  | half => exact absurd rfl hhalf
  | word => rfl
  | string => rfl
  | guid => rfl
  | blob => rfl
  | row target => rfl
  | coded kind => rfl

/-- A value that was read from a column is put back. -/
theorem copies_emitValue {goal : Bytes} (column : Column)
    (hroom : offset + column.width sizes ≤ goal.size) :
    Emit.Copies goal (emitValue sizes table rid column
      (UInt32.ofNat (goal.number offset (column.width sizes)))) offset
      (offset + column.width sizes) () := by
  have hvalue := Bytes.toNat_ofNat_number goal offset (column.width_bounds sizes).2
  by_cases hbyte : column = .byte
  · subst hbyte
    have hbound : goal.number offset 1 < 256 := Bytes.number_lt goal offset 1
    simp only [Column.width] at *
    simp only [emitValue, hvalue, hbound, ↓reduceIte]
    exact Emit.copies_number hroom rfl
  by_cases hhalf : column = .half
  · subst hhalf
    have hbound : goal.number offset 2 < 65536 := Bytes.number_lt goal offset 2
    simp only [Column.width] at *
    simp only [emitValue, hvalue, hbound, ↓reduceIte]
    exact Emit.copies_number hroom rfl
  rw [emitValue_eq _ hbyte hhalf]
  exact column.copies_emit _ (Column.width_eq_of_wide hbyte hhalf) hroom

/-- A row that was read is written where it was. -/
theorem copies_emit {goal : Bytes} (hroom : offset + sizes.rowSize table ≤ goal.size) :
    Emit.Copies goal
      (emit sizes ⟨table, rid, Column.valuesAt sizes goal table.columns offset⟩) offset
      (offset + sizes.rowSize table) () := by
  simp only [emit, Column.length_valuesAt, ne_eq, not_true_eq_false, ↓reduceIte]
  have hlength : (table.columns.zip
      (Column.valuesAt sizes goal table.columns offset)).length = table.columns.length := by
    simp
  have hrowSize : Column.distance sizes table.columns table.columns.length =
      sizes.rowSize table := by
    rw [Column.distance, List.take_length]
    rfl
  have hcopied : Emit.Copies goal
      ((table.columns.zip (Column.valuesAt sizes goal table.columns offset)).forM
        fun item => emitValue sizes table rid item.1 item.2) _ _ () :=
    Emit.copies_forM (fun k => offset + Column.distance sizes table.columns k) <| by
      rintro k ⟨column, value⟩ hitem
      obtain ⟨hcolumn, hvalue⟩ := List.getElem?_zip_eq_some.mp hitem
      simp only [Column.getElem?_valuesAt hcolumn, Option.some.injEq] at hvalue
      subst hvalue
      have hnext := Column.distance_succ sizes table.columns hcolumn
      have hwhole : Column.distance sizes table.columns (k + 1) ≤ sizes.rowSize table :=
        Column.distance_le sizes table.columns (k + 1)
      simp only [hnext, ← Nat.add_assoc] at hwhole ⊢
      exact copies_emitValue column (by omega)
  rw [hlength, hrowSize] at hcopied
  exact hcopied

end GenericRow

namespace TablesStream.Accepted

variable {data : Bytes} {tables : TablesStream} {table : TableId} {extent : Extent}

/-- The rows of any table, each with the values at its own place. -/
theorem genericRows_eq (h : Accepted data tables)
    (hextent : tables.extent? table = some extent) :
    tables.genericRows table = .ok ((List.range' 1 extent.rows).map fun rid =>
      ⟨table, rid, Column.valuesAt tables.sizes tables.data table.columns
        (extent.offset + (rid - 1) * tables.sizes.rowSize table)⟩) := by
  obtain ⟨-, hstop, hrowSize⟩ := h.extent_bounds hextent
  rw [Extent.size, hrowSize, Nat.mul_comm, ← h.data_eq] at hstop
  have hroom (k : Nat) (hk : k < extent.rows) : extent.offset +
      k * tables.sizes.rowSize table + tables.sizes.rowSize table ≤ tables.data.size := by
    have : (k + 1) * tables.sizes.rowSize table ≤ extent.rows * tables.sizes.rowSize table :=
      Nat.mul_le_mul_right _ hk
    rw [Nat.add_mul, Nat.one_mul] at this
    omega
  have hscan := @Scan.valueAt_mapM_range' GenericRow
    (GenericRow.scan tables.sizes table tables.data)
    (fun rid => .ok ⟨table, rid, Column.valuesAt tables.sizes tables.data table.columns
      (extent.offset + (rid - 1) * tables.sizes.rowSize table)⟩)
    1 extent.rows extent.offset (tables.sizes.rowSize table)
  simp only [Nat.add_sub_cancel_left] at hscan
  simp only [genericRows, hextent]
  rw [hscan]
  · exact List.mapM_pure
  · rintro k hk row ⟨⟩
    rw [Nat.add_mul k 1, Nat.one_mul, ← Nat.add_assoc]
    exact GenericRow.scan_eq (hroom k hk)
  · rintro k hk fault ⟨⟩

end TablesStream.Accepted

end Unveil
