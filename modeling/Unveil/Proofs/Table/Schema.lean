import Unveil.Proofs.Bytes.Copying
import Unveil.Proofs.Table.Widths

/-!
Structured rows and the columns of their tables. `Column.valuesAt` reads the
columns of a row as plain numbers. A structured row is a reading of these
numbers and of nothing else: it is read where all of them are, it is made of
them, and writing it puts the same bytes down. `Schema` holds these laws, and
one instance for each structured row shows them.
-/

namespace Unveil

namespace Column

/-- The numbers in consecutive columns, of which the first starts at `offset`. -/
def valuesAt (sizes : Sizes) (data : Bytes) : List Column → Nat → List UInt32
  | [], _ => []
  | column :: columns, offset =>
      UInt32.ofNat (data.number offset (column.width sizes)) ::
        valuesAt sizes data columns (offset + column.width sizes)

def scan (sizes : Sizes) (data : Bytes) (column : Column) : Scan UInt32 :=
  UInt32.ofNat <$> Scan.number data (column.width sizes)

@[simp] theorem length_valuesAt (sizes : Sizes) (data : Bytes) (columns : List Column)
    (offset : Nat) : (valuesAt sizes data columns offset).length = columns.length := by
  induction columns generalizing offset with
  | nil => rfl
  | cons column columns ih => simp only [valuesAt, List.length_cons, ih]

theorem scan_of_fits {sizes : Sizes} {data : Bytes} {column : Column} {offset : Nat}
    (h : offset + column.width sizes ≤ data.size) :
    column.scan sizes data offset =
      .ok (UInt32.ofNat (data.number offset (column.width sizes)))
        (offset + column.width sizes) := by
  simp only [scan, Functor.map, EStateM.map, Scan.number, h, ↓reduceIte]

theorem valuesAt_congr {sizes : Sizes} {a b : Bytes} {columns : List Column} {offset : Nat}
    (h : Bytes.Agree a b offset (offset + total (columns.map (width sizes)))) :
    valuesAt sizes a columns offset = valuesAt sizes b columns offset := by
  induction columns generalizing offset with
  | nil => rfl
  | cons column columns ih =>
      simp only [List.map_cons, total_cons] at h
      have hvalue := Bytes.number_congr (h.mono (Nat.le_refl offset)
        (show offset + column.width sizes ≤ _ by omega))
      have hrest : valuesAt sizes a columns (offset + column.width sizes) =
          valuesAt sizes b columns (offset + column.width sizes) :=
        ih (h.mono (by omega) (by omega))
      simp only [valuesAt, hvalue, hrest]

/-- Where only one column differs, only its value does. -/
theorem valuesAt_set {sizes : Sizes} {a b : Bytes} {columns : List Column} {offset index : Nat}
    {column : Column} (hcolumn : columns[index]? = some column)
    (hbefore : Bytes.Agree a b offset (offset + distance sizes columns index))
    (hbehind : Bytes.Agree a b (offset + distance sizes columns (index + 1))
      (offset + total (columns.map (width sizes)))) :
    valuesAt sizes a columns offset =
      (valuesAt sizes b columns offset).set index (UInt32.ofNat
        (a.number (offset + distance sizes columns index) (column.width sizes))) := by
  induction columns generalizing offset index with
  | nil => simp at hcolumn
  | cons first columns ih =>
      cases index with
      | zero =>
          obtain rfl : first = column := by simpa using hcolumn
          simp only [distance, List.take_zero, List.take_succ_cons, List.map_nil, total_nil,
            List.map_cons, total_cons, Nat.add_zero, ← Nat.add_assoc] at hbehind ⊢
          simp only [valuesAt, List.set_cons_zero, valuesAt_congr hbehind]
      | succ index =>
          have hcolumn' : columns[index]? = some column := by simpa using hcolumn
          have hdistance (n : Nat) : offset + distance sizes (first :: columns) (n + 1) =
              offset + first.width sizes + distance sizes columns n := by
            simp only [distance, List.take_succ_cons, List.map_cons, total_cons]
            omega
          have hfirst : a.number offset (first.width sizes) = b.number offset (first.width sizes) := by
            refine Bytes.number_congr (hbefore.mono (Nat.le_refl offset) ?_)
            rw [hdistance]
            omega
          rw [hdistance] at hbefore hbehind
          simp only [List.map_cons, total_cons, ← Nat.add_assoc] at hbehind
          have hrest := ih hcolumn' (hbefore.mono (by omega) (Nat.le_refl _)) hbehind
          simp only [valuesAt, List.set_cons_succ, hfirst, hrest, hdistance]

/-- A value is the number at the distance of its column. -/
theorem getElem?_valuesAt {sizes : Sizes} {data : Bytes} {columns : List Column}
    {offset index : Nat} {column : Column} (hcolumn : columns[index]? = some column) :
    (valuesAt sizes data columns offset)[index]? = some (UInt32.ofNat
      (data.number (offset + distance sizes columns index) (column.width sizes))) := by
  have hlt : index < (valuesAt sizes data columns offset).length := by
    rw [length_valuesAt]
    exact (List.getElem?_eq_some_iff.mp hcolumn).1
  have hself : valuesAt sizes data columns offset =
      (valuesAt sizes data columns offset).set index _ :=
    valuesAt_set hcolumn (.refl _ _ _) (.refl _ _ _)
  rw [hself, List.getElem?_set_self hlt]

theorem scan_word (sizes : Sizes) (data : Bytes) :
    Scan.u32 data = word.scan sizes data := rfl

theorem scan_half (sizes : Sizes) (data : Bytes) :
    Scan.column data false = half.scan sizes data := rfl

theorem scan_string (sizes : Sizes) (data : Bytes) :
    Scan.column data sizes.wideStrings = string.scan sizes data := rfl

theorem scan_guid (sizes : Sizes) (data : Bytes) :
    Scan.column data sizes.wideGuids = guid.scan sizes data := rfl

theorem scan_blob (sizes : Sizes) (data : Bytes) :
    Scan.column data sizes.wideBlobs = blob.scan sizes data := rfl

/-- A column of row numbers, by the other way of telling its width. -/
theorem scan_row (sizes : Sizes) (data : Bytes) (table : TableId) :
    Scan.column data (sizes.isWide table) = (row table).scan sizes data := by
  simp only [Scan.column, scan, width, Sizes.rowIndexWidth_eq]

theorem scan_coded (sizes : Sizes) (data : Bytes) (kind : CodedKind) :
    Scan.column data (sizes.codedWidth kind == 4) = (coded kind).scan sizes data := by
  simp only [Scan.column, scan, width, ← Sizes.codedWidth_eq]

/-- A step behind a column that is there. -/
theorem bind_scan {α : Type} {sizes : Sizes} {data : Bytes} {column : Column} {offset : Nat}
    {next : UInt32 → Scan α} (h : offset + column.width sizes ≤ data.size) :
    (column.scan sizes data >>= next) offset =
      next (UInt32.ofNat (data.number offset (column.width sizes)))
        (offset + column.width sizes) :=
  EStateM.bind_of_ok (scan_of_fits h)

end Column

namespace CodedIndex

variable {sizes : Sizes} {kind : CodedKind} {offset : Nat} {index : CodedIndex}

theorem scan_of_decode {data : Bytes}
    (hroom : offset + (Column.coded kind).width sizes ≤ data.size)
    (hindex : decode kind (UInt32.ofNat (data.number offset ((Column.coded kind).width sizes))) =
      .ok index) :
    scan sizes kind data offset = .ok index (offset + (Column.coded kind).width sizes) := by
  rw [scan, Column.scan_coded, Column.bind_scan hroom]
  simp only [hindex]
  rfl

theorem scan_of_fault {data : Bytes} {fault : Fault}
    (hroom : offset + (Column.coded kind).width sizes ≤ data.size)
    (hfault : decode kind (UInt32.ofNat (data.number offset ((Column.coded kind).width sizes))) =
      .error fault) :
    scan sizes kind data offset = .error fault (offset + (Column.coded kind).width sizes) := by
  rw [scan, Column.scan_coded, Column.bind_scan hroom]
  simp only [hfault]
  rfl

theorem copies_emit {goal : Bytes} (hnodup : kind.targets.Nodup)
    (hroom : offset + (Column.coded kind).width sizes ≤ goal.size)
    (hindex : decode kind (UInt32.ofNat (goal.number offset ((Column.coded kind).width sizes))) =
      .ok index) :
    Emit.Copies goal (index.emit sizes kind) offset
      (offset + (Column.coded kind).width sizes) () := by
  simp only [emit, encode_of_decode hnodup hindex]
  exact Emit.copies_column (sizes.codedWidth_eq kind) hroom rfl

end CodedIndex

/-- Puts a number that was read from a column back. -/
theorem Column.copies_emit {sizes : Sizes} {goal : Bytes} {offset : Nat} (column : Column)
    (wide : Bool) (hwidth : column.width sizes = if wide then 4 else 2)
    (hroom : offset + column.width sizes ≤ goal.size) :
    Emit.Copies goal
      (Emit.column wide (UInt32.ofNat (goal.number offset (column.width sizes)))) offset
      (offset + column.width sizes) () :=
  Emit.copies_column hwidth hroom rfl

/-- A structured row as a reading of the numbers in its columns. -/
class Schema (ρ : Type) [TypedRow ρ] where
  ofValues : List UInt32 → Except Fault ρ
  size_eq (sizes : Sizes) : TypedRow.size ρ sizes = sizes.rowSize (TypedRow.table ρ)
  scan_of_values {sizes : Sizes} {data : Bytes} {offset : Nat} {row : ρ}
    (hroom : offset + sizes.rowSize (TypedRow.table ρ) ≤ data.size)
    (hrow : ofValues (Column.valuesAt sizes data (TypedRow.table ρ).columns offset) = .ok row) :
    TypedRow.scan sizes data offset = .ok row (offset + sizes.rowSize (TypedRow.table ρ))
  scan_of_fault {sizes : Sizes} {data : Bytes} {offset : Nat} {fault : Fault}
    (hroom : offset + sizes.rowSize (TypedRow.table ρ) ≤ data.size)
    (hfault : ofValues (Column.valuesAt sizes data (TypedRow.table ρ).columns offset) =
      .error fault) :
    ∃ stop, (TypedRow.scan sizes data : Scan ρ) offset = .error fault stop
  copies_emit {sizes : Sizes} {goal : Bytes} {offset : Nat} {row : ρ}
    (hroom : offset + sizes.rowSize (TypedRow.table ρ) ≤ goal.size)
    (hrow : ofValues (Column.valuesAt sizes goal (TypedRow.table ρ).columns offset) = .ok row) :
    Emit.Copies goal (TypedRow.emit sizes row) offset
      (offset + sizes.rowSize (TypedRow.table ρ)) ()

instance : Schema TypeRow where
  ofValues
    | [flags, name, space, base, fieldList, methodList] => do
        let base ← CodedIndex.decode .typeDefOrRef base
        pure { flags, name, space, base, fieldList, methodList }
    | _ => .error .outOfBounds
  size_eq sizes := by
    simp only [TypedRow.size, TypedRow.table, Sizes.rowSize, TableId.columns, List.map_cons,
      List.map_nil, total_cons, total_nil, Column.width]
    omega
  scan_of_values {sizes data offset row} hroom hrow := by
    simp only [TypedRow.table, Sizes.rowSize, TableId.columns, List.map_cons, List.map_nil,
      total_cons, total_nil, Nat.add_zero, ← Nat.add_assoc] at hroom hrow ⊢
    obtain ⟨base, hbase, hrow⟩ := Except.bind_eq_ok.mp hrow
    rw [Except.pure_eq_ok] at hrow
    simp only [TypedRow.scan, Column.scan_word sizes, Column.scan_string, Column.scan_row]
    rw [Column.bind_scan (by omega), Column.bind_scan (by omega), Column.bind_scan (by omega),
      EStateM.bind_of_ok (CodedIndex.scan_of_decode (by omega) hbase),
      Column.bind_scan (by omega), Column.bind_scan (by omega), ← hrow]
    rfl
  scan_of_fault {sizes data offset fault} hroom hfault := by
    simp only [TypedRow.table, Sizes.rowSize, TableId.columns, List.map_cons, List.map_nil,
      total_cons, total_nil, Nat.add_zero, ← Nat.add_assoc] at hroom hfault ⊢
    simp only [TypedRow.scan, Column.scan_word sizes, Column.scan_string, Column.scan_row]
    rcases Except.bind_eq_error.mp hfault with hbase | ⟨base, _, hpure⟩
    · rw [Column.bind_scan (by omega), Column.bind_scan (by omega), Column.bind_scan (by omega),
        EStateM.bind_of_error (CodedIndex.scan_of_fault (by omega) hbase)]
      exact ⟨_, rfl⟩
    · cases hpure
  copies_emit {sizes goal offset row} hroom hrow := by
    simp only [TypedRow.table, Sizes.rowSize, TableId.columns, List.map_cons, List.map_nil,
      total_cons, total_nil, Nat.add_zero, ← Nat.add_assoc] at hroom hrow ⊢
    obtain ⟨base, hbase, hrow⟩ := Except.bind_eq_ok.mp hrow
    rw [Except.pure_eq_ok] at hrow
    rw [← hrow]
    exact (Column.copies_emit .word true rfl (by omega)).bind <|
      (Column.copies_emit .string _ rfl (by omega)).bind <|
      (Column.copies_emit .string _ rfl (by omega)).bind <|
      (CodedIndex.copies_emit (by decide) (by omega) hbase).bind <|
      (Column.copies_emit (.row .field) _ (sizes.rowIndexWidth_eq _) (by omega)).bind <|
      Column.copies_emit (.row .methodDef) _ (sizes.rowIndexWidth_eq _) (by omega)

instance : Schema FieldRow where
  ofValues
    | [flags, name, signature] => .ok { flags, name, signature }
    | _ => .error .outOfBounds
  size_eq sizes := by
    simp only [TypedRow.size, TypedRow.table, Sizes.rowSize, TableId.columns, List.map_cons,
      List.map_nil, total_cons, total_nil, Column.width]
    omega
  scan_of_values {sizes data offset row} hroom hrow := by
    simp only [TypedRow.table, Sizes.rowSize, TableId.columns, List.map_cons, List.map_nil,
      total_cons, total_nil, Nat.add_zero, ← Nat.add_assoc] at hroom hrow ⊢
    cases hrow
    simp only [TypedRow.scan, Column.scan_half sizes, Column.scan_string, Column.scan_blob]
    rw [Column.bind_scan (by omega), Column.bind_scan (by omega), Column.bind_scan (by omega)]
    rfl
  scan_of_fault _ hfault := nomatch hfault
  copies_emit {sizes goal offset row} hroom hrow := by
    simp only [TypedRow.table, Sizes.rowSize, TableId.columns, List.map_cons, List.map_nil,
      total_cons, total_nil, Nat.add_zero, ← Nat.add_assoc] at hroom hrow ⊢
    cases hrow
    exact (Column.copies_emit .half false rfl (by omega)).bind <|
      (Column.copies_emit .string _ rfl (by omega)).bind <|
      Column.copies_emit .blob _ rfl (by omega)

instance : Schema MethodRow where
  ofValues
    | [address, implFlags, flags, name, signature, paramList] =>
        .ok { address, implFlags, flags, name, signature, paramList }
    | _ => .error .outOfBounds
  size_eq sizes := by
    simp only [TypedRow.size, TypedRow.table, Sizes.rowSize, TableId.columns, List.map_cons,
      List.map_nil, total_cons, total_nil, Column.width]
    omega
  scan_of_values {sizes data offset row} hroom hrow := by
    simp only [TypedRow.table, Sizes.rowSize, TableId.columns, List.map_cons, List.map_nil,
      total_cons, total_nil, Nat.add_zero, ← Nat.add_assoc] at hroom hrow ⊢
    cases hrow
    simp only [TypedRow.scan, Column.scan_word sizes, Column.scan_half sizes, Column.scan_string,
      Column.scan_blob, Column.scan_row]
    rw [Column.bind_scan (by omega), Column.bind_scan (by omega), Column.bind_scan (by omega),
      Column.bind_scan (by omega), Column.bind_scan (by omega), Column.bind_scan (by omega)]
    rfl
  scan_of_fault _ hfault := nomatch hfault
  copies_emit {sizes goal offset row} hroom hrow := by
    simp only [TypedRow.table, Sizes.rowSize, TableId.columns, List.map_cons, List.map_nil,
      total_cons, total_nil, Nat.add_zero, ← Nat.add_assoc] at hroom hrow ⊢
    cases hrow
    exact (Column.copies_emit .word true rfl (by omega)).bind <|
      (Column.copies_emit .half false rfl (by omega)).bind <|
      (Column.copies_emit .half false rfl (by omega)).bind <|
      (Column.copies_emit .string _ rfl (by omega)).bind <|
      (Column.copies_emit .blob _ rfl (by omega)).bind <|
      Column.copies_emit (.row .param) _ (sizes.rowIndexWidth_eq _) (by omega)

instance : Schema FieldPointerRow where
  ofValues
    | [field] => .ok { field }
    | _ => .error .outOfBounds
  size_eq sizes := by
    simp only [TypedRow.size, TypedRow.table, Sizes.rowSize, TableId.columns, List.map_cons,
      List.map_nil, total_cons, total_nil, Column.width]
    omega
  scan_of_values {sizes data offset row} hroom hrow := by
    simp only [TypedRow.table, Sizes.rowSize, TableId.columns, List.map_cons, List.map_nil,
      total_cons, total_nil, Nat.add_zero] at hroom hrow ⊢
    cases hrow
    simp only [TypedRow.scan, Column.scan_row]
    rw [Column.bind_scan (by omega)]
    rfl
  scan_of_fault _ hfault := nomatch hfault
  copies_emit {sizes goal offset row} hroom hrow := by
    simp only [TypedRow.table, Sizes.rowSize, TableId.columns, List.map_cons, List.map_nil,
      total_cons, total_nil, Nat.add_zero] at hroom hrow ⊢
    cases hrow
    exact Column.copies_emit (.row .field) _ (sizes.rowIndexWidth_eq _) (by omega)

instance : Schema MethodPointerRow where
  ofValues
    | [method] => .ok { method }
    | _ => .error .outOfBounds
  size_eq sizes := by
    simp only [TypedRow.size, TypedRow.table, Sizes.rowSize, TableId.columns, List.map_cons,
      List.map_nil, total_cons, total_nil, Column.width]
    omega
  scan_of_values {sizes data offset row} hroom hrow := by
    simp only [TypedRow.table, Sizes.rowSize, TableId.columns, List.map_cons, List.map_nil,
      total_cons, total_nil, Nat.add_zero] at hroom hrow ⊢
    cases hrow
    simp only [TypedRow.scan, Column.scan_row]
    rw [Column.bind_scan (by omega)]
    rfl
  scan_of_fault _ hfault := nomatch hfault
  copies_emit {sizes goal offset row} hroom hrow := by
    simp only [TypedRow.table, Sizes.rowSize, TableId.columns, List.map_cons, List.map_nil,
      total_cons, total_nil, Nat.add_zero] at hroom hrow ⊢
    cases hrow
    exact Column.copies_emit (.row .methodDef) _ (sizes.rowIndexWidth_eq _) (by omega)

instance : Schema NestingRow where
  ofValues
    | [nested, enclosing] => .ok { nested, enclosing }
    | _ => .error .outOfBounds
  size_eq sizes := by
    simp only [TypedRow.size, TypedRow.table, Sizes.rowSize, TableId.columns, List.map_cons,
      List.map_nil, total_cons, total_nil, Column.width]
    omega
  scan_of_values {sizes data offset row} hroom hrow := by
    simp only [TypedRow.table, Sizes.rowSize, TableId.columns, List.map_cons, List.map_nil,
      total_cons, total_nil, Nat.add_zero, ← Nat.add_assoc] at hroom hrow ⊢
    cases hrow
    simp only [TypedRow.scan, Column.scan_row]
    rw [Column.bind_scan (by omega), Column.bind_scan (by omega)]
    rfl
  scan_of_fault _ hfault := nomatch hfault
  copies_emit {sizes goal offset row} hroom hrow := by
    simp only [TypedRow.table, Sizes.rowSize, TableId.columns, List.map_cons, List.map_nil,
      total_cons, total_nil, Nat.add_zero, ← Nat.add_assoc] at hroom hrow ⊢
    cases hrow
    exact (Column.copies_emit (.row .typeDef) _ (sizes.rowIndexWidth_eq _) (by omega)).bind <|
      Column.copies_emit (.row .typeDef) _ (sizes.rowIndexWidth_eq _) (by omega)

instance : Schema ModuleRow where
  ofValues
    | [generation, name, mvid, encId, encBaseId] => .ok { generation, name, mvid, encId, encBaseId }
    | _ => .error .outOfBounds
  size_eq sizes := by
    simp only [TypedRow.size, TypedRow.table, Sizes.rowSize, TableId.columns, List.map_cons,
      List.map_nil, total_cons, total_nil, Column.width]
    omega
  scan_of_values {sizes data offset row} hroom hrow := by
    simp only [TypedRow.table, Sizes.rowSize, TableId.columns, List.map_cons, List.map_nil,
      total_cons, total_nil, Nat.add_zero, ← Nat.add_assoc] at hroom hrow ⊢
    cases hrow
    simp only [TypedRow.scan, Column.scan_half sizes, Column.scan_string, Column.scan_guid]
    rw [Column.bind_scan (by omega), Column.bind_scan (by omega), Column.bind_scan (by omega),
      Column.bind_scan (by omega), Column.bind_scan (by omega)]
    rfl
  scan_of_fault _ hfault := nomatch hfault
  copies_emit {sizes goal offset row} hroom hrow := by
    simp only [TypedRow.table, Sizes.rowSize, TableId.columns, List.map_cons, List.map_nil,
      total_cons, total_nil, Nat.add_zero, ← Nat.add_assoc] at hroom hrow ⊢
    cases hrow
    have hbound : goal.number offset (Column.half.width sizes) < 0x10000 :=
      Bytes.number_lt goal offset 2
    have hgeneration : goal.number offset (Column.half.width sizes) =
        (UInt32.ofNat (goal.number offset (Column.half.width sizes))).toNat := by
      rw [UInt32.toNat_ofNat']
      omega
    have hfirst : Emit.Copies goal
        (Emit.number 2 (UInt32.ofNat (goal.number offset (Column.half.width sizes))).toNat) offset
        (offset + Column.half.width sizes) () :=
      Emit.copies_number (by simp only [Column.width] at *; omega) hgeneration
    simp only [TypedRow.emit, ← hgeneration, hbound, ↓reduceIte]
    simp only [← hgeneration] at hfirst
    exact hfirst.bind <|
      (Column.copies_emit .string _ rfl (by omega)).bind <|
      (Column.copies_emit .guid _ rfl (by omega)).bind <|
      (Column.copies_emit .guid _ rfl (by omega)).bind <|
      Column.copies_emit .guid _ rfl (by omega)

end Unveil
