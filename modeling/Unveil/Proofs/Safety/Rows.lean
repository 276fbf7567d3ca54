import Unveil.Proofs.Safety.Reading
import Unveil.Proofs.Table.Schema

namespace Unveil

namespace CodedIndex

/-- Takes a number apart with a mask and shifts of a word. -/
def decodeStrictly (kind : CodedKind) (value : UInt32) : Except Fault CodedIndex := do
  let span ← shiftUp 32 1 kind.tagBits
  let mask ← Size.sub span 1
  let row ← shiftDown 32 value.toNat kind.tagBits
  let tag := value.toNat &&& mask
  if tag < kind.targets.length then do
    let table ← itemAt kind.targets.toArray tag
    pure ⟨table, UInt32.ofNat row⟩
  else
    .error .outOfBounds

def scanStrictly (sizes : Sizes) (kind : CodedKind) (data : Bytes) : Scan CodedIndex := do
  let value ← Scan.columnStrictly data (sizes.codedWidth kind == 4)
  match decodeStrictly kind value with
  | .ok index => pure index
  | .error fault => throw fault

theorem tagBits_lt (kind : CodedKind) : kind.tagBits < 8 := by
  cases kind <;> decide

theorem safe_decode (kind : CodedKind) (value : UInt32) :
    Safe (decodeStrictly kind value) (decode kind value) := by
  have hbits := tagBits_lt kind
  have hspan : 1 <<< kind.tagBits = 2 ^ kind.tagBits := Nat.one_shiftLeft _
  have hless : 1 <<< kind.tagBits < 1 <<< 32 := by
    rw [hspan, Nat.one_shiftLeft]
    exact Nat.pow_lt_pow_right (by decide) (by omega)
  have hpositive : 1 ≤ 2 ^ kind.tagBits := Nat.one_le_two_pow
  unfold decodeStrictly
  refine Safe.step (shiftUp_of_lt (by omega) hless) ?_
  rw [hspan]
  refine Safe.step (Size.sub_of_le hpositive) (Safe.step (shiftDown_of_lt (by omega)) ?_)
  rw [decode, hspan, Nat.and_two_pow_sub_one_eq_mod]
  by_cases htag : value.toNat % 2 ^ kind.tagBits < kind.targets.length
  · rw [if_pos htag, List.getElem?_eq_getElem htag]
    refine Safe.step (itemAt_of_lt (by simpa using htag)) ?_
    rw [List.getElem_toArray]
    exact Safe.ok _
  · rw [if_neg htag, List.getElem?_eq_none (Nat.le_of_not_lt htag)]
    exact Safe.error rfl

theorem safe_scan {data : Bytes} (hsize : data.size < Size.limit) (sizes : Sizes)
    (kind : CodedKind) : SafeScan (scanStrictly sizes kind data) (scan sizes kind data) := by
  refine (Scan.safe_column hsize _).bind fun value => ?_
  have hdecode := safe_decode kind value
  rw [hdecode.eq]
  cases hvalue : decode kind value with
  | ok index => exact SafeScan.pure index
  | error fault =>
      refine SafeScan.throw fun htrap => hdecode.ne_trap ?_
      rw [hvalue, htrap]

end CodedIndex

/-- The strict form of reading a row. -/
class StrictRow (ρ : Type) [TypedRow ρ] where
  scanStrictly : Sizes → Bytes → Scan ρ
  safe_scan {data : Bytes} (hsize : data.size < Size.limit) (sizes : Sizes) :
    SafeScan (scanStrictly sizes data) (TypedRow.scan sizes data)

instance : StrictRow ModuleRow where
  scanStrictly sizes data := do
    let generation ← Scan.columnStrictly data false
    let name ← Scan.columnStrictly data sizes.wideStrings
    let mvid ← Scan.columnStrictly data sizes.wideGuids
    let encId ← Scan.columnStrictly data sizes.wideGuids
    let encBaseId ← Scan.columnStrictly data sizes.wideGuids
    pure { generation, name, mvid, encId, encBaseId }
  safe_scan hsize _ :=
    (Scan.safe_column hsize _).bind fun _ => (Scan.safe_column hsize _).bind fun _ =>
    (Scan.safe_column hsize _).bind fun _ => (Scan.safe_column hsize _).bind fun _ =>
    (Scan.safe_column hsize _).bind fun _ => SafeScan.pure _

instance : StrictRow TypeRow where
  scanStrictly sizes data := do
    let flags ← Scan.u32Strictly data
    let name ← Scan.columnStrictly data sizes.wideStrings
    let space ← Scan.columnStrictly data sizes.wideStrings
    let base ← CodedIndex.scanStrictly sizes .typeDefOrRef data
    let fieldList ← Scan.columnStrictly data (sizes.isWide .field)
    let methodList ← Scan.columnStrictly data (sizes.isWide .methodDef)
    pure { flags, name, space, base, fieldList, methodList }
  safe_scan hsize sizes :=
    (Scan.safe_u32 hsize).bind fun _ => (Scan.safe_column hsize _).bind fun _ =>
    (Scan.safe_column hsize _).bind fun _ => (CodedIndex.safe_scan hsize sizes _).bind fun _ =>
    (Scan.safe_column hsize _).bind fun _ => (Scan.safe_column hsize _).bind fun _ =>
    SafeScan.pure _

instance : StrictRow FieldPointerRow where
  scanStrictly sizes data := do
    let field ← Scan.columnStrictly data (sizes.isWide .field)
    pure { field }
  safe_scan hsize _ := (Scan.safe_column hsize _).bind fun _ => SafeScan.pure _

instance : StrictRow FieldRow where
  scanStrictly sizes data := do
    let flags ← Scan.columnStrictly data false
    let name ← Scan.columnStrictly data sizes.wideStrings
    let signature ← Scan.columnStrictly data sizes.wideBlobs
    pure { flags, name, signature }
  safe_scan hsize _ :=
    (Scan.safe_column hsize _).bind fun _ => (Scan.safe_column hsize _).bind fun _ =>
    (Scan.safe_column hsize _).bind fun _ => SafeScan.pure _

instance : StrictRow MethodPointerRow where
  scanStrictly sizes data := do
    let method ← Scan.columnStrictly data (sizes.isWide .methodDef)
    pure { method }
  safe_scan hsize _ := (Scan.safe_column hsize _).bind fun _ => SafeScan.pure _

instance : StrictRow MethodRow where
  scanStrictly sizes data := do
    let address ← Scan.u32Strictly data
    let implFlags ← Scan.columnStrictly data false
    let flags ← Scan.columnStrictly data false
    let name ← Scan.columnStrictly data sizes.wideStrings
    let signature ← Scan.columnStrictly data sizes.wideBlobs
    let paramList ← Scan.columnStrictly data (sizes.isWide .param)
    pure { address, implFlags, flags, name, signature, paramList }
  safe_scan hsize _ :=
    (Scan.safe_u32 hsize).bind fun _ => (Scan.safe_column hsize _).bind fun _ =>
    (Scan.safe_column hsize _).bind fun _ => (Scan.safe_column hsize _).bind fun _ =>
    (Scan.safe_column hsize _).bind fun _ => (Scan.safe_column hsize _).bind fun _ =>
    SafeScan.pure _

instance : StrictRow NestingRow where
  scanStrictly sizes data := do
    let nested ← Scan.columnStrictly data (sizes.isWide .typeDef)
    let enclosing ← Scan.columnStrictly data (sizes.isWide .typeDef)
    pure { nested, enclosing }
  safe_scan hsize _ :=
    (Scan.safe_column hsize _).bind fun _ => (Scan.safe_column hsize _).bind fun _ =>
    SafeScan.pure _

namespace Entry

variable (ρ : Type) [TypedRow ρ] [StrictRow ρ]

def scanStrictly (sizes : Sizes) (data : Bytes) (rid : Nat) : Scan (Entry ρ) := do
  let offset ← get
  let row ← StrictRow.scanStrictly sizes data
  pure ⟨rid, offset, row⟩

theorem safe_scan {data : Bytes} (hsize : data.size < Size.limit) (sizes : Sizes) (rid : Nat) :
    SafeScan (scanStrictly ρ sizes data rid) (scan ρ sizes data rid) :=
  SafeScan.get.bind fun _ => (StrictRow.safe_scan hsize sizes).bind fun _ => SafeScan.pure _

end Entry

/-- No table has many columns, and no column is long. -/
theorem Sizes.rowSize_le (sizes : Sizes) (table : TableId) : sizes.rowSize table ≤ 36 := by
  have hcolumns : table.columns.length ≤ 9 := by
    cases table <;> decide
  have htotal (columns : List Column) :
      total (columns.map (Column.width sizes)) ≤ 4 * columns.length := by
    induction columns with
    | nil => exact Nat.le_refl 0
    | cons column columns ih =>
        have hwidth := (Column.width_bounds sizes column).2
        simp only [List.map_cons, total_cons, List.length_cons]
        omega
  exact Nat.le_trans (htotal table.columns) (Nat.mul_le_mul_left 4 hcolumns)

end Unveil
