import Mathlib.Order.Bounds.Defs
import Unveil.Proofs.Table.Coded

/-!
The widths of indexes against the rule of the file format. The rule speaks of
row counts and powers of two, `Sizes` of the lengths of numbers in bits; both
say the same, and a column of two bytes has room for every row that it may have
to name.
-/

namespace Unveil

/-- The tag is as short as it can be for the number of targets. -/
theorem CodedKind.tagBits_isLeast (kind : CodedKind) :
    IsLeast {bits | kind.targets.length ≤ 2 ^ bits} kind.tagBits := by
  constructor
  · exact kind.length_targets_le
  · intro bits hbits
    have hshorter : ∀ fewer < kind.tagBits, ¬ kind.targets.length ≤ 2 ^ fewer := by
      cases kind <;> decide
    exact Nat.le_of_not_lt fun hless => hshorter bits hless hbits

namespace Sizes

variable {sizes : Sizes} {table : TableId} {kind : CodedKind}

theorem rowIndexWidth_eq_two : sizes.rowIndexWidth table = 2 ↔ sizes.rows table ≤ 0xFFFF := by
  have hbits : sizes.rowBits table ≤ 16 ↔ sizes.rows table < 0x10000 :=
    sizes.rowBits_le_iff (by decide)
  unfold rowIndexWidth
  split
  · omega
  · omega

theorem isWide_iff : sizes.isWide table = true ↔ sizes.rowIndexWidth table = 4 := by
  rw [rowIndexWidth_eq]
  cases sizes.isWide table with
  | true => simp
  | false => simp

theorem codedBits_le_iff : sizes.codedBits kind ≤ 16 ↔
    ∀ table ∈ kind.targets, sizes.rows table < 2 ^ (16 - kind.tagBits) := by
  have htag := kind.tagBits_le
  have hmax : sizes.codedBits kind ≤ 16 ↔
      (kind.targets.map sizes.rowBits).foldl max 0 ≤ 16 - kind.tagBits := by
    rw [codedBits]
    omega
  rw [hmax, foldl_max_le]
  simp only [Nat.zero_le, true_and, List.forall_mem_map]
  exact forall₂_congr fun table _ => sizes.rowBits_le_iff (by omega)

theorem codedWidth_eq_two : sizes.codedWidth kind = 2 ↔
    ∀ table ∈ kind.targets, sizes.rows table < 2 ^ (16 - kind.tagBits) := by
  rw [← codedBits_le_iff, codedWidth]
  split
  · omega
  · omega

/-- A row number of the table fits the column that refers to its rows. -/
theorem fits_of_row_le {row : UInt32} (hrow : row.toNat ≤ sizes.rows table) :
    (Column.row table).Fits sizes row := by
  rw [Column.fits_iff, Column.width, rowIndexWidth_eq]
  cases hwide : sizes.isWide table with
  | true => exact row.toNat_lt
  | false =>
      have hnarrow : ¬ 0xFFFF < sizes.rows table := by simpa [isWide] using hwide
      change row.toNat < 0x10000
      omega

/-- A reference to one of the rows has a number of two bytes, where two bytes
are the width. -/
theorem encode_of_row_le {index : CodedIndex} (hwidth : sizes.codedWidth kind = 2)
    (htarget : index.table ∈ kind.targets)
    (hrow : index.row.toNat ≤ sizes.rows index.table) :
    ∃ value, CodedIndex.encode kind index = .ok value ∧ value.toNat < 0x10000 ∧
      CodedIndex.decode kind value = .ok index := by
  have hbits := kind.tagBits_le
  have hrows := codedWidth_eq_two.mp hwidth index.table htarget
  obtain ⟨tag, htag⟩ := CodedKind.exists_idxOf? htarget
  have hlow := CodedKind.lt_of_getElem? (CodedKind.getElem?_of_idxOf? htag)
  have hvalue : CodedIndex.encode kind index = .ok _ :=
    CodedIndex.encode_eq_ok.mpr ⟨tag, htag, UInt32.toNat_ofNat'⟩
  refine ⟨_, hvalue, ?_, ?_⟩
  · rw [UInt32.toNat_ofNat']
    apply Nat.lt_of_le_of_lt (Nat.mod_le _ _)
    have hroom : index.row.toNat < 2 ^ (16 - kind.tagBits) := Nat.lt_of_le_of_lt hrow hrows
    exact CodedIndex.row_above_tag_lt (by omega) hroom hlow
  · rw [CodedIndex.decode_iff_row_lt hvalue]
    calc index.row.toNat ≤ sizes.rows index.table := hrow
      _ < 2 ^ (16 - kind.tagBits) := hrows
      _ ≤ 2 ^ (32 - kind.tagBits) := Nat.pow_le_pow_right (by decide) (by omega)

/-- A row number of the table is put down and read back. -/
theorem row_put_back {row : UInt32} (hrow : row.toNat ≤ sizes.rows table) {bytes : Bytes}
    {start : Nat} (hroom : start + sizes.rowIndexWidth table ≤ bytes.size) :
    ∃ after, Emit.column (sizes.isWide table) row ⟨bytes, start⟩ =
        .ok () ⟨after, start + sizes.rowIndexWidth table⟩ ∧
      Scan.column after (sizes.isWide table) start =
        .ok row (start + sizes.rowIndexWidth table) := by
  have hfits := fits_of_row_le hrow
  have hwidth : (Column.row table).width sizes = _ := sizes.rowIndexWidth_eq table
  refine ⟨_, Column.emit_eq hwidth hfits hroom, ?_⟩
  rw [Column.scan_row, Column.scan_of_fits (by rwa [Bytes.size_overwrite]),
    Column.number_emitted hfits hroom]
  rfl

/-- A reference to one of the rows is put down and read back in two bytes. -/
theorem index_put_back {index : CodedIndex} {value : UInt32}
    (hwidth : sizes.codedWidth kind = 2) (hvalue : CodedIndex.encode kind index = .ok value)
    (hsmall : value.toNat < 256 ^ 2) (hback : CodedIndex.decode kind value = .ok index)
    {bytes : Bytes} {start : Nat} (hroom : start + 2 ≤ bytes.size) :
    ∃ after, index.emit sizes kind ⟨bytes, start⟩ = .ok () ⟨after, start + 2⟩ ∧
      CodedIndex.scan sizes kind after start = .ok index (start + 2) := by
  have hfits : (Column.coded kind).Fits sizes value := by
    rwa [Column.fits_iff, Column.width, hwidth]
  rw [← hwidth] at hroom ⊢
  exact ⟨_, CodedIndex.emit_eq hvalue hfits hroom,
    (CodedIndex.scan_emitted hfits hroom).mpr hback⟩

/-- An index into one table takes two bytes exactly if two bytes can number its
rows, and is told to be wide exactly if it takes four. A tag has as few bits as
its targets allow, and a coded index takes two bytes exactly if each of its
targets has fewer rows than the bits beside the tag can number. What a column
may have to name then has room in it: every row number up to the last, and in
two bytes every coded index of such a row, is put down and read back. -/
theorem widths_suffice (sizes : Sizes) :
    (∀ table, (sizes.rowIndexWidth table = 2 ∨ sizes.rowIndexWidth table = 4) ∧
      (sizes.rowIndexWidth table = 2 ↔ sizes.rows table ≤ 0xFFFF) ∧
      (sizes.isWide table = true ↔ sizes.rowIndexWidth table = 4)) ∧
    (∀ kind : CodedKind, IsLeast {bits | kind.targets.length ≤ 2 ^ bits} kind.tagBits) ∧
    (∀ kind, (sizes.codedWidth kind = 2 ∨ sizes.codedWidth kind = 4) ∧
      (sizes.codedWidth kind = 2 ↔
        ∀ table ∈ kind.targets, sizes.rows table < 2 ^ (16 - kind.tagBits))) ∧
    (∀ table (row : UInt32), row.toNat ≤ sizes.rows table →
      row.toNat < 256 ^ sizes.rowIndexWidth table ∧
      ∀ bytes start, start + sizes.rowIndexWidth table ≤ bytes.size → ∃ after,
        Emit.column (sizes.isWide table) row ⟨bytes, start⟩ =
          .ok () ⟨after, start + sizes.rowIndexWidth table⟩ ∧
        Scan.column after (sizes.isWide table) start =
          .ok row (start + sizes.rowIndexWidth table)) ∧
    ∀ kind (index : CodedIndex), sizes.codedWidth kind = 2 → index.table ∈ kind.targets →
      index.row.toNat ≤ sizes.rows index.table → ∃ value,
        CodedIndex.encode kind index = .ok value ∧ value.toNat < 256 ^ 2 ∧
        CodedIndex.decode kind value = .ok index ∧
        ∀ bytes start, start + 2 ≤ bytes.size → ∃ after,
          index.emit sizes kind ⟨bytes, start⟩ = .ok () ⟨after, start + 2⟩ ∧
          CodedIndex.scan sizes kind after start = .ok index (start + 2) := by
  refine ⟨?_, CodedKind.tagBits_isLeast, ?_, ?_, ?_⟩
  · intro table
    refine ⟨?_, rowIndexWidth_eq_two, isWide_iff⟩
    unfold rowIndexWidth
    split
    · exact Or.inr rfl
    · exact Or.inl rfl
  · intro kind
    refine ⟨?_, codedWidth_eq_two⟩
    unfold codedWidth
    split
    · exact Or.inr rfl
    · exact Or.inl rfl
  · intro table row hrow
    exact ⟨Column.fits_iff.mp (fits_of_row_le hrow), fun _ _ => row_put_back hrow⟩
  · intro kind index hwidth htarget hrow
    obtain ⟨value, hvalue, hsmall, hback⟩ := encode_of_row_le hwidth htarget hrow
    exact ⟨value, hvalue, hsmall, hback, fun _ _ => index_put_back hwidth hvalue hsmall hback⟩

/-- The sizes of a stream whose row counts are the last that two bytes are
enough for: by themselves for `MethodDef`, beside a tag of two bits for `TypeRef`. -/
def filledTables : Sizes :=
  .ofCounts (fun table => if table = .methodDef then some 0xFFFF
    else if table = .typeRef then some 0x3FFF else none) 0

/-- The last method and the last type fit two bytes, a method beside a tag does not. -/
theorem widths_suffice_filled :
    filledTables.rowIndexWidth .methodDef = 2 ∧
    (∃ after, Emit.column (filledTables.isWide .methodDef) 0xFFFF ⟨#[0, 0, 0], 1⟩ =
        .ok () ⟨after, 3⟩ ∧
      Scan.column after (filledTables.isWide .methodDef) 1 = .ok 0xFFFF 3) ∧
    filledTables.codedWidth .typeDefOrRef = 2 ∧
    (∃ after, CodedIndex.emit filledTables .typeDefOrRef ⟨.typeRef, 0x3FFF⟩ ⟨#[0, 0, 0], 1⟩ =
        .ok () ⟨after, 3⟩ ∧
      CodedIndex.scan filledTables .typeDefOrRef after 1 = .ok ⟨.typeRef, 0x3FFF⟩ 3) ∧
    filledTables.codedWidth .methodDefOrRef = 4 := by
  obtain ⟨hsimple, -, hcoded, hrows, hindexes⟩ := widths_suffice filledTables
  have hmethods : filledTables.rows .methodDef = 0xFFFF := rfl
  have htypes : filledTables.rows .typeRef = 0x3FFF := rfl
  have hmethod : filledTables.rowIndexWidth .methodDef = 2 :=
    (hsimple .methodDef).2.1.mpr (Nat.le_of_eq hmethods)
  have htype : filledTables.codedWidth .typeDefOrRef = 2 := by
    rw [(hcoded .typeDefOrRef).2]
    decide +kernel
  have hwide : filledTables.codedWidth .methodDefOrRef = 4 := by
    apply (hcoded .methodDefOrRef).1.resolve_left
    rw [(hcoded .methodDefOrRef).2]
    decide +kernel
  refine ⟨hmethod, ?_, htype, ?_, hwide⟩
  · obtain ⟨-, hput⟩ := hrows .methodDef 0xFFFF (by rw [hmethods]; decide)
    rw [hmethod] at hput
    exact hput #[0, 0, 0] 1 (by decide)
  · obtain ⟨_, -, -, -, hput⟩ := hindexes .typeDefOrRef ⟨.typeRef, 0x3FFF⟩ htype (by decide)
      (by rw [htypes]; decide)
    exact hput #[0, 0, 0] 1 (by decide)

end Sizes

end Unveil
