import Unveil.Proofs.Table.Transcript

/-!
What a coded index keeps of a number, and what a number keeps of a coded index.
Decoding splits a number into the tag below and the row above; encoding puts
the first tag of the table below the row and drops what does not fit a word. So
a number comes back where its tag is the first of its table, and a reference
where its row leaves the tag its place.
-/

namespace Unveil

namespace Bytes

variable {a b : Bytes}

/-- A number depends on its bytes and not on where they stand. -/
theorem number_shift {start offset width : Nat}
    (h : ∀ k, k < width → a.getD (start + k) 0 = b.getD (offset + k) 0) :
    a.number start width = b.number offset width := by
  induction width generalizing start offset with
  | zero => rfl
  | succ width ih =>
      have hfirst : a.getD start 0 = b.getD offset 0 := h 0 (Nat.succ_pos width)
      have hrest : a.number (start + 1) width = b.number (offset + 1) width := by
        apply ih
        intro k hk
        have hbyte := h (k + 1) (Nat.succ_lt_succ hk)
        rwa [Nat.add_assoc, Nat.add_assoc, Nat.add_comm 1 k]
      simp only [number, hfirst, hrest]

end Bytes

namespace CodedKind

variable {kind : CodedKind} {table : TableId} {tag other : Nat}

theorem length_targets_le (kind : CodedKind) : kind.targets.length ≤ 2 ^ kind.tagBits := by
  cases kind <;> decide

theorem tagBits_le (kind : CodedKind) : kind.tagBits ≤ 5 := by
  cases kind <;> decide

/-- Only the kind for attribute constructors gives a table more than one tag. -/
theorem nodup_targets (h : kind ≠ .customAttributeType) : kind.targets.Nodup := by
  cases kind with
  | customAttributeType => exact absurd rfl h
  | _ => decide

theorem lt_of_getElem? (h : kind.targets[tag]? = some table) : tag < 2 ^ kind.tagBits := by
  obtain ⟨hlt, -⟩ := List.getElem?_eq_some_iff.mp h
  exact Nat.lt_of_lt_of_le hlt kind.length_targets_le

theorem getElem?_of_idxOf? (h : kind.targets.idxOf? table = some tag) :
    kind.targets[tag]? = some table := by
  obtain ⟨hlt, hget, -⟩ := List.idxOf?_eq_some_iff.mp h
  rw [List.getElem?_eq_getElem hlt, hget]

theorem le_of_idxOf? (h : kind.targets.idxOf? table = some tag)
    (hother : kind.targets[other]? = some table) : tag ≤ other := by
  obtain ⟨_, _, hbefore⟩ := List.idxOf?_eq_some_iff.mp h
  obtain ⟨hlt, hget⟩ := List.getElem?_eq_some_iff.mp hother
  apply Nat.le_of_not_lt
  intro hless
  exact hbefore other hless hget

theorem exists_idxOf? (h : table ∈ kind.targets) :
    ∃ tag, kind.targets.idxOf? table = some tag := by
  rw [← Option.isSome_iff_exists, List.isSome_idxOf?]
  exact h

theorem idxOf?_customAttributeType
    (h : (targets .customAttributeType)[tag]? = some table) :
    (targets .customAttributeType).idxOf? table = some (if tag < 3 then 0 else 3) := by
  obtain ⟨hlt, rfl⟩ := List.getElem?_eq_some_iff.mp h
  have hfive : ∀ tag : Fin 5, (targets .customAttributeType).idxOf?
      ((targets .customAttributeType).get tag) = some (if tag.val < 3 then 0 else 3) := by
    decide
  exact hfive ⟨tag, hlt⟩

/-- The tag of a number is the first that its table has. It always is, but for
the tags 1, 2 and 4 of attribute constructors. -/
def FirstTag (kind : CodedKind) (value : UInt32) : Prop :=
  kind = .customAttributeType → value.toNat % 8 = 0 ∨ value.toNat % 8 = 3

end CodedKind

namespace Column

variable {sizes : Sizes} {column : Column} {wide : Bool} {value : UInt32} {bytes : Bytes}
  {start : Nat}

theorem emit_eq (hwidth : column.width sizes = if wide then 4 else 2)
    (hfits : column.Fits sizes value) (hroom : start + column.width sizes ≤ bytes.size) :
    Emit.column wide value ⟨bytes, start⟩ =
      .ok () ⟨bytes.overwrite start (Bytes.spell (column.width sizes) value.toNat),
        start + column.width sizes⟩ := by
  rw [emit_of_fits hwidth hfits]
  simp only [Emit.number, hroom, ↓reduceIte]

theorem emit_of_short (hwidth : column.width sizes = if wide then 4 else 2)
    (hfits : column.Fits sizes value) (hshort : bytes.size < start + column.width sizes) :
    Emit.column wide value ⟨bytes, start⟩ = .error .outOfBounds ⟨bytes, start⟩ := by
  rw [emit_of_fits hwidth hfits]
  simp only [Emit.number, Nat.not_le.mpr hshort, ↓reduceIte]

theorem emit_of_misfit (hwidth : column.width sizes = if wide then 4 else 2)
    (hmisfit : ¬ column.Fits sizes value) (sheet : Sheet) :
    Emit.column wide value sheet = .error (.malformed (.columnOverflow value)) sheet := by
  rw [fits_iff, hwidth] at hmisfit
  cases wide with
  | true => exact absurd value.toNat_lt hmisfit
  | false =>
      have hlarge : ¬ value.toNat < 0x10000 := hmisfit
      simp only [Emit.column, hlarge, Bool.false_eq_true, ↓reduceIte]
      rfl

/-- The value just put down is read back. -/
theorem number_emitted (hfits : column.Fits sizes value)
    (hroom : start + column.width sizes ≤ bytes.size) :
    UInt32.ofNat ((bytes.overwrite start
      (Bytes.spell (column.width sizes) value.toNat)).number start (column.width sizes)) =
        value := by
  rw [Bytes.number_overwrite_spell hroom, Nat.mod_eq_of_lt (fits_iff.mp hfits), UInt32.ofNat_toNat]

end Column

namespace CodedIndex

variable {kind : CodedKind} {value : UInt32} {index : CodedIndex}

theorem decode_eq_ok : decode kind value = .ok index ↔
    kind.targets[value.toNat % 2 ^ kind.tagBits]? = some index.table ∧
      index.row.toNat = value.toNat / 2 ^ kind.tagBits := by
  have hrow : (UInt32.ofNat (value.toNat / 2 ^ kind.tagBits)).toNat =
      value.toNat / 2 ^ kind.tagBits := by
    rw [UInt32.toNat_ofNat']
    exact Nat.mod_eq_of_lt (Nat.lt_of_le_of_lt (Nat.div_le_self _ _) value.toNat_lt)
  rw [decode, Nat.one_shiftLeft, Nat.shiftRight_eq_div_pow]
  cases kind.targets[value.toNat % 2 ^ kind.tagBits]? with
  | none => simp
  | some table =>
      obtain ⟨target, row⟩ := index
      simp only [Except.ok.injEq, CodedIndex.mk.injEq, Option.some.injEq, ← UInt32.toNat_inj, hrow]
      exact and_congr_right fun _ => eq_comm

theorem encode_eq_ok : encode kind index = .ok value ↔
    ∃ tag, kind.targets.idxOf? index.table = some tag ∧
      value.toNat = (index.row.toNat * 2 ^ kind.tagBits + tag) % 2 ^ 32 := by
  rw [encode]
  cases kind.targets.idxOf? index.table with
  | none => simp
  | some tag =>
      simp only [Except.ok.injEq, Option.some.injEq, exists_eq_left', ← UInt32.toNat_inj,
        UInt32.toNat_ofNat', Nat.shiftLeft_eq]
      exact eq_comm

theorem encode_of_not_mem (h : index.table ∉ kind.targets) :
    encode kind index = .error (.malformed (.notATarget index.table kind)) := by
  have hnone : kind.targets.idxOf? index.table = none := List.idxOf?_eq_none_iff.mpr h
  rw [encode, hnone]

theorem row_above_tag_div {bits row tag : Nat} (htag : tag < 2 ^ bits) :
    (row * 2 ^ bits + tag) / 2 ^ bits = row := by
  rw [Nat.mul_comm, Nat.mul_add_div (Nat.two_pow_pos _), Nat.div_eq_of_lt htag, Nat.add_zero]

/-- A number is made of a tag and a row in one way only. -/
theorem decode_of_split {tag : Nat} {table : TableId} {row : UInt32}
    (htable : kind.targets[tag]? = some table)
    (hvalue : value.toNat = row.toNat * 2 ^ kind.tagBits + tag) :
    decode kind value = .ok ⟨table, row⟩ := by
  have hlt := CodedKind.lt_of_getElem? htable
  rw [decode_eq_ok, hvalue]
  constructor
  · rw [Nat.mul_add_mod_of_lt hlt, htable]
  · exact (row_above_tag_div hlt).symm

/-- A reference that was read from a number has a number, which is not above
that one: it may have an earlier tag. -/
theorem exists_encode_of_decode (h : decode kind value = .ok index) :
    ∃ again, encode kind index = .ok again ∧ again.toNat ≤ value.toNat := by
  obtain ⟨htable, hrow⟩ := decode_eq_ok.mp h
  obtain ⟨tag, htag⟩ := CodedKind.exists_idxOf? (List.mem_of_getElem? htable)
  have hle := CodedKind.le_of_idxOf? htag htable
  have hsplit := Nat.div_add_mod' value.toNat (2 ^ kind.tagBits)
  refine ⟨.ofNat (index.row.toNat * 2 ^ kind.tagBits + tag), ?_, ?_⟩
  · rw [encode_eq_ok]
    exact ⟨tag, htag, UInt32.toNat_ofNat'⟩
  · rw [hrow, UInt32.toNat_ofNat']
    apply Nat.le_trans (Nat.mod_le _ _)
    omega

/-- A number comes back exactly if its tag is the first of its table. -/
theorem encode_iff_firstTag (h : decode kind value = .ok index) :
    encode kind index = .ok value ↔ kind.FirstTag value := by
  by_cases hkind : kind = .customAttributeType
  · subst hkind
    have hbits : CodedKind.tagBits .customAttributeType = 3 := rfl
    obtain ⟨htable, hrow⟩ := decode_eq_ok.mp h
    have htag := CodedKind.idxOf?_customAttributeType htable
    have hword := value.toNat_lt
    rw [hbits] at htag hrow
    simp only [encode_eq_ok, htag, hrow, hbits, Option.some.injEq, exists_eq_left',
      CodedKind.FirstTag, forall_const]
    split
    · omega
    · omega
  · simp only [CodedKind.FirstTag, hkind, false_implies, iff_true]
    exact encode_of_decode (CodedKind.nodup_targets hkind) h

/-- A row above a tag stays below what both have bits for. -/
theorem row_above_tag_lt {bits width row tag : Nat} (hbits : bits ≤ width)
    (hrow : row < 2 ^ (width - bits)) (htag : tag < 2 ^ bits) :
    row * 2 ^ bits + tag < 2 ^ width := by
  calc row * 2 ^ bits + tag
      < row * 2 ^ bits + 2 ^ bits := Nat.add_lt_add_left htag _
    _ = (row + 1) * 2 ^ bits := (Nat.succ_mul _ _).symm
    _ ≤ 2 ^ (width - bits) * 2 ^ bits := Nat.mul_le_mul_right _ hrow
    _ = 2 ^ width := by rw [← Nat.pow_add, Nat.sub_add_cancel hbits]

/-- A row above a tag in a word keeps as many bits as the tag leaves. -/
theorem row_above_tag_mod {bits row tag : Nat} (hbits : bits ≤ 32) (htag : tag < 2 ^ bits) :
    (row * 2 ^ bits + tag) % 2 ^ 32 = row % 2 ^ (32 - bits) * 2 ^ bits + tag := by
  have hword : 2 ^ 32 = 2 ^ bits * 2 ^ (32 - bits) := by
    rw [← Nat.pow_add, Nat.add_sub_cancel' hbits]
  rw [hword, Nat.mod_mul, Nat.mul_add_mod_of_lt htag, row_above_tag_div htag, Nat.mul_comm,
    Nat.add_comm]

/-- The number of a reference stands for the same table, and for the row as far
as the tag leaves it a place. -/
theorem decode_of_encode (h : encode kind index = .ok value) :
    decode kind value =
      .ok ⟨index.table, .ofNat (index.row.toNat % 2 ^ (32 - kind.tagBits))⟩ := by
  obtain ⟨tag, htag, hvalue⟩ := encode_eq_ok.mp h
  have htable := CodedKind.getElem?_of_idxOf? htag
  have hbits : kind.tagBits ≤ 32 := Nat.le_trans kind.tagBits_le (by decide)
  have hrow : (UInt32.ofNat (index.row.toNat % 2 ^ (32 - kind.tagBits))).toNat =
      index.row.toNat % 2 ^ (32 - kind.tagBits) := by
    rw [UInt32.toNat_ofNat']
    exact Nat.mod_eq_of_lt (Nat.lt_of_le_of_lt (Nat.mod_le _ _) index.row.toNat_lt)
  rw [row_above_tag_mod hbits (CodedKind.lt_of_getElem? htable), ← hrow] at hvalue
  exact decode_of_split htable hvalue

/-- A reference comes back exactly if its row leaves the tag its place. -/
theorem decode_iff_row_lt (h : encode kind index = .ok value) :
    decode kind value = .ok index ↔ index.row.toNat < 2 ^ (32 - kind.tagBits) := by
  have hword : index.row.toNat % 2 ^ (32 - kind.tagBits) < 2 ^ 32 :=
    Nat.lt_of_le_of_lt (Nat.mod_le _ _) index.row.toNat_lt
  obtain ⟨table, row⟩ := index
  simp only [decode_of_encode h, Except.ok.injEq, CodedIndex.mk.injEq, true_and,
    ← UInt32.toNat_inj, UInt32.toNat_ofNat', Nat.mod_eq_of_lt hword]
  constructor
  · intro hrow
    rw [← hrow]
    exact Nat.mod_lt _ (Nat.two_pow_pos _)
  · exact Nat.mod_eq_of_lt

variable {sizes : Sizes} {data bytes : Bytes} {offset start stop : Nat}

/-- A reference is read exactly where its column is there and holds a number
that stands for it. -/
theorem scan_eq_ok : scan sizes kind data offset = .ok index stop ↔
    offset + sizes.codedWidth kind ≤ data.size ∧ stop = offset + sizes.codedWidth kind ∧
      decode kind (.ofNat (data.number offset (sizes.codedWidth kind))) = .ok index := by
  by_cases hroom : offset + (Column.coded kind).width sizes ≤ data.size
  · cases hvalue : decode kind (.ofNat (data.number offset (sizes.codedWidth kind))) with
    | ok found =>
        rw [scan_of_decode hroom hvalue]
        simp only [EStateM.Result.ok.injEq, Except.ok.injEq, Column.width] at hroom ⊢
        constructor
        · rintro ⟨rfl, rfl⟩
          exact ⟨hroom, rfl, rfl⟩
        · rintro ⟨-, rfl, rfl⟩
          exact ⟨rfl, rfl⟩
    | error fault =>
        rw [scan_of_fault hroom hvalue]
        simp
  · have hshort : (Column.coded kind).scan sizes data offset = .error .outOfBounds offset := by
      simp only [Column.scan, Functor.map, EStateM.map, Scan.number, hroom, ↓reduceIte]
    rw [scan, Column.scan_coded, EStateM.bind_of_error hshort]
    simp only [Column.width] at hroom
    simp [hroom]

theorem emit_of_encode (h : encode kind index = .ok value) :
    emit sizes kind index = Emit.column (sizes.codedWidth kind == 4) value := by
  simp only [emit, h]

/-- A reference is put down as its number. -/
theorem emit_eq (h : encode kind index = .ok value)
    (hfits : (Column.coded kind).Fits sizes value)
    (hroom : start + sizes.codedWidth kind ≤ bytes.size) :
    emit sizes kind index ⟨bytes, start⟩ =
      .ok () ⟨bytes.overwrite start (Bytes.spell (sizes.codedWidth kind) value.toNat),
        start + sizes.codedWidth kind⟩ := by
  have hwidth : (Column.coded kind).width sizes = _ := sizes.codedWidth_eq kind
  rw [emit_of_encode h]
  exact Column.emit_eq hwidth hfits hroom

/-- A number that was put down is read as the reference it stands for. -/
theorem scan_emitted (hfits : (Column.coded kind).Fits sizes value)
    (hroom : start + sizes.codedWidth kind ≤ bytes.size) :
    scan sizes kind
        (bytes.overwrite start (Bytes.spell (sizes.codedWidth kind) value.toNat)) start =
      .ok index (start + sizes.codedWidth kind) ↔ decode kind value = .ok index := by
  have hnumber := Column.number_emitted hfits hroom
  simp only [Column.width] at hnumber
  rw [scan_eq_ok, Bytes.size_overwrite, hnumber]
  simp only [hroom, true_and]

/-- A number comes back from the reference that it stands for, and the bytes of
a column from the reference read from it, exactly if the tag is the first of
its table. There always is a number for the reference, and it fits the column. -/
theorem decoding_undone (kind : CodedKind) :
    (∀ value index, decode kind value = .ok index →
      (encode kind index = .ok value ↔ kind.FirstTag value)) ∧
    ∀ sizes data offset index stop, scan sizes kind data offset = .ok index stop →
      stop = offset + sizes.codedWidth kind ∧
      ∀ bytes start, start + sizes.codedWidth kind ≤ bytes.size → ∃ after,
        emit sizes kind index ⟨bytes, start⟩ =
          .ok () ⟨after, start + sizes.codedWidth kind⟩ ∧
        (Bytes.Copied data offset (sizes.codedWidth kind) bytes start after ↔
          kind.FirstTag (.ofNat (data.number offset (sizes.codedWidth kind)))) := by
  constructor
  · intro value index hdecode
    exact encode_iff_firstTag hdecode
  · intro sizes data offset index stop hscan
    obtain ⟨-, rfl, hdecode⟩ := scan_eq_ok.mp hscan
    refine ⟨rfl, ?_⟩
    intro bytes start hroom
    obtain ⟨again, hagain, hle⟩ := exists_encode_of_decode hdecode
    have hread := Column.fits_number sizes data (.coded kind) offset
    have hfits : (Column.coded kind).Fits sizes again := Nat.lt_of_le_of_lt hle hread
    refine ⟨_, emit_eq hagain hfits hroom, ?_⟩
    rw [← encode_iff_firstTag hdecode, hagain, Except.ok.injEq]
    constructor
    · intro hcopied
      have hnumber := Bytes.number_shift hcopied.inside
      have hput := Column.number_emitted hfits hroom
      simp only [Column.width] at hput
      rw [← hput, hnumber]
    · rintro rfl
      have hword := Bytes.toNat_ofNat_number data offset
        (Column.width_bounds sizes (.coded kind)).2
      simp only [Column.width] at hword
      rw [hword, Bytes.spell_number]
      exact Bytes.copied_overwrite hroom

/-- A reference to a type comes back with its four bytes, one to a constructor
with the third tag of its table does not. -/
theorem decoding_undone_sample :
    encode .typeDefOrRef ⟨.typeRef, 0x4003⟩ = .ok 0x1000D ∧
    encode .customAttributeType ⟨.methodDef, 1⟩ ≠ .ok 10 ∧
    ∃ after, emit GenericRow.manyTypes .typeDefOrRef ⟨.typeRef, 0x4003⟩ ⟨.replicate 6 9, 1⟩ =
        .ok () ⟨after, 5⟩ ∧
      Bytes.Copied #[9, 9, 0x0D, 0, 1, 0] 2 4 (.replicate 6 9) 1 after := by
  obtain ⟨hnumber, hbytes⟩ := decoding_undone .typeDefOrRef
  obtain ⟨hconstructor, -⟩ := decoding_undone .customAttributeType
  have hwidth : GenericRow.manyTypes.codedWidth .typeDefOrRef = 4 := by decide +kernel
  have hscan : scan GenericRow.manyTypes .typeDefOrRef #[9, 9, 0x0D, 0, 1, 0] 2 =
      .ok ⟨.typeRef, 0x4003⟩ 6 :=
    scan_eq_ok.mpr ⟨by rw [hwidth]; decide, by rw [hwidth], by rw [hwidth]; rfl⟩
  obtain ⟨-, hwrite⟩ := hbytes _ _ _ _ _ hscan
  obtain ⟨after, hemit, hcopied⟩ := hwrite (.replicate 6 9) 1 (by rw [hwidth]; decide)
  rw [hwidth] at hemit hcopied
  refine ⟨?_, ?_, after, hemit, ?_⟩
  · exact (hnumber 0x1000D ⟨.typeRef, 0x4003⟩ rfl).mpr nofun
  · intro hsame
    have htag := (hconstructor 10 ⟨.methodDef, 1⟩ rfl).mp hsame rfl
    exact absurd htag (by decide)
  · exact hcopied.mpr nofun

/-- A reference is refused if its table is no target of the kind. Otherwise it
has a number, which stands for the same table and the low bits of the row, and
so for the reference itself exactly if the row leaves the tag its place; and
what is put down in a column is read back as the reference in the same case,
unless the number is refused because the column is too narrow for it or not
there. -/
theorem encoding_undone (kind : CodedKind) (index : CodedIndex) :
    (index.table ∉ kind.targets ∧
      encode kind index = .error (.malformed (.notATarget index.table kind)) ∧
      ∀ sizes sheet, emit sizes kind index sheet =
        .error (.malformed (.notATarget index.table kind)) sheet) ∨
    index.table ∈ kind.targets ∧ ∃ value, encode kind index = .ok value ∧
      decode kind value =
        .ok ⟨index.table, .ofNat (index.row.toNat % 2 ^ (32 - kind.tagBits))⟩ ∧
      (decode kind value = .ok index ↔ index.row.toNat < 2 ^ (32 - kind.tagBits)) ∧
      ∀ sizes bytes start,
        (¬ (Column.coded kind).Fits sizes value →
          emit sizes kind index ⟨bytes, start⟩ =
            .error (.malformed (.columnOverflow value)) ⟨bytes, start⟩) ∧
        ((Column.coded kind).Fits sizes value →
          bytes.size < start + sizes.codedWidth kind →
          emit sizes kind index ⟨bytes, start⟩ = .error .outOfBounds ⟨bytes, start⟩) ∧
        ((Column.coded kind).Fits sizes value →
          start + sizes.codedWidth kind ≤ bytes.size → ∃ after,
          emit sizes kind index ⟨bytes, start⟩ =
            .ok () ⟨after, start + sizes.codedWidth kind⟩ ∧
          (scan sizes kind after start = .ok index (start + sizes.codedWidth kind) ↔
            index.row.toNat < 2 ^ (32 - kind.tagBits))) := by
  by_cases hmem : index.table ∈ kind.targets
  · obtain ⟨tag, htag⟩ := CodedKind.exists_idxOf? hmem
    have hvalue : encode kind index = .ok _ := encode_eq_ok.mpr ⟨tag, htag, UInt32.toNat_ofNat'⟩
    have hback := decode_iff_row_lt hvalue
    refine Or.inr ⟨hmem, _, hvalue, decode_of_encode hvalue, hback, ?_⟩
    intro sizes bytes start
    have hwidth : (Column.coded kind).width sizes = _ := sizes.codedWidth_eq kind
    refine ⟨?_, ?_, ?_⟩
    · intro hmisfit
      rw [emit_of_encode hvalue]
      exact Column.emit_of_misfit hwidth hmisfit _
    · intro hfits hshort
      rw [emit_of_encode hvalue]
      exact Column.emit_of_short hwidth hfits hshort
    · intro hfits hroom
      exact ⟨_, emit_eq hvalue hfits hroom, (scan_emitted hfits hroom).trans hback⟩
  · refine Or.inl ⟨hmem, encode_of_not_mem hmem, ?_⟩
    intro sizes sheet
    simp only [emit, encode_of_not_mem hmem]
    rfl

/-- The sizes of a stream that marks no table. -/
def noTables : Sizes := .ofCounts (fun _ => none) 0

/-- A row of 31 bits is cut to its low 30, and what stands in two bytes is a
reference to row 1. A row that fits comes back, and one that takes more than two
bytes is refused. -/
theorem encoding_undone_sample :
    (∃ after, emit noTables .typeDefOrRef ⟨.typeRef, 0x40000001⟩ ⟨#[9, 9, 9], 1⟩ =
        .ok () ⟨after, 3⟩ ∧
      scan noTables .typeDefOrRef after 1 ≠ .ok ⟨.typeRef, 0x40000001⟩ 3) ∧
    (∃ after, emit noTables .typeDefOrRef ⟨.typeRef, 0x3FFF⟩ ⟨#[9, 9, 9], 1⟩ =
        .ok () ⟨after, 3⟩ ∧
      scan noTables .typeDefOrRef after 1 = .ok ⟨.typeRef, 0x3FFF⟩ 3) ∧
    emit noTables .typeDefOrRef ⟨.typeRef, 0x4000⟩ ⟨#[9, 9, 9], 1⟩ =
      .error (.malformed (.columnOverflow 0x10001)) ⟨#[9, 9, 9], 1⟩ := by
  have hwidth : noTables.codedWidth .typeDefOrRef = 2 := by decide +kernel
  have hvalue (row : UInt32) := (encoding_undone .typeDefOrRef ⟨.typeRef, row⟩).resolve_left
    fun hmiss => absurd (show TableId.typeRef ∈ CodedKind.targets .typeDefOrRef by decide) hmiss.1
  have hroom : 1 + noTables.codedWidth .typeDefOrRef ≤
      (#[9, 9, 9] : Bytes).size := by
    rw [hwidth]
    decide
  refine ⟨?_, ?_, ?_⟩
  · obtain ⟨-, value, hencode, -, -, hwrite⟩ := hvalue 0x40000001
    cases hencode
    have hfits := show (5 : UInt32).toNat < 2 ^ (8 * 2) by decide
    rw [← hwidth] at hfits
    obtain ⟨after, hemit, hread⟩ := (hwrite _ #[9, 9, 9] 1).2.2 hfits hroom
    rw [hwidth] at hemit hread
    refine ⟨after, hemit, ?_⟩
    intro hsame
    exact absurd (hread.mp hsame) (by decide)
  · obtain ⟨-, value, hencode, -, -, hwrite⟩ := hvalue 0x3FFF
    cases hencode
    have hfits := show (0xFFFD : UInt32).toNat < 2 ^ (8 * 2) by decide
    rw [← hwidth] at hfits
    obtain ⟨after, hemit, hread⟩ := (hwrite _ #[9, 9, 9] 1).2.2 hfits hroom
    rw [hwidth] at hemit hread
    exact ⟨after, hemit, hread.mpr (by decide)⟩
  · obtain ⟨-, value, hencode, -, -, hwrite⟩ := hvalue 0x4000
    cases hencode
    have hlarge := show ¬ (0x10001 : UInt32).toNat < 2 ^ (8 * 2) by decide
    rw [← hwidth] at hlarge
    exact (hwrite _ #[9, 9, 9] 1).1 hlarge

end CodedIndex

end Unveil
