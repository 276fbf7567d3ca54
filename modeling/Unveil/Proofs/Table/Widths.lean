import Mathlib.Algebra.Group.Nat.Defs
import Unveil.Table.View
import Unveil.Table.Row

namespace Unveil

theorem foldl_max_le {items : List Nat} {start bound : Nat} :
    items.foldl max start ≤ bound ↔ start ≤ bound ∧ ∀ item ∈ items, item ≤ bound := by
  induction items generalizing start with
  | nil => simp
  | cons item items ih =>
      simp only [List.foldl_cons, ih, List.forall_mem_cons, Nat.max_le, and_assoc]

namespace Sizes

variable (sizes : Sizes)

/-- Some bits are enough for every row number of a table if they are for the
last. -/
theorem rowBits_le_iff {table : TableId} {bits : Nat} (hbits : 0 < bits) :
    sizes.rowBits table ≤ bits ↔ sizes.rows table < 2 ^ bits := by
  have hpow := Nat.two_pow_pos bits
  unfold rowBits rows
  match sizes.count? table with
  | none => simp only [Option.getD_none, Nat.zero_le, hpow]
  | some 0 => simp only [Option.getD_some, hpow, Nat.succ_le_iff, hbits]
  | some (rows + 1) =>
      have hlog : (rows + 1).log2 < bits ↔ rows + 1 < 2 ^ bits := Nat.log2_lt (by omega)
      rw [Option.getD_some, ← hlog]
      exact Nat.succ_le_iff

theorem rowIndexWidth_eq (table : TableId) :
    sizes.rowIndexWidth table = if sizes.isWide table then 4 else 2 := by
  have hbits : 16 < sizes.rowBits table ↔ 0xFFFF < sizes.rows table := by
    rw [← Nat.not_le, sizes.rowBits_le_iff (by decide)]
    omega
  simp only [rowIndexWidth, isWide, hbits, decide_eq_true_eq]

theorem codedWidth_eq (kind : CodedKind) :
    sizes.codedWidth kind = if sizes.codedWidth kind == 4 then 4 else 2 := by
  unfold codedWidth
  split
  · rfl
  · rfl

end Sizes

namespace Column

private theorem two_or_four (wide : Prop) [Decidable wide] :
    1 ≤ (if wide then 4 else 2) ∧ (if wide then 4 else 2) ≤ 4 := by
  split
  · decide
  · decide

/-- No column is empty, and none is longer than a word. -/
theorem width_bounds (sizes : Sizes) (column : Column) :
    1 ≤ column.width sizes ∧ column.width sizes ≤ 4 := by
  cases column with
  | byte => simp [width]
  | half => simp [width]
  | word => simp [width]
  | string => exact two_or_four (sizes.wideStrings = true)
  | guid => exact two_or_four (sizes.wideGuids = true)
  | blob => exact two_or_four (sizes.wideBlobs = true)
  | row table => exact two_or_four (16 < sizes.rowBits table)
  | coded kind => exact two_or_four (16 < sizes.codedBits kind)

private theorem eq_of_two_or_four (wide : Prop) [Decidable wide] :
    (if wide then 4 else 2) = if (if wide then 4 else 2) == 4 then 4 else 2 := by
  split
  · rfl
  · rfl

/-- A column that is not of fixed width has one of two widths. -/
theorem width_eq_of_wide {sizes : Sizes} {column : Column} (hbyte : column ≠ byte)
    (hhalf : column ≠ half) : column.width sizes = if column.width sizes == 4 then 4 else 2 := by
  cases column with
  | byte => exact absurd rfl hbyte
  | half => exact absurd rfl hhalf
  | word => rfl
  | string => exact eq_of_two_or_four (sizes.wideStrings = true)
  | guid => exact eq_of_two_or_four (sizes.wideGuids = true)
  | blob => exact eq_of_two_or_four (sizes.wideBlobs = true)
  | row table => exact eq_of_two_or_four (16 < sizes.rowBits table)
  | coded kind => exact eq_of_two_or_four (16 < sizes.codedBits kind)

/-- Where a column starts in its row: behind those before it. -/
def distance (sizes : Sizes) (columns : List Column) (index : Nat) : Nat :=
  total ((columns.take index).map (width sizes))

theorem distance_succ (sizes : Sizes) (columns : List Column) {index : Nat} {column : Column}
    (h : columns[index]? = some column) :
    distance sizes columns (index + 1) = distance sizes columns index + column.width sizes := by
  simp only [distance, List.take_add_one, h, Option.toList_some, List.map_append, List.map_cons,
    List.map_nil, total_append, total_cons, total_nil, Nat.add_zero]

theorem distance_le (sizes : Sizes) (columns : List Column) (index : Nat) :
    distance sizes columns index ≤ total (columns.map (width sizes)) := by
  have hsplit := List.take_append_drop index columns
  calc distance sizes columns index
      ≤ distance sizes columns index + total ((columns.drop index).map (width sizes)) :=
        Nat.le_add_right _ _
    _ = total (columns.map (width sizes)) := by
        rw [distance, ← total_append, ← List.map_append, hsplit]

end Column

/-- Every table has a column. -/
theorem TableId.columns_ne_nil (table : TableId) : table.columns ≠ [] := by
  cases table <;> decide

/-- Every table has a column, and no column is empty. -/
theorem Sizes.rowSize_pos (sizes : Sizes) (table : TableId) : 0 < sizes.rowSize table := by
  obtain ⟨column, columns, hcons⟩ := List.exists_cons_of_ne_nil table.columns_ne_nil
  have hwidth := (Column.width_bounds sizes column).1
  rw [Sizes.rowSize, hcons, List.map_cons, total_cons]
  omega

namespace CodedIndex

/-- A number that stands for a reference is the one that the reference is
spelled with, where no table has two tags. -/
theorem encode_of_decode {kind : CodedKind} {value : UInt32} {index : CodedIndex}
    (hnodup : kind.targets.Nodup) (h : decode kind value = .ok index) :
    encode kind index = .ok value := by
  unfold decode at h
  split at h
  · rename_i table htable
    cases h
    have htag : kind.targets.idxOf? table = some (value.toNat % (1 <<< kind.tagBits)) := by
      obtain ⟨hlt, hget⟩ := List.getElem?_eq_some_iff.mp htable
      rw [List.idxOf?_eq_some_iff]
      refine ⟨hlt, hget, ?_⟩
      intro j hj hsame
      have hj' : j < kind.targets.length := Nat.lt_trans hj hlt
      have := (List.getElem_inj hnodup).mp (hsame.trans hget.symm)
      omega
    have hrow : (UInt32.ofNat (value.toNat >>> kind.tagBits)).toNat =
        value.toNat >>> kind.tagBits := by
      rw [UInt32.toNat_ofNat', Nat.shiftRight_eq_div_pow]
      exact Nat.mod_eq_of_lt (Nat.lt_of_le_of_lt (Nat.div_le_self _ _) value.toNat_lt)
    simp only [encode, htag, hrow]
    rw [Nat.shiftLeft_eq, Nat.shiftRight_eq_div_pow, Nat.one_shiftLeft, Nat.div_add_mod',
      UInt32.ofNat_toNat]
  · cases h

/-- A reference to a type is read exactly if its tag is one of three. -/
theorem decode_typeDefOrRef (value : UInt32) :
    (value.toNat % 4 < 3 ∧ ∃ index, decode .typeDefOrRef value = .ok index) ∨
      (¬ value.toNat % 4 < 3 ∧ decode .typeDefOrRef value = .error .outOfBounds) := by
  have htag : value.toNat % (1 <<< CodedKind.tagBits .typeDefOrRef) = value.toNat % 4 := rfl
  simp only [decode, htag]
  by_cases hvalid : value.toNat % 4 < 3
  · have hlength : value.toNat % 4 < (CodedKind.targets .typeDefOrRef).length := hvalid
    rw [List.getElem?_eq_getElem hlength]
    exact Or.inl ⟨hvalid, _, rfl⟩
  · have hlength : (CodedKind.targets .typeDefOrRef).length ≤ value.toNat % 4 := by
      change 3 ≤ _
      omega
    rw [List.getElem?_eq_none hlength]
    exact Or.inr ⟨hvalid, rfl⟩

end CodedIndex

end Unveil
