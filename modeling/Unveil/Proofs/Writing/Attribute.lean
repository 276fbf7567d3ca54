import Mathlib.Algebra.Group.Nat.Defs
import Unveil.Proofs.Table.Schema
import Unveil.Writing.Words

namespace Unveil

/-- A structured row with an attribute word in one of its columns. -/
class WordedSchema (ρ : Type) [WordedRow ρ] extends Schema ρ where
  wordIndex : Nat
  wordColumn : Column
  column_eq : (TypedRow.table ρ).columns[wordIndex]? = some wordColumn
  distance_eq (sizes : Sizes) :
    Column.distance sizes (TypedRow.table ρ).columns wordIndex = WordedRow.wordOffset ρ
  width_eq (sizes : Sizes) : wordColumn.width sizes = WordedRow.wordWidth ρ
  word_eq {values : List UInt32} {row : ρ} (hrow : ofValues values = .ok row) :
    values[wordIndex]? = some (WordedRow.word row)
  ofValues_set {values : List UInt32} {row : ρ} (word : UInt32)
    (hrow : ofValues values = .ok row) :
    ofValues (values.set wordIndex word) = .ok (WordedRow.withWord row word)
  newWord_lt {words : AttributeWords} {rid : Nat} {word : UInt32}
    (hword : WordedRow.newWord? ρ words rid = some word) :
    word.toNat < 256 ^ WordedRow.wordWidth ρ

theorem UInt16.lt_of_map_toUInt32 {found : Option UInt16} {word : UInt32}
    (h : found.map UInt16.toUInt32 = some word) : word.toNat < 256 ^ 2 := by
  obtain ⟨half, _, rfl⟩ := Option.map_eq_some_iff.mp h
  exact half.toNat_lt

instance : WordedSchema TypeRow where
  wordIndex := 0
  wordColumn := .word
  column_eq := rfl
  distance_eq _ := rfl
  width_eq _ := rfl
  word_eq {values row} hrow := by
    match values, hrow with
    | [flags, name, space, base, fieldList, methodList], hrow =>
        obtain ⟨base', hbase, hrow⟩ := Except.bind_eq_ok.mp hrow
        cases hrow
        rfl
  ofValues_set {values row} word hrow := by
    match values, hrow with
    | [flags, name, space, base, fieldList, methodList], hrow =>
        obtain ⟨base', hbase, hrow⟩ := Except.bind_eq_ok.mp hrow
        cases hrow
        exact Except.bind_eq_ok.mpr ⟨base', hbase, rfl⟩
  newWord_lt {words rid word} _ := word.toNat_lt

instance : WordedSchema MethodRow where
  wordIndex := 2
  wordColumn := .half
  column_eq := rfl
  distance_eq _ := rfl
  width_eq _ := rfl
  word_eq {values row} hrow := by
    match values, hrow with
    | [address, implFlags, flags, name, signature, paramList], hrow =>
        cases hrow
        rfl
  ofValues_set {values row} word hrow := by
    match values, hrow with
    | [address, implFlags, flags, name, signature, paramList], hrow =>
        cases hrow
        rfl
  newWord_lt {words rid word} hword := UInt16.lt_of_map_toUInt32 hword

instance : WordedSchema FieldRow where
  wordIndex := 0
  wordColumn := .half
  column_eq := rfl
  distance_eq _ := rfl
  width_eq _ := rfl
  word_eq {values row} hrow := by
    match values, hrow with
    | [flags, name, signature], hrow =>
        cases hrow
        rfl
  ofValues_set {values row} word hrow := by
    match values, hrow with
    | [flags, name, signature], hrow =>
        cases hrow
        rfl
  newWord_lt {words rid word} hword := UInt16.lt_of_map_toUInt32 hword

end Unveil
