import Unveil.Proofs.Declaration.Tally
import Unveil.Proofs.Writing.Keys
import Unveil.Proofs.Writing.Rereading

/-!
Counting what a write changes. A writer counts rows whose word it replaces, and
a pass counts declarations that it makes public. The words of declarations go
to rows of their own, so both count the same: a row is changed exactly if a
declaration stands for it whose flags are no longer those of the row.
-/

namespace Unveil

/-- Rows that are numbered from one on have these numbers. -/
theorem Entry.map_rid {ρ : Type} {entries : List (Entry ρ)}
    (hrid : ∀ (k : Nat) (entry : Entry ρ), entries[k]? = some entry → entry.rid = k + 1) :
    entries.map (·.rid) = List.range' 1 entries.length := by
  apply List.ext_getElem
  · rw [List.length_map, List.length_range']
  · intro k hk hk'
    rw [List.length_map] at hk
    rw [List.getElem_map, List.getElem_range', hrid k _ (List.getElem?_eq_getElem hk), Nat.one_mul,
      Nat.add_comm]

namespace TablesStream

/-- The attribute word in the row of this number, if there is such a row. -/
def wordAt? (ρ : Type) [WordedRow ρ] (tables : TablesStream) (rid : Nat) : Option Nat :=
  (tables.rowPlace? (TypedRow.table ρ) rid).map fun place =>
    tables.data.number (place + WordedRow.wordOffset ρ) (WordedRow.wordWidth ρ)

/-- How many rows of a table have another attribute word in `written`. -/
def differing (ρ : Type) [WordedRow ρ] (tables written : TablesStream) : Nat :=
  (List.range' 1 (tables.rowCount (TypedRow.table ρ))).countP fun rid =>
    tables.wordAt? ρ rid ≠ written.wordAt? ρ rid

theorem length_editsOf {ρ : Type} [WordedRow ρ] (tables : TablesStream) (words : AttributeWords)
    (entries : List (Entry ρ)) : (tables.editsOf words entries).length =
      entries.countP fun entry => (entry.changedWord? words).isSome := by
  rw [editsOf, List.length_filterMap_eq_countP]
  simp only [Entry.edit?, Option.isSome_map]

section Rows

variable {ρ : Type} [WordedRow ρ] [WordedSchema ρ] {data : Bytes} {tables written : TablesStream}
  {entries : List (Entry ρ)} {words : AttributeWords}

theorem Shows.wordAt?_eq (hshows : tables.Shows entries) {k : Nat} {entry : Entry ρ}
    (hk : entries[k]? = some entry) :
    tables.wordAt? ρ (k + 1) = some (WordedRow.word entry.row).toNat := by
  obtain ⟨-, -, place, hplace, hrow⟩ := hshows.row_eq k entry hk
  rw [wordAt?, hplace, Option.map_some, WordedSchema.toNat_word hrow]

theorem Shows.map_rid (hshows : tables.Shows entries) :
    entries.map (·.rid) = List.range' 1 (tables.rowCount (TypedRow.table ρ)) := by
  rw [Entry.map_rid fun k entry hk => (hshows.row_eq k entry hk).1, hshows.length_eq]

/-- The rows with another word are those for which the words have another. -/
theorem Shows.differing_eq (hshows : tables.Shows entries)
    (hwritten : written.Shows (entries.map (Entry.rewrite words))) :
    tables.differing ρ written = entries.countP fun entry => (entry.changedWord? words).isSome := by
  rw [differing, ← hshows.map_rid, List.countP_map]
  apply List.countP_congr
  intro entry hmem
  obtain ⟨k, hk⟩ := List.mem_iff_getElem?.mp hmem
  obtain ⟨hrid, -, place, -, hrow⟩ := hshows.row_eq k entry hk
  have hnew : (entries.map (Entry.rewrite words))[k]? = some (entry.rewrite words) := by
    rw [List.getElem?_map, hk]
    rfl
  simp only [Function.comp_apply, hrid, hshows.wordAt?_eq hk, hwritten.wordAt?_eq hnew,
    Entry.rewrite, ne_eq, Option.some.injEq, UInt32.toNat_inj, decide_eq_true_eq]
  cases hword : entry.changedWord? words with
  | none => simp [Entry.reworded, hword]
  | some word =>
      obtain ⟨hgiven, hdiffers⟩ := Entry.newWord_of_changed hword
      rw [Entry.word_reworded hrow hgiven]
      simp [hdiffers.symm]

end Rows

/-- A writer counts the rows with another word in the stream that it leaves. -/
theorem Worded.length_edits {data : Bytes} {tables : TablesStream} (rows : Worded tables)
    (words : AttributeWords) (h : Accepted data tables) :
    (rows.edits words).length =
      tables.differing TypeRow (tables.withData (data.revise (rows.edits words))) +
        (tables.differing MethodRow (tables.withData (data.revise (rows.edits words))) +
          tables.differing FieldRow (tables.withData (data.revise (rows.edits words)))) := by
  rw [rows.shows_types.differing_eq (rows.rewritten words h).shows_types,
    rows.shows_methods.differing_eq (rows.rewritten words h).shows_methods,
    rows.shows_fields.differing_eq (rows.rewritten words h).shows_fields, edits,
    List.length_append, List.length_append, length_editsOf, length_editsOf, length_editsOf]

end TablesStream

namespace AttributeWords

section Count

variable {ρ α β : Type} [WordedRow ρ] {carries : Entry ρ → α → Prop} {flags : α → β}
  {token : α → Token} {rows : List (Entry ρ)} {declared held left given : List α}
  {words : AttributeWords} {widen : β → UInt32}

/-- Is there a row of this number that gets another word? -/
def changes (rows : List (Entry ρ)) (words : AttributeWords) (rid : Nat) : Bool :=
  rows[rid - 1]?.any fun entry => (entry.changedWord? words).isSome

theorem countP_rows (words : AttributeWords)
    (hrid : ∀ (k : Nat) (entry : Entry ρ), rows[k]? = some entry → entry.rid = k + 1) :
    (rows.countP fun entry => (entry.changedWord? words).isSome) =
      (rows.map (·.rid)).countP (changes rows words) := by
  rw [List.countP_map]
  apply List.countP_congr
  intro entry hmem
  obtain ⟨k, hk⟩ := List.mem_iff_getElem?.mp hmem
  rw [Function.comp_apply, changes, hrid k entry hk, Nat.add_sub_cancel, hk, Option.any_some]

theorem changes_succ {k : Nat} {entry : Entry ρ} (hk : rows[k]? = some entry) :
    changes rows words (k + 1) = (entry.changedWord? words).isSome := by
  rw [changes, Nat.add_sub_cancel, hk, Option.any_some]

/-- A row of which nothing is said is not changed. -/
theorem changes_of_absent
    (hrid : ∀ (k : Nat) (entry : Entry ρ), rows[k]? = some entry → entry.rid = k + 1) {rid : Nat}
    (hfirst : 1 ≤ rid) (hword : WordedRow.newWord? ρ words rid = none) :
    changes rows words rid = false := by
  obtain ⟨k, rfl⟩ := Nat.exists_eq_add_of_le' hfirst
  cases hk : rows[k]? with
  | none => rw [changes, Nat.add_sub_cancel, hk, Option.any_none]
  | some entry =>
      rw [changes_succ hk, Entry.changedWord?, hrid k entry hk, hword]
      rfl

/-- A row is changed exactly if it stands for a declaration that holds other
flags now. Rows behind which no declaration is left in a slot have no word. -/
theorem countP_changed [WordedSchema ρ] [DecidableEq β] {tables : TablesStream}
    (hshows : tables.Shows rows) (hrows : tables.rowCount (TypedRow.table ρ) ≤ 0xFFFFFF)
    (hdeclares : Module.Declares carries rows declared)
    (htoken : ∀ entry own, carries entry own → token own = .ofParts (TypedRow.table ρ) entry.rid)
    (hheld : (held ++ left).Perm declared) (hgiven : given.map token = held.map token)
    (hwiden : Function.Injective widen)
    (hwords : ∀ rid, WordedRow.newWord? ρ words rid = ((Std.HashMap.ofList
      (given.map fun now => ((token now).row, flags now)))[rid]?).map widen)
    (hword : ∀ entry own, entry ∈ rows → carries entry own →
      WordedRow.word entry.row = widen (flags own)) :
    (rows.countP fun entry => (entry.changedWord? words).isSome) =
      (held.zip given).countP fun pair => flags pair.2 ≠ flags pair.1 := by
  have hrid (k : Nat) (entry : Entry ρ) (hk : rows[k]? = some entry) : entry.rid = k + 1 :=
    (hshows.row_eq k entry hk).1
  rw [← hshows.length_eq] at hrows
  have hkeyed : Keyed carries flags rows held given _ :=
    keyed_of_declares hdeclares htoken hrid hrows hheld hgiven
  have hkeys := rows_of_declares hdeclares htoken hrid hrows
  have hsplit := hheld.map fun own => (token own).row
  have hdistinct := hsplit.nodup_iff.mpr (hkeys ▸ List.nodup_range')
  rw [List.map_append, List.nodup_append] at hdistinct
  rw [countP_rows words hrid, Entry.map_rid hrid, ← hkeys, ← hsplit.countP_eq, List.map_append,
    List.countP_append]
  have hleft : (left.map fun own => (token own).row).countP (changes rows words) = 0 := by
    rw [List.countP_eq_zero]
    intro rid hmem
    have hfirst : rid ∈ List.range' 1 rows.length := by
      rw [← hkeys, ← hsplit.mem_iff, List.map_append]
      exact List.mem_append_right _ hmem
    have hsame := congrArg (List.map Token.row) hgiven
    rw [List.map_map, List.map_map] at hsame
    have habsent : (Std.HashMap.ofList
        (given.map fun now => ((token now).row, flags now)))[rid]? = none := by
      apply getElem?_of_unnamed
      intro now hnow hrow
      have hheldRow : rid ∈ held.map (Token.row ∘ token) := by
        rw [← hsame]
        exact List.mem_map.mpr ⟨now, hnow, hrow⟩
      exact hdistinct.2.2 rid hheldRow rid hmem rfl
    rw [changes_of_absent hrid (List.mem_range'_1.mp hfirst).1 (by rw [hwords, habsent]; rfl)]
    exact Bool.false_ne_true
  have hfst : (held.zip given).map Prod.fst = held :=
    List.map_fst_zip (Nat.le_of_eq hkeyed.length_eq.symm)
  rw [hleft, Nat.add_zero, ← hfst, List.map_map, List.countP_map, hfst]
  apply List.countP_congr
  rintro ⟨own, now⟩ hmem
  obtain ⟨i, hi⟩ := List.mem_iff_getElem?.mp hmem
  rw [List.getElem?_zip_eq_some] at hi
  obtain ⟨k, entry, hk, hentry, hcarries⟩ := hkeyed.row_eq i own hi.1
  have hfound := hkeyed.word_eq i k own now entry hi.1 hi.2 hk hcarries
  have hrow : (token own).row = k + 1 := row_of_carries htoken hrid hrows hk hcarries
  simp only [Function.comp_apply, hrow, changes_succ hk, Entry.changedWord?, hentry, hwords, hfound,
    Option.map_some, hword entry own (List.mem_of_getElem? hk) hcarries, Option.filter, ne_eq,
    hwiden.eq_iff, decide_not]
  by_cases hsame : flags now = flags own
  · simp [hsame]
  · simp [hsame]

end Count

end AttributeWords

open AttributeWords (methodsOf fieldsOf ofForest)

namespace Forest

/-- How many declarations of a forest have other flags in `assigned`. -/
def reflagged (forest assigned : Forest) : Tally where
  types := (forest.preorder.zip assigned.preorder).countP fun pair => pair.2.flags ≠ pair.1.flags
  methods := ((methodsOf forest.preorder).zip (methodsOf assigned.preorder)).countP
    fun pair => pair.2.flags ≠ pair.1.flags
  fields := ((fieldsOf forest.preorder).zip (fieldsOf assigned.preorder)).countP
    fun pair => pair.2.flags ≠ pair.1.flags

theorem countP_zip_map {α : Type} {differ : α × α → Bool} {hidden : α → Bool} {f : α → α}
    (h : ∀ own, differ (own, f own) = hidden own) (held : List α) :
    (held.zip (held.map f)).countP differ = held.countP hidden := by
  induction held with
  | nil => rfl
  | cons own held ih =>
      rw [List.map_cons, List.zip_cons_cons, List.countP_cons, List.countP_cons, ih, h]

theorem sum_hidden (types : List TypeDecl) :
    Tally.sum (types.map TypeDecl.hidden) = {
      types := types.countP (!·.isPublic)
      methods := (methodsOf types).countP (!·.isPublic)
      fields := (fieldsOf types).countP (!·.isPublic) } := by
  have hslots {α : Type} (hidden : α → Bool) (slots : List (Option α)) :
      (slots.filterMap id).countP hidden = slots.countP (·.any hidden) := by
    rw [List.countP_filterMap]
    apply List.countP_congr
    intro slot _
    cases slot <;> simp
  induction types with
  | nil => rfl
  | cons type types ih =>
      rw [List.map_cons, Tally.sum_cons, ih, TypeDecl.hidden, Tally.add]
      simp only [methodsOf, fieldsOf, List.flatMap_cons, List.countP_append, List.countP_cons, hslots,
        Tally.mk.injEq, and_true]
      cases type.isPublic with
      | true => simp
      | false => simp [Nat.add_comm]

/-- What a pass counts is what it gives other flags. -/
theorem reflagged_unveil (forest : Forest) :
    forest.reflagged (forest.map TypeDecl.unveil) =
      .sum (forest.preorder.map TypeDecl.hidden) := by
  have hdiffer {kept : Prop} [Decidable kept] {isPublic : Bool} (h : kept ↔ isPublic = true) :
      decide (¬ kept) = !isPublic := by
    cases isPublic with
    | true => simp [h]
    | false => simp [h]
  have htypes (type : TypeDecl) : decide (type.unveil.flags ≠ type.flags) = !type.isPublic :=
    hdiffer type.flags_unveil_eq
  have hmethods (method : MethodDecl) :
      decide (method.unveil.flags ≠ method.flags) = !method.isPublic :=
    hdiffer method.flags_unveil_eq
  have hfields (field : FieldDecl) :
      decide (field.unveil.flags ≠ field.flags) = !field.isPublic :=
    hdiffer field.flags_unveil_eq
  rw [sum_hidden, reflagged, map_eq_mapTypes, preorder_mapTypes,
    AttributeWords.methodsOf_map (fun _ => rfl), AttributeWords.fieldsOf_map (fun _ => rfl),
    countP_zip_map htypes, countP_zip_map hmethods, countP_zip_map hfields]

theorem reflagged_self (forest : Forest) : forest.reflagged forest = .zero := by
  have hsame {α β : Type} [DecidableEq β] (flags : α → β) (held : List α) :
      (held.zip held).countP (fun pair => flags pair.2 ≠ flags pair.1) = 0 := by
    induction held with
    | nil => rfl
    | cons own held ih => simpa using ih
  rw [reflagged, hsame TypeDecl.flags, hsame MethodDecl.flags, hsame FieldDecl.flags]
  rfl

end Forest

/-- A word of two bytes survives being cut to two bytes. -/
theorem toUInt32_half {ρ : Type} [WordedRow ρ] [WordedSchema ρ] {tables : TablesStream}
    {rows : List (Entry ρ)} (hshows : tables.Shows rows) (hwidth : WordedRow.wordWidth ρ = 2)
    {entry : Entry ρ} (hmem : entry ∈ rows) :
    (WordedRow.word entry.row).toUInt16.toUInt32 = WordedRow.word entry.row := by
  obtain ⟨k, hk⟩ := List.mem_iff_getElem?.mp hmem
  have hlt := Module.Loaded.word_lt hshows hk
  rw [hwidth] at hlt
  rw [← UInt32.toNat_inj, UInt16.toNat_toUInt32, UInt32.toNat_toUInt16]
  exact Nat.mod_eq_of_lt hlt

theorem UInt16.toUInt32_injective : Function.Injective UInt16.toUInt32 := by
  intro first second h
  have hnumber := congrArg UInt32.toNat h
  rwa [UInt16.toNat_toUInt32, UInt16.toNat_toUInt32, UInt16.toNat_inj] at hnumber

namespace Module.Loaded

variable {image : Image} {module : Module}

/-- A write changes as many rows as there are declarations with other flags. -/
theorem length_edits (loaded : Loaded image module)
    (hrows : loaded.tables.rowCount .typeDef ≤ 0xFFFFFF ∧
      loaded.tables.rowCount .methodDef ≤ 0xFFFFFF ∧ loaded.tables.rowCount .field ≤ 0xFFFFFF)
    {assigned : Forest} (hassigned : assigned.Reflags module.types) :
    (loaded.worded.edits (ofForest assigned)).length = (module.types.reflagged assigned).total := by
  have htypes : (loaded.typeRows.countP fun entry =>
      (entry.changedWord? (ofForest assigned)).isSome) = (module.types.reflagged assigned).types := by
    have hperm := loaded.preorder_perm
    rw [← List.append_nil module.types.preorder] at hperm
    apply AttributeWords.countP_changed loaded.shows_types hrows.1 loaded.declares_types
    · exact fun entry own hcarries => hcarries.token_eq
    · exact hperm
    · exact hassigned.typeTokens_eq
    · exact Function.injective_id
    · intro rid
      simp only [WordedRow.newWord?, ofForest, Forest.types_eq_preorder, Option.map_id, id_eq]
    · exact fun entry own _ hcarries => hcarries.flags_eq.symm
  have hmethods : (loaded.methodRows.countP fun entry =>
      (entry.changedWord? (ofForest assigned)).isSome) =
        (module.types.reflagged assigned).methods := by
    apply AttributeWords.countP_changed loaded.shows_methods hrows.2.1 loaded.declares_methods
    · exact fun entry own hcarries => hcarries.token_eq
    · exact loaded.methods_perm
    · exact hassigned.methodTokens_eq
    · exact UInt16.toUInt32_injective
    · intro rid
      simp only [WordedRow.newWord?, ofForest, Forest.types_eq_preorder]
    · intro entry own hmem hcarries
      exact (hcarries.flags_eq ▸ toUInt32_half loaded.shows_methods rfl hmem).symm
  have hfields : (loaded.fieldRows.countP fun entry =>
      (entry.changedWord? (ofForest assigned)).isSome) =
        (module.types.reflagged assigned).fields := by
    apply AttributeWords.countP_changed loaded.shows_fields hrows.2.2 loaded.declares_fields
    · exact fun entry own hcarries => hcarries.token_eq
    · exact loaded.fields_perm
    · exact hassigned.fieldTokens_eq
    · exact UInt16.toUInt32_injective
    · intro rid
      simp only [WordedRow.newWord?, ofForest, Forest.types_eq_preorder]
    · intro entry own hmem hcarries
      exact (hcarries.flags_eq ▸ toUInt32_half loaded.shows_fields rfl hmem).symm
  rw [TablesStream.Worded.edits, List.length_append, List.length_append,
    TablesStream.length_editsOf, TablesStream.length_editsOf, TablesStream.length_editsOf]
  simp only [worded, htypes, hmethods, hfields, Tally.total, Nat.add_assoc]

end Module.Loaded

end Unveil
