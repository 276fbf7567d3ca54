import Unveil.Proofs.Module.Backing
import Unveil.Proofs.Module.Recasting
import Unveil.Proofs.Writing.Rereading

namespace Unveil

def MethodDecl.reword (words : AttributeWords) (method : MethodDecl) : MethodDecl :=
  { method with flags := words.methods[method.token.row]?.getD method.flags }

def FieldDecl.reword (words : AttributeWords) (field : FieldDecl) : FieldDecl :=
  { field with flags := words.fields[field.token.row]?.getD field.flags }

/-- A type and its members with the words that are stored under the numbers of
their rows. -/
def TypeDecl.reword (words : AttributeWords) (type : TypeDecl) : TypeDecl :=
  { type with
    flags := words.types[type.token.row]?.getD type.flags
    methods := type.methods.map (·.map (MethodDecl.reword words))
    fields := type.fields.map (·.map (FieldDecl.reword words)) }

theorem TypeDecl.recasts_reword (words : AttributeWords) : Recasts (reword words) where
  token_eq _ := rfl
  mark_eq _ := rfl

/-- What a method with a new word is besides does not depend on the word. -/
theorem Payload.classify_reword (words : AttributeWords) (header : RuntimeHeader)
    (methods : List MethodDecl) :
    classify header (methods.map (MethodDecl.reword words)) = classify header methods := by
  have hnative : MethodDecl.isNative ∘ MethodDecl.reword words = MethodDecl.isNative := rfl
  rw [classify, classify, List.filter_map, hnative, List.map_map]
  rfl

namespace Entry

variable {words : AttributeWords}

theorem reworded_eq {ρ : Type} [WordedRow ρ] {entry : Entry ρ}
    (hkeep : WordedRow.withWord entry.row (WordedRow.word entry.row) = entry.row) :
    entry.reworded words = WordedRow.withWord entry.row
      ((WordedRow.newWord? ρ words entry.rid).getD (WordedRow.word entry.row)) := by
  unfold reworded changedWord?
  cases WordedRow.newWord? ρ words entry.rid with
  | none => exact hkeep.symm
  | some word =>
      by_cases hsame : word = WordedRow.word entry.row
      · subst hsame
        simp [Option.filter, hkeep]
      · simp [Option.filter, hsame]

theorem reworded_type (entry : Entry TypeRow) : entry.reworded words =
    { entry.row with flags := words.types[entry.rid]?.getD entry.row.flags } :=
  reworded_eq rfl

theorem reworded_method (entry : Entry MethodRow) : entry.reworded words = { entry.row with
    flags := (words.methods[entry.rid]?.map UInt16.toUInt32).getD entry.row.flags } :=
  reworded_eq rfl

theorem reworded_field (entry : Entry FieldRow) : entry.reworded words = { entry.row with
    flags := (words.fields[entry.rid]?.map UInt16.toUInt32).getD entry.row.flags } :=
  reworded_eq rfl

end Entry

/-- Of a row that was read the token has the number. -/
theorem TablesStream.Shows.row_of_mem {ρ : Type} [TypedRow ρ] [Schema ρ] {tables : TablesStream}
    {entries : List (Entry ρ)} (h : tables.Shows entries)
    (hrows : tables.rowCount (TypedRow.table ρ) ≤ 0xFFFFFF) {entry : Entry ρ}
    (hmem : entry ∈ entries) : entry.token.row = entry.rid := by
  obtain ⟨k, hk⟩ := List.mem_iff_getElem?.mp hmem
  exact (h.row_of_token hrows hk rfl).trans (h.row_eq k entry hk).1.symm

namespace Module

variable {words : AttributeWords} {strings : StringHeap}

/-- The new word of a row, where it is given one, is an attribute word again. -/
theorem attributeWord_getD (token : Token) (word? : Option UInt16) {value : UInt32}
    (hvalue : value.toNat < 0x10000) :
    attributeWord token ((word?.map UInt16.toUInt32).getD value) =
      .ok (word?.getD value.toUInt16) := by
  cases word? with
  | none => exact attributeWord_eq_ok.mpr ⟨hvalue, rfl⟩
  | some word => exact attributeWord_eq_ok.mpr ⟨word.toNat_lt, UInt16.toUInt16_toUInt32 word⟩

theorem fieldOf_rewrite {entry : Entry FieldRow} (hrow : entry.token.row = entry.rid)
    (hflags : entry.row.flags.toNat < 0x10000) :
    fieldOf strings (entry.rewrite words) = FieldDecl.reword words <$> fieldOf strings entry := by
  have hword : words.fields[entry.rid]? = words.fields[entry.token.row]? := by rw [hrow]
  simp only [fieldOf, Entry.rewrite, Entry.reworded_field, attributeWord_getD _ _ hflags,
    attributeWord_eq_ok.mpr ⟨hflags, rfl⟩, hword]
  cases strings.get entry.row.name.toNat with
  | error fault => rfl
  | ok name => rfl

theorem methodOf_rewrite {entry : Entry MethodRow} (hrow : entry.token.row = entry.rid)
    (hflags : entry.row.flags.toNat < 0x10000) (himplFlags : entry.row.implFlags.toNat < 0x10000) :
    methodOf strings (entry.rewrite words) = MethodDecl.reword words <$> methodOf strings entry := by
  have hword : words.methods[entry.rid]? = words.methods[entry.token.row]? := by rw [hrow]
  simp only [methodOf, Entry.rewrite, Entry.reworded_method, attributeWord_getD _ _ hflags,
    attributeWord_eq_ok.mpr ⟨hflags, rfl⟩, attributeWord_eq_ok.mpr ⟨himplFlags, rfl⟩, hword]
  cases strings.get entry.row.name.toNat with
  | error fault => rfl
  | ok name => rfl

theorem describeType_rewrite {entry : Entry TypeRow} (hrow : entry.token.row = entry.rid)
    (fields : List (Option FieldDecl)) (methods : List (Option MethodDecl)) :
    describeType strings (entry.rewrite words) (fields.map (Option.map (FieldDecl.reword words)))
        (methods.map (Option.map (MethodDecl.reword words))) =
      TypeDecl.reword words <$> describeType strings entry fields methods := by
  have hflags : words.types[entry.rid]?.getD entry.row.flags =
      words.types[entry.token.row]?.getD entry.row.flags := by
    rw [hrow]
  simp only [describeType, Entry.rewrite, Entry.reworded_type, hflags, map_eq_pure_bind, bind_assoc,
    pure_bind]
  rfl

namespace Loaded

variable {image : Image} {module : Module} (loaded : Loaded image module) (words : AttributeWords)

theorem fields_rewrite (hrows : loaded.tables.rowCount .field ≤ 0xFFFFFF) :
    (loaded.fieldRows.map (Entry.rewrite words)).mapM (fieldOf loaded.strings) =
      .ok (loaded.fields.map (FieldDecl.reword words)) := by
  have hstep (entry : Entry FieldRow) (hmem : entry ∈ loaded.fieldRows) :
      fieldOf loaded.strings (entry.rewrite words) =
        FieldDecl.reword words <$> fieldOf loaded.strings entry :=
    fieldOf_rewrite (loaded.shows_fields.row_of_mem hrows hmem) (flags_lt loaded.shows_fields hmem)
  rw [Except.mapM_map hstep, loaded.fields_eq]
  rfl

theorem methods_rewrite (hrows : loaded.tables.rowCount .methodDef ≤ 0xFFFFFF) :
    (loaded.methodRows.map (Entry.rewrite words)).mapM (methodOf loaded.strings) =
      .ok (loaded.methods.map (MethodDecl.reword words)) := by
  have hstep (entry : Entry MethodRow) (hmem : entry ∈ loaded.methodRows) :
      methodOf loaded.strings (entry.rewrite words) =
        MethodDecl.reword words <$> methodOf loaded.strings entry := by
    obtain ⟨hflags, himplFlags⟩ := methodWords_lt loaded.shows_methods hmem
    exact methodOf_rewrite (loaded.shows_methods.row_of_mem hrows hmem) hflags himplFlags
  rw [Except.mapM_map hstep, loaded.methods_eq]
  rfl

theorem declare_rewrite (hrows : loaded.tables.rowCount .typeDef ≤ 0xFFFFFF) :
    ∃ pools, declare loaded.strings (loaded.typeRows.map (Entry.rewrite words))
      ⟨.ofList (loaded.fields.map (FieldDecl.reword words)) loaded.fieldPointers?,
        .ofList (loaded.methods.map (MethodDecl.reword words)) loaded.methodPointers?⟩ =
          .ok (loaded.declarations.map (TypeDecl.reword words), pools) := by
  refine declare_map ?_ ?_ ?_ loaded.declare_eq
  · intro entry
    rw [Entry.rewrite, entry.reworded_type]
  · intro entry
    rw [Entry.rewrite, entry.reworded_type]
  · intro entry hmem
    exact describeType_rewrite (loaded.shows_types.row_of_mem hrows hmem)

/-- The declarations with new words form the same forest. -/
theorem build_reword : ∃ links,
    loaded.nestingRows.foldlM Nesting.linkSilently
        (.ofTypes (loaded.declarations.map (TypeDecl.reword words))) = .ok links ∧
      Nesting.assembleCopying links = .ok (module.types.map (TypeDecl.reword words)) := by
  have hbuild : Nesting.buildSilently loaded.declarations loaded.nestingRows = .ok module.types :=
    Except.bind_eq_ok.mpr ⟨loaded.links, loaded.links_eq, loaded.types_eq⟩
  have hmapped := Nesting.buildSilently_map (TypeDecl.recasts_reword words) loaded.declarations
    loaded.nestingRows
  rw [hbuild] at hmapped
  rw [Forest.map_eq_mapTypes]
  exact Except.bind_eq_ok.mp hmapped

end Loaded

end Module

end Unveil
