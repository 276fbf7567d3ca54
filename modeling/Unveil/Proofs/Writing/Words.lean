import Unveil.Proofs.Module.Backing
import Unveil.Proofs.Writing.Widening

/-!
The words of a module that was made public. `Module.Publishes` says which rows
stand behind a declaration in the forest, and which low bits make it public. As
long as row numbers fit a token, the words that are written name exactly these
rows, and give each the word of its row with the low bits replaced.
-/

namespace Unveil

namespace AttributeWords

variable {α : Type} {pairs : List (Nat × α)} {key : Nat} {value : α}

theorem mem_of_getElem?_ofList (h : (Std.HashMap.ofList pairs)[key]? = some value) :
    (key, value) ∈ pairs := by
  rw [Std.HashMap.ofList_eq_insertMany_empty, Std.HashMap.getElem?_insertMany_list,
    Std.HashMap.getElem?_empty, Option.or_none] at h
  rw [List.findSomeRev?_eq_findSome?_reverse] at h
  obtain ⟨⟨key', value'⟩, hmem, hfound⟩ := List.exists_of_findSome?_eq_some h
  simp only [beq_iff_eq, Option.ite_none_right_eq_some, Option.some.injEq] at hfound
  obtain ⟨rfl, rfl⟩ := hfound
  exact List.mem_reverse.mp hmem

/-- A value that was put in is found, unless another was put in its place. -/
theorem getElem?_ofList_of_mem (hmem : (key, value) ∈ pairs)
    (hsame : ∀ other, (key, other) ∈ pairs → other = value) :
    (Std.HashMap.ofList pairs)[key]? = some value := by
  have hkey : key ∈ Std.HashMap.ofList pairs := by
    rw [Std.HashMap.mem_ofList, List.contains_iff_mem]
    exact List.mem_map_of_mem hmem
  rw [Std.HashMap.getElem?_eq_some_getElem hkey]
  congr 1
  exact hsame _ (mem_of_getElem?_ofList (Std.HashMap.getElem?_eq_some_getElem hkey))

/-- The pairs under which the types of a public forest are looked up. -/
theorem mem_types_unveil {forest : Forest} {rid : Nat} {flags : UInt32} :
    (rid, flags) ∈ ((forest.map TypeDecl.unveil).types.map fun type =>
        (type.token.row, type.flags)) ↔
      ∃ type ∈ forest.preorder, type.token.row = rid ∧ type.unveil.flags = flags := by
  simp [Forest.types_eq_preorder, Forest.map_eq_mapTypes]

theorem mem_methods_unveil {forest : Forest} {rid : Nat} {flags : UInt16} :
    (rid, flags) ∈ ((methodsOf (forest.map TypeDecl.unveil).types).map fun method =>
        (method.token.row, method.flags)) ↔
      ∃ type ∈ forest.preorder, ∃ method, some method ∈ type.methods ∧
        method.token.row = rid ∧ method.unveil.flags = flags := by
  simp only [methodsOf, Forest.types_eq_preorder, Forest.map_eq_mapTypes, Forest.preorder_mapTypes,
    List.mem_map, List.mem_flatMap, List.mem_filterMap, id_eq, exists_eq_right, Prod.mk.injEq]
  constructor
  · rintro ⟨_, ⟨_, ⟨type, htype, rfl⟩, hmethod⟩, hpair⟩
    obtain ⟨method, hown, rfl⟩ := TypeDecl.mem_methods_unveil.mp hmethod
    exact ⟨type, htype, method, hown, hpair⟩
  · rintro ⟨type, htype, method, hown, hpair⟩
    exact ⟨_, ⟨_, ⟨type, htype, rfl⟩, TypeDecl.mem_methods_unveil.mpr ⟨method, hown, rfl⟩⟩, hpair⟩

theorem mem_fields_unveil {forest : Forest} {rid : Nat} {flags : UInt16} :
    (rid, flags) ∈ ((fieldsOf (forest.map TypeDecl.unveil).types).map fun field =>
        (field.token.row, field.flags)) ↔
      ∃ type ∈ forest.preorder, ∃ field, some field ∈ type.fields ∧
        field.token.row = rid ∧ field.unveil.flags = flags := by
  simp only [fieldsOf, Forest.types_eq_preorder, Forest.map_eq_mapTypes, Forest.preorder_mapTypes,
    List.mem_map, List.mem_flatMap, List.mem_filterMap, id_eq, exists_eq_right, Prod.mk.injEq]
  constructor
  · rintro ⟨_, ⟨_, ⟨type, htype, rfl⟩, hfield⟩, hpair⟩
    obtain ⟨field, hown, rfl⟩ := TypeDecl.mem_fields_unveil.mp hfield
    exact ⟨type, htype, field, hown, hpair⟩
  · rintro ⟨type, htype, field, hown, hpair⟩
    exact ⟨_, ⟨_, ⟨type, htype, rfl⟩, TypeDecl.mem_fields_unveil.mpr ⟨field, hown, rfl⟩⟩, hpair⟩

end AttributeWords

namespace Module

/-- The rows that stand behind the declarations in the forest of a module, and
the low bits that make each public: those of a public type depend on whether it
is nested. -/
inductive Publishes (module : Module) : TableId → Nat → UInt8 → Prop
  | type {type : TypeDecl} (htype : type ∈ module.types.preorder) :
      Publishes module .typeDef type.token.row (if type.isNested then 2 else 1)
  | method {type : TypeDecl} {method : MethodDecl} (htype : type ∈ module.types.preorder)
      (hmethod : some method ∈ type.methods) : Publishes module .methodDef method.token.row 6
  | field {type : TypeDecl} {field : FieldDecl} (htype : type ∈ module.types.preorder)
      (hfield : some field ∈ type.fields) : Publishes module .field field.token.row 6

theorem Publishes.bits_lt {module : Module} {table : TableId} {rid : Nat} {v : UInt8}
    (h : module.Publishes table rid v) : v.toNat < 8 := by
  cases h with
  | type _ => split <;> decide
  | method _ _ => decide
  | field _ _ => decide

theorem publishes_typeDef {module : Module} {rid : Nat} {v : UInt8} :
    module.Publishes .typeDef rid v ↔ ∃ type ∈ module.types.preorder,
      type.token.row = rid ∧ v = if type.isNested then 2 else 1 := by
  constructor
  · rintro ⟨htype⟩
    exact ⟨_, htype, rfl, rfl⟩
  · rintro ⟨type, htype, rfl, rfl⟩
    exact .type htype

theorem publishes_methodDef {module : Module} {rid : Nat} {v : UInt8} :
    module.Publishes .methodDef rid v ↔ ∃ type ∈ module.types.preorder,
      ∃ method, some method ∈ type.methods ∧ method.token.row = rid ∧ v = 6 := by
  constructor
  · intro h
    cases h with
    | method htype hmethod => exact ⟨_, htype, _, hmethod, rfl, rfl⟩
  · rintro ⟨type, htype, method, hmethod, rfl, rfl⟩
    exact .method htype hmethod

theorem publishes_field {module : Module} {rid : Nat} {v : UInt8} :
    module.Publishes .field rid v ↔ ∃ type ∈ module.types.preorder,
      ∃ field, some field ∈ type.fields ∧ field.token.row = rid ∧ v = 6 := by
  constructor
  · intro h
    cases h with
    | field htype hfield => exact ⟨_, htype, _, hfield, rfl, rfl⟩
  · rintro ⟨type, htype, field, hfield, rfl, rfl⟩
    exact .field htype hfield

theorem widest_bits (nested : Bool) :
    (Visibility.widest nested).bits.toNat = (if nested then (2 : UInt8) else 1).toNat := by
  cases nested <;> rfl

namespace Loaded

variable {image : Image} {module : Module}

/-- A declaration with the token of a row has the word of that row. -/
theorem type_of_row (loaded : Loaded image module)
    (hrows : loaded.tables.rowCount .typeDef ≤ 0xFFFFFF) {type : TypeDecl} {k : Nat}
    {entry : Entry TypeRow} (htype : type ∈ module.types.preorder)
    (hrow : type.token.row = k + 1) (hk : loaded.typeRows[k]? = some entry) :
    type.flags = entry.row.flags ∧ type.isNested = loaded.isNamed k := by
  obtain ⟨j, own, hj, hcarries, hnested, -, -⟩ := loaded.type_eq htype
  obtain ⟨rfl, rfl⟩ := loaded.shows_types.eq_of_token hrows hj hcarries.token_eq hk hrow
  exact ⟨hcarries.flags_eq, hnested⟩

theorem method_of_row (loaded : Loaded image module)
    (hrows : loaded.tables.rowCount .methodDef ≤ 0xFFFFFF) {type : TypeDecl} {method : MethodDecl}
    {k : Nat} {entry : Entry MethodRow} (htype : type ∈ module.types.preorder)
    (hmethod : some method ∈ type.methods) (hrow : method.token.row = k + 1)
    (hk : loaded.methodRows[k]? = some entry) : method.flags = entry.row.flags.toUInt16 := by
  obtain ⟨j, own, hj, hcarries⟩ := loaded.method_eq htype hmethod
  obtain ⟨rfl, rfl⟩ := loaded.shows_methods.eq_of_token hrows hj hcarries.token_eq hk hrow
  exact hcarries.flags_eq

theorem field_of_row (loaded : Loaded image module)
    (hrows : loaded.tables.rowCount .field ≤ 0xFFFFFF) {type : TypeDecl} {field : FieldDecl}
    {k : Nat} {entry : Entry FieldRow} (htype : type ∈ module.types.preorder)
    (hfield : some field ∈ type.fields) (hrow : field.token.row = k + 1)
    (hk : loaded.fieldRows[k]? = some entry) : field.flags = entry.row.flags.toUInt16 := by
  obtain ⟨j, own, hj, hcarries⟩ := loaded.field_eq htype hfield
  obtain ⟨rfl, rfl⟩ := loaded.shows_fields.eq_of_token hrows hj hcarries.token_eq hk hrow
  exact hcarries.flags_eq

/-- The words of a public forest hold the flags of every declaration that was
made public, under the number that its token keeps. -/
theorem word_of_type (loaded : Loaded image module)
    (hrows : loaded.tables.rowCount .typeDef ≤ 0xFFFFFF) {type : TypeDecl}
    (htype : type ∈ module.types.preorder) :
    (AttributeWords.ofForest (module.types.map TypeDecl.unveil)).types[type.token.row]? =
      some type.unveil.flags := by
  obtain ⟨k, entry, hk, hcarries, -⟩ := loaded.type_eq htype
  have hrow : type.token.row = k + 1 :=
    loaded.shows_types.row_of_token hrows hk hcarries.token_eq
  obtain ⟨hflags, hnested⟩ := loaded.type_of_row hrows htype hrow hk
  apply AttributeWords.getElem?_ofList_of_mem
  · exact AttributeWords.mem_types_unveil.mpr ⟨type, htype, rfl, rfl⟩
  · intro other hother
    obtain ⟨type', htype', hrow', rfl⟩ := AttributeWords.mem_types_unveil.mp hother
    obtain ⟨hflags', hnested'⟩ := loaded.type_of_row hrows htype' (hrow'.trans hrow) hk
    simp only [TypeDecl.flags_unveil, hflags, hflags', hnested, hnested']

theorem word_of_method (loaded : Loaded image module)
    (hrows : loaded.tables.rowCount .methodDef ≤ 0xFFFFFF) {type : TypeDecl} {method : MethodDecl}
    (htype : type ∈ module.types.preorder) (hmethod : some method ∈ type.methods) :
    (AttributeWords.ofForest (module.types.map TypeDecl.unveil)).methods[method.token.row]? =
      some method.unveil.flags := by
  obtain ⟨k, entry, hk, hcarries⟩ := loaded.method_eq htype hmethod
  have hrow : method.token.row = k + 1 :=
    loaded.shows_methods.row_of_token hrows hk hcarries.token_eq
  apply AttributeWords.getElem?_ofList_of_mem
  · exact AttributeWords.mem_methods_unveil.mpr ⟨type, htype, method, hmethod, rfl, rfl⟩
  · intro other hother
    obtain ⟨type', htype', method', hmethod', hrow', rfl⟩ :=
      AttributeWords.mem_methods_unveil.mp hother
    simp only [MethodDecl.flags_unveil, hcarries.flags_eq,
      loaded.method_of_row hrows htype' hmethod' (hrow'.trans hrow) hk]

theorem word_of_field (loaded : Loaded image module)
    (hrows : loaded.tables.rowCount .field ≤ 0xFFFFFF) {type : TypeDecl} {field : FieldDecl}
    (htype : type ∈ module.types.preorder) (hfield : some field ∈ type.fields) :
    (AttributeWords.ofForest (module.types.map TypeDecl.unveil)).fields[field.token.row]? =
      some field.unveil.flags := by
  obtain ⟨k, entry, hk, hcarries⟩ := loaded.field_eq htype hfield
  have hrow : field.token.row = k + 1 :=
    loaded.shows_fields.row_of_token hrows hk hcarries.token_eq
  apply AttributeWords.getElem?_ofList_of_mem
  · exact AttributeWords.mem_fields_unveil.mpr ⟨type, htype, field, hfield, rfl, rfl⟩
  · intro other hother
    obtain ⟨type', htype', field', hfield', hrow', rfl⟩ :=
      AttributeWords.mem_fields_unveil.mp hother
    simp only [FieldDecl.flags_unveil, hcarries.flags_eq,
      loaded.field_of_row hrows htype' hfield' (hrow'.trans hrow) hk]

theorem widens_types (loaded : Loaded image module)
    (hrows : loaded.tables.rowCount .typeDef ≤ 0xFFFFFF) :
    Widens (.ofForest (module.types.map TypeDecl.unveil)) (module.Publishes .typeDef)
      loaded.typeRows where
  bits_lt _ _ h := h.bits_lt
  word_eq k entry v hk hpublishes := by
    obtain ⟨type, htype, hrow, rfl⟩ := publishes_typeDef.mp hpublishes
    obtain ⟨hflags, -⟩ := loaded.type_of_row hrows htype hrow hk
    refine ⟨type.unveil.flags, hrow ▸ loaded.word_of_type hrows htype, ?_⟩
    rw [TypeDecl.flags_unveil, Visibility.toNat_replaceIn, widest_bits, hflags]
    rfl
  published k entry word _ hword := by
    obtain ⟨type, htype, hrow, -⟩ :=
      AttributeWords.mem_types_unveil.mp (AttributeWords.mem_of_getElem?_ofList hword)
    exact ⟨_, publishes_typeDef.mpr ⟨type, htype, hrow, rfl⟩⟩

theorem toNat_public {flags : UInt32} (hflags : flags.toNat < 2 ^ 16) :
    (Access.isPublic.replaceIn flags.toUInt16).toUInt32.toNat =
      flags.toNat / 8 * 8 + (6 : UInt8).toNat := by
  rw [UInt16.toNat_toUInt32, Access.toNat_replaceIn, UInt32.toNat_toUInt16,
    Nat.mod_eq_of_lt hflags]
  rfl

theorem word_lt {ρ : Type} [WordedRow ρ] [WordedSchema ρ] {tables : TablesStream}
    {entries : List (Entry ρ)} (hshows : tables.Shows entries) {k : Nat} {entry : Entry ρ}
    (hk : entries[k]? = some entry) :
    (WordedRow.word entry.row).toNat < 256 ^ WordedRow.wordWidth ρ := by
  obtain ⟨-, -, place, -, hrow⟩ := hshows.row_eq k entry hk
  rw [WordedSchema.toNat_word hrow]
  exact Bytes.number_lt ..

theorem widens_methods (loaded : Loaded image module)
    (hrows : loaded.tables.rowCount .methodDef ≤ 0xFFFFFF) :
    Widens (.ofForest (module.types.map TypeDecl.unveil)) (module.Publishes .methodDef)
      loaded.methodRows where
  bits_lt _ _ h := h.bits_lt
  word_eq k entry v hk hpublishes := by
    obtain ⟨type, htype, method, hmethod, hrow, rfl⟩ := publishes_methodDef.mp hpublishes
    have hflags := loaded.method_of_row hrows htype hmethod hrow hk
    have hword := loaded.word_of_method hrows htype hmethod
    rw [hrow] at hword
    refine ⟨method.unveil.flags.toUInt32, congrArg (Option.map UInt16.toUInt32) hword, ?_⟩
    rw [MethodDecl.flags_unveil, hflags]
    exact toNat_public (word_lt loaded.shows_methods hk)
  published k entry word _ hword := by
    obtain ⟨half, hhalf, -⟩ := Option.map_eq_some_iff.mp hword
    obtain ⟨type, htype, method, hmethod, hrow, -⟩ :=
      AttributeWords.mem_methods_unveil.mp (AttributeWords.mem_of_getElem?_ofList hhalf)
    exact ⟨_, publishes_methodDef.mpr ⟨type, htype, method, hmethod, hrow, rfl⟩⟩

theorem widens_fields (loaded : Loaded image module)
    (hrows : loaded.tables.rowCount .field ≤ 0xFFFFFF) :
    Widens (.ofForest (module.types.map TypeDecl.unveil)) (module.Publishes .field)
      loaded.fieldRows where
  bits_lt _ _ h := h.bits_lt
  word_eq k entry v hk hpublishes := by
    obtain ⟨type, htype, field, hfield, hrow, rfl⟩ := publishes_field.mp hpublishes
    have hflags := loaded.field_of_row hrows htype hfield hrow hk
    have hword := loaded.word_of_field hrows htype hfield
    rw [hrow] at hword
    refine ⟨field.unveil.flags.toUInt32, congrArg (Option.map UInt16.toUInt32) hword, ?_⟩
    rw [FieldDecl.flags_unveil, hflags]
    exact toNat_public (word_lt loaded.shows_fields hk)
  published k entry word _ hword := by
    obtain ⟨half, hhalf, -⟩ := Option.map_eq_some_iff.mp hword
    obtain ⟨type, htype, field, hfield, hrow, -⟩ :=
      AttributeWords.mem_fields_unveil.mp (AttributeWords.mem_of_getElem?_ofList hhalf)
    exact ⟨_, publishes_field.mpr ⟨type, htype, field, hfield, hrow, rfl⟩⟩

/-- The words of a module that was made public name the rows behind its
declarations and widen each. -/
theorem widened (loaded : Loaded image module)
    (hrows : loaded.tables.rowCount .typeDef ≤ 0xFFFFFF ∧
      loaded.tables.rowCount .methodDef ≤ 0xFFFFFF ∧ loaded.tables.rowCount .field ≤ 0xFFFFFF) :
    loaded.worded.Widened (.ofForest (module.types.map TypeDecl.unveil)) module.Publishes :=
  ⟨loaded.widens_types hrows.1, loaded.widens_methods hrows.2.1, loaded.widens_fields hrows.2.2⟩

theorem rowPlace_of_publishes (loaded : Loaded image module)
    (hrows : loaded.tables.rowCount .typeDef ≤ 0xFFFFFF ∧
      loaded.tables.rowCount .methodDef ≤ 0xFFFFFF ∧ loaded.tables.rowCount .field ≤ 0xFFFFFF)
    {table : TableId} {rid : Nat} {v : UInt8} (h : module.Publishes table rid v) :
    ∃ place, loaded.tables.rowPlace? table rid = some place := by
  obtain ⟨htypes, hmethods, hfields⟩ := hrows
  cases h with
  | type htype =>
      obtain ⟨k, entry, hk, hcarries, -⟩ := loaded.type_eq htype
      rw [loaded.shows_types.row_of_token htypes hk hcarries.token_eq]
      exact ⟨_, loaded.shows_types.place_eq loaded.accepted hk⟩
  | method htype hmethod =>
      obtain ⟨k, entry, hk, hcarries⟩ := loaded.method_eq htype hmethod
      rw [loaded.shows_methods.row_of_token hmethods hk hcarries.token_eq]
      exact ⟨_, loaded.shows_methods.place_eq loaded.accepted hk⟩
  | field htype hfield =>
      obtain ⟨k, entry, hk, hcarries⟩ := loaded.field_eq htype hfield
      rw [loaded.shows_fields.row_of_token hfields hk hcarries.token_eq]
      exact ⟨_, loaded.shows_fields.place_eq loaded.accepted hk⟩

end Loaded

end Module

end Unveil
