import Unveil.Proofs.Module.Conservation
import Unveil.Proofs.Writing.Words

/-!
Under which numbers words are stored. Whoever writes a word looks it up by the
number of its row, and what is stored is stored under the number that the token
of a declaration keeps. While row numbers fit a token the two are the same, with
whatever flags the declarations have been given since they were loaded. A token
keeps 24 bits of a number, so behind these no row finds its word.
-/

namespace Unveil

def MethodDecl.bare (method : MethodDecl) : MethodDecl := { method with flags := 0 }

def FieldDecl.bare (field : FieldDecl) : FieldDecl := { field with flags := 0 }

/-- A type without its flags and those of its members. -/
def TypeDecl.bare (type : TypeDecl) : TypeDecl :=
  { type with
    flags := 0
    methods := type.methods.map (·.map MethodDecl.bare)
    fields := type.fields.map (·.map FieldDecl.bare) }

/-- The forests differ in flags at most. -/
def Forest.Reflags (assigned forest : Forest) : Prop :=
  assigned.map TypeDecl.bare = forest.map TypeDecl.bare

theorem TypeDecl.bare_unveil (type : TypeDecl) : type.unveil.bare = type.bare := by
  have hmethods : MethodDecl.bare ∘ MethodDecl.unveil = MethodDecl.bare := rfl
  have hfields : FieldDecl.bare ∘ FieldDecl.unveil = FieldDecl.bare := rfl
  simp only [bare, unveil, withVisibility, List.map_map, Function.comp_def, Option.map_map]
    at hmethods hfields ⊢
  simp only [hmethods, hfields]

/-- Nothing but flags is changed when a forest is made public. -/
theorem Forest.reflags_unveil (forest : Forest) :
    (forest.map TypeDecl.unveil).Reflags forest := by
  rw [Reflags, map_eq_mapTypes, map_eq_mapTypes, map_eq_mapTypes]
  induction forest with
  | nil => rfl
  | absent rest ih => simp only [mapTypes, ih]
  | present type nested rest ihNested ihRest =>
      simp only [mapTypes, type.bare_unveil, ihNested, ihRest]

theorem Token.row_lt (token : Token) : token.row < 0x1000000 := by
  rw [Token.row, Token.rowSpan]
  omega

namespace AttributeWords

/-- A change that goes through the method slots of each type goes through the
methods of all types. -/
theorem methodsOf_map {change : TypeDecl → TypeDecl} {f : MethodDecl → MethodDecl}
    (hchange : ∀ type, (change type).methods = type.methods.map (·.map f))
    (types : List TypeDecl) : methodsOf (types.map change) = (methodsOf types).map f := by
  have hown (type : TypeDecl) :
      (change type).methods.filterMap id = (type.methods.filterMap id).map f := by
    rw [hchange, List.filterMap_map, List.map_filterMap]
    rfl
  rw [methodsOf, methodsOf, List.flatMap_map, List.map_flatMap]
  simp only [hown]

theorem fieldsOf_map {change : TypeDecl → TypeDecl} {f : FieldDecl → FieldDecl}
    (hchange : ∀ type, (change type).fields = type.fields.map (·.map f))
    (types : List TypeDecl) : fieldsOf (types.map change) = (fieldsOf types).map f := by
  have hown (type : TypeDecl) :
      (change type).fields.filterMap id = (type.fields.filterMap id).map f := by
    rw [hchange, List.filterMap_map, List.map_filterMap]
    rfl
  rw [fieldsOf, fieldsOf, List.flatMap_map, List.map_flatMap]
  simp only [hown]

theorem methodsOf_bare (types : List TypeDecl) :
    methodsOf (types.map TypeDecl.bare) = (methodsOf types).map MethodDecl.bare :=
  methodsOf_map (fun _ => rfl) types

theorem fieldsOf_bare (types : List TypeDecl) :
    fieldsOf (types.map TypeDecl.bare) = (fieldsOf types).map FieldDecl.bare :=
  fieldsOf_map (fun _ => rfl) types

end AttributeWords

open AttributeWords (methodsOf fieldsOf)

namespace Forest.Reflags

variable {assigned forest : Forest}

theorem preorder_eq (h : assigned.Reflags forest) :
    assigned.preorder.map TypeDecl.bare = forest.preorder.map TypeDecl.bare := by
  have hmapped := congrArg preorder h
  simpa only [map_eq_mapTypes, preorder_mapTypes] using hmapped

theorem typeTokens_eq (h : assigned.Reflags forest) :
    assigned.preorder.map (·.token) = forest.preorder.map (·.token) := by
  have hbare := congrArg (List.map fun type : TypeDecl => type.token) h.preorder_eq
  rw [List.map_map, List.map_map] at hbare
  exact hbare

theorem methodTokens_eq (h : assigned.Reflags forest) :
    (methodsOf assigned.preorder).map (·.token) = (methodsOf forest.preorder).map (·.token) := by
  have hbare := congrArg methodsOf h.preorder_eq
  rw [AttributeWords.methodsOf_bare, AttributeWords.methodsOf_bare] at hbare
  have htokens := congrArg (List.map fun method : MethodDecl => method.token) hbare
  rw [List.map_map, List.map_map] at htokens
  exact htokens

theorem fieldTokens_eq (h : assigned.Reflags forest) :
    (fieldsOf assigned.preorder).map (·.token) = (fieldsOf forest.preorder).map (·.token) := by
  have hbare := congrArg fieldsOf h.preorder_eq
  rw [AttributeWords.fieldsOf_bare, AttributeWords.fieldsOf_bare] at hbare
  have htokens := congrArg (List.map fun field : FieldDecl => field.token) hbare
  rw [List.map_map, List.map_map] at htokens
  exact htokens

end Forest.Reflags

/-- Words for the declarations `held`, which were loaded from `rows` and are by
now `given`. Each has its word under the number of the row it was loaded from,
and no two share a number. -/
structure AttributeWords.Keyed {ρ α β : Type} (carries : Entry ρ → α → Prop) (flags : α → β)
    (rows : List (Entry ρ)) (held given : List α) (words : WordMap β) : Prop where
  length_eq : given.length = held.length
  size_eq : words.size = given.length
  row_eq : ∀ (i : Nat) (own : α), held[i]? = some own →
    ∃ (k : Nat) (entry : Entry ρ), rows[k]? = some entry ∧ entry.rid = k + 1 ∧ carries entry own
  word_eq : ∀ (i k : Nat) (own now : α) (entry : Entry ρ), held[i]? = some own →
    given[i]? = some now → rows[k]? = some entry → carries entry own →
      words[k + 1]? = some (flags now)

namespace AttributeWords

section Keys

variable {ρ α β : Type} {carries : Entry ρ → α → Prop} {flags : α → β} {token : α → Token}
variable {table : TableId} {rows : List (Entry ρ)} {declared held left given : List α}

theorem row_of_carries
    (htoken : ∀ entry own, carries entry own → token own = .ofParts table entry.rid)
    (hrid : ∀ (k : Nat) (entry : Entry ρ), rows[k]? = some entry → entry.rid = k + 1)
    (hrows : rows.length ≤ 0xFFFFFF) {k : Nat} {entry : Entry ρ} {own : α}
    (hk : rows[k]? = some entry) (hcarries : carries entry own) : (token own).row = k + 1 := by
  have hlt : k < rows.length := (List.getElem?_eq_some_iff.mp hk).1
  rw [htoken entry own hcarries, hrid k entry hk]
  exact Token.row_ofParts (by omega)

/-- The declarations of all rows have the numbers of the rows. -/
theorem rows_of_declares (hdeclares : Module.Declares carries rows declared)
    (htoken : ∀ entry own, carries entry own → token own = .ofParts table entry.rid)
    (hrid : ∀ (k : Nat) (entry : Entry ρ), rows[k]? = some entry → entry.rid = k + 1)
    (hrows : rows.length ≤ 0xFFFFFF) :
    declared.map (fun own => (token own).row) = List.range' 1 rows.length := by
  apply List.ext_getElem
  · simp [hdeclares.length_eq]
  · intro k hk hk'
    rw [List.length_map] at hk
    obtain ⟨entry, hentry, -, hcarries⟩ :=
      hdeclares.carries k declared[k] (List.getElem?_eq_getElem hk)
    rw [List.getElem_map, List.getElem_range', Nat.one_mul, Nat.add_comm]
    exact row_of_carries htoken hrid hrows hentry hcarries

theorem keyed_of_declares (hdeclares : Module.Declares carries rows declared)
    (htoken : ∀ entry own, carries entry own → token own = .ofParts table entry.rid)
    (hrid : ∀ (k : Nat) (entry : Entry ρ), rows[k]? = some entry → entry.rid = k + 1)
    (hrows : rows.length ≤ 0xFFFFFF) (hheld : (held ++ left).Perm declared)
    (hgiven : given.map token = held.map token) :
    Keyed carries flags rows held given
      (.ofList (given.map fun now => ((token now).row, flags now))) := by
  have hall : (declared.map fun own => (token own).row).Nodup := by
    rw [rows_of_declares hdeclares htoken hrid hrows]
    exact List.nodup_range'
  have hown : (held.map fun own => (token own).row).Nodup := by
    have hsplit := (hheld.map fun own => (token own).row).nodup_iff.mpr hall
    rw [List.map_append, List.nodup_append] at hsplit
    exact hsplit.1
  have hsame : given.map (fun now => (token now).row) = held.map fun own => (token own).row := by
    have hnumbers := congrArg (List.map Token.row) hgiven
    rw [List.map_map, List.map_map] at hnumbers
    exact hnumbers
  have hdistinct : (given.map fun now => ((token now).row, flags now)).Pairwise
      fun first second => (first.1 == second.1) = false := by
    rw [← hsame, List.Nodup, List.pairwise_map] at hown
    rw [List.pairwise_map]
    exact hown.imp fun hdiffers => beq_eq_false_iff_ne.mpr hdiffers
  constructor
  · have hlength := congrArg List.length hgiven
    simpa only [List.length_map] using hlength
  · rw [Std.HashMap.size_ofList hdistinct, List.length_map]
  · intro i own hi
    have hmem : own ∈ declared := by
      apply hheld.mem_iff.mp
      exact List.mem_append_left left (List.mem_of_getElem? hi)
    obtain ⟨k, hk⟩ := List.mem_iff_getElem?.mp hmem
    obtain ⟨entry, hentry, hnumber, hcarries⟩ := hdeclares.carries k own hk
    exact ⟨k, entry, hentry, hnumber, hcarries⟩
  · intro i k own now entry hi hnow hk hcarries
    have hnumber : (token now).row = k + 1 := by
      have htokens : (given.map token)[i]? = (held.map token)[i]? := by rw [hgiven]
      rw [List.getElem?_map, List.getElem?_map, hi, hnow] at htokens
      rw [Option.some.inj htokens]
      exact row_of_carries htoken hrid hrows hk hcarries
    apply Std.HashMap.getElem?_ofList_of_mem (beq_iff_eq.mpr hnumber) hdistinct
    exact List.mem_map.mpr ⟨now, List.mem_of_getElem? hnow, rfl⟩

end Keys

/-- No word is stored for a row that no declaration names. -/
theorem getElem?_of_unnamed {α β : Type} {token : α → Token} {flags : α → β} {given : List α}
    {rid : Nat} (hunnamed : ∀ now ∈ given, (token now).row ≠ rid) :
    (Std.HashMap.ofList (given.map fun now => ((token now).row, flags now)))[rid]? = none := by
  apply Option.eq_none_iff_forall_ne_some.mpr
  intro word hword
  obtain ⟨now, hnow, hpair⟩ := List.mem_map.mp (mem_of_getElem?_ofList hword)
  exact hunnamed now hnow (congrArg Prod.fst hpair)

/-- No word is stored for a row whose number does not fit a token. -/
theorem getElem?_of_large {α β : Type} {token : α → Token} {flags : α → β} (given : List α)
    {rid : Nat} (hlarge : 0xFFFFFF < rid) :
    (Std.HashMap.ofList (given.map fun now => ((token now).row, flags now)))[rid]? = none := by
  apply getElem?_of_unnamed
  intro now _
  have hlt := (token now).row_lt
  omega

/-- Whatever the flags, a row past the numbers that a token keeps is written
with no word. -/
theorem ofForest_of_large (forest : Forest) {rid : Nat} (hlarge : 0xFFFFFF < rid) :
    (ofForest forest).types[rid]? = none ∧ (ofForest forest).methods[rid]? = none ∧
      (ofForest forest).fields[rid]? = none :=
  ⟨getElem?_of_large forest.types hlarge, getElem?_of_large (methodsOf forest.types) hlarge,
    getElem?_of_large (fieldsOf forest.types) hlarge⟩

end AttributeWords

namespace Module

open AttributeWords (Keyed ofForest)

/-- Every declaration has its word under the number of its own row. The rows are
those of the file, the declarations those in the slots of the loaded forest,
and each word is the flags that have been assigned to the declaration since. -/
theorem words_under_own_rows [Container.Reader] {data : Bytes} {module : Module} {journal after : Journal}
    {tables : TablesStream} {assigned : Forest}
    (hload : Module.ofData data journal = .ok module after) (htables : module.tables = .ok tables)
    (hrows : tables.rowCount .typeDef ≤ 0xFFFFFF ∧ tables.rowCount .methodDef ≤ 0xFFFFFF ∧
      tables.rowCount .field ≤ 0xFFFFFF)
    (hassigned : assigned.Reflags module.types) :
    ∃ (strings : StringHeap) (typeRows : List (Entry TypeRow)) (methodRows : List (Entry MethodRow))
      (fieldRows : List (Entry FieldRow)),
      tables.rows TypeRow = .ok typeRows ∧ tables.rows MethodRow = .ok methodRows ∧
      tables.rows FieldRow = .ok fieldRows ∧
      Keyed (TypeCarries strings) (·.flags) typeRows module.types.preorder assigned.preorder
        (ofForest assigned).types ∧
      Keyed (MethodCarries strings) (·.flags) methodRows (methodsOf module.types.preorder)
        (methodsOf assigned.preorder) (ofForest assigned).methods ∧
      Keyed (FieldCarries strings) (·.flags) fieldRows (fieldsOf module.types.preorder)
        (fieldsOf assigned.preorder) (ofForest assigned).fields := by
  obtain ⟨image, -, ⟨loaded⟩⟩ := ofData_iff_loaded.mp ⟨after, hload⟩
  obtain rfl := Except.ok.inj (loaded.tables_eq.symm.trans htables)
  refine ⟨loaded.strings, loaded.typeRows, loaded.methodRows, loaded.fieldRows,
    loaded.accepted.rows_eq_ok.mpr loaded.shows_types,
    loaded.accepted.rows_eq_ok.mpr loaded.shows_methods,
    loaded.accepted.rows_eq_ok.mpr loaded.shows_fields, ?_, ?_, ?_⟩
  · simp only [ofForest, Forest.types_eq_preorder]
    have hperm := loaded.preorder_perm
    rw [← List.append_nil module.types.preorder] at hperm
    apply AttributeWords.keyed_of_declares loaded.declares_types
    · exact fun entry own hcarries => hcarries.token_eq
    · exact fun k entry hk => (loaded.shows_types.row_eq k entry hk).1
    · exact loaded.shows_types.length_eq ▸ hrows.1
    · exact hperm
    · exact hassigned.typeTokens_eq
  · simp only [ofForest, Forest.types_eq_preorder]
    apply AttributeWords.keyed_of_declares loaded.declares_methods
    · exact fun entry own hcarries => hcarries.token_eq
    · exact fun k entry hk => (loaded.shows_methods.row_eq k entry hk).1
    · exact loaded.shows_methods.length_eq ▸ hrows.2.1
    · exact loaded.methods_perm
    · exact hassigned.methodTokens_eq
  · simp only [ofForest, Forest.types_eq_preorder]
    apply AttributeWords.keyed_of_declares loaded.declares_fields
    · exact fun entry own hcarries => hcarries.token_eq
    · exact fun k entry hk => (loaded.shows_fields.row_eq k entry hk).1
    · exact loaded.shows_fields.length_eq ▸ hrows.2.2
    · exact loaded.fields_perm
    · exact hassigned.fieldTokens_eq

open Framing in
/-- The type of the smallest module is given other flags. -/
theorem words_under_own_rows_plain :
    ∃ (after : Journal) (tables : TablesStream),
      Module.ofData plain #[] = .ok plainModule after ∧ plainModule.tables = .ok tables ∧
      (tables.rowCount .typeDef ≤ 0xFFFFFF ∧ tables.rowCount .methodDef ≤ 0xFFFFFF ∧
        tables.rowCount .field ≤ 0xFFFFFF) ∧
      Forest.Reflags (plainModule.types.map ({ · with flags := 7 })) plainModule.types ∧
      (ofForest (plainModule.types.map ({ · with flags := 7 }))).types[1]? = some 7 ∧
      (ofForest (plainModule.types.map ({ · with flags := 7 }))).methods.size = 1 := by
  obtain ⟨after, hload⟩ := Module.ofData_eq_ok.mpr plain_loads
  obtain ⟨_, -, ⟨loaded⟩⟩ := ofData_iff_loaded.mp ⟨after, hload⟩
  have hassigned : Forest.Reflags (plainModule.types.map ({ · with flags := 7 }))
      plainModule.types := by
    rw [Forest.Reflags]
    decide +kernel
  have hrows := plain_sound.rowCounts loaded.tables_eq
  obtain ⟨strings, typeRows, _, _, htypeRows, -, -, htypes, hmethods, -⟩ :=
    words_under_own_rows hload loaded.tables_eq hrows hassigned
  obtain ⟨⟨own, hown, hlists, -⟩, -⟩ := plain_sound.lists loaded.tables_eq
  obtain rfl := Except.ok.inj (htypeRows.symm.trans hown)
  have hlength : typeRows.length = 1 :=
    List.length_map _ ▸ congrArg List.length hlists
  obtain ⟨k, entry, hk, -, hcarries⟩ := htypes.row_eq 0 _ (by rfl)
  obtain rfl : k = 0 := by
    have hlt := (List.getElem?_eq_some_iff.mp hk).1
    omega
  obtain ⟨now, hnow, hflags⟩ : ∃ now,
      (plainModule.types.map ({ · with flags := 7 })).preorder[0]? = some now ∧ now.flags = 7 := by
    rw [Forest.map_eq_mapTypes]
    exact ⟨_, rfl, rfl⟩
  have hword := htypes.word_eq 0 0 _ now entry (by rfl) hnow hk hcarries
  rw [hflags] at hword
  refine ⟨after, loaded.tables, hload, loaded.tables_eq, hrows, hassigned, hword, ?_⟩
  rw [hmethods.size_eq, Forest.map_eq_mapTypes]
  rfl

end Module

end Unveil
