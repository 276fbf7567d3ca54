import Unveil.Proofs.Module.Completeness
import Unveil.Proofs.Writing.Module
import Unveil.Proofs.Writing.Rereading

namespace Unveil

/-- The low bits of a word that was widened. -/
theorem UInt32.and_seven_eq {flags : UInt32} {n : Nat} {v : UInt8} (hv : v.toNat < 8)
    (hflags : flags.toNat = n / 8 * 8 + v.toNat) : flags &&& 7 = v.toUInt32 := by
  have hseven : (7 : UInt32).toNat = 2 ^ 3 - 1 := by decide
  rw [← UInt32.toNat_inj, UInt32.toNat_and, hseven, Nat.and_two_pow_sub_one_eq_mod, hflags,
    UInt8.toNat_toUInt32]
  omega

theorem Widens.and_seven_eq {ρ : Type} [WordedRow ρ] [WordedSchema ρ] {words : AttributeWords}
    {published : Nat → UInt8 → Prop} {tables : TablesStream} {entries : List (Entry ρ)}
    (h : Widens words published entries) (hshows : tables.Shows entries) {k : Nat}
    {entry : Entry ρ} {v : UInt8} (hk : entries[k]? = some entry)
    (hpublished : published (k + 1) v) :
    WordedRow.word (entry.reworded words) &&& 7 = v.toUInt32 := by
  obtain ⟨word, hnew, hword⟩ := h.word_eq k entry v hk hpublished
  obtain ⟨hrid, -, place, -, hrow⟩ := hshows.row_eq k entry hk
  rw [Entry.word_reworded hrow (hrid ▸ hnew)]
  exact UInt32.and_seven_eq (h.bits_lt _ _ hpublished) hword

namespace TablesStream

/-- The field lists and the method lists of a stream are well formed. -/
structure ListsWellFormed (tables : TablesStream) : Prop where
  fields : ∀ typeRows pointers?, tables.rows TypeRow = .ok typeRows →
    Module.fieldPointers tables = .ok pointers? →
    MemberPool.WellFormed (typeRows.map (·.row.fieldList.toNat)) pointers?
      (tables.rowCount .field)
  methods : ∀ typeRows pointers?, tables.rows TypeRow = .ok typeRows →
    Module.methodPointers tables = .ok pointers? →
    MemberPool.WellFormed (typeRows.map (·.row.methodList.toNat)) pointers?
      (tables.rowCount .methodDef)

/-- Every row of a written stream is public, types in the way that the nesting
rows of the source ask for. -/
structure AllPublic (source written : TablesStream) : Prop where
  fields : ∃ rows, written.rows FieldRow = .ok rows ∧ rows.length = source.rowCount .field ∧
    ∀ entry ∈ rows, entry.row.flags &&& 7 = 6
  methods : ∃ rows, written.rows MethodRow = .ok rows ∧
    rows.length = source.rowCount .methodDef ∧ ∀ entry ∈ rows, entry.row.flags &&& 7 = 6
  types : ∃ rows nesting, written.rows TypeRow = .ok rows ∧
    source.rows NestingRow = .ok nesting ∧ rows.length = source.rowCount .typeDef ∧
    ∀ (k : Nat) (entry : Entry TypeRow), rows[k]? = some entry →
      entry.row.flags &&& 7 = if nesting.any (·.row.nested.toNat = k + 1) then 2 else 1

end TablesStream

namespace Module

variable {data : Bytes} {image : Image} {module : Module}

namespace Loaded

/-- A checksum outside the tables stream leaves the edited stream alone. -/
theorem slice_restamp (loaded : Loaded image module) (words : AttributeWords) {strategy : Strategy}
    (hchecksum : module.image.checksumOffset + 4 ≤ module.place.tablesOffset ∨
      module.place.tablesOffset + module.place.tablesSize ≤ module.image.checksumOffset) :
    (module.restamp strategy (loaded.revised words)).slice module.place.tablesOffset
      module.place.tablesSize = .ok (loaded.stream.revise (loaded.worded.edits words)) := by
  refine loaded.slice_of_inside (by rw [size_restamp, loaded.size_revised]) fun k hk => ?_
  have hsize := Bytes.size_slice loaded.slice_stream
  have hout : ¬ module.InChecksum strategy (module.place.tablesOffset + k) := by
    rintro ⟨-, hfirst, hlast⟩
    omega
  rw [getD_restamp hout, loaded.getD_revised_inside words hk]

theorem length_links (loaded : Loaded image module) :
    loaded.links.types.toList.length = loaded.typeRows.length := by
  rw [Array.length_toList, loaded.linked.types_size, loaded.length_declarations]

/-- The types in the order of their rows have the slots that the lists give
them. -/
theorem map_slots (loaded : Loaded image module) {α : Type} {slots : TypeDecl → List (Option α)}
    {lists : List (List (Option α))} (hlength : lists.length = loaded.typeRows.length)
    (hslots : ∀ (k : Nat) (type : TypeDecl), loaded.links.types[k]? = some type →
      lists[k]? = some (slots type)) : loaded.links.types.toList.map slots = lists := by
  apply List.ext_getElem
  · rw [List.length_map, loaded.length_links, hlength]
  · intro k hk hk'
    rw [List.length_map] at hk
    have htype := List.getElem?_eq_getElem hk
    rw [Array.getElem?_toList] at htype
    rw [List.getElem_map]
    exact (Option.some.inj ((List.getElem?_eq_getElem hk').symm.trans (hslots k _ htype))).symm

theorem map_fields (loaded : Loaded image module) :
    loaded.links.types.toList.map TypeDecl.fields = loaded.fieldSlots := by
  apply loaded.map_slots loaded.length_fieldSlots
  intro k type htype
  obtain ⟨entry, -, -, -, hfields, -⟩ := loaded.link_eq htype
  exact hfields

theorem map_methods (loaded : Loaded image module) :
    loaded.links.types.toList.map TypeDecl.methods = loaded.methodSlots := by
  apply loaded.map_slots loaded.length_methodSlots
  intro k type htype
  obtain ⟨entry, -, -, -, -, hmethods⟩ := loaded.link_eq htype
  exact hmethods

theorem token_link (loaded : Loaded image module) {k : Nat} {type : TypeDecl}
    (hk : loaded.links.types.toList[k]? = some type) :
    type.token = .ofParts .typeDef (k + 1) := by
  rw [Array.getElem?_toList] at hk
  obtain ⟨entry, hentry, hcarries, -⟩ := loaded.link_eq hk
  rw [hcarries.token_eq, (loaded.shows_types.row_eq k entry hentry).1]

theorem length_fields (loaded : Loaded image module) :
    loaded.fields.length = loaded.tables.rowCount .field :=
  (Except.getElem?_mapM loaded.fields_eq).1.trans loaded.shows_fields.length_eq

theorem length_methods (loaded : Loaded image module) :
    loaded.methods.length = loaded.tables.rowCount .methodDef :=
  (Except.getElem?_mapM loaded.methods_eq).1.trans loaded.shows_methods.length_eq

theorem holdsAll_fields (loaded : Loaded image module)
    (hrows : loaded.tables.rowCount .field ≤ 0xFFFFFF)
    (hlists : loaded.tables.ListsWellFormed) :
    HoldsAll module.types.preorder TypeDecl.fields FieldDecl.token .field
      (loaded.typeRows.map (·.row.fieldList.toNat)) loaded.fieldPointers?
      (loaded.tables.rowCount .field) := by
  have h := hlists.fields _ _ (loaded.accepted.rows_eq_ok.mpr loaded.shows_types)
    loaded.fieldPointers_eq
  rw [← loaded.length_fields] at h hrows ⊢
  refine holdsAll_of_wellFormed loaded.preorder_perm loaded.map_fields
    (fun k type hk => loaded.token_link hk) ?_ hrows h
  intro k field hk
  obtain ⟨entry, hentry, hof⟩ := (Except.getElem?_mapM loaded.fields_eq).2 k field hk
  rw [(fieldOf_carries hof).token_eq, (loaded.shows_fields.row_eq k entry hentry).1]

theorem holdsAll_methods (loaded : Loaded image module)
    (hrows : loaded.tables.rowCount .methodDef ≤ 0xFFFFFF)
    (hlists : loaded.tables.ListsWellFormed) :
    HoldsAll module.types.preorder TypeDecl.methods MethodDecl.token .methodDef
      (loaded.typeRows.map (·.row.methodList.toNat)) loaded.methodPointers?
      (loaded.tables.rowCount .methodDef) := by
  have h := hlists.methods _ _ (loaded.accepted.rows_eq_ok.mpr loaded.shows_types)
    loaded.methodPointers_eq
  rw [← loaded.length_methods] at h hrows ⊢
  refine holdsAll_of_wellFormed loaded.preorder_perm loaded.map_methods
    (fun k type hk => loaded.token_link hk) ?_ hrows h
  intro k method hk
  obtain ⟨entry, hentry, hof⟩ := (Except.getElem?_mapM loaded.methods_eq).2 k method hk
  rw [(methodOf_carries hof).token_eq, (loaded.shows_methods.row_eq k entry hentry).1]

/-- A nesting row names a type exactly if it has the number of its row. -/
theorem isNamed_eq (loaded : Loaded image module) {k : Nat} (hk : k < loaded.typeRows.length) :
    loaded.isNamed k = loaded.nestingRows.any (·.row.nested.toNat = k + 1) := by
  have hindex (row : UInt32) :
      Nesting.indexOf? loaded.typeRows.length row = some k ↔ row.toNat = k + 1 := by
    unfold Nesting.indexOf?
    split
    · rw [Option.some.injEq]
      omega
    · constructor
      · nofun
      · intro hrow
        omega
  simp only [isNamed, Nesting.names, hindex]

theorem publishes_type (loaded : Loaded image module)
    (hrows : loaded.tables.rowCount .typeDef ≤ 0xFFFFFF) {k : Nat}
    (hk : k < loaded.typeRows.length) :
    module.Publishes .typeDef (k + 1)
      (if loaded.nestingRows.any (·.row.nested.toNat = k + 1) then 2 else 1) := by
  have hcount := loaded.shows_types.length_eq
  change loaded.typeRows.length = loaded.tables.rowCount .typeDef at hcount
  have htype := List.getElem?_eq_getElem (loaded.length_links ▸ hk)
  have htoken := loaded.token_link htype
  have hmem := loaded.preorder_perm.mem_iff.mpr (List.mem_of_getElem? htype)
  rw [Array.getElem?_toList] at htype
  obtain ⟨_, _, _, hnested, _⟩ := loaded.link_eq htype
  refine publishes_typeDef.mpr ⟨_, hmem, ?_, ?_⟩
  · rw [htoken, Token.row_ofParts (by omega)]
  · rw [hnested, loaded.isNamed_eq hk]

theorem publishes_member {α : Type} {slots : TypeDecl → List (Option α)} {token : α → Token}
    {table : TableId} {starts : List Nat} {pointers? : Option (Array UInt32)} {count row : Nat}
    (h : HoldsAll module.types.preorder slots token table starts pointers? count)
    (hcount : count ≤ 0xFFFFFF) (hfirst : 1 ≤ row) (hlast : row ≤ count) :
    ∃ type ∈ module.types.preorder, ∃ member, some member ∈ slots type ∧
      (token member).row = row := by
  obtain ⟨position, hposition, hposition', hrow⟩ := h.placed row hfirst hlast
  obtain ⟨index, -, type, htype, -, member, hmember, htoken⟩ := h.owner position hposition hposition'
  refine ⟨type, htype, member, hmember, ?_⟩
  rw [htoken, hrow, Token.row_ofParts (by omega)]

/-- The edited stream has nothing but public rows if every row stands behind a
declaration. -/
theorem allPublic (loaded : Loaded image module)
    (hrows : loaded.tables.rowCount .typeDef ≤ 0xFFFFFF ∧
      loaded.tables.rowCount .methodDef ≤ 0xFFFFFF ∧ loaded.tables.rowCount .field ≤ 0xFFFFFF)
    (hlists : loaded.tables.ListsWellFormed) :
    loaded.tables.AllPublic (loaded.tables.withData (loaded.stream.revise
      (loaded.worded.edits (.ofForest module.published.types)))) := by
  have hwidened := loaded.widened hrows
  have haccepted := loaded.worded.accepted_revise (.ofForest module.published.types) loaded.accepted
  constructor
  · refine ⟨loaded.fieldRows.map (Entry.rewrite _), haccepted.rows_eq_ok.mpr
      (loaded.worded.rewritten _ loaded.accepted).shows_fields, ?_, ?_⟩
    · rw [List.length_map]
      exact loaded.shows_fields.length_eq
    · intro entry hmem
      obtain ⟨source, hsource, rfl⟩ := List.mem_map.mp hmem
      obtain ⟨k, hk⟩ := List.mem_iff_getElem?.mp hsource
      have hlt : k < loaded.tables.rowCount .field :=
        Nat.lt_of_lt_of_eq (List.getElem?_eq_some_iff.mp hk).1 loaded.shows_fields.length_eq
      obtain ⟨type, htype, field, hfield, hrow⟩ := publishes_member
        (loaded.holdsAll_fields hrows.2.2 hlists) hrows.2.2 (show 1 ≤ k + 1 by omega) hlt
      exact hwidened.fields.and_seven_eq loaded.shows_fields hk
        (publishes_field.mpr ⟨type, htype, field, hfield, hrow, rfl⟩)
  · refine ⟨loaded.methodRows.map (Entry.rewrite _), haccepted.rows_eq_ok.mpr
      (loaded.worded.rewritten _ loaded.accepted).shows_methods, ?_, ?_⟩
    · rw [List.length_map]
      exact loaded.shows_methods.length_eq
    · intro entry hmem
      obtain ⟨source, hsource, rfl⟩ := List.mem_map.mp hmem
      obtain ⟨k, hk⟩ := List.mem_iff_getElem?.mp hsource
      have hlt : k < loaded.tables.rowCount .methodDef :=
        Nat.lt_of_lt_of_eq (List.getElem?_eq_some_iff.mp hk).1 loaded.shows_methods.length_eq
      obtain ⟨type, htype, method, hmethod, hrow⟩ := publishes_member
        (loaded.holdsAll_methods hrows.2.1 hlists) hrows.2.1 (show 1 ≤ k + 1 by omega) hlt
      exact hwidened.methods.and_seven_eq loaded.shows_methods hk
        (publishes_methodDef.mpr ⟨type, htype, method, hmethod, hrow, rfl⟩)
  · refine ⟨loaded.typeRows.map (Entry.rewrite _), loaded.nestingRows,
      haccepted.rows_eq_ok.mpr (loaded.worded.rewritten _ loaded.accepted).shows_types,
      loaded.accepted.rows_eq_ok.mpr loaded.shows_nesting, ?_, ?_⟩
    · rw [List.length_map]
      exact loaded.shows_types.length_eq
    · intro k entry hentry
      rw [List.getElem?_map, Option.map_eq_some_iff] at hentry
      obtain ⟨source, hk, rfl⟩ := hentry
      have hpublishes := loaded.publishes_type hrows.1 (List.getElem?_eq_some_iff.mp hk).1
      refine (hwidened.types.and_seven_eq loaded.shows_types hk hpublishes).trans ?_
      split
      · rfl
      · rfl

end Loaded

/-- Nothing is left behind. Where the member lists of a module are well formed,
every field and method has its own slot in the type that its position belongs to,
and everything that is written for the public module is public. -/
theorem every_row_is_public [Container.LawfulReader] {journal after : Journal}
    (hload : Module.ofData data journal = .ok module after)
    (hrows : ∀ tables, module.tables = .ok tables → tables.rowCount .typeDef ≤ 0xFFFFFF ∧
      tables.rowCount .methodDef ≤ 0xFFFFFF ∧ tables.rowCount .field ≤ 0xFFFFFF)
    (hchecksum : module.image.checksumOffset + 4 ≤ module.place.tablesOffset ∨
      module.place.tablesOffset + module.place.tablesSize ≤ module.image.checksumOffset)
    (hlists : ∀ tables, module.tables = .ok tables → tables.ListsWellFormed) :
    ∃ tables typeRows fieldPointers? methodPointers?, module.tables = .ok tables ∧
      tables.rows TypeRow = .ok typeRows ∧ fieldPointers tables = .ok fieldPointers? ∧
      methodPointers tables = .ok methodPointers? ∧
      HoldsAll module.types.preorder TypeDecl.fields FieldDecl.token .field
        (typeRows.map (·.row.fieldList.toNat)) fieldPointers? (tables.rowCount .field) ∧
      HoldsAll module.types.preorder TypeDecl.methods MethodDecl.token .methodDef
        (typeRows.map (·.row.methodList.toNat)) methodPointers? (tables.rowCount .methodDef) ∧
      ∀ parallel strategy? before, ∃ published tally unveiled rendering stream written,
        module.unveil parallel before = .ok (published, tally) unveiled ∧
        published.Writes strategy? rendering ∧
        rendering.data.slice module.place.tablesOffset module.place.tablesSize = .ok stream ∧
        TablesStream.ofData stream = .ok written ∧ tables.AllPublic written := by
  obtain ⟨image, himage, ⟨loaded⟩⟩ := ofData_iff_loaded.mp ⟨after, hload⟩
  obtain ⟨opened⟩ := Image.ofData_eq_ok.mp himage
  have hsmall := hrows _ loaded.tables_eq
  have hwell := hlists _ loaded.tables_eq
  refine ⟨loaded.tables, loaded.typeRows, loaded.fieldPointers?, loaded.methodPointers?,
    loaded.tables_eq, loaded.accepted.rows_eq_ok.mpr loaded.shows_types, loaded.fieldPointers_eq,
    loaded.methodPointers_eq, loaded.holdsAll_fields hsmall.2.2 hwell,
    loaded.holdsAll_methods hsmall.2.1 hwell, fun parallel strategy? before => ?_⟩
  obtain ⟨unveiled, hunveil⟩ := unveil_eq module parallel before
  exact ⟨_, _, unveiled, _, _, _, hunveil, loaded.writes opened module.published.types rfl,
    loaded.slice_restamp _ hchecksum,
    TablesStream.ofData_eq_ok.mpr (loaded.worded.accepted_revise _ loaded.accepted),
    loaded.allPublic hsmall hwell⟩

theorem nested_listsWellFormed {tables : TablesStream}
    (h : Framing.nestedModule.tables = .ok tables) : tables.ListsWellFormed := by
  obtain ⟨⟨own, hown, hfields, hmethods⟩, hfieldPointers, hmethodPointers⟩ :=
    Framing.nested_sound.lists h
  constructor
  · intro typeRows pointers? htypeRows hpointers
    obtain rfl := Except.ok.inj (htypeRows.symm.trans hown)
    obtain rfl := Except.ok.inj (hpointers.symm.trans hfieldPointers)
    rw [hfields, Framing.nested_sound.rowCount_eq h]
    exact {
      first := rfl
      sorted := by decide
      inside := by decide
      pointers := by
        rintro _ ⟨⟩
        decide }
  · intro typeRows pointers? htypeRows hpointers
    obtain rfl := Except.ok.inj (htypeRows.symm.trans hown)
    obtain rfl := Except.ok.inj (hpointers.symm.trans hmethodPointers)
    rw [hmethods, Framing.nested_sound.rowCount_eq h]
    exact {
      first := rfl
      sorted := by decide
      inside := by decide
      pointers := nofun }

open Framing in
/-- A module with types in types holds its fields and its methods, and is written with
nothing but public rows. -/
theorem every_row_is_public_nested :
    ∃ after tables published tally unveiled rendering stream written,
      Module.ofData nested #[] = .ok nestedModule after ∧ nestedModule.tables = .ok tables ∧
      tables.ListsWellFormed ∧
      HoldsAll nestedModule.types.preorder TypeDecl.fields FieldDecl.token .field [1, 1, 2, 3]
        (some #[2, 1]) 2 ∧
      nestedModule.unveil true #[] = .ok (published, tally) unveiled ∧
      published.Writes (some .nativeAware) rendering ∧
      rendering.data.slice nestedModule.place.tablesOffset nestedModule.place.tablesSize =
        .ok stream ∧
      TablesStream.ofData stream = .ok written ∧ tables.AllPublic written := by
  obtain ⟨after, hload⟩ := Module.ofData_eq_ok.mpr nested_loads
  obtain ⟨tables, typeRows, fieldPointers?, methodPointers?, htables, htypeRows, hfieldPointers, -,
    hfields, -, hwrite⟩ := every_row_is_public hload (fun _ => nested_sound.rowCounts)
      (.inl (by decide)) fun _ => nested_listsWellFormed
  obtain ⟨published, tally, unveiled, rendering, stream, written, hunveil, hwrites, hslice, hstream,
    hpublic⟩ := hwrite true (some .nativeAware) #[]
  obtain ⟨⟨own, hown, hstarts, -⟩, hpointers, -⟩ := nested_sound.lists htables
  obtain rfl := Except.ok.inj (htypeRows.symm.trans hown)
  obtain rfl := Except.ok.inj (hfieldPointers.symm.trans hpointers)
  rw [hstarts, nested_sound.rowCount_eq htables] at hfields
  exact ⟨after, tables, published, tally, unveiled, rendering, stream, written, hload, htables,
    nested_listsWellFormed htables, hfields, hunveil, hwrites, hslice, hstream, hpublic⟩

end Module

end Unveil
