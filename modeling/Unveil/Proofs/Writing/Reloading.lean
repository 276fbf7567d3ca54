import Unveil.Proofs.Writing.Redeclaring
import Unveil.Proofs.Writing.Separation

namespace Unveil

namespace Module

/-- A module with other bytes behind it and other words in it. -/
def reloaded (module : Module) (output : Bytes) (words : AttributeWords) : Module :=
  { module with
    image := module.image.withData output
    types := module.types.map (TypeDecl.reword words) }

namespace Loaded

variable {image : Image} {module : Module} {output : Bytes} {words : AttributeWords}

section Headers

variable [Container.LawfulReader] (loaded : Loaded module.image module)
  (hsize : output.size = module.image.data.size) (hagree : ∀ i, module.Interprets loaded.tables i →
    output.getD i 0 = module.image.data.getD i 0)

include hsize hagree

theorem header_again : ∃ headerData,
    output.slice loaded.headerOffset module.image.runtime.size.toNat = .ok headerData ∧
      RuntimeHeader.ofData headerData = .ok module.header := by
  obtain ⟨headerData, hslice, hlength⟩ := Bytes.exists_slice loaded.headerData_eq hsize
  refine ⟨headerData, hslice, ?_⟩
  rw [RuntimeHeader.ofData_congr hlength, loaded.header_eq]
  intro k _ hk
  apply Bytes.getD_slice_congr loaded.headerData_eq hslice
  intro _
  exact hagree _ (.runtimeHeader loaded.headerOffset_eq hk)

theorem metadata_again : ∃ metadata,
    output.slice module.place.offset module.place.size = .ok metadata ∧
      metadata.size = loaded.metadata.size ∧ MetadataRoot.ofData metadata = .ok loaded.root ∧
      readStrings metadata loaded.root = .ok loaded.strings ∧
      readGuids metadata loaded.root = .ok loaded.guids? := by
  obtain ⟨metadata, hslice, hlength⟩ := Bytes.exists_slice loaded.metadata_eq hsize
  have hsame {k : Nat} (hk : module.Interprets loaded.tables (module.place.offset + k)) :
      metadata.getD k 0 = loaded.metadata.getD k 0 :=
    Bytes.getD_slice_congr loaded.metadata_eq hslice fun _ => hagree _ hk
  have hheap {header : StreamHeader} (hheader : loaded.root.stream? .strings = some header ∨
      loaded.root.stream? .guids = some header) :
      streamData metadata header = streamData loaded.metadata header :=
    Bytes.slice_congr hlength fun k hlow hhigh =>
      hsame (.heap loaded.metadata_eq loaded.root_eq hheader ⟨hlow, hhigh⟩)
  refine ⟨metadata, hslice, hlength, ?_, ?_, ?_⟩
  · exact MetadataRoot.ofData_of_agree loaded.root_eq hlength fun k hk =>
      hsame (.root loaded.metadata_eq hk)
  · rw [← loaded.strings_eq]
    unfold readStrings
    split
    · rename_i header hheader
      rw [hheap (.inl hheader)]
    · rfl
  · rw [← loaded.guids_eq]
    unfold readGuids
    split
    · rename_i header hheader
      rw [hheap (.inr hheader)]
    · rfl

omit hsize in
/-- The tables stream of the metadata read again. -/
theorem stream_again {metadata : Bytes}
    (hmetadata : output.slice module.place.offset module.place.size = .ok metadata) :
    ∃ stream, streamData metadata loaded.tablesHeader = .ok stream ∧
      stream.size = loaded.stream.size ∧ (∀ k, k < loaded.stream.size →
        stream.getD k 0 = output.getD (module.place.tablesOffset + k) 0) ∧
      TablesStream.Accepted stream (loaded.tables.withData stream) := by
  have hlength : metadata.size = loaded.metadata.size :=
    (Bytes.size_slice hmetadata).trans (Bytes.size_slice loaded.metadata_eq).symm
  obtain ⟨stream, hstream, hstreamSize⟩ := Bytes.exists_slice loaded.stream_eq hlength
  have hroom := (Bytes.slice_eq_ok.mp loaded.stream_eq).1
  have hwhole := Bytes.size_slice loaded.metadata_eq
  have hpart := Bytes.size_slice loaded.stream_eq
  have hbytes (k : Nat) (hk : k < loaded.stream.size) :
      stream.getD k 0 = output.getD (module.place.tablesOffset + k) 0 := by
    rw [Bytes.getD_slice hstream (by omega), Bytes.getD_slice hmetadata (by omega),
      ← loaded.tablesOffset_sum, Nat.add_assoc]
  refine ⟨stream, hstream, hstreamSize, hbytes, ?_⟩
  refine loaded.accepted.withData hstreamSize fun k hk hread => ?_
  have hheader := loaded.accepted.headerSize_le
  rw [hbytes k (by omega), hagree _ (.tablesHeader hk hread), loaded.getD_stream (by omega)]

end Headers

section Tables

variable (loaded : Loaded module.image module) {stream : Bytes}
  (haccepted : TablesStream.Accepted stream (loaded.tables.withData stream))
  (hrows : ∀ table ∈ readTables, ∀ extent, loaded.tables.extent? table = some extent →
    Bytes.Agree stream (loaded.stream.revise (loaded.worded.edits words)) extent.offset
      (extent.offset + extent.size))

include haccepted hrows

omit haccepted in
theorem shows_again {ρ : Type} [TypedRow ρ] [Schema ρ] {entries : List (Entry ρ)}
    (hread : TypedRow.table ρ ∈ readTables)
    (hshows : (loaded.tables.withData (loaded.stream.revise (loaded.worded.edits words))).Shows
      entries) : (loaded.tables.withData stream).Shows entries := by
  have hrevised := loaded.worded.accepted_revise words loaded.accepted
  have hagain := hshows.withData hrevised fun extent hextent => hrows _ hread extent hextent
  exact hagain

theorem rows_again {ρ : Type} [TypedRow ρ] [Schema ρ] {entries : List (Entry ρ)}
    (hread : TypedRow.table ρ ∈ readTables)
    (hplain : TypedRow.table ρ ∉ [TableId.typeDef, .methodDef, .field])
    (h : loaded.tables.rows ρ = .ok entries) :
    (loaded.tables.withData stream).rows ρ = .ok entries := by
  simp only [List.mem_cons, List.not_mem_nil, or_false, not_or] at hplain
  obtain ⟨htype, hmethod, hfield⟩ := hplain
  have hshows := loaded.accepted.rows_eq_ok.mp h
  apply haccepted.rows_eq_ok.mpr
  apply loaded.shows_again hrows hread
  exact loaded.worded.shows_plain words loaded.accepted hshows htype hmethod hfield

/-- A table that lists are redirected through redirects them as it did. -/
theorem pointers_again {ρ : Type} [TypedRow ρ] [Schema ρ] {target : Entry ρ → UInt32}
    {pointers? : Option (Array UInt32)} (hread : TypedRow.table ρ ∈ readTables)
    (hplain : TypedRow.table ρ ∉ [TableId.typeDef, .methodDef, .field])
    (h : (if loaded.tables.hasTable (TypedRow.table ρ) then do
        let rows ← loaded.tables.rows ρ
        pure (some (rows.map target).toArray)
      else .ok none) = .ok pointers?) :
    (if (loaded.tables.withData stream).hasTable (TypedRow.table ρ) then do
        let rows ← (loaded.tables.withData stream).rows ρ
        pure (some (rows.map target).toArray)
      else .ok none) = .ok pointers? := by
  have hsame : (loaded.tables.withData stream).hasTable (TypedRow.table ρ) =
      loaded.tables.hasTable (TypedRow.table ρ) := rfl
  rw [hsame]
  split at h
  · rename_i hpresent
    obtain ⟨rows, hown, hpointers⟩ := Except.bind_eq_ok.mp h
    have hrowsAgain := loaded.rows_again haccepted hrows hread hplain hown
    rw [if_pos hpresent]
    exact Except.bind_eq_ok.mpr ⟨rows, hrowsAgain, hpointers⟩
  · rename_i habsent
    rw [if_neg habsent]
    exact h

theorem fieldPointers_again :
    fieldPointers (loaded.tables.withData stream) = .ok loaded.fieldPointers? :=
  loaded.pointers_again haccepted hrows (ρ := FieldPointerRow) (by decide) (by decide)
    loaded.fieldPointers_eq

theorem methodPointers_again :
    methodPointers (loaded.tables.withData stream) = .ok loaded.methodPointers? :=
  loaded.pointers_again haccepted hrows (ρ := MethodPointerRow) (by decide) (by decide)
    loaded.methodPointers_eq

end Tables

/-- What was written is loaded as the module with the new words. -/
theorem reread [Container.LawfulReader] (loaded : Loaded module.image module)
    (hseparate : module.Separate loaded.tables)
    (hrows : loaded.tables.rowCount .typeDef ≤ 0xFFFFFF ∧
      loaded.tables.rowCount .methodDef ≤ 0xFFFFFF ∧ loaded.tables.rowCount .field ≤ 0xFFFFFF)
    (strategy : Strategy) (words : AttributeWords) :
    ∃ again : Loaded (module.image.withData (module.restamp strategy (loaded.revised words)))
        (module.reloaded (module.restamp strategy (loaded.revised words)) words),
      again.typeRows = loaded.typeRows.map (Entry.rewrite words) ∧
      again.methodRows = loaded.methodRows.map (Entry.rewrite words) ∧
      again.fieldRows = loaded.fieldRows.map (Entry.rewrite words) := by
  generalize houtput : module.restamp strategy (loaded.revised words) = output
  have hsize : output.size = module.image.data.size := by
    rw [← houtput, size_restamp, size_revised]
  have hagree (i : Nat) (hi : module.Interprets loaded.tables i) :
      output.getD i 0 = module.image.data.getD i 0 :=
    houtput ▸ loaded.getD_of_interprets hseparate strategy words hi
  obtain ⟨headerData, hheaderData, hheader⟩ := loaded.header_again hsize hagree
  obtain ⟨metadata, hmetadata, -, hroot, hstrings, hguids⟩ := loaded.metadata_again hsize hagree
  obtain ⟨stream, hstream, -, hbytes, haccepted⟩ := loaded.stream_again hagree hmetadata
  have htables : ∀ table ∈ readTables, ∀ extent, loaded.tables.extent? table = some extent →
      Bytes.Agree stream (loaded.stream.revise (loaded.worded.edits words)) extent.offset
        (extent.offset + extent.size) := by
    intro table htable extent hextent k hlow hhigh
    have hbounds := (loaded.accepted.extent_bounds hextent).2.1
    rw [hbytes k (by omega), ← houtput]
    exact loaded.getD_of_row hseparate strategy words htable hextent ⟨hlow, hhigh⟩
  -- Rows come from the revised stream, everything else from bytes that stayed.
  let rewritten := loaded.worded.rewritten words loaded.accepted
  obtain ⟨pools, hdeclare⟩ := loaded.declare_rewrite words hrows.1
  obtain ⟨links, hlinks, htypes⟩ := loaded.build_reword words
  have hmoduleRows := loaded.rows_again haccepted htables (by decide) (by decide)
    (loaded.accepted.rows_eq_ok.mpr loaded.moduleRows_eq)
  have hnesting := loaded.rows_again haccepted htables (by decide) (by decide)
    (loaded.accepted.rows_eq_ok.mpr loaded.shows_nesting)
  exact ⟨{
    headerOffset := loaded.headerOffset
    headerData, metadata
    root := loaded.root
    tablesHeader := loaded.tablesHeader
    strings := loaded.strings
    guids? := loaded.guids?
    stream
    tables := loaded.tables.withData stream
    moduleRows := loaded.moduleRows
    moduleRow := loaded.moduleRow
    fieldRows := loaded.fieldRows.map (Entry.rewrite words)
    fields := loaded.fields.map (FieldDecl.reword words)
    methodRows := loaded.methodRows.map (Entry.rewrite words)
    methods := loaded.methods.map (MethodDecl.reword words)
    fieldPointers? := loaded.fieldPointers?
    methodPointers? := loaded.methodPointers?
    typeRows := loaded.typeRows.map (Entry.rewrite words)
    declarations := loaded.declarations.map (TypeDecl.reword words)
    pools
    nestingRows := loaded.nestingRows
    links
    image_eq := rfl
    headerOffset_eq := loaded.headerOffset_eq
    headerData_eq := hheaderData
    header_eq := hheader
    offset_eq := loaded.offset_eq
    size_eq := loaded.size_eq
    metadata_eq := hmetadata
    root_eq := hroot
    version_eq := loaded.version_eq
    tablesHeader_eq := loaded.tablesHeader_eq
    strings_eq := hstrings
    guids_eq := hguids
    stream_eq := hstream
    accepted := haccepted
    moduleRows_eq := haccepted.rows_eq_ok.mp hmoduleRows
    moduleRow_eq := loaded.moduleRow_eq
    name_eq := loaded.name_eq
    mvid_eq := loaded.mvid_eq
    shows_fields := loaded.shows_again htables (by decide) rewritten.shows_fields
    fields_eq := loaded.fields_rewrite words hrows.2.2
    shows_methods := loaded.shows_again htables (by decide) rewritten.shows_methods
    methods_eq := loaded.methods_rewrite words hrows.2.1
    payload_eq := loaded.payload_eq.trans (Payload.classify_reword words _ _).symm
    fieldPointers_eq := loaded.fieldPointers_again haccepted htables
    methodPointers_eq := loaded.methodPointers_again haccepted htables
    shows_types := loaded.shows_again htables (by decide) rewritten.shows_types
    declare_eq := hdeclare
    shows_nesting := haccepted.rows_eq_ok.mp hnesting
    links_eq := hlinks
    types_eq := htypes
    tablesOffset_eq := loaded.tablesOffset_eq
    tablesSize_eq := loaded.tablesSize_eq
    isLoose_eq := loaded.isLoose_eq }, rfl, rfl, rfl⟩

theorem reopen [Container.LawfulReader] (loaded : Loaded module.image module)
    (opened : Image.Opened module.image.data module.image)
    (hseparate : module.Separate loaded.tables) (strategy : Strategy) (words : AttributeWords) :
    Image.ofData (module.restamp strategy (loaded.revised words)) =
      .ok (module.image.withData (module.restamp strategy (loaded.revised words))) := by
  have hsize : (module.restamp strategy (loaded.revised words)).size = module.image.data.size := by
    rw [size_restamp, size_revised]
  apply Image.ofData_eq_ok.mpr
  refine ⟨opened.withData hsize fun i hi => ?_⟩
  apply loaded.getD_of_interprets hseparate
  exact .container opened.read_eq opened.optional_eq hi

theorem ofData_restamp [Container.LawfulReader] (loaded : Loaded module.image module)
    (opened : Image.Opened module.image.data module.image)
    (hseparate : module.Separate loaded.tables)
    (hrows : loaded.tables.rowCount .typeDef ≤ 0xFFFFFF ∧
      loaded.tables.rowCount .methodDef ≤ 0xFFFFFF ∧ loaded.tables.rowCount .field ≤ 0xFFFFFF)
    (strategy : Strategy) (words : AttributeWords) (journal : Journal) :
    ∃ after, ofData (module.restamp strategy (loaded.revised words)) journal =
      .ok (module.reloaded (module.restamp strategy (loaded.revised words)) words) after := by
  obtain ⟨again, -⟩ := loaded.reread hseparate hrows strategy words
  exact ofData_iff_loaded.mpr ⟨_, loaded.reopen opened hseparate strategy words, ⟨again⟩⟩

end Loaded

end Module

end Unveil
