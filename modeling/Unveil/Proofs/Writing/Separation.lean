import Unveil.Proofs.Metadata.Root
import Unveil.Proofs.Metadata.RuntimeHeader
import Unveil.Proofs.Module.Framing
import Unveil.Proofs.Writing.Rendering

/-!
Which bytes of a file its module is loaded from. They are listed range by range:
what the container check looks at, the headers, the heaps, and of the tables
that are read every column but the attribute words. Ranges of a file may lie on
top of each other; where no attribute word and no checksum lies on one of these,
what is written has them all as they were.
-/

namespace Unveil

namespace TablesStream

/-- The byte belongs to the attribute word of some row of a table. -/
def WordAt (ρ : Type) [WordedRow ρ] (tables : TablesStream) (k : Nat) : Prop :=
  ∃ rid place, tables.rowPlace? (TypedRow.table ρ) rid = some place ∧
    place + WordedRow.wordOffset ρ ≤ k ∧
    k < place + WordedRow.wordOffset ρ + WordedRow.wordWidth ρ

def InWord (tables : TablesStream) (k : Nat) : Prop :=
  tables.WordAt TypeRow k ∨ tables.WordAt MethodRow k ∨ tables.WordAt FieldRow k

variable {data : Bytes} {tables : TablesStream} {words : AttributeWords} {edit : Edit} {k : Nat}

theorem Shows.wordAt_of_mem {ρ : Type} [WordedRow ρ] [WordedSchema ρ] {entries : List (Entry ρ)}
    (h : Accepted data tables) (hshows : tables.Shows entries)
    (hmem : edit ∈ tables.editsOf words entries) (hk : edit.offset ≤ k ∧ k < edit.stop) :
    tables.WordAt ρ k := by
  obtain ⟨j, entry, hj, hedit⟩ := mem_editsOf hmem
  obtain ⟨word, -, rfl⟩ := Option.map_eq_some_iff.mp hedit
  simp only [Edit.stop, Bytes.length_spell] at hk
  exact ⟨j + 1, _, hshows.place_eq h hj, hk.1, hk.2⟩

theorem Accepted.headerSize_le_of_inWord (h : Accepted data tables) (hk : tables.InWord k) :
    tables.headerSize ≤ k := by
  rcases hk with hword | hword | hword
  all_goals
    obtain ⟨rid, place, hplace, hlow, -⟩ := hword
    have hbounds := (h.rowPlace_bounds hplace).1
    omega

theorem Worded.inWord_of_mem (rows : Worded tables) (h : Accepted data tables)
    (hmem : edit ∈ rows.edits words) (hk : edit.offset ≤ k ∧ k < edit.stop) : tables.InWord k := by
  rcases (rows.mem_edits words).mp hmem with htype | hmethod | hfield
  · exact .inl (rows.shows_types.wordAt_of_mem h htype hk)
  · exact .inr (.inl (rows.shows_methods.wordAt_of_mem h hmethod hk))
  · exact .inr (.inr (rows.shows_fields.wordAt_of_mem h hfield hk))

theorem Worded.getD_revise_of_not_inWord (rows : Worded tables) (h : Accepted data tables)
    (hk : ¬ tables.InWord k) : (data.revise (rows.edits words)).getD k 0 = data.getD k 0 := by
  apply Bytes.getD_revise_outside
  intro edit hmem
  by_cases hinside : edit.offset ≤ k ∧ k < edit.stop
  · exact absurd (rows.inWord_of_mem h hmem hinside) hk
  · omega

end TablesStream

namespace Module

/-- The tables that a load reads. -/
def readTables : List TableId :=
  [.module, .typeDef, .fieldPtr, .field, .methodPtr, .methodDef, .nestedClass]

/-- The bytes of its file that a module is loaded from, the attribute words
apart. -/
inductive Interprets [Container.LawfulReader] (module : Module) (tables : TablesStream) : Nat → Prop
  | container {container : Container} {header : OptionalHeader} {i : Nat}
      (hcontainer : Container.Reader.read module.image.data = .ok container)
      (hheader : container.optional = some header)
      (hi : Container.LawfulReader.Interprets module.image.data container header i) :
      Interprets module tables i
  | runtimeHeader {offset k : Nat}
      (hoffset : module.image.offsetOf module.image.runtime.address.toNat = .ok offset)
      (hk : k < RuntimeHeader.byteSize) : Interprets module tables (offset + k)
  | root {metadata : Bytes} {k : Nat}
      (hmetadata : module.image.data.slice module.place.offset module.place.size = .ok metadata)
      (hk : MetadataRoot.Interprets metadata k) :
      Interprets module tables (module.place.offset + k)
  | heap {metadata : Bytes} {root : MetadataRoot} {header : StreamHeader} {k : Nat}
      (hmetadata : module.image.data.slice module.place.offset module.place.size = .ok metadata)
      (hroot : MetadataRoot.ofData metadata = .ok root)
      (hheader : root.stream? .strings = some header ∨ root.stream? .guids = some header)
      (hk : header.offset.toNat ≤ k ∧ k < header.offset.toNat + header.size.toNat) :
      Interprets module tables (module.place.offset + k)
  | tablesHeader {k : Nat} (hk : k < tables.headerSize) (hread : 4 ≤ k ∧ k ≠ 7) :
      Interprets module tables (module.place.tablesOffset + k)
  | row {table : TableId} {extent : Extent} {k : Nat} (htable : table ∈ readTables)
      (hextent : tables.extent? table = some extent)
      (hk : extent.offset ≤ k ∧ k < extent.offset + extent.size) (hcolumn : ¬ tables.InWord k) :
      Interprets module tables (module.place.tablesOffset + k)

/-- Neither the attribute words nor the checksum lie on bytes with another
meaning. -/
structure Separate [Container.LawfulReader] (module : Module) (tables : TablesStream) : Prop where
  word : ∀ k, tables.InWord k → ¬ module.Interprets tables (module.place.tablesOffset + k)
  checksum : ∀ i, module.image.checksumOffset ≤ i → i < module.image.checksumOffset + 4 →
    ¬ module.Interprets tables i ∧ ∀ k, tables.InWord k → i ≠ module.place.tablesOffset + k

namespace Loaded

variable {image : Image} {module : Module}

theorem getD_revised_of_not_word (loaded : Loaded image module) (words : AttributeWords) {i : Nat}
    (hi : ∀ k, loaded.tables.InWord k → i ≠ module.place.tablesOffset + k) :
    (loaded.revised words).getD i 0 = module.image.data.getD i 0 := by
  -- Inside the tables stream the edits decide, and outside it nothing changes.
  by_cases hinside : module.place.tablesOffset ≤ i ∧
      i < module.place.tablesOffset + loaded.stream.size
  · obtain ⟨k, rfl⟩ := Nat.exists_eq_add_of_le hinside.1
    have hk : k < loaded.stream.size := by omega
    rw [loaded.getD_revised_inside words hk, ← loaded.getD_stream hk]
    apply loaded.worded.getD_revise_of_not_inWord loaded.accepted
    intro hword
    exact hi k hword rfl
  · exact loaded.getD_revised_outside words (by omega)

/-- What is written has the bytes that the module was loaded from. -/
theorem getD_of_interprets [Container.LawfulReader] (loaded : Loaded image module)
    (hseparate : module.Separate loaded.tables)
    (strategy : Strategy) (words : AttributeWords) {i : Nat}
    (hi : module.Interprets loaded.tables i) :
    (module.restamp strategy (loaded.revised words)).getD i 0 = module.image.data.getD i 0 := by
  have hchecksum : ¬ module.InChecksum strategy i := by
    rintro ⟨-, hlow, hhigh⟩
    exact (hseparate.checksum i hlow hhigh).1 hi
  rw [getD_restamp hchecksum]
  apply loaded.getD_revised_of_not_word
  rintro k hword rfl
  exact hseparate.word k hword hi

/-- What is written has the new words in the tables that are read. -/
theorem getD_of_row [Container.LawfulReader] (loaded : Loaded image module)
    (hseparate : module.Separate loaded.tables)
    (strategy : Strategy) (words : AttributeWords) {table : TableId} {extent : Extent} {k : Nat}
    (htable : table ∈ readTables) (hextent : loaded.tables.extent? table = some extent)
    (hk : extent.offset ≤ k ∧ k < extent.offset + extent.size) :
    (module.restamp strategy (loaded.revised words)).getD (module.place.tablesOffset + k) 0 =
      (loaded.stream.revise (loaded.worded.edits words)).getD k 0 := by
  have hinside : k < loaded.stream.size := by
    have hbounds := (loaded.accepted.extent_bounds hextent).2.1
    omega
  by_cases hword : loaded.tables.InWord k
  · have hchecksum : ¬ module.InChecksum strategy (module.place.tablesOffset + k) := by
      rintro ⟨-, hlow, hhigh⟩
      exact (hseparate.checksum _ hlow hhigh).2 k hword rfl
    rw [getD_restamp hchecksum, loaded.getD_revised_inside words hinside]
  · rw [loaded.getD_of_interprets hseparate strategy words (.row htable hextent hk hword),
      loaded.worded.getD_revise_of_not_inWord loaded.accepted hword, loaded.getD_stream hinside]

end Loaded

end Module

namespace Framing

/-- What leads to the metadata lies in front of it, and what leads to the tables in front
of those. -/
structure Laid (stream : List UInt8) : Prop extends Framed stream where
  runtime_found : (Container.find 1 (imageOf stream).sections 344).toOption = some 344
  metadata_found : (Container.find 1 (imageOf stream).sections 416).toOption = some 416
  countAt_eq : Container.countAt (file stream) 88 = 180
  directories_eq : (file stream).number 180 4 = 15
  sectionCount_eq : (file stream).number 70 2 = 1
  sectionsAt_eq : Container.sectionsAt (file stream) 0x40 = 304
  address_eq : (file stream).number 352 4 = 416
  version_eq : (file stream).number 428 4 = 4
  directoryAt_eq : MetadataRoot.directoryAt (metadataOf stream) = 24
  streamCount_eq : MetadataRoot.countOf (metadataOf stream) = 2
  strings_header : (StreamHeader.ofData
    ((metadataOf stream).extract 24 (metadataOf stream).size)).toOption = some ⟨56, 1, .strings⟩
  /-- The names of both streams end with a zero byte. -/
  names_end : ((metadataOf stream).extract 24 (metadataOf stream).size).getD 16 0 = 0 ∧
    ((metadataOf stream).extract 44 (metadataOf stream).size).getD 10 0 = 0

variable {stream : List UInt8}

/-- Of a framed file the container takes what stands in front of the tables, the
checksum apart. -/
theorem Laid.interprets_container (h : Laid stream) {container : Container}
    {header : OptionalHeader} {i : Nat} (hcontainer : Container.ofData (file stream) = .ok container)
    (hheader : container.optional = some header)
    (hi : Container.Interprets (file stream) container header i) :
    i < 473 ∧ (i < 152 ∨ 156 ≤ i) := by
  obtain ⟨own, ownHeader, hown, hownHeader, hstart, hsections, halignment, -, hruntime,
    hcertificates⟩ := h.exists_container
  obtain rfl := Except.ok.inj (hown.symm.trans hcontainer)
  obtain rfl := Option.some.inj (hownHeader.symm.trans hheader)
  have hfind := eq_ok_of_toOption h.runtime_found
  have hfind' := eq_ok_of_toOption h.metadata_found
  cases hi with
  | magic hi => omega
  | start hi => omega
  | signature hi => omega
  | sectionCount hi => omega
  | optionalSize hi => omega
  | form hi => omega
  | alignment hi => omega
  | directories hi =>
      rw [hstart, h.countAt_eq, h.directories_eq] at hi
      omega
  | sectionHeader hindex hi =>
      rw [hstart, h.sectionCount_eq] at hindex
      rw [hstart, h.sectionsAt_eq] at hi
      omega
  | metadataRegion hown hoffset hi =>
      obtain rfl := Option.some.inj (hruntime.symm.trans hown)
      rw [halignment, hsections] at hoffset
      obtain rfl := Except.ok.inj (hfind.symm.trans hoffset)
      omega
  | version hown hoffset hmetadata hi =>
      obtain rfl := Option.some.inj (hruntime.symm.trans hown)
      rw [halignment, hsections] at hoffset hmetadata
      obtain rfl := Except.ok.inj (hfind.symm.trans hoffset)
      rw [h.address_eq] at hmetadata
      obtain rfl := Except.ok.inj (hfind'.symm.trans hmetadata)
      rw [h.version_eq] at hi
      omega
  | certificate hown hentry hi =>
      rw [hcertificates] at hown
      cases hown

/-- Of the metadata the root takes what stands in front of the heap. -/
theorem Laid.interprets_root (h : Laid stream) {k : Nat}
    (hk : MetadataRoot.Interprets (metadataOf stream) k) : k < tablesAt := by
  have hfirst := eq_ok_of_toOption h.strings_header
  have hat := h.directoryAt_eq
  rw [tablesAt]
  cases hk with
  | front hi => omega
  | header hentry hk =>
      rename_i entry k
      rw [h.directoryAt_eq, h.streamCount_eq] at hentry
      cases hentry with
      | here =>
          have hname : ¬ 16 < k := fun hlt => hk 16 (by omega) hlt h.names_end.1
          omega
      | later hheader hentry =>
          obtain rfl := Except.ok.inj (hfirst.symm.trans hheader)
          cases hentry with
          | here =>
              rw [show StreamHeader.headerSize ⟨56, 1, .strings⟩ = 20 by decide +kernel] at hk ⊢
              have hname : ¬ 10 < k := fun hlt => hk 10 (by omega) hlt h.names_end.2
              omega
          | later hheader hentry => cases hentry

namespace Sample

variable {sample : Sample} {tables : TablesStream}

/-- What a sample is loaded from stands in front of the tables and is not the checksum,
or it is in the tables and is no attribute word. -/
theorem interprets (h : Laid sample.stream) {i : Nat} (hi : sample.module.Interprets tables i) :
    i < 473 ∧ (i < 152 ∨ 156 ≤ i) ∨
      ∃ k, i = 473 + k ∧ (k < tables.headerSize ∨ ¬ tables.InWord k) := by
  have hmetadata (metadata : Bytes) (hslice : (file sample.stream).slice 416
      (tablesAt + sample.stream.length) = .ok metadata) : metadata = metadataOf sample.stream :=
    Except.ok.inj (hslice.symm.trans (slice_metadata 0 1 sample.stream))
  have hplace : sample.module.place.offset = 416 := rfl
  cases hi with
  | container hcontainer hheader hi => exact .inl (h.interprets_container hcontainer hheader hi)
  | runtimeHeader hoffset hk =>
      obtain rfl := Except.ok.inj ((eq_ok_of_toOption h.runtime_eq).symm.trans hoffset)
      rw [RuntimeHeader.byteSize] at hk
      omega
  | root hslice hk =>
      obtain rfl := hmetadata _ hslice
      have hlt := h.interprets_root hk
      rw [tablesAt] at hlt
      omega
  | heap hslice hroot hheader hk =>
      obtain rfl := hmetadata _ hslice
      obtain rfl := Except.ok.inj ((eq_ok_of_toOption h.root_eq).symm.trans hroot)
      rcases hheader with hstrings | hguids
      · obtain rfl : StreamHeader.mk 56 1 .strings = _ := Option.some.inj hstrings
        change 56 ≤ _ ∧ _ < 56 + 1 at hk
        omega
      · cases hguids
  | tablesHeader hk hread => exact .inr ⟨_, rfl, .inl hk⟩
  | row htable hextent hk hcolumn => exact .inr ⟨_, rfl, .inr hcolumn⟩

/-- In the file of a sample nothing lies on top of anything else. -/
theorem separate (h : Laid sample.stream) (htables : sample.module.tables = .ok tables) :
    sample.module.Separate tables := by
  have haccepted := TablesStream.ofData_eq_ok.mp (Sound.ofData_stream htables)
  constructor
  · intro k hword hi
    have hheader := haccepted.headerSize_le_of_inWord hword
    rcases interprets h hi with ⟨hlt, -⟩ | ⟨k', hsame, hk'⟩
    · change 473 + k < 473 at hlt
      omega
    · change 473 + k = 473 + k' at hsame
      obtain rfl : k = k' := by omega
      rcases hk' with hlt | hnot
      · omega
      · exact hnot hword
  · intro i hlow hhigh
    change 152 ≤ i at hlow
    change i < 156 at hhigh
    refine ⟨fun hi => ?_, fun k _ hsame => ?_⟩
    · rcases interprets h hi with ⟨-, hout⟩ | ⟨k, rfl, -⟩
      · omega
      · omega
    · change i = 473 + k at hsame
      omega

end Sample

theorem nested_laid : Laid nestedStream where
  toFramed := nested_sound.toFramed
  runtime_found := by decide +kernel
  metadata_found := by decide +kernel
  countAt_eq := by decide +kernel
  directories_eq := by decide +kernel
  sectionCount_eq := by decide +kernel
  sectionsAt_eq := by decide +kernel
  address_eq := by decide +kernel
  version_eq := by decide +kernel
  directoryAt_eq := by decide +kernel
  streamCount_eq := by decide +kernel
  strings_header := by decide +kernel
  names_end := by decide +kernel

end Framing

end Unveil
