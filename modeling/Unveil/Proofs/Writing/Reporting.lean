import Unveil.Proofs.Writing.Counting
import Unveil.Proofs.Writing.Module

namespace Unveil

namespace Module

variable {data : Bytes} {image : Image} {module : Module}

/-- Makes a module public once for every entry of a list, which says whether
the top-level slots are shared out. -/
def unveilAll (module : Module) : List Bool → Logged (Module × List Tally)
  | [] => pure (module, [])
  | parallel :: others => do
      let (module, tally) ← module.unveil parallel
      let (module, tallies) ← module.unveilAll others
      pure (module, tally :: tallies)

/-- The tables stream that a write puts down: the one laid out anew, or the
one in the image after words were changed in place. A checksum is written
behind that. -/
def writtenStream (module : Module) (strategy : Strategy) (tables : TablesStream)
    (words : AttributeWords) : Except Fault Bytes :=
  match strategy with
  | .managed => do
      let (_, stream) ← Emission.emit tables words
      pure stream
  | .nativeAware => do
      let (_, data) ←
        Emit.fill (Patch.apply module.place.tablesOffset tables words) module.image.data
      data.slice module.place.tablesOffset module.place.tablesSize

/-- The file has a certificate directory with an address and a size. -/
def HasCertificates [Container.Reader] (data : Bytes) : Prop :=
  ∃ container header region, Container.Reader.read data = .ok container ∧
    container.optional = some header ∧
    header.directory? Container.certificateIndex = some region ∧
    region.address ≠ 0 ∧ region.size ≠ 0

/-- A report that says of a write what it did. -/
structure Truthful [Container.Reader] (module : Module) (tables : TablesStream) (words : AttributeWords)
    (tallies : List Tally) (output : Bytes) (report : Report) : Prop where
  /-- The stream put down, read again, has other words in as many rows, and
  outside a checksum it is what the file has in the place of its tables. -/
  rows : ∃ stream written, module.writtenStream report.strategy tables words = .ok stream ∧
    TablesStream.ofData stream = .ok written ∧
    report.changed = tables.differing TypeRow written +
      (tables.differing MethodRow written + tables.differing FieldRow written) ∧
    ∀ k, k < module.place.tablesSize →
      ¬ module.InChecksum report.strategy (module.place.tablesOffset + k) →
        output.getD (module.place.tablesOffset + k) 0 = stream.getD k 0
  declarations : report.changed = total (tallies.map Tally.total)
  strongName : .strongName ∈ report.warnings ↔ report.changed ≠ 0 ∧
    (module.header.isStrongNameSigned = true ∨ module.header.strongName.size ≠ 0)
  authenticode : .authenticode ∈ report.warnings ↔
    report.changed ≠ 0 ∧ HasCertificates module.image.data
  native : (∃ parts, .nativeContent parts ∈ report.warnings) ↔ module.payload.isIlOnly = false

/-- Passes over a public module change nothing and count nothing. -/
theorem unveilAll_again {forest : Forest} (htypes : module.types = forest.map TypeDecl.unveil)
    {passes : List Bool} {published : Module} {tallies : List Tally} {before after : Journal}
    (h : module.unveilAll passes before = .ok (published, tallies) after) :
    published = module ∧ total (tallies.map Tally.total) = 0 := by
  induction passes generalizing tallies before with
  | nil =>
      cases h
      exact ⟨rfl, rfl⟩
  | cons parallel others ih =>
      obtain ⟨between, hunveil⟩ := unveil_again htypes parallel before
      obtain ⟨_, _, hpass, hrest⟩ := EStateM.bind_eq_ok.mp h
      cases hunveil.symm.trans hpass
      obtain ⟨_, _, hothers, hpure⟩ := EStateM.bind_eq_ok.mp hrest
      cases hpure
      obtain ⟨rfl, hzero⟩ := ih hothers
      exact ⟨rfl, by rw [List.map_cons, total_cons, hzero]; rfl⟩

/-- Any number of passes leaves the declarations with other flags at most, and
together they counted those that have. -/
theorem unveilAll_eq {passes : List Bool} {published : Module} {tallies : List Tally}
    {before after : Journal}
    (h : module.unveilAll passes before = .ok (published, tallies) after) :
    ∃ forest : Forest, published = { module with types := forest } ∧ forest.Reflags module.types ∧
      total (tallies.map Tally.total) = (module.types.reflagged forest).total := by
  cases passes with
  | nil =>
      cases h
      refine ⟨module.types, rfl, rfl, ?_⟩
      rw [Forest.reflagged_self]
      rfl
  | cons parallel others =>
      obtain ⟨between, hunveil⟩ := unveil_eq module parallel before
      obtain ⟨_, _, hpass, hrest⟩ := EStateM.bind_eq_ok.mp h
      cases hunveil.symm.trans hpass
      obtain ⟨⟨_, _⟩, _, hothers, hpure⟩ := EStateM.bind_eq_ok.mp hrest
      cases hpure
      obtain ⟨rfl, hzero⟩ := unveilAll_again rfl hothers
      refine ⟨_, rfl, module.types.reflags_unveil, ?_⟩
      rw [List.map_cons, total_cons, hzero, Nat.add_zero, Forest.tally_unveil,
        Forest.reflagged_unveil]

theorem strongName_mem_warnings {changed : Nat} : .strongName ∈ module.warnings changed ↔
    changed ≠ 0 ∧
      (module.header.isStrongNameSigned = true ∨ module.header.strongName.size ≠ 0) := by
  simp only [warnings, List.mem_append, List.mem_ite_nil_left, List.mem_ite_nil_right,
    List.mem_singleton, reduceCtorEq, and_false, false_or, or_false, and_true, Bool.or_eq_true,
    bne_iff_ne]

theorem authenticode_mem_warnings {changed : Nat} : .authenticode ∈ module.warnings changed ↔
    changed ≠ 0 ∧ module.image.certificates.isSome = true := by
  simp only [warnings, List.mem_append, List.mem_ite_nil_left, List.mem_ite_nil_right,
    List.mem_singleton, reduceCtorEq, and_false, false_or, and_true]

theorem native_mem_warnings {changed : Nat} :
    (∃ parts, .nativeContent parts ∈ module.warnings changed) ↔
      module.payload.isIlOnly = false := by
  simp only [warnings, List.mem_append, List.mem_ite_nil_left, List.mem_ite_nil_right,
    List.mem_singleton, reduceCtorEq, and_false, or_false, Warning.nativeContent.injEq,
    exists_and_left, exists_eq, and_true, Bool.not_eq_true]

theorem hasCertificates_iff [Container.Reader] (opened : Image.Opened data image) :
    image.certificates.isSome = true ↔ HasCertificates data := by
  have hgiven (region : Region) :
      region.isGiven = true ↔ region.address ≠ 0 ∧ region.size ≠ 0 := by
    rw [Region.isGiven, Bool.and_eq_true, bne_iff_ne, bne_iff_ne]
  rw [opened.certificates_eq]
  constructor
  · intro h
    obtain ⟨region, hregion⟩ := Option.isSome_iff_exists.mp h
    obtain ⟨hdirectory, hpresent⟩ := Option.filter_eq_some_iff.mp hregion
    exact ⟨_, _, region, opened.read_eq, opened.optional_eq, hdirectory, (hgiven region).mp hpresent⟩
  · rintro ⟨container, header, region, hown, hheader, hregion, hpresent⟩
    obtain rfl := Except.ok.inj (opened.read_eq.symm.trans hown)
    obtain rfl := Option.some.inj (opened.optional_eq.symm.trans hheader)
    rw [Option.isSome_iff_exists]
    exact ⟨region, Option.filter_eq_some_iff.mpr ⟨hregion, (hgiven region).mpr hpresent⟩⟩

theorem Loaded.writtenStream_eq (loaded : Loaded image module) (strategy : Strategy)
    (words : AttributeWords) : module.writtenStream strategy loaded.tables words =
      .ok (loaded.stream.revise (loaded.worded.edits words)) := by
  cases strategy with
  | managed =>
      rw [writtenStream, Emission.emit_of_worded loaded.accepted loaded.worded words]
      rfl
  | nativeAware =>
      have hroom := (Bytes.slice_eq_ok.mp loaded.slice_of_size).1
      rcases patch_cases loaded.accepted words 0 hroom with ⟨-, hpatch⟩ | ⟨hinvalid, -⟩
      · obtain ⟨stop, hpatch⟩ := hpatch loaded.worded
        rw [writtenStream, Emit.fill, hpatch]
        exact loaded.slice_revised words
      · exact absurd loaded.extendsValid hinvalid

/-- Reports are truthful. However often a loaded module is made public, a write
that comes to an end reports the rows that have another word in the stream it
puts down, which are as many as all the passes together counted. -/
theorem report_truthful [Container.LawfulReader] {journal after : Journal} {tables : TablesStream}
    (hload : Module.ofData data journal = .ok module after) (htables : module.tables = .ok tables)
    (hrows : tables.rowCount .typeDef ≤ 0xFFFFFF ∧ tables.rowCount .methodDef ≤ 0xFFFFFF ∧
      tables.rowCount .field ≤ 0xFFFFFF)
    {passes : List Bool} {published : Module} {tallies : List Tally} {before between : Journal}
    (hpasses : module.unveilAll passes before = .ok (published, tallies) between)
    {target : Path} {strategy? : Option Strategy} {tag : String} {start log : Journal}
    {host host' : Host} {report : Report}
    (hwrite : ((write (m := Hosted) published target strategy? tag).run start).run host =
      ((.ok report, log), host')) :
    ∃ output, host'.store.read? target = some output ∧
      module.Truthful tables (.ofForest published.types) tallies output report := by
  obtain ⟨⟨loaded⟩, ⟨opened⟩, -⟩ := loaded_of_ofData hload
  obtain rfl := Except.ok.inj (loaded.tables_eq.symm.trans htables)
  obtain ⟨forest, rfl, hreflags, htotal⟩ := unveilAll_eq hpasses
  obtain ⟨hread, rfl⟩ := loaded.outcome_of_write opened forest hwrite
  refine ⟨_, hread, ?_⟩
  have hchanged : (loaded.worded.edits (.ofForest forest)).length =
      total (tallies.map Tally.total) := by
    rw [htotal]
    exact loaded.length_edits hrows hreflags
  exact {
    rows := ⟨_, _, loaded.writtenStream_eq _ _,
      TablesStream.ofData_eq_ok.mpr (loaded.worded.accepted_revise _ loaded.accepted),
      loaded.worded.length_edits _ loaded.accepted, fun k hk hout => by
        rw [← Bytes.size_slice loaded.slice_stream] at hk
        exact (getD_restamp hout).trans (loaded.getD_revised_inside _ hk)⟩
    declarations := hchanged
    strongName := strongName_mem_warnings
    authenticode := authenticode_mem_warnings.trans
      (and_congr_right fun _ => hasCertificates_iff opened)
    native := native_mem_warnings }

open Framing in
/-- The smallest module is made public twice and written into an empty store:
its type, method and field change. -/
theorem report_truthful_plain : ∃ after tables tallies between report log host' output,
    Module.ofData plain #[] = .ok plainModule after ∧ plainModule.tables = .ok tables ∧
    plainModule.unveilAll [false, true] #[] = .ok (plainModule.published, tallies) between ∧
    ((write (m := Hosted) plainModule.published ⟨['o', 'u', 't']⟩ none "0").run #[]).run
      (Host.sound Store.empty) = ((.ok report, log), host') ∧
    host'.store.read? ⟨['o', 'u', 't']⟩ = some output ∧
    plainModule.Truthful tables (.ofForest plainModule.published.types) tallies output report ∧
    report.changed = 3 := by
  obtain ⟨tables, after, tally, unveiled, report, log, host', hload, htables, hunveil, hwrite⟩ :=
    plain_sound.written
  obtain ⟨between, hagain⟩ : ∃ between, plainModule.published.unveil true unveiled =
      .ok (plainModule.published, .zero) between := unveil_again rfl true unveiled
  have hpasses : plainModule.unveilAll [false, true] #[] =
      .ok (plainModule.published, [tally, .zero]) between := by
    simp only [unveilAll, EStateM.bind_eq_ok]
    exact ⟨_, _, hunveil, _, _, ⟨_, _, hagain, _, _, rfl, rfl⟩, rfl⟩
  obtain ⟨output, hread, htruthful⟩ :=
    report_truthful hload htables (plain_sound.rowCounts htables) hpasses hwrite
  have htally : tally = ⟨1, 1, 1⟩ := by
    obtain ⟨_, hown⟩ := unveil_eq plainModule false #[]
    cases hown.symm.trans hunveil
    exact plainTypes.tally_unveil false
  refine ⟨after, tables, _, between, report, log, host', output, hload, htables, hpasses, hwrite,
    hread, htruthful, ?_⟩
  rw [htruthful.declarations, htally]
  rfl

end Module

end Unveil
