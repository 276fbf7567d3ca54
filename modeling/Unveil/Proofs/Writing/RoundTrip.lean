import Unveil.Proofs.Writing.Keys
import Unveil.Proofs.Writing.Reloading
import Unveil.Proofs.Writing.Stamp

namespace Unveil

namespace Module

variable {data : Bytes} {image image' : Image} {module module' : Module}

namespace Loaded

/-- The words of the public forest, put into the source, make it public. -/
theorem reword_eq_unveil (loaded : Loaded image module)
    (hrows : loaded.tables.rowCount .typeDef ≤ 0xFFFFFF ∧
      loaded.tables.rowCount .methodDef ≤ 0xFFFFFF ∧ loaded.tables.rowCount .field ≤ 0xFFFFFF)
    {type : TypeDecl} (htype : type ∈ module.types.preorder) :
    type.reword (.ofForest module.published.types) = type.unveil := by
  have hflags : (AttributeWords.ofForest module.published.types).types[type.token.row]? =
      some type.unveil.flags := loaded.word_of_type hrows.1 htype
  have hmethods : type.methods.map (·.map (MethodDecl.reword (.ofForest module.published.types))) =
      type.methods.map (·.map MethodDecl.unveil) := by
    apply List.map_congr_left
    intro slot hslot
    apply Option.map_congr
    rintro method rfl
    have hword : (AttributeWords.ofForest module.published.types).methods[method.token.row]? =
      some method.unveil.flags := loaded.word_of_method hrows.2.1 htype hslot
    rw [MethodDecl.reword, hword]
    rfl
  have hfields : type.fields.map (·.map (FieldDecl.reword (.ofForest module.published.types))) =
      type.fields.map (·.map FieldDecl.unveil) := by
    apply List.map_congr_left
    intro slot hslot
    apply Option.map_congr
    rintro field rfl
    have hword : (AttributeWords.ofForest module.published.types).fields[field.token.row]? =
      some field.unveil.flags := loaded.word_of_field hrows.2.2 htype hslot
    rw [FieldDecl.reword, hword]
    rfl
  rw [TypeDecl.reword, hflags, hmethods, hfields]
  rfl

theorem reloaded_eq (loaded : Loaded image module)
    (hrows : loaded.tables.rowCount .typeDef ≤ 0xFFFFFF ∧
      loaded.tables.rowCount .methodDef ≤ 0xFFFFFF ∧ loaded.tables.rowCount .field ≤ 0xFFFFFF)
    (output : Bytes) : module.reloaded output (.ofForest module.published.types) =
      { module.published with image := module.image.withData output } := by
  have htypes : module.types.map (TypeDecl.reword (.ofForest module.published.types)) =
      module.types.map TypeDecl.unveil := by
    rw [Forest.map_eq_mapTypes, Forest.map_eq_mapTypes]
    exact Forest.mapTypes_congr fun type htype => loaded.reword_eq_unveil hrows htype
  rw [reloaded, htypes]
  rfl

theorem edits_again (again : Loaded image' module') (loaded : Loaded image module)
    {words : AttributeWords} (htypes : again.typeRows = loaded.typeRows.map (Entry.rewrite words))
    (hmethods : again.methodRows = loaded.methodRows.map (Entry.rewrite words))
    (hfields : again.fieldRows = loaded.fieldRows.map (Entry.rewrite words)) :
    again.worded.edits words = [] := by
  have htypeEdits := loaded.shows_types.editsOf_rewrite words again.tables
  have hmethodEdits := loaded.shows_methods.editsOf_rewrite words again.tables
  have hfieldEdits := loaded.shows_fields.editsOf_rewrite words again.tables
  rw [← htypes] at htypeEdits
  rw [← hmethods] at hmethodEdits
  rw [← hfields] at hfieldEdits
  exact List.append_eq_nil_iff.mpr
    ⟨htypeEdits, List.append_eq_nil_iff.mpr ⟨hmethodEdits, hfieldEdits⟩⟩

/-- What was written has its checksum already. -/
theorem restamp_again [Container.LawfulReader] (loaded : Loaded module.image module)
    (opened : Image.Opened module.image.data module.image)
    (hseparate : module.Separate loaded.tables) (hstart : module.image.start % 2 = 0)
    (strategy : Strategy) (words : AttributeWords) {output : Bytes}
    (houtput : module.restamp strategy (loaded.revised words) = output) :
    (module.reloaded output words).restamp strategy output = output := by
  have hroom : module.image.checksumOffset + 4 ≤ (loaded.revised words).size := by
    rw [loaded.size_revised]
    exact opened.checksum_room
  -- The first write stored what the second computes, or neither stores anything.
  by_cases hrestamps : module.Restamps strategy
  · obtain ⟨hnumber, hcompute⟩ := restamp_consistent hrestamps hstart hroom
    rw [houtput] at hnumber hcompute
    refine restamp_eq_self ?_ ?_ strategy
    · exact hnumber.trans (congrArg UInt32.toNat hcompute.symm)
    · rw [← houtput, size_restamp]
      exact hroom
  · rw [restamp_of_not strategy hrestamps] at houtput
    apply restamp_of_not
    rintro ⟨hmanaged, hchecksum⟩
    apply hrestamps
    refine ⟨hmanaged, fun hzero => hchecksum ?_⟩
    have hfield : output.number module.image.checksumOffset 4 =
        module.image.data.number module.image.checksumOffset 4 := by
      rw [← houtput]
      apply Bytes.number_congr
      intro i hlow hhigh
      exact loaded.getD_revised_of_not_word words (hseparate.checksum i hlow hhigh).2
    rw [← hzero, opened.checksum_eq_number, ← hfield]
    rfl

/-- A second write puts the same bytes down and finds no row to change. -/
theorem rendering_again [Container.LawfulReader] (loaded : Loaded module.image module)
    (opened : Image.Opened module.image.data module.image)
    (hseparate : module.Separate loaded.tables)
    (hrows : loaded.tables.rowCount .typeDef ≤ 0xFFFFFF ∧
      loaded.tables.rowCount .methodDef ≤ 0xFFFFFF ∧ loaded.tables.rowCount .field ≤ 0xFFFFFF)
    (hstart : module.image.start % 2 = 0) (strategy : Strategy) (words : AttributeWords)
    {output : Bytes} (houtput : module.restamp strategy (loaded.revised words) = output) :
    ∃ (again : Loaded (module.image.withData output) (module.reloaded output words))
      (checksum : Option UInt32), again.rendering strategy words = ⟨output, 0, checksum⟩ := by
  obtain ⟨again, htypes, hmethods, hfields⟩ := loaded.reread hseparate hrows strategy words
  have hedits := again.edits_again loaded htypes hmethods hfields
  have hrevised : again.revised words = module.restamp strategy (loaded.revised words) := by
    rw [revised, hedits]
    rfl
  subst houtput
  refine ⟨again, (again.rendering strategy words).checksum, ?_⟩
  rw [rendering, hrevised, hedits, loaded.restamp_again opened hseparate hstart strategy words rfl]
  rfl

end Loaded

/-- A module that was made public and written is loaded again as it was. The
loaded graph has the same slots with the same declarations and the flags that
these were given, so all of it is public and a second pass counts nothing. -/
theorem published_reloads [Container.LawfulReader] {tables : TablesStream} {journal after before unveiled log written : Journal}
    {parallel : Bool} {published : Module} {tally : Tally} {strategy? : Option Strategy}
    {target : Path} {tag : String} {host host' : Host} {report : Report}
    (hload : Module.ofData data journal = .ok module after) (htables : module.tables = .ok tables)
    (hrows : tables.rowCount .typeDef ≤ 0xFFFFFF ∧ tables.rowCount .methodDef ≤ 0xFFFFFF ∧
      tables.rowCount .field ≤ 0xFFFFFF)
    (hseparate : module.Separate tables)
    (hunveil : module.unveil parallel before = .ok (published, tally) unveiled)
    (hwrite : ((write (m := Hosted) published target strategy? tag).run log).run host =
      ((.ok report, written), host')) :
    ∃ output reloaded, host'.store.read? target = some output ∧
      (∀ opening, ∃ opened, Module.ofData output opening = .ok reloaded opened) ∧
      reloaded = { module with
        image := module.image.withData output
        types := published.types } ∧
      reloaded.types.Reflags module.types ∧ reloaded.types.IsPublic ∧
      ∀ parallel opening, ∃ closing,
        reloaded.unveil parallel opening = .ok (reloaded, .zero) closing := by
  obtain ⟨⟨loaded⟩, ⟨opened⟩, rfl⟩ := loaded_of_ofData hload
  obtain rfl := Except.ok.inj (loaded.tables_eq.symm.trans htables)
  obtain rfl := eq_published hunveil
  obtain ⟨hread, -⟩ := loaded.outcome_of_write opened module.published.types hwrite
  have hreload := loaded.ofData_restamp opened hseparate hrows
    (strategy?.getD (.forPayload module.payload)) (.ofForest module.published.types)
  rw [loaded.reloaded_eq hrows] at hreload
  exact ⟨_, _, hread, hreload, rfl, module.types.reflags_unveil, module.types.isPublic_unveil,
    unveil_again rfl⟩

open Framing in
/-- A module with types in types, made public and written, is loaded again with everything
public. -/
theorem published_reloads_nested :
    ∃ after published tally unveiled report log host' output reloaded,
      Module.ofData nested #[] = .ok nestedModule after ∧
      nestedModule.unveil false #[] = .ok (published, tally) unveiled ∧
      ((write (m := Hosted) published ⟨['o', 'u', 't']⟩ none "0").run #[]).run
        (Host.sound Store.empty) = ((.ok report, log), host') ∧
      host'.store.read? ⟨['o', 'u', 't']⟩ = some output ∧
      (∀ opening, ∃ opened, Module.ofData output opening = .ok reloaded opened) ∧
      reloaded.types.Reflags nestedModule.types ∧ reloaded.types.IsPublic := by
  obtain ⟨tables, after, tally, unveiled, report, log, host', hload, htables, hunveil, hwrite⟩ :=
    nested_sound.written
  obtain ⟨output, reloaded, hread, hreload, -, hreflags, hpublic, -⟩ :=
    published_reloads hload htables (nested_sound.rowCounts htables) (Sample.separate nested_laid htables) hunveil hwrite
  exact ⟨after, _, tally, unveiled, report, log, host', output, reloaded, hload, hunveil, hwrite,
    hread, hreload, hreflags, hpublic⟩

/-- A second run changes nothing in the file. Where the file header starts at an
even offset, a module that was made public, written, loaded again and made public
again is written as the same bytes, with no row reported as changed and no
signature as invalidated. -/
theorem second_run_changes_nothing [Container.LawfulReader] {tables : TablesStream}
    {journal after before unveiled log written : Journal} {parallel : Bool} {published : Module}
    {tally : Tally} {strategy? : Option Strategy} {target : Path} {tag : String}
    {host host' : Host} {report : Report}
    (hload : Module.ofData data journal = .ok module after) (htables : module.tables = .ok tables)
    (hrows : tables.rowCount .typeDef ≤ 0xFFFFFF ∧ tables.rowCount .methodDef ≤ 0xFFFFFF ∧
      tables.rowCount .field ≤ 0xFFFFFF)
    (hseparate : module.Separate tables) (hstart : module.image.start % 2 = 0)
    (hunveil : module.unveil parallel before = .ok (published, tally) unveiled)
    (hwrite : ((write (m := Hosted) published target strategy? tag).run log).run host =
      ((.ok report, written), host')) :
    ∃ output reloaded, host'.store.read? target = some output ∧
      (∀ opening, ∃ opened, Module.ofData output opening = .ok reloaded opened) ∧
      (∀ parallel opening, ∃ closing,
        reloaded.unveil parallel opening = .ok (reloaded, .zero) closing) ∧
      (∃ checksum, reloaded.Writes strategy? ⟨output, 0, checksum⟩) ∧
      ∀ (target : Path) (tag : String) (log written : Journal) (host host' : Host) (report : Report),
        ((write (m := Hosted) reloaded target strategy? tag).run log).run host =
          ((.ok report, written), host') →
        report.changed = 0 ∧ .strongName ∉ report.warnings ∧ .authenticode ∉ report.warnings ∧
          host'.store.read? target = some output := by
  obtain ⟨⟨loaded⟩, ⟨opened⟩, rfl⟩ := loaded_of_ofData hload
  obtain rfl := Except.ok.inj (loaded.tables_eq.symm.trans htables)
  obtain rfl := eq_published hunveil
  obtain ⟨hread, -⟩ := loaded.outcome_of_write opened module.published.types hwrite
  generalize hstrategy : strategy?.getD (.forPayload module.payload) = strategy at hread
  generalize houtput : (loaded.rendering strategy (.ofForest module.published.types)).data =
    output at hread
  have hreopen := loaded.reopen opened hseparate strategy (.ofForest module.published.types)
  have hreload := loaded.ofData_restamp opened hseparate hrows strategy
    (.ofForest module.published.types)
  rw [show module.restamp strategy _ = output from houtput] at hreopen hreload
  obtain ⟨reopened⟩ := Image.ofData_eq_ok.mp hreopen
  obtain ⟨again, checksum, hrendered⟩ :=
    loaded.rendering_again opened hseparate hrows hstart strategy _ houtput
  have htypes : (module.reloaded output (.ofForest module.published.types)).types =
      module.types.map TypeDecl.unveil := by
    rw [loaded.reloaded_eq hrows]
    rfl
  have hrendering : again.rendering strategy
      (.ofForest (module.reloaded output (.ofForest module.published.types)).types) =
        ⟨output, 0, checksum⟩ := by
    rw [htypes]
    exact hrendered
  refine ⟨output, _, hread, hreload, unveil_again htypes, ⟨checksum, ?_⟩, ?_⟩
  · have hwrites := again.writes reopened
      (module.reloaded output (.ofForest module.published.types)).types hstrategy
    rw [hrendering] at hwrites
    exact hwrites
  · intro target tag log written host host' report hwrite
    obtain ⟨hread, rfl⟩ := again.outcome_of_write reopened
      (module.reloaded output (.ofForest module.published.types)).types hwrite
    have hsame : strategy?.getD (.forPayload
        (module.reloaded output (.ofForest module.published.types)).payload) = strategy := hstrategy
    rw [hsame, hrendering] at hread ⊢
    refine ⟨rfl, ?_, ?_, hread⟩
    · exact fun hmem => (warnings_zero hmem).1 rfl
    · exact fun hmem => (warnings_zero hmem).2 rfl

open Framing in
/-- A module with types in types is written the second time as it was the first time. -/
theorem second_run_changes_nothing_nested :
    ∃ after published tally unveiled report log host' output reloaded report' log' host'',
      Module.ofData nested #[] = .ok nestedModule after ∧
      nestedModule.unveil false #[] = .ok (published, tally) unveiled ∧
      ((write (m := Hosted) published ⟨['o', 'u', 't']⟩ none "0").run #[]).run
        (Host.sound Store.empty) = ((.ok report, log), host') ∧
      host'.store.read? ⟨['o', 'u', 't']⟩ = some output ∧
      (∀ opening, ∃ opened, Module.ofData output opening = .ok reloaded opened) ∧
      ((write (m := Hosted) reloaded ⟨['o', 'u', 't']⟩ none "0").run #[]).run
        (Host.sound Store.empty) = ((.ok report', log'), host'') ∧
      report'.changed = 0 ∧ host''.store.read? ⟨['o', 'u', 't']⟩ = some output := by
  obtain ⟨tables, after, tally, unveiled, report, log, host', hload, htables, hunveil, hwrite⟩ :=
    nested_sound.written
  obtain ⟨output, reloaded, hread, hreload, -, ⟨checksum, hwrites⟩, hsecond⟩ :=
    second_run_changes_nothing hload htables (nested_sound.rowCounts htables) (Sample.separate nested_laid htables) rfl
      hunveil hwrite
  obtain ⟨host'', log', -, hwriteAgain⟩ := hwrites.in_empty_store #[]
  obtain ⟨hchanged, -, -, hreadAgain⟩ := hsecond _ _ _ _ _ _ _ hwriteAgain
  exact ⟨after, _, tally, unveiled, report, log, host', output, reloaded, _, log', host'', hload,
    hunveil, hwrite, hread, hreload, hwriteAgain, hchanged, hreadAgain⟩

end Module

end Unveil
