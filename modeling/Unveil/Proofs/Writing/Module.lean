import Unveil.Proofs.Declaration.Tally
import Unveil.Proofs.Journal
import Unveil.Proofs.Writing.Draft
import Unveil.Proofs.Writing.Rendering
import Unveil.Writing.Module

namespace Unveil

namespace Session

variable {α β ε : Type} {journal journal' : Journal} {host host' : Host}

theorem run_bind (x : ExceptT ε (StateT Journal Hosted) α)
    (f : α → ExceptT ε (StateT Journal Hosted) β) (journal : Journal) (host : Host) :
    ((x >>= f).run journal).run host =
      match (x.run journal).run host with
      | ((.ok a, between), place) => ((f a).run between).run place
      | ((.error fault, between), place) => ((.error fault, between), place) := by
  simp only [ExceptT.run, StateT.run, bind, ExceptT.bind, ExceptT.mk, StateT.bind]
  rcases x journal host with ⟨⟨_ | a, between⟩, place⟩
  · rfl
  · rfl

theorem bind_eq_ok {x : Session Hosted α} {f : α → Session Hosted β} {b : β} :
    ((x >>= f).run journal).run host = ((.ok b, journal'), host') ↔
      ∃ a between place, (x.run journal).run host = ((.ok a, between), place) ∧
        ((f a).run between).run place = ((.ok b, journal'), host') := by
  rw [run_bind]
  constructor
  · intro h
    split at h
    · rename_i a between place hx
      exact ⟨a, between, place, hx, h⟩
    · cases h
  · rintro ⟨a, between, place, hx, hf⟩
    rw [hx]
    exact hf

theorem logged_eq_ok {step : Logged α} {a : α} :
    ((logged step : Session Hosted α).run journal).run host = ((.ok a, journal'), host') ↔
      step journal = .ok a journal' ∧ host = host' := by
  simp only [logged, ExceptT.run, StateT.run]
  cases step journal with
  | ok value between =>
      constructor
      · intro h
        cases h
        exact ⟨rfl, rfl⟩
      · rintro ⟨h, rfl⟩
        cases h
        rfl
  | error fault between =>
      constructor
      · intro h
        cases h
      · rintro ⟨h, -⟩
        cases h

theorem hosted_eq_ok {step : ExceptT Fault Hosted α} {a : α} :
    ((hosted step : Session Hosted α).run journal).run host = ((.ok a, journal'), host') ↔
      step.run host = (.ok a, host') ∧ journal = journal' := by
  have hrun : ((hosted step : Session Hosted α).run journal).run host =
      (((step.run host).1, journal), (step.run host).2) := rfl
  rw [hrun]
  constructor
  · intro h
    obtain ⟨hpair, hhost⟩ := Prod.mk.inj h
    obtain ⟨hresult, hjournal⟩ := Prod.mk.inj hpair
    exact ⟨Prod.ext hresult hhost, hjournal⟩
  · rintro ⟨h, rfl⟩
    rw [h]

theorem throw_ne_ok {fault : Fault} {a : α} :
    ((throw fault : Session Hosted α).run journal).run host ≠ ((.ok a, journal'), host') :=
  fun h => nomatch congrArg (fun result => result.1.1) h

end Session

namespace Module

variable {data : Bytes} {image : Image} {module : Module}

def published (module : Module) : Module :=
  { module with types := module.types.map TypeDecl.unveil }

theorem unveil_eq (module : Module) (parallel : Bool) (journal : Journal) :
    ∃ after, module.unveil parallel journal =
      .ok (module.published, (module.types.unveil parallel).2) after :=
  ⟨_, rfl⟩

theorem eq_published {parallel : Bool} {published : Module} {tally : Tally}
    {journal after : Journal} (h : module.unveil parallel journal = .ok (published, tally) after) :
    published = module.published := by
  obtain ⟨after', hunveil⟩ := unveil_eq module parallel journal
  cases hunveil.symm.trans h
  rfl

/-- A module that was made public stays as it is when that is done again. -/
theorem unveil_again {forest : Forest} (htypes : module.types = forest.map TypeDecl.unveil)
    (parallel : Bool) (journal : Journal) :
    ∃ after, module.unveil parallel journal = .ok (module, .zero) after := by
  obtain ⟨after, hunveil⟩ := unveil_eq module parallel journal
  have hpublished : module.published = module := by
    cases module
    subst htypes
    simp only [published, forest.unveil_unveil]
  have htally : (module.types.unveil parallel).2 = .zero := by
    rw [htypes]
    exact forest.tally_unveil_again parallel
  rw [hpublished, htally] at hunveil
  exact ⟨after, hunveil⟩

/-- Where no row was changed, no signature is spoken of. -/
theorem warnings_zero {warning : Warning} (h : warning ∈ module.warnings 0) :
    warning ≠ .strongName ∧ warning ≠ .authenticode := by
  simp only [warnings, ne_eq, not_true_eq_false, false_and, ↓reduceIte, List.append_nil] at h
  split at h
  · cases h
  · obtain rfl := List.mem_singleton.mp h
    exact ⟨nofun, nofun⟩

def reportOf (module : Module) (target : Path) (strategy : Strategy) (rendering : Rendering) :
    Report where
  path := target
  strategy
  changed := rendering.changed
  checksum := rendering.checksum
  warnings := module.warnings rendering.changed

/-- A write comes to an end exactly if the module can be rendered and its draft
can be made and finished. -/
theorem write_eq_ok {target : Path} {strategy? : Option Strategy} {tag : String}
    {journal : Journal} {host host' : Host} {report : Report} :
    (∃ journal', ((write (m := Hosted) module target strategy? tag).run journal).run host =
        ((.ok report, journal'), host')) ↔
      ∃ tables draft between rendering, module.tables = .ok tables ∧
        (Draft.start (m := Hosted) target module.image.data.size tag).run host =
          (.ok draft, between) ∧
        module.render (strategy?.getD (.forPayload module.payload)) tables
          (.ofForest module.types) = .ok rendering ∧
        (draft.finish (m := Hosted) rendering.data).run between = (.ok (), host') ∧
        module.reportOf target (strategy?.getD (.forPayload module.payload)) rendering =
          report := by
  unfold write
  simp only [Session.bind_eq_ok, Session.logged_eq_ok, Session.hosted_eq_ok, Logged.lift_eq_ok]
  constructor
  · rintro ⟨_, tables, _, _, ⟨⟨htables, rfl⟩, rfl⟩, draft, _, between, ⟨hstart, rfl⟩, _, _,
      _, ⟨-, rfl⟩, hrest⟩
    cases hrender : module.render (strategy?.getD (.forPayload module.payload)) tables
        (.ofForest module.types) with
    | error fault =>
        simp only [hrender, Session.bind_eq_ok] at hrest
        obtain ⟨_, _, _, -, hthrow⟩ := hrest
        exact absurd hthrow Session.throw_ne_ok
    | ok rendering =>
        simp only [hrender, Session.bind_eq_ok, Session.logged_eq_ok, Session.hosted_eq_ok] at hrest
        obtain ⟨_, _, _, ⟨-, rfl⟩, _, _, _, ⟨hfinish, -⟩, _, _, _, ⟨-, rfl⟩, hreport⟩ := hrest
        cases hreport
        exact ⟨tables, draft, between, rendering, htables, hstart, hrender, hfinish, rfl⟩
  · rintro ⟨tables, draft, between, rendering, htables, hstart, hrender, hfinish, rfl⟩
    obtain ⟨journal₁, hwriting⟩ := (Logged.yields_debug .writing ("Writing " ++ module.name ++
      " to " ++ target.text ++ " (" ++ (strategy?.getD (.forPayload module.payload)).text ++
        ")")).ok_iff.mpr rfl
    have hwarned : Logged.Yields ((module.warnings rendering.changed).forM fun warning =>
        Logged.warn .writing (module.name ++ ": " ++ Warning.text warning)) (.ok ()) :=
      Logged.yields_forM fun warning _ => Logged.yields_warn .writing _
    obtain ⟨journal₂, hwarnings⟩ := hwarned.ok_iff.mpr rfl
    obtain ⟨journal₃, hwrote⟩ := (Logged.yields_debug .writing ("Wrote " ++
      toString rendering.changed ++ " changed rows to " ++ target.text)).ok_iff.mpr rfl
    refine ⟨journal₃, tables, journal, host, ⟨⟨htables, rfl⟩, rfl⟩, draft, journal, between,
      ⟨hstart, rfl⟩, (), journal₁, between, ⟨hwriting, rfl⟩, ?_⟩
    simp only [hrender, Session.bind_eq_ok, Session.logged_eq_ok, Session.hosted_eq_ok]
    exact ⟨(), journal₂, between, ⟨hwarnings, rfl⟩, (), journal₂, host', ⟨hfinish, rfl⟩, (),
      journal₃, host', ⟨hwrote, rfl⟩, rfl⟩

/-- What a written module leaves in its target. -/
theorem read?_of_write {target : Path} {tag : String} {host between host' : Host} {draft : Draft}
    {size : Nat} {output : Bytes}
    (hstart : (Draft.start (m := Hosted) target size tag).run host = (.ok draft, between))
    (hfinish : (draft.finish (m := Hosted) output).run between = (.ok (), host')) :
    host'.store.read? target = some output :=
  Draft.target_of_start hstart ▸ Draft.read?_of_finish hfinish

/-- Unless the file system fails, a write puts what is rendered into the target
and reports it. -/
def Writes (module : Module) (strategy? : Option Strategy) (rendering : Rendering) : Prop :=
  ∀ target tag host between host' draft,
    (Draft.start (m := Hosted) target module.image.data.size tag).run host =
      (.ok draft, between) →
    (draft.finish (m := Hosted) rendering.data).run between = (.ok (), host') →
    host'.store.read? target = some rendering.data ∧
    ∀ journal, ∃ journal',
      ((write (m := Hosted) module target strategy? tag).run journal).run host =
        ((.ok (module.reportOf target (strategy?.getD (.forPayload module.payload)) rendering),
          journal'), host')

theorem Writes.in_empty_store {strategy? : Option Strategy} {rendering : Rendering}
    (h : module.Writes strategy? rendering) (journal : Journal) :
    ∃ host' journal', host'.store.read? ⟨['o', 'u', 't']⟩ = some rendering.data ∧
      ((write (m := Hosted) module ⟨['o', 'u', 't']⟩ strategy? "0").run journal).run
          (Host.sound Store.empty) =
        ((.ok (module.reportOf ⟨['o', 'u', 't']⟩
          (strategy?.getD (.forPayload module.payload)) rendering), journal'), host') := by
  obtain ⟨draft, between, hstart, hfinish⟩ :=
    Draft.exists_draft_of_empty module.image.data.size
  obtain ⟨host', hfinish⟩ := hfinish rendering.data
  obtain ⟨hread, hwrite⟩ := h _ _ _ _ _ _ hstart hfinish
  obtain ⟨journal', hwrite⟩ := hwrite journal
  exact ⟨host', journal', hread, hwrite⟩

def Loaded.rendering (loaded : Loaded image module) (strategy : Strategy)
    (words : AttributeWords) : Rendering where
  data := module.restamp strategy (loaded.revised words)
  changed := (loaded.worded.edits words).length
  checksum := module.stamp? strategy (loaded.revised words)

/-- What a write of a loaded module with other declarations puts into the
target. -/
theorem Loaded.writes [Container.LawfulReader] (loaded : Loaded image module) (opened : Image.Opened data image)
    (forest : Forest) {strategy? : Option Strategy} {strategy : Strategy}
    (hstrategy : strategy?.getD (.forPayload module.payload) = strategy) :
    Writes { module with types := forest } strategy?
      (loaded.rendering strategy (.ofForest forest)) := by
  subst hstrategy
  intro target tag host between host' draft hstart hfinish
  have htables : ({ module with types := forest } : Module).tables = .ok loaded.tables :=
    loaded.tables_eq
  have hrender : ({ module with types := forest } : Module).render
      (strategy?.getD (.forPayload module.payload)) loaded.tables (.ofForest forest) =
        .ok (loaded.rendering (strategy?.getD (.forPayload module.payload)) (.ofForest forest)) :=
    loaded.render_eq opened _ _
  exact ⟨read?_of_write hstart hfinish, fun journal => write_eq_ok.mpr
    ⟨loaded.tables, draft, between, _, htables, hstart, hrender, hfinish, rfl⟩⟩

/-- What a write that came to an end reports, and what it left in the target. -/
theorem Loaded.outcome_of_write [Container.LawfulReader] (loaded : Loaded image module) (opened : Image.Opened data image)
    (forest : Forest) {strategy? : Option Strategy} {target : Path} {tag : String}
    {before log : Journal} {host host' : Host} {report : Report}
    (hwrite : ((write (m := Hosted) { module with types := forest } target strategy? tag).run
      before).run host = ((.ok report, log), host')) :
    host'.store.read? target = some (loaded.rendering
        (strategy?.getD (.forPayload module.payload)) (.ofForest forest)).data ∧
      report = module.reportOf target (strategy?.getD (.forPayload module.payload))
        (loaded.rendering (strategy?.getD (.forPayload module.payload)) (.ofForest forest)) := by
  obtain ⟨tables, draft, between, rendering, htables, hdraft, hrender, hfinish, rfl⟩ :=
    write_eq_ok.mp ⟨log, hwrite⟩
  obtain rfl : tables = loaded.tables := Except.ok.inj (htables.symm.trans loaded.tables_eq)
  obtain rfl : rendering = loaded.rendering (strategy?.getD (.forPayload module.payload))
      (.ofForest forest) := Except.ok.inj (hrender.symm.trans (loaded.render_eq opened _ _))
  exact ⟨read?_of_write hdraft hfinish, rfl⟩

/-- The bytes written for a module whose declarations were made public: the low
bits of every word behind a declaration are new, and apart from the checksum
everything else is as it was. -/
structure IsPublicImage (module : Module) (tables : TablesStream) (strategy : Strategy)
    (data output : Bytes) : Prop where
  size_eq : output.size = data.size
  exposed : ∀ place v, tables.Exposes module.Publishes place v →
    ¬ module.InChecksum strategy (module.place.tablesOffset + place) →
    output.getD (module.place.tablesOffset + place) 0 =
      (data.getD (module.place.tablesOffset + place) 0 &&& ~~~7) ||| v
  hidden : ∀ i, (∀ place v, tables.Exposes module.Publishes place v →
      i ≠ module.place.tablesOffset + place) →
    ¬ module.InChecksum strategy i → output.getD i 0 = data.getD i 0

theorem Loaded.isPublicImage (loaded : Loaded image module)
    (hrows : loaded.tables.rowCount .typeDef ≤ 0xFFFFFF ∧
      loaded.tables.rowCount .methodDef ≤ 0xFFFFFF ∧ loaded.tables.rowCount .field ≤ 0xFFFFFF)
    (strategy : Strategy) :
    module.IsPublicImage loaded.tables strategy module.image.data
      (module.restamp strategy (loaded.revised (.ofForest module.published.types))) where
  size_eq := by rw [size_restamp, loaded.size_revised]
  exposed place v hexposes hchecksum := by
    rw [getD_restamp hchecksum]
    exact loaded.getD_revised_of_exposes (loaded.widened hrows) hexposes
  hidden i hhidden hchecksum := by
    rw [getD_restamp hchecksum]
    exact loaded.getD_revised_of_not_exposes (loaded.widened hrows) hhidden

/-- Only visibility bits change. A module that was made public can be written
unless the file system fails, and the target then holds its image with new low
bits in the words behind its declarations; behind every declaration there is
such a word. -/
theorem write_published [Container.LawfulReader] {journal after : Journal}
    (hload : Module.ofData data journal = .ok module after)
    (hrows : ∀ tables, module.tables = .ok tables → tables.rowCount .typeDef ≤ 0xFFFFFF ∧
      tables.rowCount .methodDef ≤ 0xFFFFFF ∧ tables.rowCount .field ≤ 0xFFFFFF)
    (parallel : Bool) (strategy? : Option Strategy) (before : Journal) :
    ∃ tables published tally unveiled rendering, module.tables = .ok tables ∧
      module.unveil parallel before = .ok (published, tally) unveiled ∧
      (∀ table rid v, module.Publishes table rid v →
        ∃ place, tables.rowPlace? table rid = some place) ∧
      module.IsPublicImage tables (strategy?.getD (.forPayload module.payload)) data
        rendering.data ∧
      published.Writes strategy? rendering := by
  obtain ⟨image, himage, ⟨loaded⟩⟩ := ofData_iff_loaded.mp ⟨after, hload⟩
  obtain ⟨opened⟩ := Image.ofData_eq_ok.mp himage
  obtain ⟨unveiled, hunveil⟩ := unveil_eq module parallel before
  have hdata : module.image.data = data := by rw [loaded.image_eq, opened.data_eq]
  have hsmall := hrows _ loaded.tables_eq
  exact ⟨loaded.tables, _, _, unveiled, _, loaded.tables_eq, hunveil,
    fun _ _ _ => loaded.rowPlace_of_publishes hsmall,
    hdata ▸ loaded.isPublicImage hsmall _, loaded.writes opened _ rfl⟩

open Framing in
/-- The smallest module is written with a public type, whose word stands at the
start of its row. -/
theorem write_published_plain :
    ∃ after published tally unveiled rendering, Module.ofData plain #[] = .ok plainModule after ∧
      plainModule.unveil false #[] = .ok (published, tally) unveiled ∧
      published.Writes (some .managed) rendering ∧
      rendering.data.size = plain.size ∧ rendering.data.getD 523 0 = 1 := by
  obtain ⟨after, hload⟩ := Module.ofData_eq_ok.mpr plain_loads
  obtain ⟨tables, published, tally, unveiled, rendering, htables, hunveil, -, himage, hwrites⟩ :=
    write_published hload (fun _ => plain_sound.rowCounts) false (some .managed) #[]
  have hpublishes : plainModule.Publishes .typeDef 1 1 :=
    publishes_typeDef.mpr ⟨_, List.mem_cons_self .., rfl, rfl⟩
  have hplace : tables.rowPlace? .typeDef 1 = some 50 := by
    rw [TablesStream.rowPlace?, TablesStream.extent?, plain_sound.extents htables]
    rfl
  have hbyte := himage.exposed 50 1 (.type hpublishes hplace) (by
    rintro ⟨-, -, hlast⟩
    revert hlast
    decide)
  refine ⟨after, published, tally, unveiled, rendering, hload, hunveil, hwrites, himage.size_eq, ?_⟩
  have hsource : plain.getD 523 0 = 0 := by decide +kernel
  exact hbyte.trans (by rw [show plainModule.place.tablesOffset + 50 = 523 from rfl, hsource]; rfl)

end Module

namespace Framing.Sample.Sound

/-- A sample is made public and written into an empty store. -/
theorem written {sample : Sample} (h : sample.Sound) :
    ∃ tables after tally unveiled report log host',
      Module.ofData (file sample.stream) #[] = .ok sample.module after ∧
      sample.module.tables = .ok tables ∧
      sample.module.unveil false #[] = .ok (sample.module.published, tally) unveiled ∧
      ((Module.write (m := Hosted) sample.module.published ⟨['o', 'u', 't']⟩ none "0").run #[]).run
        (Host.sound Store.empty) = ((.ok report, log), host') := by
  obtain ⟨after, hload⟩ := Module.ofData_eq_ok.mpr h.loads
  obtain ⟨⟨loaded⟩, ⟨opened⟩, -⟩ := Module.loaded_of_ofData hload
  obtain ⟨unveiled, hunveil⟩ := Module.unveil_eq sample.module false #[]
  have hwrites : sample.module.published.Writes none
      (loaded.rendering .managed (.ofForest sample.module.published.types)) :=
    loaded.writes opened _ rfl
  obtain ⟨host', log, -, hwrite⟩ := hwrites.in_empty_store #[]
  exact ⟨_, after, _, unveiled, _, log, host', hload, loaded.tables_eq, hunveil, hwrite⟩

end Framing.Sample.Sound

end Unveil
