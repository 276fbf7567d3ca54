import Unveil.Proofs.Store.Files
import Unveil.Proofs.Store.Walks
import Unveil.Proofs.Writing.Module

/-!
All or nothing. Whatever steps of a write are refused, it ends in one of two
ways: it fails, and every file is as it was, or it comes to an end, and the
target is the only file that changed. The invariant in between is that of a
draft: one file more than before, at a place that had none; every way out of a
write either gives that file the target's name or removes it.
-/

namespace Unveil

namespace Host

theorem attempt_cases {α : Type} (act : Store → α × Store) (failed : α) (host : Host) :
    ((attempt act failed host).1 = failed ∧ (attempt act failed host).2.store = host.store) ∨
      ((attempt act failed host).1 = (act host.store).1 ∧
        (attempt act failed host).2.store = (act host.store).2) := by
  unfold attempt
  split
  · exact Or.inl ⟨rfl, rfl⟩
  · exact Or.inr ⟨rfl, rfl⟩

end Host

namespace Hosted

variable {α β ε : Type}

/-- The step leaves all files as they are. -/
def KeepsFiles (step : Hosted α) : Prop :=
  ∀ host, Store.SameFiles host.store (step host).2.store

theorem keepsFiles_pure (value : α) : KeepsFiles (pure value) := fun _ => .refl _

theorem keepsFiles_see (look : Store → α) : KeepsFiles (Host.see look) := fun _ => .refl _

theorem KeepsFiles.bind {step : Hosted α} {next : α → Hosted β} (h : KeepsFiles step)
    (hnext : ∀ value, KeepsFiles (next value)) : KeepsFiles (step >>= next) :=
  fun host => (h host).trans (hnext _ _)

theorem keepsFiles_isDirectory (path : Path) :
    KeepsFiles (Volume.isDirectory (m := Hosted) path) :=
  (keepsFiles_see _).bind fun _ => keepsFiles_pure _

theorem keepsFiles_makeDirectory (path : Path) :
    KeepsFiles (Volume.makeDirectory (m := Hosted) path) := by
  intro host
  rcases Host.attempt_cases (·.makeDirectory path) .refused host with ⟨-, hsame⟩ | ⟨-, hmade⟩
  · exact (congrArg (Store.SameFiles host.store) hsame).mpr (.refl _)
  · exact (congrArg (Store.SameFiles host.store) hmade).mpr
      (host.store.sameFiles_makeDirectory path)

/-- Making directories, as far as that goes, leaves the files alone. -/
theorem keepsFiles_makeDirectories (paths : List Path) :
    KeepsFiles (Volume.makeDirectories (m := Hosted) paths) := by
  induction paths with
  | nil => exact keepsFiles_pure true
  | cons path above ih =>
      refine (keepsFiles_makeDirectory path).bind fun making => ?_
      cases making with
      | made => exact keepsFiles_pure true
      | taken => exact keepsFiles_isDirectory path
      | refused => exact keepsFiles_pure false
      | missing =>
          refine ih.bind fun made => ?_
          cases made with
          | false => exact keepsFiles_pure false
          | true =>
              refine (keepsFiles_makeDirectory path).bind fun making => ?_
              cases making with
              | made => exact keepsFiles_pure true
              | taken => exact keepsFiles_isDirectory path
              | missing => exact keepsFiles_pure false
              | refused => exact keepsFiles_pure false

/-- What holds of the host after a step: `good` with its result if it came to
an end, and `bad` if it failed. -/
def Leaves (step : ExceptT ε Hosted α) (host : Host) (good : α → Host → Prop)
    (bad : Host → Prop) : Prop :=
  match step.run host with
  | (.ok value, after) => good value after
  | (.error _, after) => bad after

variable {step : ExceptT ε Hosted α} {next : α → ExceptT ε Hosted β} {host : Host}
  {middle : α → Host → Prop} {good : β → Host → Prop} {bad : Host → Prop}

theorem Leaves.bind (h : Leaves step host middle bad)
    (hnext : ∀ value between, middle value between → Leaves (next value) between good bad) :
    Leaves (step >>= next) host good bad := by
  unfold Leaves at h ⊢
  rw [run_bind]
  rcases hstep : step.run host with ⟨_ | value, between⟩
  · rw [hstep] at h
    exact h
  · rw [hstep] at h
    exact hnext value between h

theorem leaves_lift {step : Hosted β} (h : good (step host).1 (step host).2) :
    Leaves (ExceptT.lift step : ExceptT ε Hosted β) host good bad := h

theorem leaves_lift_bind {step : Hosted α} (h : Leaves (next (step host).1) (step host).2 good bad) :
    Leaves ((ExceptT.lift step : ExceptT ε Hosted α) >>= next) host good bad := h

theorem leaves_throw {fault : ε} (h : bad host) :
    Leaves (throw fault : ExceptT ε Hosted β) host good bad := h

theorem leaves_throw_bind {fault : ε} (h : bad host) :
    Leaves ((throw fault : ExceptT ε Hosted α) >>= next) host good bad := h

end Hosted

namespace Draft

open Hosted

variable {store : Store} {host : Host} {place : Location} {draft : Draft} {path : Path}

/-- When the draft for a target is made, no file has its name. The directories
on the way to it have been made by then, as far as that went. -/
def Fresh (target : Path) (tag : String) (host : Host) : Prop :=
  ∀ name, target.fileName? = some name →
    (Volume.makeDirectories (m := Hosted) target.directory.ancestors host).2.store.read?
      (target.directory.join (nameFor name tag)) = none

/-- Where no file has its name, a draft is made or nothing happens. -/
theorem drafted_create (h : store.SameFiles host.store) (hfree : host.store.read? path = none) :
    ((Volume.create (m := Hosted) path host).1 = false →
      store.SameFiles (Volume.create (m := Hosted) path host).2.store) ∧
    ((Volume.create (m := Hosted) path host).1 = true →
      ∃ place, store.Drafted (Volume.create (m := Hosted) path host).2.store path place) := by
  rcases Host.attempt_cases (·.fill path #[]) false host with ⟨hfailed, hsame⟩ | ⟨hresult, hstore⟩
  · simp only [Volume.create, hfailed, hsame]
    exact ⟨fun _ => h, nofun⟩
  · simp only [Volume.create, hresult, hstore]
    constructor
    · intro hfailed
      rw [Store.fill_of_false hfailed]
      exact h
    · intro hmade
      exact Store.Drafted.of_fill h hfree (Prod.ext hmade rfl)

/-- A draft that is filled, or is refused to be, stays a draft. -/
theorem drafted_attempt_fill (h : store.Drafted host.store path place) (data : Bytes) :
    store.Drafted (Host.attempt (·.fill path data) false host).2.store path place ∧
      ((Host.attempt (·.fill path data) false host).1 = true →
        (Host.attempt (·.fill path data) false host).2.store.node? place = some (.file data)) := by
  rcases Host.attempt_cases (·.fill path data) false host with ⟨hfailed, hsame⟩ | ⟨-, hfilled⟩
  · rw [hsame, hfailed]
    exact ⟨h, nofun⟩
  · rw [hfilled, h.fill_eq]
    exact ⟨h.fill data, fun _ => Store.node?_put_self h.ne_root _⟩

theorem drafted_map (h : store.Drafted host.store path place) :
    store.Drafted (Volume.map (m := Hosted) path host).2.store path place := by
  rcases Host.attempt_cases (fun store => ((store.read? path).isSome, store)) false host with
    ⟨-, hsame⟩ | ⟨-, hsame⟩
  · exact (congrArg (store.Drafted · path place) hsame).mpr h
  · exact (congrArg (store.Drafted · path place) hsame).mpr h

/-- A filled draft stays one, or has the name of the target in the end. -/
theorem drafted_rename {data : Bytes} (h : store.Drafted host.store path place)
    (hdata : host.store.node? place = some (.file data)) (target : Path) :
    ((Volume.rename (m := Hosted) path target host).1 = false →
      store.Drafted (Volume.rename (m := Hosted) path target host).2.store path place) ∧
    ((Volume.rename (m := Hosted) path target host).1 = true →
      (∃ new, store.Replaced (Volume.rename (m := Hosted) path target host).2.store target data
        new) ∧
      (Volume.rename (m := Hosted) path target host).2.store.walk path = .ok place ∧
      ∃ last, target.pieces.getLast? = some last ∧ Path.isIdle last = false ∧ last ≠ ['.', '.']) := by
  rcases Host.attempt_cases (·.rename path target) false host with
    ⟨hfailed, hsame⟩ | ⟨hresult, hstore⟩
  · simp only [Volume.rename, hfailed, hsame]
    exact ⟨fun _ => h, nofun⟩
  · simp only [Volume.rename, hresult, hstore]
    rcases host.store.rename_cases path target with hkept | ⟨hrenamed, hlast⟩
    · rw [hkept]
      exact ⟨fun _ => h, nofun⟩
    · obtain ⟨new, hreplaced, hkeeps⟩ := h.rename hdata (Prod.ext hrenamed rfl)
      rw [hrenamed]
      exact ⟨nofun, fun _ => ⟨⟨new, hreplaced⟩, hkeeps.walk h.walk_eq, hlast⟩⟩

theorem leaves_discard (h : store.Drafted host.store draft.path place) {bad : Host → Prop} :
    Leaves (draft.discard (m := Hosted)) host (fun _ after => store.SameFiles after.store) bad :=
  leaves_lift h.remove

/-- A draft that fails is gone. -/
theorem leaves_fail {α : Type} (h : store.Drafted host.store draft.path place)
    (obstacle : Obstacle) (good : α → Host → Prop) :
    Leaves (draft.fail (m := Hosted) obstacle) host good fun after =>
      store.SameFiles after.store :=
  (leaves_discard h).bind fun _ _ hsame => leaves_throw hsame

theorem leaves_fail_bind {α β : Type} (h : store.Drafted host.store draft.path place)
    (obstacle : Obstacle) (next : α → ExceptT Fault Hosted β) (good : β → Host → Prop) :
    Leaves (draft.fail (m := Hosted) obstacle >>= next) host good fun after =>
      store.SameFiles after.store :=
  (leaves_fail h obstacle fun _ _ => False).bind fun _ _ hfalse => hfalse.elim

/-- Making a draft leaves one, or every file as it was. -/
theorem leaves_start {target : Path} {tag : String} (size : Nat) (hfresh : Fresh target tag host) :
    Leaves (start (m := Hosted) target size tag) host
      (fun draft after => draft.target = target ∧
        (∃ name, target.fileName? = some name ∧
          draft.path = target.directory.join (nameFor name tag)) ∧
        ∃ place, host.store.Drafted after.store draft.path place)
      fun after => host.store.SameFiles after.store := by
  unfold start
  split
  · exact leaves_throw (.refl _)
  · rename_i name hname
    have hmade := keepsFiles_makeDirectories target.directory.ancestors host
    refine leaves_lift_bind ?_
    split
    · exact leaves_throw_bind hmade
    refine leaves_lift_bind ?_
    have hcreated := drafted_create hmade (hfresh name hname)
    split
    · rename_i hfailed
      rw [Bool.not_eq_true'] at hfailed
      exact leaves_throw_bind (hcreated.1 hfailed)
    rename_i hmade
    rw [Bool.not_eq_true', Bool.not_eq_false] at hmade
    obtain ⟨place, hdraft⟩ := hcreated.2 hmade
    refine leaves_lift_bind ?_
    have hsized := (drafted_attempt_fill hdraft (.replicate size 0)).1
    split
    · exact leaves_fail_bind hsized _ _ _
    refine leaves_lift_bind ?_
    have hmapped := drafted_map hsized
    split
    · exact leaves_fail_bind hmapped _ _ _
    exact ⟨rfl, ⟨name, hname, rfl⟩, place, hmapped⟩

/-- Finishing a draft puts what it is filled with at the target's place and
leaves no draft, or leaves every file as it was. -/
theorem leaves_finish (h : store.Drafted host.store draft.path place) (data : Bytes) :
    Leaves (draft.finish (m := Hosted) data) host
      (fun _ after => (∃ new, store.Replaced after.store draft.target data new) ∧
        after.store.walk draft.path = .ok place ∧
        ∃ last, draft.target.pieces.getLast? = some last ∧ Path.isIdle last = false ∧
          last ≠ ['.', '.'])
      fun after => store.SameFiles after.store := by
  unfold finish
  refine leaves_lift_bind ?_
  obtain ⟨hfilled, hcontent⟩ := drafted_attempt_fill h data
  split
  · exact leaves_fail_bind hfilled _ _ _
  rename_i hflushed
  rw [Bool.not_eq_true', Bool.not_eq_false] at hflushed
  refine leaves_lift_bind ?_
  have hrenamed := drafted_rename hfilled (hcontent hflushed) draft.target
  split
  · rename_i hfailed
    rw [Bool.not_eq_true'] at hfailed
    exact leaves_fail (hrenamed.1 hfailed) _ _
  rename_i hdone
  rw [Bool.not_eq_true', Bool.not_eq_false] at hdone
  exact hrenamed.2 hdone

theorem length_nameFor (name : List Char) (tag : String) :
    (nameFor name tag).letters.length = name.length + tag.toList.length + 6 := by
  have hsuffix : ".tmp".toList.length = 4 := rfl
  simp only [nameFor, List.length_cons, List.length_append, hsuffix]
  omega

/-- The name of a draft is a name, and not that of its target. -/
theorem nameFor_isName (name : List Char) (tag : String) :
    Path.isIdle (nameFor name tag).letters = false ∧ (nameFor name tag).letters ≠ ['.', '.'] ∧
      (nameFor name tag).letters ≠ name := by
  have hlength := length_nameFor name tag
  refine ⟨?_, ?_, ?_⟩
  · rw [Path.isIdle, Bool.or_eq_false_iff, beq_eq_false_iff_ne, beq_eq_false_iff_ne]
    constructor
    · intro h
      rw [h, List.length_nil] at hlength
      omega
    · intro h
      rw [h, List.length_singleton] at hlength
      omega
  · intro h
    rw [h, List.length_cons, List.length_singleton] at hlength
    omega
  · intro h
    rw [h] at hlength
    omega

/-- No draft is left where its target is. -/
theorem read?_of_replaced {store' : Store} {target : Path} {data : Bytes} {new : Location}
    {name last : List Char} {tag : String} (hreplaced : store.Replaced store' target data new)
    (habsent : store.node? place = none)
    (hwalk : store'.walk (target.directory.join (nameFor name tag)) = .ok place)
    (hlast : target.pieces.getLast? = some last) (hidle : Path.isIdle last = false)
    (hup : last ≠ ['.', '.']) (hname : target.fileName? = some name) (htag : '/' ∉ tag.toList) :
    store'.read? (target.directory.join (nameFor name tag)) = none := by
  obtain rfl := Option.some.inj ((Path.fileName?_of_getLast? hlast hidle hup).symm.trans hname)
  have hletters : '/' ∉ (nameFor last tag).letters := by
    have hown := Path.not_mem_fileName hname
    simp [nameFor, hown, htag]
  obtain ⟨hidle', hup', hdiffers⟩ := nameFor_isName last tag
  have hapart : place ≠ new := by
    rintro rfl
    have hdraft := Store.getLast?_of_walk hwalk (Path.getLast?_join hletters) hidle' hup'
    rw [Store.getLast?_of_walk hreplaced.walk_eq hlast hidle hup] at hdraft
    exact hdiffers (Option.some.inj hdraft).symm
  rw [Store.read?, Option.bind_eq_none_iff]
  rintro ⟨found, node⟩ hfound
  obtain ⟨hown, hnode⟩ := Store.find?_eq_some.mp hfound
  obtain rfl := Except.ok.inj (hwalk.symm.trans hown)
  cases node with
  | directory => rfl
  | file content =>
      rw [hreplaced.others place hapart, habsent] at hnode
      cases hnode

end Draft

namespace Session

variable {α β ε : Type}

/-- What holds of the host after a step, whatever is in the journal. -/
def Leaves (step : ExceptT ε (StateT Journal Hosted) α) (host : Host) (good : α → Host → Prop)
    (bad : Host → Prop) : Prop :=
  ∀ journal, match (step.run journal).run host with
    | ((.ok value, _), after) => good value after
    | ((.error _, _), after) => bad after

variable {step : ExceptT ε (StateT Journal Hosted) α}
  {next : α → ExceptT ε (StateT Journal Hosted) β} {host : Host}
  {middle : α → Host → Prop} {good : β → Host → Prop} {bad : Host → Prop}

theorem Leaves.bind (h : Leaves step host middle bad)
    (hnext : ∀ value between, middle value between → Leaves (next value) between good bad) :
    Leaves (step >>= next) host good bad := by
  intro journal
  have hstep := h journal
  rw [run_bind]
  rcases hrun : (step.run journal).run host with ⟨⟨_ | value, between⟩, place⟩
  · rw [hrun] at hstep
    exact hstep
  · rw [hrun] at hstep
    exact hnext value place hstep between

theorem leaves_hosted {step : ExceptT Fault Hosted β} (h : Hosted.Leaves step host good bad) :
    Leaves (hosted step : Session Hosted β) host good bad := by
  intro journal
  have hrun : ((hosted step : Session Hosted β).run journal).run host =
      (((step.run host).1, journal), (step.run host).2) := rfl
  rw [hrun]
  unfold Hosted.Leaves at h
  rcases hstep : step.run host with ⟨_ | value, after⟩
  · rw [hstep] at h
    exact h
  · rw [hstep] at h
    exact h

theorem leaves_logged {step : Logged β}
    (hgood : ∀ value before after, step before = .ok value after → good value host)
    (hbad : bad host) : Leaves (logged step : Session Hosted β) host good bad := by
  intro journal
  simp only [logged, ExceptT.run, StateT.run]
  cases hstep : step journal with
  | ok value after => exact hgood value journal after hstep
  | error fault after => exact hbad

/-- A step that only remarks leads on from the same host. -/
theorem leaves_remark_bind {step : Logged Unit} {next : Unit → Session Hosted β}
    (hstep : Logged.Yields step (pure ())) (h : Leaves (next ()) host good bad) :
    Leaves (logged step >>= next) host good bad := by
  intro journal
  obtain ⟨after, hafter⟩ := hstep journal
  have hrun : ((logged step : Session Hosted Unit).run journal).run host =
      ((.ok (), after), host) := by
    simp only [logged, ExceptT.run, StateT.run, hafter]
    rfl
  rw [run_bind, hrun]
  exact h after

theorem leaves_throw {fault : ε} (h : bad host) :
    Leaves (throw fault : ExceptT ε (StateT Journal Hosted) β) host good bad := fun _ => h

theorem leaves_pure {value : β} (h : good value host) :
    Leaves (pure value : ExceptT ε (StateT Journal Hosted) β) host good bad := fun _ => h

end Session

namespace Module

open Session

variable {data : Bytes} {image : Image} {module : Module}

/-- Whatever fails, a write leaves every file as it was, or it puts what is
rendered at the target's place, leaves every other file as it was, and leaves no
draft. -/
theorem leaves_write {target : Path} {strategy? : Option Strategy} {tag : String} {host : Host}
    (hfresh : Draft.Fresh target tag host) :
    Leaves (write (m := Hosted) module target strategy? tag) host
      (fun report after => ∃ tables rendering place, module.tables = .ok tables ∧
        module.render report.strategy tables (.ofForest module.types) = .ok rendering ∧
        host.store.Replaced after.store target rendering.data place ∧
        ('/' ∉ tag.toList → ∀ name, target.fileName? = some name →
          after.store.read? (target.directory.join (Draft.nameFor name tag)) = none))
      fun after => host.store.SameFiles after.store := by
  unfold write
  have hread : Leaves (logged (Logged.lift module.tables) : Session Hosted TablesStream) host
      (fun tables between => between = host ∧ module.tables = .ok tables)
      (fun after => host.store.SameFiles after.store) :=
    leaves_logged (fun _ _ _ hlift => ⟨rfl, (Logged.lift_eq_ok.mp hlift).1⟩) (.refl _)
  refine hread.bind fun tables _ => ?_
  rintro ⟨rfl, htables⟩
  refine (leaves_hosted (Draft.leaves_start module.image.data.size hfresh)).bind ?_
  rintro draft drafted ⟨rfl, ⟨name, hname, hpath⟩, place, hdraft⟩
  refine leaves_remark_bind (Logged.yields_debug _ _) ?_
  cases hrender : module.render (strategy?.getD (.forPayload module.payload)) tables
      (.ofForest module.types) with
  | error fault =>
      exact (leaves_hosted (Draft.leaves_discard hdraft)).bind fun _ _ hsame => leaves_throw hsame
  | ok rendering =>
      have hwarned : Logged.Yields ((module.warnings rendering.changed).forM fun warning =>
          Logged.warn .writing (module.name ++ ": " ++ Warning.text warning)) (pure ()) :=
        Logged.yields_forM fun warning _ => Logged.yields_warn .writing _
      refine leaves_remark_bind hwarned ?_
      refine (leaves_hosted (Draft.leaves_finish hdraft rendering.data)).bind ?_
      rintro _ finished ⟨⟨new, hreplaced⟩, hwalk, last, hlast, hidle, hup⟩
      refine leaves_remark_bind (Logged.yields_debug _ _) ?_
      refine leaves_pure ⟨tables, rendering, new, htables, hrender, hreplaced, ?_⟩
      intro htag own hown
      obtain rfl := Option.some.inj (hname.symm.trans hown)
      exact Draft.read?_of_replaced hreplaced hdraft.absent (hpath ▸ hwalk) hlast hidle hup hname htag

/-- All or nothing. Whatever declarations a loaded module has by now, and
whatever steps the host refuses: a write that fails leaves every file as it was,
and one that comes to an end changes the target alone, which then holds the
whole image, as long as the source. -/
theorem write_all_or_nothing [Container.LawfulReader] {journal after : Journal}
    (hload : Module.ofData data journal = .ok module after) (forest : Forest) {target : Path}
    {strategy? : Option Strategy} {tag : String} {start log : Journal} {host host' : Host}
    (hfresh : Draft.Fresh target tag host) {result : Except Fault Report}
    (hwrite : ((write (m := Hosted) { module with types := forest } target strategy? tag).run
      start).run host = ((result, log), host')) :
    match result with
    | .error _ => host.store.SameFiles host'.store
    | .ok report => ∃ tables rendering place, module.tables = .ok tables ∧
        module.render report.strategy tables (.ofForest forest) = .ok rendering ∧
        rendering.data.size = data.size ∧
        host.store.Replaced host'.store target rendering.data place ∧
        ('/' ∉ tag.toList → ∀ name, target.fileName? = some name →
          host'.store.read? (target.directory.join (Draft.nameFor name tag)) = none) := by
  obtain ⟨⟨loaded⟩, ⟨opened⟩, rfl⟩ := loaded_of_ofData hload
  have hleaves : Leaves (write (m := Hosted) { module with types := forest } target strategy? tag)
      host _ _ := leaves_write hfresh
  have hends := hleaves start
  rw [hwrite] at hends
  cases result with
  | error fault => exact hends
  | ok report =>
      obtain ⟨tables, rendering, place, htables, hrender, hreplaced, hgone⟩ := hends
      refine ⟨tables, rendering, place, htables, hrender, ?_, hreplaced, hgone⟩
      obtain rfl := Except.ok.inj (loaded.tables_eq.symm.trans htables)
      obtain rfl := Except.ok.inj ((loaded.render_eq opened _ _).symm.trans hrender)
      rw [size_restamp, loaded.size_revised]

theorem fresh_of_empty (refusals : List Bool) :
    Draft.Fresh ⟨['o', 'u', 't']⟩ "0" ⟨Store.empty, refusals⟩ := by
  intro name hname
  have hown : Path.fileName? ⟨['o', 'u', 't']⟩ = some ['o', 'u', 't'] := rfl
  obtain rfl := Option.some.inj (hown.symm.trans hname)
  cases refusals with
  | nil => rfl
  | cons refusal others =>
      cases refusal with
      | false => rfl
      | true => rfl

open Framing in
/-- The smallest module is written into an empty store, and is not when the
first step is refused. -/
theorem write_all_or_nothing_plain : ∃ after report log host' fault log' failed,
    Module.ofData plain #[] = .ok plainModule after ∧
    ((write (m := Hosted) plainModule.published ⟨['o', 'u', 't']⟩ none "0").run #[]).run
      (Host.sound Store.empty) = ((.ok report, log), host') ∧
    (∃ tables rendering place, plainModule.tables = .ok tables ∧
      plainModule.render report.strategy tables (.ofForest plainModule.published.types) =
        .ok rendering ∧ rendering.data.size = plain.size ∧
      Store.empty.Replaced host'.store ⟨['o', 'u', 't']⟩ rendering.data place) ∧
    ((write (m := Hosted) plainModule.published ⟨['o', 'u', 't']⟩ none "0").run #[]).run
      ⟨Store.empty, [true]⟩ = ((.error fault, log'), failed) ∧
    Store.empty.SameFiles failed.store := by
  obtain ⟨tables, after, -, -, report, log, host', hload, htables, -, hwrite⟩ :=
    plain_sound.written
  obtain ⟨_, rendering, place, hown, hrender, hsize, hreplaced, -⟩ :=
    write_all_or_nothing hload plainModule.published.types (fresh_of_empty []) hwrite
  have hrefused : ((write (m := Hosted) plainModule.published ⟨['o', 'u', 't']⟩ none "0").run
      #[]).run ⟨Store.empty, [true]⟩ =
        ((.error (.unwritable (.directory ".")), #[]), ⟨Store.empty, []⟩) := by
    have htables : plainModule.published.tables = .ok tables := htables
    unfold write
    rw [Session.run_bind]
    simp only [htables]
    rfl
  exact ⟨after, report, log, host', _, _, _, hload, hwrite,
    ⟨_, rendering, place, hown, hrender, hsize, hreplaced⟩, hrefused,
    write_all_or_nothing hload plainModule.published.types (fresh_of_empty [true]) hrefused⟩

end Module

end Unveil
