import Unveil.CommandLine.Run
import Unveil.Proofs.Writing.Atomicity

/-!
What becomes of the input. A plan is made only if the output does not lead to
the input as the file system is before the run. A run makes directories on the
way to the output, so an output that steps up again behind a missing directory
may come to lead to the input all the same, and then the input is replaced. No
other plan destroys its input, however the run ends.
-/

namespace Unveil

namespace Hosted

theorem leaves_result {ε α : Type} {result : Except ε α} {host : Host} {good : α → Host → Prop}
    {bad : Host → Prop} (hgood : ∀ value, result = .ok value → good value host)
    (hbad : bad host) : Leaves (ExceptT.mk (pure result) : ExceptT ε Hosted α) host good bad := by
  cases result with
  | error fault => exact hbad
  | ok value => exact hgood value rfl

end Hosted

namespace CommandLine

namespace Plan

open Hosted

variable {host : Host}

theorem leaves_resolveOutput (input : Path) (output? : Option Path) (host : Host) :
    Leaves (resolveOutput (m := Hosted) input output?) host (fun _ after => after = host)
      fun _ => True := by
  have hname : Leaves (ExceptT.mk (pure (outputName input)) : ExceptT Failure Hosted Path) host
      (fun _ between => between = host) fun _ => True := leaves_result (fun _ _ => rfl) trivial
  refine hname.bind fun name between hbetween => ?_
  subst between
  cases output? with
  | none => exact rfl
  | some output =>
      cases hempty : output.isEmpty with
      | true =>
          simp only [hempty, ↓reduceIte]
          exact leaves_throw_bind trivial
      | false =>
          simp only [hempty]
          refine leaves_lift_bind ?_
          split
          · exact rfl
          · exact rfl

theorem isSame_eq (a b : Path) (host : Host) : Volume.isSame (m := Hosted) a b host =
    (match host.store.place? a, host.store.place? b with
      | some a, some b => a == b
      | _, _ => false, host) := by
  change (match host.store.place? a, host.store.place? b with
    | some a, some b => pure (a == b)
    | _, _ => pure false : Hosted Bool) host = _
  cases host.store.place? a with
  | none => rfl
  | some first =>
      cases host.store.place? b with
      | none => rfl
      | some second => rfl

/-- A plan is made of a file that is there and an output that leads elsewhere,
and nothing has been done yet. -/
theorem leaves_ofArguments (arguments : Arguments) (host : Host) :
    Leaves (ofArguments (m := Hosted) arguments) host
      (fun plan after => after = host ∧ host.store.kind? plan.input = some .file ∧
        (Volume.isSame (m := Hosted) plan.input plan.output host).1 = false)
      fun _ => True := by
  have hinput : Leaves (ExceptT.mk (pure (chooseInput arguments)) : ExceptT Failure Hosted Path)
      host (fun _ between => between = host) fun _ => True :=
    leaves_result (fun _ _ => rfl) trivial
  refine hinput.bind fun input between hbetween => ?_
  subst between
  refine leaves_lift_bind ?_
  split
  · exact leaves_throw trivial
  · exact leaves_throw trivial
  · exact leaves_throw trivial
  · rename_i hkind
    refine (leaves_resolveOutput input arguments.output _).bind fun output between hbetween => ?_
    subst between
    refine leaves_lift_bind ?_
    have hseen : (Volume.kind? (m := Hosted) input host).2 = host := rfl
    simp only [hseen]
    by_cases hsame : (Volume.isSame (m := Hosted) input output host).1 = true
    · rw [if_pos hsame]
      exact leaves_throw_bind trivial
    · rw [if_neg hsame]
      refine ⟨?_, hkind, eq_false_of_ne_true hsame⟩
      rw [isSame_eq]

end Plan

section Input

variable {store after : Store} {input output : Path} {data bytes : Bytes} {new : Location}

/-- The input is still there when the output was put in its place, since the
two are not the same place. -/
theorem read?_of_replaced (htree : store.IsTree) (hkeeps : store.KeepsOn output)
    (h : store.Replaced after output data new) (hread : store.read? input = some bytes)
    (hdiffers : store.walk output ≠ store.walk input) : after.read? input = some bytes := by
  obtain ⟨place, hwalk, hnode⟩ := Store.read?_eq_some.mp hread
  refine h.read?_eq hread fun found hfound => ?_
  obtain rfl : place = found := Except.ok.inj (hwalk.symm.trans hfound)
  rintro rfl
  apply hdiffers
  rw [hwalk]
  exact Store.walk_before htree hkeeps h.home_eq h.file_kept h.walk_eq (by rw [hnode]; nofun)

end Input

section Run

open Session

variable {host : Host}

theorem leaves_adapt {α : Type} {step : Session Hosted α} {f : Fault → Failure}
    {good : α → Host → Prop} {bad : Host → Prop} (h : Leaves step host good bad) :
    Leaves (step.adapt f : Attempt Hosted α) host good bad := by
  intro journal
  have hends := h journal
  have hrun : ((step.adapt f : Attempt Hosted α).run journal).run host =
      ((((step.run journal).run host).1.1.mapError f, ((step.run journal).run host).1.2),
        ((step.run journal).run host).2) := rfl
  rw [hrun]
  split at hends
  · rename_i hstep
    rw [hstep]
    exact hends
  · rename_i hstep
    rw [hstep]
    exact hends

/-- A remark leads on from the same host. -/
theorem leaves_note_bind {β : Type} {level : Level} {text : String}
    {next : Unit → Attempt Hosted β} {good : β → Host → Prop} {bad : Host → Prop}
    (h : Leaves (next ()) host good bad) :
    Leaves (note (m := Hosted) level text >>= next) host good bad :=
  fun _ => h _

theorem leaves_ite {α : Type} {condition : Prop} [Decidable condition]
    {first second : Attempt Hosted α} {good : α → Host → Prop} {bad : Host → Prop}
    (hfirst : Leaves first host good bad) (hsecond : Leaves second host good bad) :
    Leaves (if condition then first else second) host good bad := by
  split
  · exact hfirst
  · exact hsecond

theorem leaves_read [Container.Reader] (path : Path) : Leaves (Module.read (m := Hosted) path) host
    (fun _ after => after = host) fun after => host.store.SameFiles after.store := by
  have hread : Leaves (hosted (ExceptT.lift (Volume.read? path)) : Session Hosted (Option Bytes))
      host (fun _ between => between = host) fun after => host.store.SameFiles after.store :=
    leaves_hosted (Hosted.leaves_lift rfl)
  refine hread.bind fun data? between hbetween => ?_
  subst between
  cases data? with
  | none => exact leaves_throw (.refl _)
  | some data => exact leaves_logged (fun _ _ _ _ => rfl) (.refl _)

/-- A run leaves every file as it was, or puts the output in its place. -/
theorem leaves_carryOut [Container.Reader] {plan : Plan} {tag : String} (hfresh : Draft.Fresh plan.output tag host) :
    Leaves (carryOut (m := Hosted) plan tag) host
      (fun _ after => ∃ data place, host.store.Replaced after.store plan.output data place)
      fun after => host.store.SameFiles after.store := by
  unfold carryOut
  have hread (f : Fault → Failure) : Leaves ((Module.read plan.input).adapt f : Attempt Hosted Module)
      host (fun _ between => between = host) fun after => host.store.SameFiles after.store :=
    leaves_adapt (leaves_read plan.input)
  refine (hread _).bind fun module between hbetween => ?_
  subst between
  refine leaves_note_bind (leaves_note_bind (leaves_ite (leaves_note_bind ?rest) ?rest))
  have hunveil (f : Fault → Failure) :
      Leaves ((logged (module.unveil plan.parallel)).adapt f : Attempt Hosted (Module × Tally))
        host (fun _ between => between = host) fun after => host.store.SameFiles after.store :=
    leaves_adapt (leaves_logged (fun _ _ _ _ => rfl) (.refl _))
  refine (hunveil _).bind fun unveiled between hbetween => ?_
  subst between
  refine leaves_note_bind ?_
  refine (leaves_adapt (Module.leaves_write hfresh)).bind ?_
  rintro report after ⟨tables, rendering, place, -, -, hreplaced, -⟩
  exact leaves_pure ⟨rendering.data, place, hreplaced⟩

end Run

/-- No plan destroys its input. In a file system in which everything lies in a
directory, with an output that does not step up again behind a missing
directory, a run leaves the input as it was, whatever steps are refused and
however the run ends. -/
theorem input_survives [Container.Reader] {arguments : Arguments} {plan : Plan} {tag : String} {host between : Host}
    (htree : host.store.IsTree)
    (hplan : (Plan.ofArguments (m := Hosted) arguments).run host = (.ok plan, between))
    (hfresh : Draft.Fresh plan.output tag host) (hkeeps : host.store.KeepsOn plan.output) :
    ∃ bytes, host.store.read? plan.input = some bytes ∧ ∀ journal,
      (((carryOut (m := Hosted) plan tag).run journal).run between).2.store.read? plan.input =
        some bytes := by
  have hasked := Plan.leaves_ofArguments arguments host
  unfold Hosted.Leaves at hasked
  rw [hplan] at hasked
  obtain ⟨rfl, hkind, hdiffers⟩ := hasked
  obtain ⟨⟨place, node⟩, hfound, hfile⟩ := Option.map_eq_some_iff.mp hkind
  cases node with
  | directory => cases hfile
  | file bytes =>
      obtain ⟨hwalk, hnode⟩ := Store.find?_eq_some.mp hfound
      have hread := Store.read?_eq_some.mpr ⟨place, hwalk, hnode⟩
      refine ⟨bytes, hread, fun journal => ?_⟩
      have hends := leaves_carryOut hfresh journal
      split at hends
      · rename_i hrun
        obtain ⟨data, new, hreplaced⟩ := hends
        rw [hrun]
        refine read?_of_replaced htree hkeeps hreplaced hread fun hsame => ?_
        have hplace : between.store.place? plan.output = between.store.place? plan.input := by
          rw [Store.place?, Store.place?, Store.find?, Store.find?, hsame]
        rw [Plan.isSame_eq, hplace, Store.place?, hfound] at hdiffers
        simp at hdiffers
      · rename_i hrun
        rw [hrun]
        exact hends.read?_eq hread

section TurningBack

/-- A path into a directory, out of it again, and on from there. -/
def turningBack (name rest : List Char) : Path := ⟨name ++ '/' :: '.' :: '.' :: '/' :: rest⟩

variable {store : Store} {name rest : List Char} {place : Location}

theorem pieces_turningBack (hslash : '/' ∉ name) (rest : List Char) :
    (turningBack name rest).pieces = name :: ['.', '.'] :: (Path.mk rest).pieces := by
  have hback : Pieces.split '/' ('.' :: '.' :: '/' :: rest) =
      ['.', '.'] :: Pieces.split '/' rest :=
    Pieces.split_append (by decide : '/' ∉ ['.', '.'])
  rw [turningBack, Path.pieces, Pieces.split_append hslash, hback]
  rfl

theorem isAbsolute_turningBack (hslash : '/' ∉ name) (hname : name ≠ []) (rest : List Char) :
    (turningBack name rest).isAbsolute = false := by
  obtain ⟨letter, others, rfl⟩ := List.exists_cons_of_ne_nil hname
  rw [List.mem_cons, not_or] at hslash
  rw [Path.isAbsolute, beq_eq_false_iff_ne]
  exact fun h => hslash.1 (Option.some.inj h).symm

theorem isEmpty_turningBack (name rest : List Char) : (turningBack name rest).isEmpty = false := by
  cases name with
  | nil => rfl
  | cons letter others => rfl

/-- Why an output may not step up behind a missing directory. Before a run such
a path leads nowhere, so it passes for another place than the input; once the
directory is made, it leads to where the rest of it leads. -/
theorem walk_of_turning_back (hslash : '/' ∉ name) (hidle : Path.isIdle name = false)
    (hup : name ≠ ['.', '.']) (hshort : Store.byteSize name ≤ Store.nameLimit)
    (hpath : ¬ (Store.pathLimit < Store.byteSize (turningBack name rest).letters ∨
      '\x00' ∈ (turningBack name rest).letters))
    (hhome : store.node? store.home = some .directory)
    (hmissing : store.node? (store.home ++ [name]) = none)
    (hrelative : (Path.mk rest).isAbsolute = false) (hrest : store.walk ⟨rest⟩ = .ok place) :
    store.walk (turningBack name rest) = .error .missing ∧
      (store.put (store.home ++ [name]) .directory).walk (turningBack name rest) = .ok place := by
  have hname : name ≠ [] := by
    rintro rfl
    cases hidle
  have hrelative' := isAbsolute_turningBack hslash hname rest
  have hempty := isEmpty_turningBack name rest
  constructor
  · rw [Store.walk, hempty, if_neg Bool.false_ne_true, if_neg hpath, pieces_turningBack hslash,
      hrelative', if_neg Bool.false_ne_true, List.foldlM_cons,
      Store.step_name hhome hidle hup hshort]
    exact Store.steps_error (Store.step_missing hmissing _) _
  · -- Making the directory keeps those that the rest of the path passes.
    have hkeeps : store.Keeps (store.put (store.home ++ [name]) .directory) :=
      Store.keeps_put (by simp [hmissing])
    have hmade : (store.put (store.home ++ [name]) .directory).node? (store.home ++ [name]) =
        some .directory := Store.node?_put_self (List.concat_ne_nil name store.home) _
    obtain ⟨-, -, hsteps⟩ := Store.walk_eq_ok.mp hrest
    rw [Store.startOf, hrelative] at hsteps
    have hback := Store.step_up hmade
    rw [List.dropLast_concat] at hback
    refine Store.walk_eq_ok.mpr ⟨by simp [hempty], hpath, ?_⟩
    rw [pieces_turningBack hslash, Store.startOf, hrelative']
    exact Store.steps_cons.mpr ⟨_,
      Store.step_name (hkeeps.directory _ hhome) hidle hup hshort,
      Store.steps_cons.mpr ⟨_, hback, hkeeps.steps hsteps⟩⟩

end TurningBack

open Framing in
/-- A run on the smallest module, with an output in a directory that is still
to be made. -/
theorem input_survives_plain : ∃ plan between,
    (Plan.ofArguments (m := Hosted) ⟨[], some ⟨['i']⟩, none, some ⟨['n', '/', 'o', '.', 'd']⟩⟩).run
      (Host.sound ⟨[([['h']], .directory), ([['h'], ['i']], .file plain)], [['h']]⟩) =
        (.ok plan, between) ∧ plan.input = ⟨['i']⟩ ∧
    ∀ journal, (((carryOut (m := Hosted) plan "0").run journal).run between).2.store.read?
      ⟨['i']⟩ = some plain := by
  have htree : (Store.mk [([['h']], .directory), ([['h'], ['i']], .file plain)] [['h']]).IsTree := by
    intro place name h
    by_cases hfirst : place ++ [name] = [['h']]
    · obtain rfl : place = [] := by simpa using congrArg List.dropLast hfirst
      rfl
    · by_cases hsecond : place ++ [name] = [['h'], ['i']]
      · obtain rfl : place = [['h']] := by simpa using congrArg List.dropLast hsecond
        rfl
      · simp [Store.node?, List.lookup_cons, beq_eq_false_iff_ne.mpr hfirst,
          beq_eq_false_iff_ne.mpr hsecond] at h
  have hplan : (Plan.ofArguments (m := Hosted)
      ⟨[], some ⟨['i']⟩, none, some ⟨['n', '/', 'o', '.', 'd']⟩⟩).run
        (Host.sound ⟨[([['h']], .directory), ([['h'], ['i']], .file plain)], [['h']]⟩) =
      (.ok ⟨⟨['i']⟩, ⟨['n', '/', 'o', '.', 'd']⟩, false, none⟩,
        Host.sound ⟨[([['h']], .directory), ([['h'], ['i']], .file plain)], [['h']]⟩) := rfl
  have hfresh : Draft.Fresh ⟨['n', '/', 'o', '.', 'd']⟩ "0"
      (Host.sound ⟨[([['h']], .directory), ([['h'], ['i']], .file plain)], [['h']]⟩) := by
    intro name hname
    obtain rfl : ['o', '.', 'd'] = name := Option.some.inj hname
    rfl
  have hkeeps : (Store.mk [([['h']], .directory), ([['h'], ['i']], .file plain)] [['h']]).KeepsOn
      ⟨['n', '/', 'o', '.', 'd']⟩ := by
    intro front behind place hpieces _ _ hup
    have hall : ['.', '.'] ∈ (Path.mk ['n', '/', 'o', '.', 'd']).pieces :=
      hpieces ▸ List.mem_append_right _ hup
    exact absurd hall (by decide)
  obtain ⟨bytes, hread, hafter⟩ := input_survives htree hplan hfresh hkeeps
  have hplain : (Host.sound ⟨[([['h']], .directory), ([['h'], ['i']], .file plain)],
      [['h']]⟩).store.read? ⟨['i']⟩ = some plain := rfl
  obtain rfl : plain = bytes := Option.some.inj (hplain.symm.trans hread)
  exact ⟨_, _, hplan, rfl, hafter⟩

end CommandLine

end Unveil
