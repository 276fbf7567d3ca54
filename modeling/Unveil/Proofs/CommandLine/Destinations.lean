import Unveil.Proofs.CommandLine.Survival
import Unveil.Proofs.Store.Names
import Unveil.Proofs.Store.Siblings

/-!
Outputs that are named after their inputs. A name is marked in front of its
extension, so a marked name is cut where the name itself was, and different names
stay different. Different names lead to different places, so no output takes the
place of another.
-/

namespace Unveil

namespace CommandLine

namespace Plan

section Marking

variable {name other : List Char}

/-- A marked name is cut into a marked stem and the extension that the name had. -/
theorem cutName_markedName (name : List Char) :
    Path.cutName (markedName name) =
      ((Path.cutName name).1 ++ nameSuffix, (Path.cutName name).2) := by
  obtain ⟨hdot, hcut⟩ | ⟨stem, extension, hstem, hdot, -, hcut⟩ := Path.cutName_cases name
  · have hmarked : '.' ∉ (name ++ nameSuffix).tail := by
      cases name with
      | nil => decide
      | cons first others =>
          rw [List.cons_append, List.tail_cons, List.mem_append]
          exact not_or.mpr ⟨hdot, by decide⟩
    rw [markedName, hcut]
    exact Path.cutName_of_undotted hmarked
  · rw [markedName, hcut]
    apply Path.cutName_of_dot _ hdot
    exact List.append_ne_nil_of_left_ne_nil hstem _

theorem markedName_injective (h : markedName name = markedName other) : name = other := by
  have hcut := congrArg Path.cutName h
  rw [cutName_markedName, cutName_markedName, Prod.mk.injEq] at hcut
  exact Path.cutName_injective (Prod.ext (List.append_cancel_right hcut.1) hcut.2)

theorem length_markedName (name : List Char) :
    (markedName name).length = name.length + nameSuffix.length := by
  obtain ⟨-, hcut⟩ | ⟨stem, extension, -, -, rfl, hcut⟩ := Path.cutName_cases name
  · rw [markedName, hcut, List.length_append]
  · rw [markedName, hcut]
    simp only [List.length_append, List.length_cons]
    omega

theorem markedName_ne (name : List Char) : markedName name ≠ name := by
  intro hsame
  have hlength := length_markedName name
  rw [hsame] at hlength
  exact absurd hlength (Nat.ne_of_lt (Nat.lt_add_of_pos_right (by decide)))

theorem not_mem_markedName (h : '/' ∉ name) : '/' ∉ markedName name := by
  have hsuffix : '/' ∉ nameSuffix := by decide
  obtain ⟨-, hcut⟩ | ⟨stem, extension, -, -, rfl, hcut⟩ := Path.cutName_cases name
  · rw [markedName, hcut, List.mem_append]
    exact not_or.mpr ⟨h, hsuffix⟩
  · rw [markedName, hcut]
    simp only [List.mem_append, not_or] at h ⊢
    exact ⟨⟨h.1, hsuffix⟩, h.2⟩

/-- A marked name is too long for a piece that is no name. -/
theorem markedName_isName (name : List Char) :
    Path.isIdle (markedName name) = false ∧ markedName name ≠ ['.', '.'] := by
  have hlong : 2 < (markedName name).length := by
    rw [length_markedName]
    exact Nat.lt_of_lt_of_le (by decide) (Nat.le_add_left ..)
  have hshort {piece : List Char} (hpiece : piece.length ≤ 2) : markedName name ≠ piece := by
    rintro rfl
    exact Nat.not_lt.mpr hpiece hlong
  refine ⟨?_, hshort (Nat.le_refl 2)⟩
  rw [Path.isIdle, Bool.or_eq_false_iff, beq_eq_false_iff_ne, beq_eq_false_iff_ne]
  exact ⟨hshort (by decide), hshort (by decide)⟩

end Marking

section Names

variable {input a b x y directory directory' : Path} {name : List Char}

theorem outputName_eq_ok {derived : Path} : outputName input = .ok derived ↔
    ∃ name, input.fileName? = some name ∧ derived = ⟨markedName name⟩ := by
  unfold outputName
  split
  · rename_i name hname
    rw [hname]
    constructor
    · intro h
      exact ⟨name, rfl, (Except.ok.inj h).symm⟩
    · rintro ⟨_, hsame, rfl⟩
      rw [Option.some.inj hsame]
  · rename_i hnone
    rw [hnone]
    exact ⟨nofun, nofun⟩

/-- What is so of the path that is derived from an input with a name. -/
structure Derives (input : Path) (name : List Char) (derived : Path) : Prop where
  named : outputName input = .ok derived
  /-- The suffix stands before the last dot of the name, if something stands before
  that dot, and else at the end. -/
  spelled : (∃ stem extension, stem ≠ [] ∧ '.' ∉ extension ∧ name = stem ++ '.' :: extension ∧
      derived.letters = stem ++ nameSuffix ++ '.' :: extension) ∨
    '.' ∉ name.tail ∧ derived.letters = name ++ nameSuffix
  isName : derived.fileName? = some derived.letters
  differs : derived.letters ≠ name
  extension_eq : derived.extension? = input.extension?

theorem derives_markedName (hname : input.fileName? = some name) :
    Derives input name ⟨markedName name⟩ := by
  obtain ⟨hidle, hup⟩ := markedName_isName name
  have hpieces : (Path.mk (markedName name)).pieces = [markedName name] :=
    Pieces.split_unbroken (not_mem_markedName (Path.not_mem_fileName hname))
  have hown : (Path.mk (markedName name)).fileName? = some (markedName name) :=
    Path.fileName?_of_getLast? (by rw [hpieces]; rfl) hidle hup
  refine ⟨outputName_eq_ok.mpr ⟨name, hname, rfl⟩, ?_, hown, markedName_ne name, ?_⟩
  · obtain ⟨hdot, hcut⟩ | ⟨stem, extension, hstem, hdot, hwhole, hcut⟩ := Path.cutName_cases name
    · refine Or.inr ⟨hdot, ?_⟩
      rw [markedName, hcut]
    · refine Or.inl ⟨stem, extension, hstem, hdot, hwhole, ?_⟩
      rw [markedName, hcut]
  · rw [Path.extension?, Path.extension?, hown, hname, Option.bind_some, Option.bind_some,
      cutName_markedName]

/-- Names that are derived are the same exactly if the inputs end in the same name. -/
theorem outputName_inj (hx : outputName a = .ok x) (hy : outputName b = .ok y) :
    x = y ↔ a.fileName? = b.fileName? := by
  obtain ⟨name, hname, rfl⟩ := outputName_eq_ok.mp hx
  obtain ⟨other, hother, rfl⟩ := outputName_eq_ok.mp hy
  rw [hname, hother, Path.mk.injEq, Option.some.injEq]
  exact ⟨markedName_injective, congrArg markedName⟩

/-- Wherever an output is put, it leads to a place of the derived name. -/
theorem getLast?_of_outputName {store : Store} {place : Location} (hx : outputName a = .ok x)
    (hwalk : store.walk (directory.join x) = .ok place) : place.getLast? = some x.letters := by
  obtain ⟨name, hname, rfl⟩ := outputName_eq_ok.mp hx
  obtain ⟨hidle, hup⟩ := markedName_isName name
  have hslash := not_mem_markedName (Path.not_mem_fileName hname)
  exact Store.getLast?_of_walk hwalk (Path.getLast?_join hslash) hidle hup

/-- Outputs of inputs with different names are different places, in whatever
directories and whenever they are written. -/
theorem places_apart (hx : outputName a = .ok x) (hy : outputName b = .ok y)
    (hnames : a.fileName? ≠ b.fileName?) {store store' : Store} {place place' : Location}
    (hplace : store.walk (directory.join x) = .ok place)
    (hplace' : store'.walk (directory'.join y) = .ok place') : place ≠ place' := by
  rintro rfl
  have hlast := (getLast?_of_outputName hx hplace).symm.trans (getLast?_of_outputName hy hplace')
  apply hnames
  apply (outputName_inj hx hy).mp
  exact congrArg Path.mk (Option.some.inj hlast)

end Names

section Resolving

/-- The directory that is made next to an input. -/
def beside (input : Path) : Path := input.directory.join defaultDirectory

/-- There is a directory at a path, or the path is written like that of one. -/
def StandsForDirectory (store : Store) (path : Path) : Prop :=
  store.kind? path = some .directory ∨ path.endsInSlash = true ∨ path.extension? = none

theorem resolveOutput_of_none (input : Path) (host : Host) :
    (resolveOutput (m := Hosted) input none).run host =
      ((outputName input).map (beside input).join, host) := by
  rw [resolveOutput, Hosted.run_bind]
  cases outputName input with
  | error failure => rfl
  | ok name => rfl

theorem namesDirectory_eq_true {output : Path} {host : Host}
    (h : StandsForDirectory host.store output) :
    namesDirectory (m := Hosted) output host = (true, host) := by
  have hnames : namesDirectory (m := Hosted) output host =
      (output.endsInSlash || host.store.kind? output == some .directory ||
        output.extension?.isNone, host) := rfl
  rw [hnames]
  obtain hkind | hslash | hextension := h
  · rw [hkind, beq_self_eq_true, Bool.or_true, Bool.true_or]
  · rw [hslash, Bool.true_or, Bool.true_or]
  · rw [hextension, Option.isNone_none, Bool.or_true]

theorem resolveOutput_of_directory {output : Path} {host : Host} (hsome : output.isEmpty = false)
    (hdirectory : StandsForDirectory host.store output) (input : Path) :
    (resolveOutput (m := Hosted) input (some output)).run host =
      ((outputName input).map output.join, host) := by
  rw [resolveOutput, Hosted.run_bind]
  cases outputName input with
  | error failure => rfl
  | ok name =>
      simp only [hsome, Bool.false_eq_true, if_false]
      refine (Hosted.run_lift_bind (namesDirectory output) _ host).trans ?_
      rw [namesDirectory_eq_true hdirectory]
      rfl

end Resolving

end Plan

open Plan

/-- A run leaves a file alone whose path never leads to the run's output. -/
theorem read?_of_carryOut [Container.Reader] {plan : Plan} {tag : String} {host : Host} {path : Path} {bytes : Bytes}
    (hfresh : Draft.Fresh plan.output tag host) (hread : host.store.read? path = some bytes)
    (hapart : ∀ (after : Store) (place new : Location), host.store.walk path = .ok place →
      after.walk plan.output = .ok new → place ≠ new) (journal : Journal) :
    (((carryOut (m := Hosted) plan tag).run journal).run host).2.store.read? path = some bytes := by
  have hends := leaves_carryOut hfresh journal
  split at hends
  · rename_i hrun
    obtain ⟨data, new, hreplaced⟩ := hends
    rw [hrun]
    exact hreplaced.read?_eq hread fun place hplace => hapart _ _ _ hplace hreplaced.walk_eq
  · rename_i hrun
    rw [hrun]
    exact hends.read?_eq hread

/-- Two outputs never take each other's place. They lead to different places whenever
they are looked up, and a run that writes the second leaves the first as it was. -/
structure KeptApart [Container.Reader] (first second : Path) : Prop where
  apart : ∀ (store store' : Store) (place place' : Location), store.walk first = .ok place →
    store'.walk second = .ok place' → place ≠ place'
  kept : ∀ (plan : Plan) (tag : String) (host : Host) (bytes : Bytes), plan.output = second →
    Draft.Fresh plan.output tag host → host.store.read? first = some bytes → ∀ journal,
      (((carryOut (m := Hosted) plan tag).run journal).run host).2.store.read? first = some bytes

theorem keptApart_of_names [Container.Reader] {a b x y : Path} (hx : outputName a = .ok x) (hy : outputName b = .ok y)
    (hnames : a.fileName? ≠ b.fileName?) (directory directory' : Path) :
    KeptApart (directory.join x) (directory'.join y) where
  apart store store' place place' := places_apart hx hy hnames
  kept plan tag host bytes houtput hfresh hread := by
    apply read?_of_carryOut hfresh hread
    intro after place new hplace hnew
    rw [houtput] at hnew
    exact places_apart hx hy hnames hplace hnew

/-- Outputs that are named after their inputs never collide. A derived name is a name
of its own that keeps the extension, and different names are derived from different
names. It is the name that the output gets in a directory, or where none is given in
one next to the input; so outputs of inputs with different names are kept apart. -/
theorem outputs_never_collide [Container.Reader] :
    (∀ (path : Path) (extension : List Char), path.extension? = some extension ↔
      ∃ stem, stem ≠ [] ∧ '.' ∉ extension ∧ path.fileName? = some (stem ++ '.' :: extension)) ∧
    (∀ input : Path, match input.fileName? with
      | some name => ∃ derived, Derives input name derived
      | none => outputName input = .error (.path (.noFileName input))) ∧
    (∀ a b x y : Path, outputName a = .ok x → outputName b = .ok y →
      (x = y ↔ a.fileName? = b.fileName?)) ∧
    (∀ (input : Path) (host : Host), (resolveOutput (m := Hosted) input none).run host =
      ((outputName input).map (beside input).join, host)) ∧
    (∀ (input : Path) (store : Store) (place next : Location), input.fileName? ≠ none →
      store.walk input = .ok place → store.walk (beside input) = .ok next →
        next = place.dropLast ++ [defaultDirectory.letters]) ∧
    (∀ (input output : Path) (host : Host), output.isEmpty = false →
      StandsForDirectory host.store output →
        (resolveOutput (m := Hosted) input (some output)).run host =
          ((outputName input).map output.join, host)) ∧
    ∀ a b x y directory directory' : Path, outputName a = .ok x → outputName b = .ok y →
      a.fileName? ≠ b.fileName? → KeptApart (directory.join x) (directory'.join y) := by
  refine ⟨fun _ _ => Path.extension?_eq_some, fun input => ?_, fun a b x y => outputName_inj,
    resolveOutput_of_none, ?_, ?_, ?_⟩
  · cases hname : input.fileName? with
    | some name => exact ⟨_, derives_markedName hname⟩
    | none => simp only [outputName, hname]
  · intro input store place next hname
    apply Store.walk_sibling hname
    · decide
    · rfl
    · decide
  · intro input output host hsome hdirectory
    exact resolveOutput_of_directory hsome hdirectory input
  · intro a b x y directory directory' hx hy hnames
    exact keptApart_of_names hx hy hnames directory directory'

/-- An empty path has no extension, but no output goes there by any name; nor is there
an output for an input without a name. Inputs that end in the same name have the same
output in a directory. -/
theorem empty_output_refused :
    outputName (.ofText "Lib.dll") = .ok (.ofText "Lib_publicized.dll") ∧
    (Path.ofText "").extension? = none ∧
    (resolveOutput (m := Hosted) (.ofText "Lib.dll") (some (.ofText ""))).run (.sound .empty) =
      (.error (.path .emptyOutput), .sound .empty) ∧
    (resolveOutput (m := Hosted) (.ofText "..") none).run (.sound .empty) =
      (.error (.path (.noFileName (.ofText ".."))), .sound .empty) ∧
    (resolveOutput (m := Hosted) (.ofText "a/Lib.dll") (some (.ofText "out/"))).run
      (.sound .empty) = (.ok (.ofText "out/Lib_publicized.dll"), .sound .empty) ∧
    (resolveOutput (m := Hosted) (.ofText "b/Lib.dll") (some (.ofText "out/"))).run
      (.sound .empty) = (.ok (.ofText "out/Lib_publicized.dll"), .sound .empty) := by
  refine ⟨rfl, rfl, rfl, rfl, rfl, rfl⟩

end CommandLine

end Unveil
