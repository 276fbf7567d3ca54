import Unveil.Proofs.Store.Replacing

/-!
Where walks end. The last piece of a path is the name of the place it leads to,
if it is a name at all, so two paths that end in different names never lead to
the same place. A walk that only becomes possible when directories are made
starts out from one of these, and unless it turns back it ends below it; what it
comes to was not there before.
-/

namespace Unveil

namespace Pieces

variable {Letter : Type} [DecidableEq Letter] {separator : Letter}

/-- A text is cut where it is put together with a separator. -/
theorem split_joined (first second : List Letter) :
    split separator (first ++ separator :: second) =
      split separator first ++ split separator second := by
  induction first with
  | nil => exact split_append List.not_mem_nil
  | cons letter first ih =>
      rw [List.cons_append, split, split, ih]
      obtain ⟨piece, pieces, hsplit⟩ := List.exists_cons_of_ne_nil (split_ne_nil separator first)
      rw [hsplit]
      simp only [List.cons_append]
      split
      · rfl
      · rfl

theorem split_unbroken {piece : List Letter} (h : separator ∉ piece) :
    split separator piece = [piece] := by
  induction piece with
  | nil => rfl
  | cons letter piece ih =>
      rw [List.mem_cons, not_or] at h
      rw [split, ih h.2]
      exact if_neg (Ne.symm h.1)

theorem not_mem_of_mem_split {letters piece : List Letter} (h : piece ∈ split separator letters) :
    separator ∉ piece := by
  induction letters generalizing piece with
  | nil =>
      obtain rfl := List.mem_singleton.mp h
      exact List.not_mem_nil
  | cons letter letters ih =>
      obtain ⟨first, others, hsplit⟩ :=
        List.exists_cons_of_ne_nil (split_ne_nil separator letters)
      rw [split, hsplit] at h
      rw [hsplit] at ih
      simp only at h
      split at h
      · rcases List.mem_cons.mp h with rfl | hmem
        · exact List.not_mem_nil
        · exact ih hmem
      · rename_i hletter
        rcases List.mem_cons.mp h with rfl | hmem
        · rw [List.mem_cons, not_or]
          exact ⟨Ne.symm hletter, ih (List.mem_cons_self ..)⟩
        · exact ih (List.mem_cons_of_mem _ hmem)

end Pieces

namespace Path

/-- A path that goes on with a name ends in that name. -/
theorem getLast?_join {base : Path} {name : List Char} (hname : '/' ∉ name) :
    (base.join ⟨name⟩).pieces.getLast? = some name := by
  have hrelative : (Path.mk name).isAbsolute = false := by
    rw [isAbsolute, beq_eq_false_iff_ne]
    exact fun habsolute => hname (List.mem_of_head? habsolute)
  have hbehind (letters : List Char) :
      (Path.mk (letters ++ '/' :: name)).pieces.getLast? = some name := by
    rw [pieces, Pieces.split_joined, Pieces.split_unbroken hname, List.getLast?_concat]
  rw [join, hrelative, if_neg Bool.false_ne_true]
  split
  · rename_i hfront
    rcases Bool.or_eq_true_iff.mp hfront with hempty | hslash
    · rw [List.isEmpty_iff.mp hempty, List.nil_append, pieces, Pieces.split_unbroken hname]
      rfl
    · obtain ⟨front, hletters⟩ := List.getLast?_eq_some_iff.mp (beq_iff_eq.mp hslash)
      rw [hletters, List.append_assoc]
      exact hbehind front
  · exact hbehind base.letters

theorem mem_of_mem_trim {pieces : List (List Char)} {piece : List Char} (h : piece ∈ trim pieces) :
    piece ∈ pieces := by
  fun_induction trim pieces with
  | case1 => exact h
  | case2 first => exact h
  | case3 first above _ _ ih => exact List.mem_cons_of_mem _ (ih h)
  | case4 first above => exact h

/-- The last piece of a path is the name it ends in, if it is a name. -/
theorem fileName?_of_getLast? {path : Path} {last : List Char}
    (hlast : path.pieces.getLast? = some last) (hidle : isIdle last = false)
    (hup : last ≠ ['.', '.']) : path.fileName? = some last := by
  obtain ⟨front, hpieces⟩ := List.getLast?_eq_some_iff.mp hlast
  have htrim : trim path.pieces.reverse = last :: front.reverse := by
    rw [hpieces, List.reverse_concat]
    cases front.reverse with
    | nil => rfl
    | cons above others =>
        rw [trim, if_neg (ne_true_of_eq_false hidle)]
        exact List.cons_ne_nil _ _
  rw [fileName?, htrim]
  simp [hidle, hup]

theorem not_mem_fileName {path : Path} {name : List Char} (h : path.fileName? = some name) :
    '/' ∉ name := by
  unfold fileName? at h
  split at h
  · cases h
  · rename_i last above htrim
    split at h
    · cases h
    · obtain rfl := Option.some.inj h
      have hmem : last ∈ path.pieces.reverse := by
        apply mem_of_mem_trim
        rw [htrim]
        exact List.mem_cons_self ..
      exact Pieces.not_mem_of_mem_split (List.mem_reverse.mp hmem)

end Path

namespace Store

variable {store : Store}

/-- Where the walk of a path begins. -/
def startOf (store : Store) (path : Path) : Location :=
  if path.isAbsolute then [] else store.home

theorem walk_eq_ok {path : Path} {place : Location} : store.walk path = .ok place ↔
    ¬ path.isEmpty ∧ ¬ (pathLimit < byteSize path.letters ∨ '\x00' ∈ path.letters) ∧
      path.pieces.foldlM store.step (store.startOf path) = .ok place := by
  unfold walk
  split
  · rename_i hempty
    exact ⟨nofun, fun h => absurd hempty h.1⟩
  · split
    · rename_i hlimit
      exact ⟨nofun, fun h => absurd hlimit h.2.1⟩
    · rename_i hempty hlimit
      exact ⟨fun h => ⟨hempty, hlimit, h⟩, fun h => h.2.2⟩

section Steps

variable {place : Location} {name piece : List Char}

theorem step_missing (hplace : store.node? place = none) (piece : List Char) :
    store.step place piece = .error .missing := by
  rw [step, hplace]

theorem step_file {data : Bytes} (hplace : store.node? place = some (.file data))
    (piece : List Char) : store.step place piece = .error .refused := by
  rw [step, hplace]

theorem step_idle (hplace : store.node? place = some .directory)
    (hidle : Path.isIdle piece = true) : store.step place piece = .ok place := by
  rw [step, hplace]
  exact if_pos hidle

theorem step_up (hplace : store.node? place = some .directory) :
    store.step place ['.', '.'] = .ok place.dropLast := by
  rw [step, hplace]
  rfl

/-- A step to a name is taken whether or not something has that name. -/
theorem step_name (hplace : store.node? place = some .directory)
    (hidle : Path.isIdle name = false) (hup : name ≠ ['.', '.'])
    (hshort : byteSize name ≤ nameLimit) : store.step place name = .ok (place ++ [name]) := by
  rw [step, hplace]
  simp only [hidle, Bool.false_eq_true, if_false, if_neg hup, if_neg (Nat.not_lt.mpr hshort)]

end Steps

/-- A step from a directory stays there, goes up, or goes on to a name. -/
theorem step_eq_ok {place next : Location} {piece : List Char}
    (hstep : store.step place piece = .ok next) : store.node? place = some .directory ∧
      (Path.isIdle piece = true ∧ next = place ∨ piece = ['.', '.'] ∧ next = place.dropLast ∨
        Path.isIdle piece = false ∧ piece ≠ ['.', '.'] ∧ next = place ++ [piece]) := by
  unfold step at hstep
  split at hstep
  · cases hstep
  · cases hstep
  · rename_i hplace
    refine ⟨hplace, ?_⟩
    split at hstep
    · rename_i hidle
      exact Or.inl ⟨hidle, (Except.ok.inj hstep).symm⟩
    · rename_i hidle
      split at hstep
      · rename_i hup
        exact Or.inr (Or.inl ⟨hup, (Except.ok.inj hstep).symm⟩)
      · rename_i hup
        split at hstep
        · cases hstep
        · exact Or.inr (Or.inr ⟨eq_false_of_ne_true hidle, hup, (Except.ok.inj hstep).symm⟩)

theorem steps_cons {piece : List Char} {pieces : List (List Char)} {start place : Location} :
    (piece :: pieces).foldlM store.step start = .ok place ↔
      ∃ next, store.step start piece = .ok next ∧ pieces.foldlM store.step next = .ok place := by
  rw [List.foldlM_cons]
  cases store.step start piece with
  | error block =>
      constructor
      · nofun
      · rintro ⟨_, hnext, -⟩
        cases hnext
  | ok next =>
      constructor
      · exact fun h => ⟨next, rfl, h⟩
      · rintro ⟨_, hnext, h⟩
        cases hnext
        exact h

theorem steps_error {piece : List Char} {start : Location} {block : Block}
    (hstep : store.step start piece = .error block) (pieces : List (List Char)) :
    (piece :: pieces).foldlM store.step start = .error block := by
  rw [List.foldlM_cons, hstep]
  rfl

/-- A walk over some pieces and further ones passes the place in between. -/
theorem steps_append {front behind : List (List Char)} {start place : Location}
    (hsteps : (front ++ behind).foldlM store.step start = .ok place) :
    ∃ between, front.foldlM store.step start = .ok between ∧
      behind.foldlM store.step between = .ok place := by
  induction front generalizing start with
  | nil => exact ⟨start, rfl, hsteps⟩
  | cons piece front ih =>
      obtain ⟨next, hnext, hrest⟩ := steps_cons.mp hsteps
      obtain ⟨between, hfront, hbehind⟩ := ih hrest
      exact ⟨between, steps_cons.mpr ⟨next, hnext, hfront⟩, hbehind⟩

/-- Steps that end with a name end at that name, in the place before it. -/
theorem steps_name {front : List (List Char)} {name : List Char} {start place : Location}
    (hidle : Path.isIdle name = false) (hup : name ≠ ['.', '.'])
    (hsteps : (front ++ [name]).foldlM store.step start = .ok place) :
    ∃ between, front.foldlM store.step start = .ok between ∧ place = between ++ [name] := by
  obtain ⟨between, hfront, hlast⟩ := steps_append hsteps
  obtain ⟨_, hstep, hdone⟩ := steps_cons.mp hlast
  cases hdone
  refine ⟨between, hfront, ?_⟩
  obtain ⟨-, ⟨hidle', -⟩ | ⟨hup', -⟩ | ⟨-, -, hplace⟩⟩ := step_eq_ok hstep
  · rw [hidle] at hidle'
    cases hidle'
  · exact absurd hup' hup
  · exact hplace

/-- A walk ends at the name that its path ends in. -/
theorem getLast?_of_walk {path : Path} {place : Location} {last : List Char}
    (hwalk : store.walk path = .ok place) (hlast : path.pieces.getLast? = some last)
    (hidle : Path.isIdle last = false) (hup : last ≠ ['.', '.']) :
    place.getLast? = some last := by
  obtain ⟨front, hpieces⟩ := List.getLast?_eq_some_iff.mp hlast
  obtain ⟨-, -, hsteps⟩ := walk_eq_ok.mp hwalk
  rw [hpieces] at hsteps
  obtain ⟨between, -, rfl⟩ := steps_name hidle hup hsteps
  exact List.getLast?_concat

/-- Whatever is there is in a directory. -/
def IsTree (store : Store) : Prop :=
  ∀ place name, store.node? (place ++ [name]) ≠ none → store.node? place = some .directory

/-- Behind a place that is missing, the path does not step up again. -/
def KeepsOn (store : Store) (path : Path) : Prop :=
  ∀ front behind place, path.pieces = front ++ behind →
    front.foldlM store.step (store.startOf path) = .ok place → store.node? place = none →
      ['.', '.'] ∉ behind

theorem IsTree.node?_ne_none (htree : store.IsTree) {place : Location} (below : List (List Char))
    (h : store.node? (place ++ below) ≠ none) : store.node? place ≠ none := by
  induction below generalizing place with
  | nil => rwa [List.append_nil] at h
  | cons name below ih =>
      rw [List.append_cons] at h
      rw [htree place name (ih h)]
      nofun

/-- Steps that never go up end at or below the place they start from. -/
theorem steps_below {pieces : List (List Char)} {start place : Location}
    (hsteps : pieces.foldlM store.step start = .ok place) (hup : ['.', '.'] ∉ pieces) :
    ∃ below, place = start ++ below := by
  induction pieces generalizing start with
  | nil =>
      cases hsteps
      exact ⟨[], (List.append_nil _).symm⟩
  | cons piece pieces ih =>
      obtain ⟨next, hnext, hrest⟩ := steps_cons.mp hsteps
      rw [List.mem_cons, not_or] at hup
      obtain ⟨below, rfl⟩ := ih hrest hup.2
      obtain ⟨-, ⟨-, rfl⟩ | ⟨hback, -⟩ | ⟨-, -, rfl⟩⟩ := step_eq_ok hnext
      · exact ⟨below, rfl⟩
      · exact absurd hback.symm hup.1
      · exact ⟨piece :: below, List.append_assoc ..⟩

/-- Steps that are possible after some directories were made were possible
before, or they come to a place that was missing. -/
theorem steps_before {after : Store}
    (hfiles : ∀ place data, store.node? place = some (.file data) →
      ∃ found, after.node? place = some (.file found))
    {pieces : List (List Char)} {start place : Location}
    (hsteps : pieces.foldlM after.step start = .ok place) :
    pieces.foldlM store.step start = .ok place ∨
      ∃ front behind between, pieces = front ++ behind ∧
        front.foldlM store.step start = .ok between ∧ store.node? between = none ∧
        behind.foldlM after.step between = .ok place := by
  induction pieces generalizing start with
  | nil => exact Or.inl hsteps
  | cons piece pieces ih =>
      obtain ⟨next, hnext, hrest⟩ := steps_cons.mp hsteps
      have hdirectory := (step_eq_ok hnext).1
      cases hnode : store.node? start with
      | none => exact Or.inr ⟨[], piece :: pieces, start, rfl, rfl, hnode, hsteps⟩
      | some node =>
          cases node with
          | file data =>
              obtain ⟨found, hfound⟩ := hfiles start data hnode
              rw [hfound] at hdirectory
              cases hdirectory
          | directory =>
              have hstep : store.step start piece = .ok next := by
                rw [← hnext, step, step, hnode, hdirectory]
              rcases ih hrest with hall | ⟨front, behind, between, rfl, hfront, hnone, hbehind⟩
              · exact Or.inl (steps_cons.mpr ⟨next, hstep, hall⟩)
              · exact Or.inr ⟨piece :: front, behind, between, rfl,
                  steps_cons.mpr ⟨next, hstep, hfront⟩, hnone, hbehind⟩

/-- A path that keeps on leads to something that was there before only if it
led there before. -/
theorem walk_before {after : Store} (htree : store.IsTree) {path : Path}
    (hkeeps : store.KeepsOn path) (hhome : after.home = store.home)
    (hfiles : ∀ place data, store.node? place = some (.file data) →
      ∃ found, after.node? place = some (.file found))
    {place : Location} (hwalk : after.walk path = .ok place) (hplace : store.node? place ≠ none) :
    store.walk path = .ok place := by
  obtain ⟨hempty, hlimit, hsteps⟩ := walk_eq_ok.mp hwalk
  have hstart : after.startOf path = store.startOf path := by
    rw [startOf, startOf, hhome]
  rw [hstart] at hsteps
  rcases steps_before hfiles hsteps with hbefore |
    ⟨front, behind, between, hpieces, hfront, hnone, hbehind⟩
  · exact walk_eq_ok.mpr ⟨hempty, hlimit, hbefore⟩
  · have hup := hkeeps front behind between hpieces hfront hnone
    obtain ⟨below, rfl⟩ := steps_below hbehind hup
    exact absurd hnone (htree.node?_ne_none below hplace)

end Store

end Unveil
