import Unveil.Proofs.Store.Walks

namespace Unveil

namespace Pieces

variable {Letter : Type} [DecidableEq Letter] {separator : Letter}

/-- Pieces put together are cut where they were put together. -/
theorem split_join {pieces : List (List Letter)} (hsome : pieces ≠ [])
    (hunbroken : ∀ piece ∈ pieces, separator ∉ piece) :
    split separator (join separator pieces) = pieces := by
  induction pieces with
  | nil => exact absurd rfl hsome
  | cons piece pieces ih =>
      have hpiece := hunbroken piece (List.mem_cons_self ..)
      cases pieces with
      | nil => exact split_unbroken hpiece
      | cons next others =>
          rw [join, split_append hpiece, ih (List.cons_ne_nil _ _)]
          · exact fun other hother => hunbroken other (List.mem_cons_of_mem _ hother)
          · exact List.cons_ne_nil _ _

end Pieces

namespace Path

variable {path base : Path} {name : List Char}

/-- The pieces that lead on. -/
def leading (pieces : List (List Char)) : List (List Char) := pieces.filter (!isIdle ·)

theorem leading_append (front behind : List (List Char)) :
    leading (front ++ behind) = leading front ++ leading behind :=
  List.filter_append ..

theorem leading_reverse (pieces : List (List Char)) :
    leading pieces.reverse = (leading pieces).reverse :=
  List.filter_reverse ..

/-- Trimming leaves out idle pieces, but never the first piece of a path. -/
theorem exists_trim (pieces : List (List Char)) :
    ∃ idle, pieces = idle ++ trim pieces ∧ ∀ piece ∈ idle, isIdle piece = true := by
  fun_induction trim pieces with
  | case1 => exact ⟨[], rfl, List.forall_mem_nil _⟩
  | case2 first => exact ⟨[], rfl, List.forall_mem_nil _⟩
  | case3 piece above _ hpiece ih =>
      obtain ⟨idle, habove, hidle⟩ := ih
      refine ⟨piece :: idle, by rw [List.cons_append, ← habove], fun other hother => ?_⟩
      rcases List.mem_cons.mp hother with rfl | hother
      · exact hpiece
      · exact hidle other hother
  | case4 piece above _ _ => exact ⟨[], rfl, List.forall_mem_nil _⟩

theorem leading_idle {idle : List (List Char)} (h : ∀ piece ∈ idle, isIdle piece = true) :
    leading idle = [] := by
  rw [leading, List.filter_eq_nil_iff]
  intro piece hpiece
  rw [h piece hpiece]
  exact Bool.false_ne_true

theorem leading_trim (pieces : List (List Char)) : leading (trim pieces) = leading pieces := by
  obtain ⟨idle, hpieces, hidle⟩ := exists_trim pieces
  calc leading (trim pieces) = leading idle ++ leading (trim pieces) := by
        rw [leading_idle hidle, List.nil_append]
    _ = leading pieces := by rw [← leading_append, ← hpieces]

theorem getLast?_trim (pieces : List (List Char)) : (trim pieces).getLast? = pieces.getLast? := by
  fun_induction trim pieces with
  | case1 => rfl
  | case2 first => rfl
  | case3 piece above habove _ ih =>
      obtain ⟨next, others, rfl⟩ := List.exists_cons_of_ne_nil habove
      rw [ih, List.getLast?_cons_cons]
  | case4 piece above _ _ => rfl

/-- A path that ends in a name, cut at that name. -/
theorem pieces_of_fileName? (h : path.fileName? = some name) :
    ∃ front idle, path.pieces = front ++ name :: idle ∧ isIdle name = false ∧
      name ≠ ['.', '.'] ∧ (∀ piece ∈ idle, isIdle piece = true) ∧
      path.parent? = some (ofReversed (trim front.reverse)) := by
  obtain ⟨idle, hpieces, hidle⟩ := exists_trim path.pieces.reverse
  unfold fileName? at h
  cases htrim : trim path.pieces.reverse with
  | nil =>
      rw [htrim] at h
      cases h
  | cons last above =>
      rw [htrim] at h hpieces
      simp only [Option.ite_none_left_eq_some, Option.some.injEq, Bool.or_eq_true, beq_iff_eq,
        not_or, Bool.not_eq_true] at h
      obtain ⟨⟨hlast, hup⟩, rfl⟩ := h
      refine ⟨above.reverse, idle.reverse, ?_, hlast, hup, ?_, ?_⟩
      · rw [← List.reverse_reverse path.pieces, hpieces, List.reverse_append, List.reverse_cons,
          List.append_assoc]
        rfl
      · exact fun piece hpiece => hidle piece (List.mem_reverse.mp hpiece)
      · unfold parent?
        rw [htrim, List.reverse_reverse]
        split
        · rename_i hnone
          cases hnone
        · rename_i hroot
          cases hroot
          cases hlast
        · rename_i hcons
          cases hcons
          rfl

theorem pieces_ofReversed {reversed : List (List Char)} (hsome : reversed ≠ [])
    (hroot : reversed ≠ [[]]) (hslash : ∀ piece ∈ reversed, '/' ∉ piece) :
    (ofReversed reversed).pieces = reversed.reverse := by
  have hjoined : ofReversed reversed = ⟨Pieces.join '/' reversed.reverse⟩ := by
    unfold ofReversed
    split
    · exact absurd rfl hroot
    · rfl
  rw [hjoined]
  apply Pieces.split_join
  · exact List.reverse_ne_nil_iff.mpr hsome
  · exact fun piece hpiece => hslash piece (List.mem_reverse.mp hpiece)

/-- An absolute path has an empty piece in front of others. -/
theorem isAbsolute_iff :
    path.isAbsolute = true ↔ path.pieces.head? = some [] ∧ path.pieces.length ≠ 1 := by
  obtain ⟨letters⟩ := path
  cases letters with
  | nil => exact ⟨nofun, fun h => absurd rfl h.2⟩
  | cons letter letters =>
      obtain ⟨piece, pieces, hsplit⟩ :=
        List.exists_cons_of_ne_nil (Pieces.split_ne_nil '/' letters)
      have hpieces : (Path.mk (letter :: letters)).pieces =
          if letter = '/' then [] :: piece :: pieces else (letter :: piece) :: pieces := by
        rw [Path.pieces, Pieces.split, hsplit]
      rw [hpieces, isAbsolute, List.head?_cons, beq_iff_eq, Option.some.injEq]
      split
      · rename_i hslash
        simp [hslash]
      · rename_i hslash
        simp [hslash]

/-- What the directory of a path is, where pieces stand before the path's name. -/
theorem ofReversed_trim {front : List (List Char)} (hsome : front ≠ [])
    (hslash : ∀ piece ∈ front, '/' ∉ piece) :
    (ofReversed (trim front.reverse)).isEmpty = false ∧
      ((ofReversed (trim front.reverse)).isAbsolute = true ↔ front.head? = some []) ∧
      leading (ofReversed (trim front.reverse)).pieces = leading front := by
  have hlast : (trim front.reverse).getLast? = front.head? := by
    rw [getLast?_trim, List.getLast?_reverse]
  have hleading : leading (trim front.reverse) = (leading front).reverse := by
    rw [leading_trim, leading_reverse]
  have hunbroken : ∀ piece ∈ trim front.reverse, '/' ∉ piece :=
    fun piece hpiece => hslash piece (List.mem_reverse.mp (mem_of_mem_trim hpiece))
  generalize trim front.reverse = reversed at hlast hleading hunbroken
  by_cases hroot : reversed = [[]]
  · subst hroot
    have hnone : leading front = [] := List.reverse_eq_nil_iff.mp hleading.symm
    exact ⟨rfl, ⟨fun _ => hlast.symm, fun _ => rfl⟩, hnone.symm⟩
  · have hreversed : reversed ≠ [] := by
      rintro rfl
      exact hsome (List.head?_eq_none_iff.mp hlast.symm)
    have hpieces := pieces_ofReversed hreversed hroot hunbroken
    refine ⟨?_, ?_, ?_⟩
    · rw [← Bool.not_eq_true]
      intro hempty
      rw [Path.pieces, List.isEmpty_iff.mp hempty] at hpieces
      exact hroot (List.reverse_eq_iff.mp hpieces.symm)
    · rw [isAbsolute_iff, hpieces, List.head?_reverse, hlast, List.length_reverse]
      refine and_iff_left_of_imp fun hfirst hone => ?_
      obtain ⟨piece, rfl⟩ := List.length_eq_one_iff.mp hone
      rw [← hlast] at hfirst
      exact hroot (congrArg ([·]) (Option.some.inj hfirst))
    · rw [hpieces, leading_reverse, hleading, List.reverse_reverse]

/-- The directory of a path, where the path's name is cut off. It leads on as the
pieces before the name do, from where these start. -/
theorem directory_of_pieces {front idle : List (List Char)}
    (hpieces : path.pieces = front ++ name :: idle) (hname : isIdle name = false)
    (hparent : path.parent? = some (ofReversed (trim front.reverse))) :
    path.directory.isEmpty = false ∧ path.directory.isAbsolute = path.isAbsolute ∧
      leading path.directory.pieces = leading front := by
  have hslash : ∀ piece ∈ front, '/' ∉ piece := by
    intro piece hpiece
    have hmem : piece ∈ path.pieces := by
      rw [hpieces]
      exact List.mem_append_left _ hpiece
    exact Pieces.not_mem_of_mem_split hmem
  unfold directory
  rw [hparent]
  cases front with
  | nil =>
      have hrelative : path.isAbsolute = false := by
        rw [← Bool.not_eq_true, isAbsolute_iff, hpieces]
        rintro ⟨hfirst, -⟩
        cases hfirst
        cases hname
      exact ⟨rfl, hrelative.symm, rfl⟩
  | cons first others =>
      obtain ⟨hempty, habsolute, hleading⟩ :=
        ofReversed_trim (List.cons_ne_nil first others) hslash
      simp only [hempty, Bool.false_eq_true, if_false]
      refine ⟨trivial, ?_, hleading⟩
      rw [Bool.eq_iff_iff, habsolute, isAbsolute_iff, hpieces]
      simp

/-- A name in a directory that a path leads to, piece by piece. -/
theorem leading_join (hbase : base.isEmpty = false) (hslash : '/' ∉ name) :
    (base.join ⟨name⟩).isAbsolute = base.isAbsolute ∧
      ∃ front, (base.join ⟨name⟩).pieces = front ++ [name] ∧ leading front = leading base.pieces := by
  have hrelative : (Path.mk name).isAbsolute = false := by
    rw [isAbsolute, beq_eq_false_iff_ne]
    exact fun habsolute => hslash (List.mem_of_head? habsolute)
  obtain ⟨letters⟩ := base
  obtain ⟨first, others, rfl⟩ : ∃ first others, letters = first :: others := by
    cases letters with
    | nil => cases hbase
    | cons first others => exact ⟨first, others, rfl⟩
  rw [join, hrelative, if_neg Bool.false_ne_true, hbase, Bool.false_or]
  split
  · rename_i hend
    obtain ⟨front, hfront⟩ := List.getLast?_eq_some_iff.mp (beq_iff_eq.mp hend)
    refine ⟨rfl, Pieces.split '/' front, ?_, ?_⟩
    · simp only at hfront ⊢
      rw [Path.pieces, hfront, List.append_assoc, List.singleton_append, Pieces.split_joined,
        Pieces.split_unbroken hslash]
    · have hpieces : (Path.mk (first :: others)).pieces = Pieces.split '/' front ++ [[]] := by
        simp only at hfront
        rw [Path.pieces, hfront, Pieces.split_joined]
        rfl
      rw [hpieces, leading_append]
      exact (List.append_nil _).symm
  · refine ⟨rfl, (Path.mk (first :: others)).pieces, ?_, rfl⟩
    rw [Path.pieces, Pieces.split_joined, Pieces.split_unbroken hslash]
    rfl

end Path

namespace Store

variable {store : Store} {path : Path} {name sibling : List Char}

/-- An idle piece before others does not matter: where there is no directory to stay in,
there is none to go on from. -/
theorem steps_idle {piece : List Char} {rest : List (List Char)} (hidle : Path.isIdle piece = true)
    (hrest : rest ≠ []) (start : Location) :
    (piece :: rest).foldlM store.step start = rest.foldlM store.step start := by
  obtain ⟨next, others, rfl⟩ := List.exists_cons_of_ne_nil hrest
  cases hstart : store.node? start with
  | none => rw [steps_error (step_missing hstart _), steps_error (step_missing hstart _)]
  | some node =>
      cases node with
      | file data => rw [steps_error (step_file hstart _), steps_error (step_file hstart _)]
      | directory =>
          rw [List.foldlM_cons, step_idle hstart hidle]
          rfl

/-- Only the pieces that lead on decide where steps end, if a further one follows. -/
theorem steps_leading (front : List (List Char)) (last : List Char) (start : Location) :
    (front ++ [last]).foldlM store.step start =
      (Path.leading front ++ [last]).foldlM store.step start := by
  induction front generalizing start with
  | nil => rfl
  | cons piece front ih =>
      cases hidle : Path.isIdle piece with
      | true =>
          have hleading : Path.leading (piece :: front) = Path.leading front :=
            List.filter_cons_of_neg (by simp [hidle])
          rw [hleading, ← ih]
          apply steps_idle hidle
          simp
      | false =>
          have hleading : Path.leading (piece :: front) = piece :: Path.leading front :=
            List.filter_cons_of_pos (by simp [hidle])
          rw [hleading, List.cons_append, List.cons_append, List.foldlM_cons, List.foldlM_cons]
          exact congrArg (store.step start piece >>= ·) (funext ih)

theorem steps_stay {idle : List (List Char)} (hidle : ∀ piece ∈ idle, Path.isIdle piece = true)
    {start place : Location} (hsteps : idle.foldlM store.step start = .ok place) :
    place = start := by
  induction idle generalizing start with
  | nil =>
      cases hsteps
      rfl
  | cons piece idle ih =>
      obtain ⟨next, hnext, hrest⟩ := steps_cons.mp hsteps
      have hpiece := hidle piece (List.mem_cons_self ..)
      have hothers := ih (fun other hother => hidle other (List.mem_cons_of_mem _ hother)) hrest
      obtain ⟨-, ⟨-, rfl⟩ | ⟨rfl, -⟩ | ⟨hname, -, -⟩⟩ := step_eq_ok hnext
      · exact hothers
      · cases hpiece
      · rw [hpiece] at hname
        cases hname

/-- The directory of a path leads to where the path's last step is taken, so that
another name there stands next to the path's own. -/
theorem walk_sibling {place next : Location} (hname : path.fileName? ≠ none)
    (hslash : '/' ∉ sibling) (hidle : Path.isIdle sibling = false) (hup : sibling ≠ ['.', '.'])
    (hwalk : store.walk path = .ok place)
    (hnext : store.walk (path.directory.join ⟨sibling⟩) = .ok next) :
    next = place.dropLast ++ [sibling] := by
  obtain ⟨name, hname⟩ := Option.ne_none_iff_exists'.mp hname
  obtain ⟨front, idle, hpieces, hstep, hback, hstay, hparent⟩ := Path.pieces_of_fileName? hname
  obtain ⟨hempty, habsolute, hleading⟩ := Path.directory_of_pieces hpieces hstep hparent
  obtain ⟨habsolute', front', hpieces', hleading'⟩ := Path.leading_join hempty hslash
  have hstart : store.startOf (path.directory.join ⟨sibling⟩) = store.startOf path := by
    rw [startOf, habsolute', habsolute]
    rfl
  obtain ⟨-, -, hsteps⟩ := walk_eq_ok.mp hwalk
  obtain ⟨-, -, hsteps'⟩ := walk_eq_ok.mp hnext
  rw [hpieces, List.append_cons] at hsteps
  rw [hpieces', hstart, steps_leading, hleading', hleading, ← steps_leading] at hsteps'
  obtain ⟨last, hlast, hbehind⟩ := steps_append hsteps
  obtain rfl := steps_stay hstay hbehind
  obtain ⟨between, hfront, rfl⟩ := steps_name hstep hback hlast
  obtain ⟨between', hfront', rfl⟩ := steps_name hidle hup hsteps'
  obtain rfl : between = between' := Except.ok.inj (hfront.symm.trans hfront')
  rw [List.dropLast_concat]

end Store

end Unveil
