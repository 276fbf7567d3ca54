import Mathlib.Logic.Relation
import Unveil.Proofs.Module.Standing

/-!
Types that would lie in themselves. A search fails only when it meets a type that
it is under way from, and the types it has passed since lead around in a circle.
Where no search fails every type has a depth, one more than the type around it,
so there is no circle. Together with the rows that put a type into itself at once
this says exactly when there is no forest.
-/

namespace Unveil

namespace Nesting

open Logged
open Relation (TransGen)

section Search

variable {types : Array TypeDecl} {parents : Array (Option Nat)}

/-- A type lies in another. -/
def Lies (parents : Array (Option Nat)) (inner outer : Nat) : Prop :=
  parents[inner]? = some (some outer)

/-- From every type of a path the way leads out of it. -/
theorem Inwards.leads {path : List Nat} {current node : Nat}
    (h : Inwards parents path (some current)) (hmem : node ∈ path) :
    TransGen (Lies parents) node current := by
  induction path generalizing current with
  | nil => cases hmem
  | cons first path ih =>
      obtain ⟨hparent, hothers⟩ := h
      rcases List.mem_cons.mp hmem with rfl | hlater
      · exact .single hparent
      · exact (ih hothers hlater).tail hparent

/-- What a search comes to: a result, or the type by which a circle was noticed. -/
def Goes {α : Type} (parents : Array (Option Nat)) (result : Except Fault α) : Prop :=
  (∃ value, result = .ok value) ∨
    ∃ token node, result = .error (.malformed (.nestingCycle token)) ∧
      TransGen (Lies parents) node node

theorem Goes.bind {α β : Type} {result : Except Fault α} {next : α → Except Fault β}
    (h : Goes parents result) (hnext : ∀ value, result = .ok value → Goes parents (next value)) :
    Goes parents (result >>= next) := by
  rcases h with ⟨value, rfl⟩ | ⟨token, node, rfl, hcircle⟩
  · exact hnext value rfl
  · exact Or.inr ⟨token, node, rfl, hcircle⟩

theorem goes_climb {before visits : Array Visit} {path : List Nat} {current : Option Nat}
    (hidle : ∀ node : Nat, before[node]? ≠ some .active) (htypes : types.size = before.size)
    (hparents : parents.size = before.size)
    (hinside : ∀ inner outer : Nat, Lies parents inner outer → outer < before.size)
    (hclimbing : Climbing before visits path) (hinwards : Inwards parents path current)
    (hcurrent : ∀ node, current = some node → node < before.size) :
    Goes parents (climb types parents visits path current) := by
  -- A type under way lies on the path, from where the way has led back to it.
  fun_induction climb types parents visits path current with
  | case1 visits path => exact Or.inl ⟨_, rfl⟩
  | case2 visits path node inside depth hdone => exact Or.inl ⟨_, rfl⟩
  | case3 visits path node inside hactive token htoken =>
      have hvisit := hclimbing.visit_eq node
      rw [Array.getElem?_eq_getElem inside, hactive] at hvisit
      split at hvisit
      · rename_i hmem
        exact Or.inr ⟨token, node, rfl, hinwards.leads hmem⟩
      · exact absurd hvisit.symm (hidle node)
  | case4 visits path node inside hactive fault hfault =>
      rw [tokenAt, itemAt_of_lt (htypes ▸ hcurrent node rfl)] at hfault
      cases hfault
  | case5 visits path node inside hpending parent hparent ih =>
      refine ih (hclimbing.push inside hpending) ⟨itemAt_eq_ok.mp hparent, hinwards⟩ ?_
      rintro outer rfl
      exact hinside node outer (itemAt_eq_ok.mp hparent)
  | case6 visits path node inside hpending fault hfault =>
      rw [itemAt_of_lt (hparents ▸ hcurrent node rfl)] at hfault
      cases hfault
  | case7 visits path node outside =>
      exact absurd (hclimbing.size_eq ▸ hcurrent node rfl) outside

theorem goes_explore {before : Array Visit} {start : Nat} (hsettled : Settled parents before)
    (htypes : types.size = before.size) (hparents : parents.size = before.size)
    (hinside : ∀ inner outer : Nat, Lies parents inner outer → outer < before.size)
    (hstart : start < before.size) : Goes parents (explore types parents before start) := by
  have hbegin : Climbing before before [] := ⟨List.nodup_nil, by simp, by simp⟩
  refine (goes_climb hsettled.idle htypes hparents hinside hbegin trivial ?_).bind ?_
  · rintro node ⟨⟩
    exact hstart
  · intro found _
    exact Or.inl ⟨_, rfl⟩

theorem goes_foldlM_explore {starts : List Nat} {before : Array Visit}
    (hsettled : Settled parents before) (htypes : types.size = before.size)
    (hparents : parents.size = before.size)
    (hinside : ∀ inner outer : Nat, Lies parents inner outer → outer < before.size)
    (hstarts : ∀ start ∈ starts, start < before.size) :
    Goes parents (starts.foldlM (explore types parents) before) := by
  induction starts generalizing before with
  | nil => exact Or.inl ⟨before, rfl⟩
  | cons start starts ih =>
      rw [List.foldlM_cons]
      have hfirst := hstarts start (List.mem_cons_self ..)
      refine (goes_explore hsettled htypes hparents hinside hfirst).bind fun next hnext => ?_
      obtain ⟨base, path, outer, hexplored⟩ := explored_of_explore hnext
      have hsize := hexplored.size_eq
      refine ih (hexplored.settled_after hsettled) (htypes.trans hsize.symm)
        (hparents.trans hsize.symm) ?_ ?_
      · intro inner around hlies
        rw [hsize]
        exact hinside inner around hlies
      · intro other hother
        rw [hsize]
        exact hstarts other (List.mem_cons_of_mem _ hother)

theorem goes_depths (htypes : types.size = parents.size)
    (hinside : ∀ inner outer : Nat, Lies parents inner outer → outer < parents.size) :
    Goes parents (depths types parents) := by
  refine Goes.bind ?_ fun visits _ => Or.inl ⟨_, rfl⟩
  apply goes_foldlM_explore (settled_replicate _)
  · rw [Array.size_replicate, htypes]
  · rw [Array.size_replicate]
  · intro inner outer hlies
    rw [Array.size_replicate]
    exact hinside inner outer hlies
  · intro start hstart
    rw [Array.size_replicate]
    exact List.mem_range.mp hstart

/-- Where every type has a depth, the way out of a type never leads back to it. -/
theorem depth_lt_of_leads {found : Array Nat} (h : depths types parents = .ok found)
    {inner outer : Nat} (hleads : TransGen (Lies parents) inner outer) :
    found.getD outer 0 < found.getD inner 0 := by
  induction hleads with
  | single hlies => exact (depths_lt h hlies).2
  | tail _ hlies ih => exact Nat.lt_trans (depths_lt h hlies).2 ih

end Search

variable {types : List TypeDecl} {rows : List (Entry NestingRow)} {links : Links}
  {row : Entry NestingRow}

/-- A row that puts a type into itself. -/
def PutsIntoItself (count : Nat) (row : Entry NestingRow) : Prop :=
  ∃ index, indexOf? count row.row.nested = some index ∧
    indexOf? count row.row.enclosing = some index

/-- Some row puts a type into itself, or the way from a type to the types around it
leads back to it. -/
def Circular (count : Nat) (rows : List (Entry NestingRow)) : Prop :=
  (∃ row ∈ rows, PutsIntoItself count row) ∨
    ∃ index, TransGen (fun inner outer => parent? count rows inner = some outer) index index

theorem tokenAt_of_lt {types : Array TypeDecl} {index : Nat} (h : index < types.size) :
    tokenAt types index = .ok types[index].token := by
  rw [tokenAt, itemAt_of_lt h]
  rfl

theorem link_of_self (h : PutsIntoItself links.types.size row) :
    ∃ token, linkSilently links row = .error (.malformed (.selfNested token)) := by
  obtain ⟨index, hnested, henclosing⟩ := h
  have hinside : index < links.types.size := indexOf?_lt hnested
  refine ⟨links.types[index].token, ?_⟩
  simp only [linkSilently, hnested, henclosing, tokenAt_of_lt hinside, ↓reduceIte]
  rfl

theorem Linked.exists_link (h : Linked types rows links)
    (hother : ¬ PutsIntoItself types.length row) :
    ∃ links', linkSilently links row = .ok links' := by
  have hsize := h.types_size
  have htoken {index : Nat} (hindex : index < types.length) :
      ∃ token, tokenAt links.types index = .ok token :=
    ⟨_, tokenAt_of_lt (hsize.symm ▸ hindex)⟩
  cases hnested : indexOf? types.length row.row.nested with
  | none =>
      cases henclosing : indexOf? types.length row.row.enclosing with
      | none => exact ⟨links, by simp only [linkSilently, hsize, hnested, henclosing]; rfl⟩
      | some enclosing =>
          obtain ⟨token, htoken⟩ := htoken (indexOf?_lt henclosing)
          simp only [linkSilently, hsize, hnested, henclosing, htoken]
          exact ⟨_, rfl⟩
  | some nested =>
      obtain ⟨token, hfirst⟩ := htoken (indexOf?_lt hnested)
      cases henclosing : indexOf? types.length row.row.enclosing with
      | none =>
          simp only [linkSilently, hsize, hnested, henclosing, hfirst]
          exact ⟨_, rfl⟩
      | some enclosing =>
          have hdiffers : nested ≠ enclosing := by
            rintro rfl
            exact hother ⟨nested, hnested, henclosing⟩
          have hparent := itemAt_eq_ok.mpr (h.parent_eq (indexOf?_lt hnested))
          simp only [linkSilently, hsize, hnested, henclosing, hfirst, Except.ok_bind,
            if_neg hdiffers, hparent]
          cases hplaced : parent? types.length rows nested with
          | none => exact ⟨_, rfl⟩
          | some existing =>
              obtain ⟨kept, hkept⟩ := htoken (parent?_lt hplaced)
              obtain ⟨dropped, hdropped⟩ := htoken (indexOf?_lt henclosing)
              simp only [hkept, hdropped]
              exact ⟨_, rfl⟩

/-- The rows are taken in one after the other unless one puts a type into itself. -/
theorem Linked.links_cases (h : Linked types rows links) (others : List (Entry NestingRow)) :
    ((∃ row ∈ others, PutsIntoItself types.length row) ∧
      ∃ token, others.foldlM linkSilently links = .error (.malformed (.selfNested token))) ∨
    (¬ (∃ row ∈ others, PutsIntoItself types.length row) ∧
      ∃ links', others.foldlM linkSilently links = .ok links') := by
  induction others generalizing rows links with
  | nil => exact Or.inr ⟨by simp, links, rfl⟩
  | cons row others ih =>
      rw [List.foldlM_cons]
      by_cases hself : PutsIntoItself types.length row
      · have hself' : PutsIntoItself links.types.size row := by rwa [h.types_size]
        obtain ⟨token, herror⟩ := link_of_self hself'
        rw [herror]
        exact Or.inl ⟨⟨row, List.mem_cons_self .., hself⟩, token, rfl⟩
      · obtain ⟨next, hnext⟩ := h.exists_link hself
        rw [hnext, Except.ok_bind]
        have hsame : (∃ other ∈ row :: others, PutsIntoItself types.length other) ↔
            ∃ other ∈ others, PutsIntoItself types.length other := by
          simp [hself]
        rw [hsame]
        exact ih (h.link hnext)

/-- There is a forest unless the rows lead around in a circle. -/
theorem build_cases (types : List TypeDecl) (rows : List (Entry NestingRow)) :
    (Circular types.length rows ∧
      ∃ defect, buildSilently types rows = .error (.malformed defect)) ∨
    (¬ Circular types.length rows ∧ ∃ links found forest,
      rows.foldlM linkSilently (Links.ofTypes types) = .ok links ∧ Linked types rows links ∧
      depths links.types links.parents = .ok found ∧
      buildSilently types rows = .ok forest) := by
  rcases (linked_ofTypes types).links_cases rows with
    ⟨hself, token, herror⟩ | ⟨hother, links, hlinks⟩
  · refine Or.inl ⟨Or.inl hself, .selfNested token, ?_⟩
    rw [buildSilently, herror]
    rfl
  have hlinked := linked_of_foldlM hlinks
  have hsame : Lies links.parents =
      fun inner outer => parent? types.length rows inner = some outer :=
    funext fun inner => funext fun outer => propext hlinked.lies_iff
  have hsizes : links.types.size = links.parents.size := by
    rw [hlinked.types_size, hlinked.parents_size]
  have hgoes : Goes links.parents (depths links.types links.parents) := by
    apply goes_depths hsizes
    intro inner outer hlies
    rw [hlinked.parents_size]
    exact parent?_lt (hlinked.lies_iff.mp hlies)
  have hbuild : buildSilently types rows = assembleCopying links := by
    rw [buildSilently, hlinks]
    rfl
  rcases hgoes with ⟨found, hfound⟩ | ⟨token, node, herror, hcircle⟩
  · refine Or.inr ⟨?_, ?_⟩
    · rintro (hself | ⟨node, hcircle⟩)
      · exact hother hself
      · rw [← hsame] at hcircle
        exact Nat.lt_irrefl _ (depth_lt_of_leads hfound hcircle)
    · obtain ⟨forest, _, hforest, -⟩ := hlinked.exists_forest hfound
      exact ⟨links, found, forest, hlinks, hlinked, hfound, hbuild.trans hforest⟩
  · refine Or.inl ⟨Or.inr ⟨node, hsame ▸ hcircle⟩, .nestingCycle token, ?_⟩
    rw [hbuild, assembleCopying, herror]
    rfl

/-- A nesting is rejected as malformed exactly if it is circular. Otherwise there is a
forest, and every type has been given its depth: zero without a parent, and one more
than its parent's with one. -/
theorem rejects_circles (types : List TypeDecl) (rows : List (Entry NestingRow))
    (journal : Journal) :
    ((∃ defect after, build types rows journal = .error (.malformed defect) after) ↔
      Circular types.length rows) ∧
    (¬ Circular types.length rows → ∃ links between found forest after,
      rows.foldlM link (Links.ofTypes types) journal = .ok links between ∧
      depths links.types links.parents = .ok found ∧
      build types rows journal = .ok forest after ∧ found.size = types.length ∧
      ∀ index < types.length, found[index]? = some
        (match parent? types.length rows index with
          | none => 0
          | some outer => found.getD outer 0 + 1)) := by
  have hyields := yields_build types rows
  have hyieldsLinks : Yields (rows.foldlM link (Links.ofTypes types))
      (rows.foldlM linkSilently (Links.ofTypes types)) :=
    yields_foldlM yields_link (Links.ofTypes types)
  rcases build_cases types rows with
    ⟨hcircular, defect, herror⟩ | ⟨hcircular, links, found, forest, hlinks, hlinked, hfound, hforest⟩
  · refine ⟨?_, absurd hcircular⟩
    obtain ⟨after, hbuild⟩ := hyields.error_iff.mpr herror
    exact iff_of_true ⟨defect, after, hbuild⟩ hcircular
  · obtain ⟨after, hbuild⟩ := hyields.ok_iff.mpr hforest
    refine ⟨iff_of_false ?_ hcircular, fun _ => ?_⟩
    · rintro ⟨defect, after', herror⟩
      rw [hbuild] at herror
      cases herror
    obtain ⟨between, hbetween⟩ := hyieldsLinks.ok_iff.mpr hlinks
    obtain ⟨hsize, hexact⟩ := depths_exact hfound
    refine ⟨links, between, found, forest, after, hbetween, hfound, hbuild,
      hsize.trans hlinked.parents_size, fun index hindex => ?_⟩
    have hdepth := hexact index _ (hlinked.parent_eq hindex)
    cases hparent : parent? types.length rows index with
    | none =>
        rw [hparent] at hdepth
        exact hdepth
    | some outer =>
        rw [hparent] at hdepth
        obtain ⟨depth, houter, hinner⟩ := hdepth
        simp only [hinner, Array.getD_eq_getD_getElem?, houter, Option.getD_some]

/-- Three types, each in the next and the last in the first. -/
def detourRows : List (Entry NestingRow) :=
  [⟨1, 0, ⟨1, 2⟩⟩, ⟨2, 0, ⟨2, 3⟩⟩, ⟨3, 0, ⟨3, 1⟩⟩]

/-- The detour is rejected, and of the sample the innermost type lies two levels
deep. -/
theorem rejects_circles_sample :
    Circular 5 detourRows ∧
      (∃ defect after, build sampleTypes detourRows #[] = .error (.malformed defect) after) ∧
      ¬ Circular 5 sampleRows ∧ ∃ (links : Links) (found : Array Nat),
        depths links.types links.parents = .ok found ∧ found[0]? = some 1 ∧ found[1]? = some 2 := by
  have hdetour : Circular 5 detourRows := by
    refine Or.inr ⟨0, ?_⟩
    let leads : Nat → Nat → Prop := fun inner outer => parent? 5 detourRows inner = some outer
    have hfirst : leads 0 1 := by decide
    have hsecond : leads 1 2 := by decide
    have hthird : leads 2 0 := by decide
    exact ((TransGen.single hfirst).tail hsecond).tail hthird
  obtain ⟨hrejects, -⟩ := rejects_circles sampleTypes detourRows #[]
  obtain ⟨hiff, hdepths⟩ := rejects_circles sampleTypes sampleRows #[]
  obtain ⟨after, hbuild⟩ := build_sample
  have hsample : ¬ Circular 5 sampleRows := by
    intro hcircular
    obtain ⟨defect, after', herror⟩ := hiff.mpr hcircular
    rw [hbuild] at herror
    cases herror
  obtain ⟨links, _, found, _, _, -, hfound, -, -, hexact⟩ := hdepths hsample
  have hthird : found[2]? = some 0 := hexact 2 (by decide)
  have hfirst : found[0]? = some (found.getD 2 0 + 1) := hexact 0 (by decide)
  have hsecond : found[1]? = some (found.getD 0 0 + 1) := hexact 1 (by decide)
  simp only [Array.getD_eq_getD_getElem?, hthird, Option.getD_some] at hfirst
  simp only [Array.getD_eq_getD_getElem?, hfirst, Option.getD_some] at hsecond
  exact ⟨hdetour, hrejects.mpr hdetour, hsample, links, found, hfound, hfirst, hsecond⟩

end Nesting

end Unveil
