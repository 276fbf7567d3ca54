import Unveil.Module.Nesting
import Unveil.Proofs.Outcome

namespace Unveil

namespace Nesting

variable {types : Array TypeDecl} {parents : Array (Option Nat)}

/-- Each type of the path lies in the one before it, and the first in `outer`
if that is a type. -/
def Inwards (parents : Array (Option Nat)) : (path : List Nat) → (outer : Option Nat) → Prop
  | [], _ => True
  | node :: path, outer => parents[node]? = some outer ∧ Inwards parents path (some node)

/-- The depth of what lies right inside `outer`, or at the top level if that is
no type. -/
def DepthInside (visits : Array Visit) (depth : Nat) : (outer : Option Nat) → Prop
  | none => depth = 0
  | some node => ∃ depth', visits[node]? = some (.done depth') ∧ depth = depth' + 1

/-- Between two searches: nothing is under way, and where a depth is known that
of the type around it is, and is one less. -/
structure Settled (parents : Array (Option Nat)) (visits : Array Visit) : Prop where
  idle : ∀ node : Nat, visits[node]? ≠ some .active
  exact : ∀ (node depth : Nat) (outer : Option Nat), visits[node]? = some (.done depth) →
    parents[node]? = some outer → DepthInside visits depth outer

/-- In a search that began with `before`: what was met is under way, and nothing
else has changed. -/
structure Climbing (before visits : Array Visit) (path : List Nat) : Prop where
  nodup : path.Nodup
  pending : ∀ node ∈ path, before[node]? = some .pending
  visit_eq : ∀ node : Nat, visits[node]? = if node ∈ path then some .active else before[node]?

theorem Climbing.size_eq {before visits : Array Visit} {path : List Nat}
    (h : Climbing before visits path) : visits.size = before.size := by
  have hsame (node : Nat) : visits.size ≤ node ↔ before.size ≤ node := by
    rw [← Array.getElem?_eq_none_iff, ← Array.getElem?_eq_none_iff, h.visit_eq node]
    split
    · rename_i hmem
      simp [h.pending node hmem]
    · rfl
  have hle := (hsame before.size).mpr (Nat.le_refl _)
  have hge := (hsame visits.size).mp (Nat.le_refl _)
  omega

/-- Where a depth is known nothing was met. -/
theorem Climbing.done_eq {before visits : Array Visit} {path : List Nat} {node depth : Nat}
    (h : Climbing before visits path) (hdone : visits[node]? = some (.done depth)) :
    before[node]? = some (.done depth) := by
  rw [h.visit_eq node] at hdone
  split at hdone
  · cases hdone
  · exact hdone

/-- One more type is met. -/
theorem Climbing.push {before visits : Array Visit} {path : List Nat} {node : Nat}
    (h : Climbing before visits path) (hinside : node < visits.size)
    (hpending : visits[node] = .pending) :
    Climbing before (visits.set node .active) (node :: path) := by
  have hvisit := h.visit_eq node
  rw [Array.getElem?_eq_getElem hinside, hpending] at hvisit
  have hfresh : node ∉ path := by
    intro hmem
    rw [if_pos hmem] at hvisit
    cases hvisit
  rw [if_neg hfresh] at hvisit
  refine ⟨List.nodup_cons.mpr ⟨hfresh, h.nodup⟩, ?_, ?_⟩
  · intro other hmem
    rcases List.mem_cons.mp hmem with rfl | hpath
    · exact hvisit.symm
    · exact h.pending other hpath
  · intro other
    by_cases hsame : other = node
    · subst hsame
      simp [hinside]
    · rw [Array.getElem?_set_ne hinside (Ne.symm hsame), h.visit_eq other]
      simp only [List.mem_cons, hsame, false_or]

/-- A climb ends with a path that starts at the outermost type or right inside
one whose depth is known. -/
theorem climb_eq_ok {before visits visits' : Array Visit} {path path' : List Nat}
    {current : Option Nat} {base : Nat} (hclimbing : Climbing before visits path)
    (hinwards : Inwards parents path current)
    (h : climb types parents visits path current = .ok (base, visits', path')) :
    Climbing before visits' path' ∧ path <:+ path' ∧
      (∀ node, current = some node → node ∈ path' ∨ ∃ depth, before[node]? = some (.done depth)) ∧
      ∃ outer, Inwards parents path' outer ∧ DepthInside before base outer := by
  fun_induction climb types parents visits path current with
  | case1 visits path =>
      cases h
      exact ⟨hclimbing, List.suffix_refl _, by simp, none, hinwards, rfl⟩
  | case2 visits path node inside depth hdone =>
      cases h
      have hknown := hclimbing.done_eq ((Array.getElem?_eq_getElem inside).trans (congrArg some hdone))
      refine ⟨hclimbing, List.suffix_refl _, ?_, some node, hinwards, depth, hknown, rfl⟩
      rintro _ ⟨⟩
      exact Or.inr ⟨depth, hknown⟩
  | case3 => cases h
  | case4 => cases h
  | case5 visits path node inside hpending parent hparent ih =>
      obtain ⟨hclimbing', hsuffix, -, houter⟩ :=
        ih (hclimbing.push inside hpending) ⟨itemAt_eq_ok.mp hparent, hinwards⟩ h
      refine ⟨hclimbing', (List.suffix_cons node path).trans hsuffix, ?_, houter⟩
      rintro _ ⟨⟩
      exact Or.inl (hsuffix.subset (List.mem_cons_self ..))
  | case6 => cases h
  | case7 => cases h

@[simp] theorem size_settle (base : Nat) (path : List Nat) (visits : Array Visit) :
    (settle base path visits).size = visits.size := by
  induction path generalizing visits base with
  | nil => rfl
  | cons first path ih =>
      have hcons : settle base (first :: path) visits =
          settle (base + 1) path (visits.setIfInBounds first (.done base)) := rfl
      rw [hcons, ih, Array.size_setIfInBounds]

/-- What is passed on a climb is settled, from the outermost on, and the rest
stays as it is. -/
theorem getElem?_settle {path : List Nat} (visits : Array Visit) (base : Nat)
    (hnodup : path.Nodup) :
    (∀ node ∉ path, (settle base path visits)[node]? = visits[node]?) ∧
      ∀ (k node : Nat), path[k]? = some node → node < visits.size →
        (settle base path visits)[node]? = some (.done (base + k)) := by
  induction path generalizing visits base with
  | nil => simp [settle]
  | cons first path ih =>
      obtain ⟨hfresh, hothers⟩ := List.nodup_cons.mp hnodup
      obtain ⟨hsame, hplaces⟩ := ih (visits.setIfInBounds first (.done base)) (base + 1) hothers
      have hcons : settle base (first :: path) visits =
          settle (base + 1) path (visits.setIfInBounds first (.done base)) := rfl
      rw [hcons]
      constructor
      · intro node hmem
        rw [List.mem_cons, not_or] at hmem
        rw [hsame node hmem.2, Array.getElem?_setIfInBounds_ne (Ne.symm hmem.1)]
      · intro k node hk hinside
        cases k with
        | zero =>
            cases hk
            rw [hsame first hfresh, Array.getElem?_setIfInBounds_self_of_lt hinside]
            rfl
        | succ k =>
            rw [hplaces k node (by simpa using hk) (by simpa using hinside)]
            congr 2
            omega

theorem Inwards.getElem? {path : List Nat} {outer : Option Nat} (h : Inwards parents path outer)
    {k node : Nat} (hk : path[k]? = some node) :
    (k = 0 ∧ parents[node]? = some outer) ∨
      ∃ j around, k = j + 1 ∧ path[j]? = some around ∧ parents[node]? = some (some around) := by
  induction path generalizing k outer with
  | nil => simp at hk
  | cons first path ih =>
      cases k with
      | zero =>
          cases hk
          exact Or.inl ⟨rfl, h.1⟩
      | succ k =>
          rcases ih h.2 (by simpa using hk) with ⟨rfl, hparent⟩ | ⟨j, around, rfl, haround, hparent⟩
          · exact Or.inr ⟨0, first, rfl, rfl, hparent⟩
          · exact Or.inr ⟨j + 1, around, rfl, haround, hparent⟩

/-- What a search comes to: the types on its path get their depths, from `base`
on, and nothing else changes. -/
structure Explored (parents : Array (Option Nat)) (before after : Array Visit) (start base : Nat)
    (path : List Nat) (outer : Option Nat) : Prop where
  size_eq : after.size = before.size
  pending : ∀ node ∈ path, before[node]? = some .pending
  found : start ∈ path ∨ ∃ depth, before[start]? = some (.done depth)
  inwards : Inwards parents path outer
  base_eq : DepthInside before base outer
  settled : ∀ k node : Nat, path[k]? = some node → after[node]? = some (.done (base + k))
  same : ∀ node ∉ path, after[node]? = before[node]?

theorem explored_of_explore {before after : Array Visit} {start : Nat}
    (h : explore types parents before start = .ok after) :
    ∃ base path outer, Explored parents before after start base path outer := by
  simp only [Nesting.explore, Except.bind_eq_ok, Except.pure_eq_ok] at h
  obtain ⟨⟨base, visits, path⟩, hclimb, rfl⟩ := h
  have hstart : Climbing before before [] := ⟨List.nodup_nil, by simp, by simp⟩
  obtain ⟨hclimbing, -, hfound, outer, hinwards, houter⟩ :=
    climb_eq_ok hstart (show Inwards parents [] (some start) from trivial) hclimb
  obtain ⟨hsame, hplaces⟩ := getElem?_settle visits base hclimbing.nodup
  refine ⟨base, path, outer, ?_, hclimbing.pending, hfound start rfl, hinwards, houter, ?_, ?_⟩
  · rw [size_settle, hclimbing.size_eq]
  · intro k node hk
    have hvisit := hclimbing.visit_eq node
    rw [if_pos (List.mem_of_getElem? hk)] at hvisit
    exact hplaces k node hk (Array.getElem?_eq_some_iff.mp hvisit).1
  · intro node hmem
    rw [hsame node hmem, hclimbing.visit_eq node, if_neg hmem]

namespace Explored

variable {before after : Array Visit} {start base : Nat} {path : List Nat} {outer : Option Nat}

theorem kept (h : Explored parents before after start base path outer) {node depth : Nat}
    (hdone : before[node]? = some (.done depth)) : after[node]? = some (.done depth) := by
  have hfresh : node ∉ path := by
    intro hmem
    rw [h.pending node hmem] at hdone
    cases hdone
  rw [h.same node hfresh, hdone]

theorem inside_kept (h : Explored parents before after start base path outer) {depth : Nat}
    {around : Option Nat} (hdepth : DepthInside before depth around) :
    DepthInside after depth around := by
  cases around with
  | none => exact hdepth
  | some node =>
      obtain ⟨depth', hdone, hnext⟩ := hdepth
      exact ⟨depth', h.kept hdone, hnext⟩

theorem start_done (h : Explored parents before after start base path outer) :
    ∃ depth, after[start]? = some (.done depth) := by
  rcases h.found with hmem | ⟨depth, hdone⟩
  · obtain ⟨k, hk⟩ := List.mem_iff_getElem?.mp hmem
    exact ⟨base + k, h.settled k start hk⟩
  · exact ⟨depth, h.kept hdone⟩

theorem on_path_or_same (h : Explored parents before after start base path outer) (node : Nat) :
    (∃ k : Nat, path[k]? = some node ∧ after[node]? = some (.done (base + k))) ∨
      after[node]? = before[node]? := by
  by_cases hmem : node ∈ path
  · obtain ⟨k, hk⟩ := List.mem_iff_getElem?.mp hmem
    exact Or.inl ⟨k, hk, h.settled k node hk⟩
  · exact Or.inr (h.same node hmem)

/-- What was settled stays so, and the path is settled from the outermost type
inwards. -/
theorem settled_after (h : Explored parents before after start base path outer)
    (hsettled : Settled parents before) : Settled parents after where
  idle node hactive := by
    rcases h.on_path_or_same node with ⟨k, -, hdone⟩ | hbefore
    · rw [hdone] at hactive
      cases hactive
    · exact hsettled.idle node (hbefore ▸ hactive)
  exact node depth around hdone hparent := by
    rcases h.on_path_or_same node with ⟨k, hk, hdepth⟩ | hbefore
    · rw [hdepth] at hdone
      cases hdone
      rcases h.inwards.getElem? hk with ⟨rfl, hout⟩ | ⟨j, next, rfl, hj, hnext⟩
      · rw [hparent] at hout
        cases hout
        exact h.inside_kept h.base_eq
      · rw [hparent] at hnext
        cases hnext
        exact ⟨base + j, h.settled j next hj, rfl⟩
    · rw [hbefore] at hdone
      exact h.inside_kept (hsettled.exact node depth around hdone hparent)

end Explored

/-- Searches one after the other settle every type that one of them starts
from. -/
theorem Settled.foldlM_explore {starts : List Nat} {before after : Array Visit}
    (hsettled : Settled parents before)
    (h : starts.foldlM (Nesting.explore types parents) before = .ok after) :
    Settled parents after ∧ after.size = before.size ∧
      (∀ start ∈ starts, ∃ depth, after[start]? = some (.done depth)) ∧
      ∀ node depth : Nat, before[node]? = some (.done depth) →
        after[node]? = some (.done depth) := by
  induction starts generalizing before with
  | nil =>
      cases h
      exact ⟨hsettled, rfl, by simp, fun _ _ hdone => hdone⟩
  | cons start starts ih =>
      rw [List.foldlM_cons, Except.bind_eq_ok] at h
      obtain ⟨next, hnext, hrest⟩ := h
      obtain ⟨base, path, outer, hexplored⟩ := explored_of_explore hnext
      obtain ⟨depth, hstart⟩ := hexplored.start_done
      obtain ⟨hsettled', hsize, hstarts, hkept⟩ := ih (hexplored.settled_after hsettled) hrest
      refine ⟨hsettled', hsize.trans hexplored.size_eq, ?_, ?_⟩
      · intro other hmem
        rcases List.mem_cons.mp hmem with rfl | hlater
        · exact ⟨depth, hkept _ _ hstart⟩
        · exact hstarts other hlater
      · intro node depth hdone
        exact hkept node depth (hexplored.kept hdone)

theorem settled_replicate (n : Nat) : Settled parents (Array.replicate n .pending) where
  idle node hactive := by
    rw [Array.getElem?_replicate] at hactive
    split at hactive
    · cases hactive
    · cases hactive
  exact node depth outer hdone := by
    rw [Array.getElem?_replicate] at hdone
    split at hdone
    · cases hdone
    · cases hdone

/-- Every type has a depth: none at the top level, and elsewhere one more than the
type around it. -/
theorem depths_exact {found : Array Nat} (h : depths types parents = .ok found) :
    found.size = parents.size ∧
      ∀ (node : Nat) (outer? : Option Nat), parents[node]? = some outer? →
        match outer? with
        | none => found[node]? = some 0
        | some outer => ∃ depth, found[outer]? = some depth ∧ found[node]? = some (depth + 1) := by
  simp only [depths, Except.bind_eq_ok, Except.pure_eq_ok] at h
  obtain ⟨visits, hvisits, rfl⟩ := h
  obtain ⟨hsettled, hsize, hstarts, -⟩ := (settled_replicate _).foldlM_explore hvisits
  rw [Array.size_replicate] at hsize
  refine ⟨by rw [Array.size_map, hsize], ?_⟩
  intro node outer? hparent
  have hnode : node < parents.size := (Array.getElem?_eq_some_iff.mp hparent).1
  obtain ⟨depth, hdone⟩ := hstarts node (List.mem_range.mpr hnode)
  have hexact := hsettled.exact node depth outer? hdone hparent
  cases outer? with
  | none =>
      obtain rfl : depth = 0 := hexact
      simp only [Array.getElem?_map, hdone, Option.map_some]
  | some outer =>
      obtain ⟨depth', hdone', rfl⟩ := hexact
      simp only [Array.getElem?_map, hdone, hdone', Option.map_some]
      exact ⟨depth', rfl, rfl⟩

theorem depths_lt {found : Array Nat} (h : depths types parents = .ok found) {node outer : Nat}
    (hparent : parents[node]? = some (some outer)) :
    outer < parents.size ∧ found.getD outer 0 < found.getD node 0 := by
  obtain ⟨hsize, hexact⟩ := depths_exact h
  obtain ⟨depth, houter, hnode⟩ := hexact node (some outer) hparent
  refine ⟨hsize ▸ (Array.getElem?_eq_some_iff.mp houter).1, ?_⟩
  simp only [Array.getD_eq_getD_getElem?, houter, hnode, Option.getD_some]
  exact Nat.lt_succ_self depth

end Nesting

end Unveil
