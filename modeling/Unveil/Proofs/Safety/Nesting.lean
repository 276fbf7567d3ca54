import Unveil.Proofs.Module.Taking
import Unveil.Proofs.Safety.Steps

namespace Unveil

namespace Nesting

/-- Rows are counted from one, types from zero. -/
def indexOfStrictly? (count : Nat) (row : UInt32) : Except Fault (Option Nat) :=
  if row.toNat ≠ 0 ∧ row.toNat ≤ count then some <$> Size.sub row.toNat 1 else .ok none

def Links.markNestedStrictly (links : Links) (index : Nat) : Except Fault Links := do
  let types ← changeAt links.types index fun type => { type with isNested := true }
  pure { links with types }

def Links.addChildStrictly (links : Links) (enclosing : Nat) (child : Option Nat) :
    Except Fault Links := do
  let children ← changeAt links.children enclosing (child :: ·)
  pure { links with children }

def Links.setParentStrictly (links : Links) (nested enclosing : Nat) : Except Fault Links := do
  let parents ← putAt links.parents nested (some enclosing)
  pure { links with parents }

def linkStrictly (links : Links) (row : Entry NestingRow) : Except Fault Links := do
  let count := links.types.size
  match ← indexOfStrictly? count row.row.nested, ← indexOfStrictly? count row.row.enclosing with
  | some nested, some enclosing => do
      let token ← tokenAt links.types nested
      if nested = enclosing then
        throw (.malformed (.selfNested token))
      else
        match ← itemAt links.parents nested with
        | some existing =>
            let _ ← tokenAt links.types existing
            let _ ← tokenAt links.types enclosing
            pure links
        | none =>
            let links ← links.setParentStrictly nested enclosing
            let links ← links.addChildStrictly enclosing (some nested)
            links.markNestedStrictly nested
  | none, some enclosing => do
      let _ ← tokenAt links.types enclosing
      links.addChildStrictly enclosing none
  | some nested, none => do
      let _ ← tokenAt links.types nested
      links.markNestedStrictly nested
  | none, none => pure links

def climbStrictly (types : Array TypeDecl) (parents : Array (Option Nat)) (visits : Array Visit)
    (path : List Nat) (current : Option Nat) :
    Except Fault (Nat × Array Visit × List Nat) :=
  match current with
  | none => .ok (0, visits, path)
  | some node =>
    if inside : node < visits.size then
      match _state : visits[node] with
      | .done depth => do
          let base ← Size.add depth 1
          pure (base, visits, path)
      | .active =>
          match tokenAt types node with
          | .ok token => .error (.malformed (.nestingCycle token))
          | .error fault => .error fault
      | .pending =>
          match itemAt parents node with
          | .ok parent =>
              climbStrictly types parents (visits.set node .active) (node :: path) parent
          | .error fault => .error fault
    else
      .error .trap
termination_by pendingCount visits
decreasing_by exact pendingCount_set_lt inside _state

def settleStrictly (depth : Nat) : List Nat → Array Visit → Except Fault (Array Visit)
  | [], visits => .ok visits
  | node :: path, visits => do
      let visits ← putAt visits node (.done depth)
      let deeper ← Size.add depth 1
      settleStrictly deeper path visits

def exploreStrictly (types : Array TypeDecl) (parents : Array (Option Nat))
    (visits : Array Visit) (start : Nat) : Except Fault (Array Visit) := do
  let (base, visits, path) ← climbStrictly types parents visits [] (some start)
  settleStrictly base path visits

def depthsStrictly (types : Array TypeDecl) (parents : Array (Option Nat)) :
    Except Fault (Array Nat) := do
  let visits ← (List.range parents.size).foldlM (exploreStrictly types parents)
    (Array.replicate parents.size .pending)
  pure (visits.map fun visit =>
    match visit with
    | .done depth => depth
    | .pending | .active => 0)

def takeSlotStrictly (child : Option Nat) :
    StateT Slots (Except Fault) (Option (TypeDecl × Forest)) := fun slots =>
  match child with
  | none => .ok (none, slots)
  | some index => do
      let held ← itemAt slots index
      let slots ← putAt slots index none
      pure (held, slots)

def completeStrictly (links : Links) (slots : Slots) (node : Nat) : Except Fault Slots := do
  let children ← itemAt links.children node
  if children.isEmpty then
    pure slots
  else do
    let (row, slots) ← children.reverse.mapM takeSlotStrictly slots
    let held ← itemAt slots node
    putAt slots node (held.map fun (type, _) => (type, .ofSlots row))

/-- Indexes with the items at them, all of which have to lie inside. -/
def withItems {α : Type} (items : Array α) (indexes : List Nat) : Except Fault (List (Nat × α)) :=
  indexes.mapM fun index => do
    let item ← itemAt items index
    pure (index, item)

def assembleStrictly (links : Links) : Except Fault Forest := do
  let count := links.types.size
  let depths ← depthsStrictly links.types links.parents
  let keyed ← withItems depths (List.range count)
  let innermostFirst := (keyed.mergeSort fun a b => b.2 ≤ a.2).map (·.1)
  let slots ← innermostFirst.foldlM (completeStrictly links)
    (links.types.map fun type => some (type, .nil))
  let placed ← withItems links.parents (List.range count)
  let roots := (placed.filter (·.2.isNone)).map (·.1)
  let (row, _) ← (roots.map some).mapM takeSlotStrictly slots
  pure (.ofSlots row)

def buildStrictly (types : List TypeDecl) (rows : List (Entry NestingRow)) :
    Except Fault Forest := do
  let links ← rows.foldlM linkStrictly (Links.ofTypes types)
  assembleStrictly links

section Items

variable {α : Type} {items : Array α} {index : Nat}

theorem safe_itemAt (h : index < items.size) : Safe (itemAt items index) (itemAt items index) := by
  rw [itemAt_of_lt h]
  exact Safe.ok _

theorem safe_tokenAt {types : Array TypeDecl} (h : index < types.size) :
    Safe (tokenAt types index) (tokenAt types index) :=
  (safe_itemAt h).bind fun _ _ => Safe.pure _

theorem withItems_of_lt {indexes : List Nat} (fallback : α)
    (h : ∀ index ∈ indexes, index < items.size) :
    withItems items indexes =
      .ok (indexes.map fun index => (index, items.getD index fallback)) := by
  refine Except.mapM_of_ok fun index hindex => ?_
  rw [itemAt_of_lt (h index hindex), Array.getD_eq_getD_getElem?,
    Array.getElem?_eq_getElem (h index hindex)]
  rfl

end Items

section Rows

theorem indexOfStrictly?_eq (count : Nat) (row : UInt32) :
    indexOfStrictly? count row = .ok (indexOf? count row) := by
  unfold indexOfStrictly? indexOf?
  split
  · rename_i hrow
    rw [Size.sub_of_le (Nat.pos_of_ne_zero hrow.1)]
    rfl
  · rfl

variable {types : List TypeDecl} {rows : List (Entry NestingRow)} {links links' : Links}

/-- The type around a type is one of the types. -/
theorem Linked.enclosed (h : Linked types rows links) (child outer : Nat)
    (hlies : links.parents[child]? = some (some outer)) : outer < links.types.size := by
  rw [h.types_size]
  exact parent?_lt (h.lies_iff.mp hlies)

theorem safe_markNested {index : Nat} (h : index < links.types.size) :
    Safe (links.markNestedStrictly index) (pure (links.markNested index)) :=
  Safe.step (changeAt_of_lt h) (Safe.pure _)

theorem safe_addChild {enclosing : Nat} {child : Option Nat}
    (h : enclosing < links.children.size) :
    Safe (links.addChildStrictly enclosing child) (pure (links.addChild enclosing child)) :=
  Safe.step (changeAt_of_lt h) (Safe.pure _)

theorem setParentStrictly_eq {nested enclosing : Nat} (h : nested < links.parents.size) :
    links.setParentStrictly nested enclosing = .ok (links.setParent nested enclosing) := by
  rw [Links.setParentStrictly, putAt_of_lt h]
  rfl

theorem safe_link (h : Linked types rows links) (row : Entry NestingRow) :
    Safe (linkStrictly links row) (linkSilently links row) := by
  have hparents := h.parents_size.trans h.types_size.symm
  have hchildren := h.children_size.trans h.types_size.symm
  unfold linkStrictly linkSilently
  dsimp only
  rw [indexOfStrictly?_eq, indexOfStrictly?_eq, Except.ok_bind, Except.ok_bind]
  cases hnested : indexOf? links.types.size row.row.nested with
  | none =>
      cases henclosing : indexOf? links.types.size row.row.enclosing with
      | none => exact Safe.pure _
      | some enclosing =>
          have houter := indexOf?_lt henclosing
          exact (safe_tokenAt houter).bind fun _ _ => safe_addChild (hchildren ▸ houter)
  | some nested =>
      have hinner := indexOf?_lt hnested
      cases henclosing : indexOf? links.types.size row.row.enclosing with
      | none => exact (safe_tokenAt hinner).bind fun _ _ => safe_markNested hinner
      | some enclosing =>
          have houter := indexOf?_lt henclosing
          refine (safe_tokenAt hinner).bind fun token _ => ?_
          refine Safe.ite (fun _ => Safe.error rfl) fun _ => ?_
          refine (safe_itemAt (hparents ▸ hinner)).bind fun parent hparent => ?_
          cases parent with
          | some existing =>
              have hexisting := h.enclosed nested existing (itemAt_eq_ok.mp hparent)
              exact (safe_tokenAt hexisting).bind fun _ _ =>
                (safe_tokenAt houter).bind fun _ _ => Safe.pure _
          | none =>
              refine Safe.step (setParentStrictly_eq (hparents ▸ hinner)) ?_
              refine Safe.step (safe_addChild ?_).eq (safe_markNested hinner)
              exact hchildren ▸ houter

theorem safe_links {others : List (Entry NestingRow)} (h : Linked types rows links) :
    Safe (others.foldlM linkStrictly links) (others.foldlM linkSilently links) := by
  induction others generalizing rows links with
  | nil => exact Safe.pure links
  | cons row others ih =>
      rw [List.foldlM_cons, List.foldlM_cons]
      exact (safe_link h row).bind fun next hnext => ih (h.link hnext)

end Rows

section Search

variable {types : Array TypeDecl} {parents : Array (Option Nat)} {visits : Array Visit}
  {path : List Nat}

/-- In a search that has met `path`: whatever is pending still has a depth left
that no type has so far. -/
structure Roomy (visits : Array Visit) (path : List Nat) : Prop where
  inside : ∀ node ∈ path, node < visits.size
  length_le : path.length + pendingCount visits ≤ visits.size
  depth_lt : ∀ node depth : Nat, visits[node]? = some (.done depth) →
    depth + path.length + pendingCount visits < visits.size

/-- Depths from `base` on are left for the whole path. -/
def Fits (base : Nat) (visits : Array Visit) (path : List Nat) : Prop :=
  base + path.length + pendingCount visits ≤ visits.size

theorem pendingCount_setIfInBounds_le (visits : Array Visit) (node depth : Nat) :
    pendingCount (visits.setIfInBounds node (.done depth)) ≤ pendingCount visits := by
  rw [Array.setIfInBounds]
  split
  · have hdone : (Visit.done depth == Visit.pending) = false := rfl
    rw [pendingCount, pendingCount, Array.countP_set, hdone]
    exact Nat.sub_le ..
  · exact Nat.le_refl _

theorem roomy_replicate (count : Nat) : Roomy (Array.replicate count .pending) [] where
  inside node hnode := by cases hnode
  length_le := by
    rw [List.length_nil, Nat.zero_add]
    exact Array.countP_le_size
  depth_lt node depth hdone := by
    rw [Array.getElem?_replicate] at hdone
    split at hdone
    · cases hdone
    · cases hdone

/-- A type that is met takes the place of one that was pending. -/
theorem Roomy.push (h : Roomy visits path) {node : Nat} (hinside : node < visits.size)
    (hpending : visits[node] = .pending) : Roomy (visits.set node .active) (node :: path) := by
  have hless := pendingCount_set_lt hinside hpending
  have hlength := h.length_le
  refine ⟨fun other hother => ?_, ?_, fun other depth hdone => ?_⟩
  · rw [Array.size_set]
    rcases List.mem_cons.mp hother with rfl | hpath
    · exact hinside
    · exact h.inside other hpath
  · rw [Array.size_set, List.length_cons]
    omega
  · rw [Array.getElem?_set] at hdone
    split at hdone
    · cases hdone
    · have hdepth := h.depth_lt other depth hdone
      rw [Array.size_set, List.length_cons]
      omega

section Meetings

variable {node : Nat}

theorem climbStrictly_done {depth : Nat} (hinside : node < visits.size)
    (hdone : visits[node] = .done depth) :
    climbStrictly types parents visits path (some node) =
      (Size.add depth 1 >>= fun base => pure (base, visits, path)) := by
  rw [climbStrictly, dif_pos hinside]
  split
  · rename_i found hfound
    cases hfound.symm.trans hdone
    rfl
  · rename_i hactive
    cases hactive.symm.trans hdone
  · rename_i hpending
    cases hpending.symm.trans hdone

theorem climbStrictly_active {token : Token} (hinside : node < visits.size)
    (hactive : visits[node] = .active) (htoken : tokenAt types node = .ok token) :
    climbStrictly types parents visits path (some node) =
      .error (.malformed (.nestingCycle token)) := by
  rw [climbStrictly, dif_pos hinside]
  split
  · rename_i hdone
    cases hdone.symm.trans hactive
  · rw [htoken]
  · rename_i hpending
    cases hpending.symm.trans hactive

theorem climbStrictly_pending {outer : Option Nat} (hinside : node < visits.size)
    (hpending : visits[node] = .pending) (hparent : itemAt parents node = .ok outer) :
    climbStrictly types parents visits path (some node) =
      climbStrictly types parents (visits.set node .active) (node :: path) outer := by
  rw [climbStrictly, dif_pos hinside]
  split
  · rename_i hdone
    cases hdone.symm.trans hpending
  · rename_i hactive
    cases hactive.symm.trans hpending
  · rw [hparent]

end Meetings

theorem safe_climb (hlimit : visits.size < Size.limit) (htypes : types.size = visits.size)
    (hparents : parents.size = visits.size)
    (houter : ∀ child outer : Nat, parents[child]? = some (some outer) → outer < visits.size)
    (hroomy : Roomy visits path) {current : Option Nat}
    (hcurrent : ∀ node, current = some node → node < visits.size) :
    Safe (climbStrictly types parents visits path current)
      (climb types parents visits path current) := by
  fun_induction climb types parents visits path current with
  | case1 visits path =>
      rw [climbStrictly]
      exact Safe.ok _
  | case2 visits path node inside depth hdone =>
      have hdepth := hroomy.depth_lt node depth
        ((Array.getElem?_eq_getElem inside).trans (congrArg some hdone))
      have hbase : Size.add depth 1 = .ok (depth + 1) := Size.add_of_lt (by omega)
      rw [climbStrictly_done inside hdone, hbase]
      exact Safe.ok _
  | case3 visits path node inside hactive token htoken =>
      rw [climbStrictly_active inside hactive htoken]
      exact Safe.error rfl
  | case4 visits path node inside hactive fault hfault =>
      rw [tokenAt, itemAt_of_lt (htypes ▸ inside)] at hfault
      cases hfault
  | case5 visits path node inside hpending parent hparent ih =>
      rw [climbStrictly_pending inside hpending hparent]
      simp only [Array.size_set] at ih
      refine ih hlimit htypes hparents houter (hroomy.push inside hpending) fun outer hsome => ?_
      exact houter node outer (hsome ▸ itemAt_eq_ok.mp hparent)
  | case6 visits path node inside hpending fault hfault =>
      rw [itemAt_of_lt (hparents ▸ inside)] at hfault
      cases hfault
  | case7 visits path node outside => exact absurd (hcurrent node rfl) outside

/-- Where a climb ends, there is room for the depths of all it has met. -/
theorem Roomy.climb (hroomy : Roomy visits path) {current : Option Nat} {base : Nat}
    {visits' : Array Visit} {path' : List Nat}
    (h : Nesting.climb types parents visits path current = .ok (base, visits', path')) :
    Roomy visits' path' ∧ Fits base visits' path' ∧ visits'.size = visits.size := by
  fun_induction Nesting.climb types parents visits path current with
  | case1 visits path =>
      cases h
      refine ⟨hroomy, ?_, rfl⟩
      rw [Fits, Nat.zero_add]
      exact hroomy.length_le
  | case2 visits path node inside depth hdone =>
      cases h
      have hdepth := hroomy.depth_lt node depth
        ((Array.getElem?_eq_getElem inside).trans (congrArg some hdone))
      refine ⟨hroomy, ?_, rfl⟩
      unfold Fits
      omega
  | case3 => cases h
  | case4 => cases h
  | case5 visits path node inside hpending parent hparent ih =>
      have hrest := ih (hroomy.push inside hpending) h
      rwa [Array.size_set] at hrest
  | case6 => cases h
  | case7 => cases h

/-- The path gets its depths, and room is left for the searches that follow. -/
theorem safe_settle {base : Nat} (hlimit : visits.size < Size.limit) (hroomy : Roomy visits path)
    (hfits : Fits base visits path) :
    settleStrictly base path visits = .ok (settle base path visits) ∧
      Roomy (settle base path visits) [] := by
  induction path generalizing base visits with
  | nil => exact ⟨rfl, hroomy⟩
  | cons node path ih =>
      have hcons : settle base (node :: path) visits =
          settle (base + 1) path (visits.setIfInBounds node (.done base)) := rfl
      have hinside := hroomy.inside node (List.mem_cons_self ..)
      have hpending := pendingCount_setIfInBounds_le visits node base
      have hlength := hroomy.length_le
      unfold Fits at hfits ih
      rw [List.length_cons] at hfits hlength
      have hroomy' : Roomy (visits.setIfInBounds node (.done base)) path := {
        inside := fun other hother => by
          rw [Array.size_setIfInBounds]
          exact hroomy.inside other (List.mem_cons_of_mem _ hother)
        length_le := by
          rw [Array.size_setIfInBounds]
          omega
        depth_lt := fun other depth hdone => by
          rw [Array.size_setIfInBounds]
          rw [Array.getElem?_setIfInBounds] at hdone
          split at hdone
          · cases hdone
            omega
          · have hdepth := hroomy.depth_lt other depth hdone
            rw [List.length_cons] at hdepth
            omega }
      rw [hcons, settleStrictly, putAt_of_lt hinside, Except.ok_bind,
        Size.add_of_lt (by omega), Except.ok_bind]
      refine ih ?_ hroomy' ?_
      · rwa [Array.size_setIfInBounds]
      · rw [Array.size_setIfInBounds]
        omega

/-- Between two searches: nothing is left on the path. -/
structure Searched (count : Nat) (visits : Array Visit) : Prop where
  size_eq : visits.size = count
  roomy : Roomy visits []

theorem Searched.explore {count start : Nat} {visits' : Array Visit} (h : Searched count visits)
    (hlimit : count < Size.limit)
    (hexplore : Nesting.explore types parents visits start = .ok visits') :
    Searched count visits' := by
  simp only [Nesting.explore, Except.bind_eq_ok, Except.pure_eq_ok] at hexplore
  obtain ⟨⟨base, met, path⟩, hclimb, rfl⟩ := hexplore
  obtain ⟨hroomy, hfits, hsize⟩ := h.roomy.climb hclimb
  rw [h.size_eq] at hsize
  exact ⟨(size_settle base path met).trans hsize, (safe_settle (hsize ▸ hlimit) hroomy hfits).2⟩

theorem safe_explore {count start : Nat} (h : Searched count visits) (hlimit : count < Size.limit)
    (htypes : types.size = count) (hparents : parents.size = count)
    (houter : ∀ child outer : Nat, parents[child]? = some (some outer) → outer < count)
    (hstart : start < count) :
    Safe (exploreStrictly types parents visits start) (explore types parents visits start) := by
  obtain ⟨rfl, hroomy⟩ := h
  refine (safe_climb hlimit htypes hparents houter hroomy ?_).bind fun ⟨base, met, path⟩ hclimb => ?_
  · rintro _ ⟨⟩
    exact hstart
  · obtain ⟨hroomy', hfits, hsize⟩ := hroomy.climb hclimb
    dsimp only
    rw [(safe_settle (hsize ▸ hlimit) hroomy' hfits).1]
    exact Safe.ok _

theorem safe_depths (hlimit : parents.size < Size.limit) (htypes : types.size = parents.size)
    (houter : ∀ child outer : Nat, parents[child]? = some (some outer) → outer < parents.size) :
    Safe (depthsStrictly types parents) (depths types parents) := by
  have hstart : Searched parents.size (Array.replicate parents.size .pending) :=
    ⟨Array.size_replicate, roomy_replicate _⟩
  refine Safe.bind ?_ fun visits _ => Safe.pure _
  exact Safe.foldlM hstart
    (fun visits start hmem hsearched =>
      safe_explore hsearched hlimit htypes rfl houter (List.mem_range.mp hmem))
    fun visits start next _ hsearched hnext => hsearched.explore hlimit hnext

end Search

section Assembly

/-- What is looked up can be put back. -/
theorem putAt_of_itemAt {α : Type} {items : Array α} {index : Nat} {item : α}
    (h : itemAt items index = .ok item) (other : α) :
    putAt items index other = .ok (items.setIfInBounds index other) :=
  putAt_of_lt (Array.getElem?_eq_some_iff.mp (itemAt_eq_ok.mp h)).1

theorem takeSlotStrictly_eq : takeSlotStrictly = takeSlot := by
  funext child slots
  cases child with
  | none => rfl
  | some index =>
      refine Except.bind_congr_ok fun held hheld => ?_
      rw [putAt_of_itemAt hheld]
      rfl

theorem completeStrictly_eq (links : Links) : completeStrictly links = complete links := by
  funext slots node
  refine Except.bind_congr_ok fun children _ => ?_
  rw [takeSlotStrictly_eq]
  split
  · rfl
  · refine Except.bind_congr_ok fun _ _ => Except.bind_congr_ok fun held hheld => ?_
    exact putAt_of_itemAt hheld _

variable {types : List TypeDecl} {rows : List (Entry NestingRow)} {links : Links}

/-- Sorting the indexes with their depths sorts the indexes by depth. -/
theorem map_mergeSort_keyed (found : Array Nat) (indexes : List Nat) :
    ((indexes.map fun index => (index, found.getD index 0)).mergeSort
        fun a b => b.2 ≤ a.2).map (·.1) =
      indexes.mergeSort fun a b => found.getD b 0 ≤ found.getD a 0 := by
  rw [← List.map_mergeSort (f := fun index => (index, found.getD index 0))
    (r := fun a b => decide (found.getD b 0 ≤ found.getD a 0)) fun _ _ _ _ => rfl,
    List.map_map]
  exact List.map_id _

theorem Linked.safe_depths (h : Linked types rows links) (hlimit : links.types.size < Size.limit) :
    Safe (depthsStrictly links.types links.parents) (depths links.types links.parents) := by
  have hparents := h.parents_size.trans h.types_size.symm
  exact Nesting.safe_depths (hparents ▸ hlimit) hparents.symm (hparents ▸ h.enclosed)

theorem Linked.assembleStrictly_eq (h : Linked types rows links)
    (hlimit : links.types.size < Size.limit) : assembleStrictly links = assemble links := by
  have hparents := h.parents_size.trans h.types_size.symm
  rw [assembleStrictly, assemble, (h.safe_depths hlimit).eq]
  refine Except.bind_congr_ok fun found hfound => ?_
  have hfoundSize : found.size = links.types.size := (depths_exact hfound).1.trans hparents
  have hkeyed : withItems found (List.range links.types.size) = _ :=
    withItems_of_lt 0 fun index hindex => hfoundSize ▸ List.mem_range.mp hindex
  have hplaced : withItems links.parents (List.range links.types.size) = _ :=
    withItems_of_lt none fun index hindex => hparents ▸ List.mem_range.mp hindex
  have hroots : ((((List.range links.types.size).map fun index =>
      (index, links.parents.getD index none)).filter (·.2.isNone)).map (·.1)) =
      (List.range links.types.size).filter fun index => (links.parents.getD index none).isNone := by
    rw [List.filter_map, List.map_map]
    exact List.map_id _
  simp only [hkeyed, hplaced, Except.ok_bind, map_mergeSort_keyed, hroots, completeStrictly_eq,
    takeSlotStrictly_eq]

/-- Where all depths are known, the types are put together. -/
theorem safe_assemble (h : Linked types rows links) (hlimit : links.types.size < Size.limit) :
    Safe (assembleStrictly links) (assemble links) := by
  refine ⟨h.assembleStrictly_eq hlimit, fun htrap => ?_⟩
  cases hfound : depths links.types links.parents with
  | error fault =>
      rw [assemble, hfound] at htrap
      cases htrap
      exact (h.safe_depths hlimit).ne_trap hfound
  | ok found =>
      obtain ⟨forest, _, hforest, -⟩ := h.exists_forest hfound
      rw [h.assemble_eq, hforest] at htrap
      cases htrap

theorem safe_build (hlimit : types.length < Size.limit) :
    Safe (buildStrictly types rows) (buildSilently types rows) := by
  refine (safe_links (linked_ofTypes types)).bind fun links hlinks => ?_
  have hlinked := linked_of_foldlM hlinks
  exact hlinked.assemble_eq ▸ safe_assemble hlinked (hlinked.types_size ▸ hlimit)

end Assembly

end Nesting

end Unveil
