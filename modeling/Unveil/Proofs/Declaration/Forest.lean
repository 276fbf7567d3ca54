import Unveil.Tally

namespace Unveil

namespace Forest

/-- The forest with every type changed, by plain recursion. -/
def mapTypes (change : TypeDecl → TypeDecl) : Forest → Forest
  | nil => nil
  | absent rest => absent (rest.mapTypes change)
  | present type nested rest =>
      present (change type) (nested.mapTypes change) (rest.mapTypes change)

theorem flatMap_preorder_of_none {levels : List Forest} (h : next? levels = none) :
    levels.flatMap preorder = [] := by
  fun_induction next? levels with
  | case1 => rfl
  | case2 levels ih => simpa [preorder] using ih h
  | case3 rest levels ih => simpa [preorder] using ih h
  | case4 => cases h

theorem flatMap_preorder_of_next {levels left : List Forest} {type : TypeDecl}
    (h : next? levels = some (type, left)) :
    levels.flatMap preorder = type :: left.flatMap preorder := by
  fun_induction next? levels with
  | case1 => cases h
  | case2 levels ih => simpa [preorder] using ih h
  | case3 rest levels ih => simpa [preorder] using ih h
  | case4 type nested rest levels =>
      cases h
      simp [preorder]

/-- A walk meets the types of the levels that are left, one level after the
other. -/
theorem walk_eq (seen : List TypeDecl) (levels : List Forest) :
    walk seen levels = seen.reverse ++ levels.flatMap preorder := by
  fun_induction walk seen levels with
  | case1 seen levels hnone => rw [flatMap_preorder_of_none hnone, List.append_nil]
  | case2 seen levels type left hnext ih =>
      rw [ih, flatMap_preorder_of_next hnext, List.reverse_cons, List.append_assoc]
      rfl

theorem types_eq_preorder (forest : Forest) : forest.types = forest.preorder := by
  rw [types, walk_eq]
  simp

/-- A frame whose slots behind its type have been changed too. -/
def Frame.finish (change : TypeDecl → TypeDecl) (frame : Frame) : Frame :=
  { frame with todo := frame.todo.mapTypes change }

/-- A change that is under way ends with everything changed that it had still
to do. -/
theorem revise_eq (change : TypeDecl → TypeDecl) (done level : Forest) (frames : List Frame) :
    revise change done level frames =
      close (done.revAppend (level.mapTypes change)) (frames.map (Frame.finish change)) := by
  fun_induction revise change done level frames with
  | case1 done => rfl
  | case2 done frame frames ih => exact ih
  | case3 done rest frames ih => exact ih
  | case4 done type nested rest frames ih => exact ih

theorem map_eq_mapTypes (change : TypeDecl → TypeDecl) (forest : Forest) :
    forest.map change = forest.mapTypes change :=
  revise_eq change nil forest []

@[simp] theorem preorder_mapTypes (change : TypeDecl → TypeDecl) (forest : Forest) :
    (forest.mapTypes change).preorder = forest.preorder.map change := by
  induction forest with
  | nil => rfl
  | absent rest ih => exact ih
  | present type nested rest ihNested ihRest =>
      simp only [mapTypes, preorder, ihNested, ihRest, List.map_cons, List.map_append]

/-- Changes that agree on the types of a forest give the same forest. -/
theorem mapTypes_congr {change change' : TypeDecl → TypeDecl} {forest : Forest}
    (h : ∀ type ∈ forest.preorder, change type = change' type) :
    forest.mapTypes change = forest.mapTypes change' := by
  induction forest with
  | nil => rfl
  | absent rest ih => simp only [mapTypes, ih h]
  | present type nested rest ihNested ihRest =>
      simp only [preorder, List.mem_cons, List.mem_append] at h
      simp only [mapTypes, h type (Or.inl rfl),
        ihNested fun other hother => h other (Or.inr (Or.inl hother)),
        ihRest fun other hother => h other (Or.inr (Or.inr hother))]

theorem slotsGo_eq (seen : List (Option (TypeDecl × Forest))) (forest : Forest) :
    slots.go seen forest = seen.reverse ++ slots.go [] forest := by
  induction forest generalizing seen with
  | nil => simp [slots.go]
  | absent rest ih => rw [slots.go, slots.go, ih, ih [none]]; simp
  | present type nested rest _ ih => rw [slots.go, slots.go, ih, ih [some _]]; simp

theorem slots_absent (rest : Forest) : (absent rest).slots = none :: rest.slots := by
  rw [slots, slots.go, slotsGo_eq]
  rfl

theorem slots_present (type : TypeDecl) (nested rest : Forest) :
    (present type nested rest).slots = some (type, nested) :: rest.slots := by
  rw [slots, slots.go, slotsGo_eq]
  rfl

end Forest

end Unveil
