import Unveil.Proofs.Declaration.Publicity

namespace Unveil

namespace Tally

theorem add_comm (a b : Tally) : a.add b = b.add a := by
  simp only [add, Nat.add_comm]

theorem add_assoc (a b c : Tally) : (a.add b).add c = a.add (b.add c) := by
  simp only [add, Nat.add_assoc]

theorem zero_add (a : Tally) : zero.add a = a := by
  simp only [add, zero, Nat.zero_add]

theorem foldl_add (tallies : List Tally) (start : Tally) :
    tallies.foldl add start = start.add (sum tallies) := by
  induction tallies generalizing start with
  | nil => rw [add_comm]; exact (zero_add start).symm
  | cons first others ih =>
      rw [sum, List.foldl_cons, List.foldl_cons, ih, ih (zero.add first), zero_add, add_assoc]

theorem sum_cons (first : Tally) (others : List Tally) :
    sum (first :: others) = first.add (sum others) := by
  rw [sum, List.foldl_cons, foldl_add, zero_add]

theorem sum_append (first second : List Tally) :
    sum (first ++ second) = (sum first).add (sum second) := by
  rw [sum, List.foldl_append, foldl_add]
  rfl

theorem sum_perm {tallies others : List Tally} (h : tallies.Perm others) :
    sum tallies = sum others := by
  induction h with
  | nil => rfl
  | cons first _ ih => rw [sum_cons, sum_cons, ih]
  | swap first second others =>
      rw [sum_cons, sum_cons, sum_cons, sum_cons, ← add_assoc, ← add_assoc, add_comm second first]
  | trans _ _ ih ih' => exact ih.trans ih'

theorem sum_eq_zero {tallies : List Tally} (h : ∀ tally ∈ tallies, tally = zero) :
    sum tallies = zero := by
  induction tallies with
  | nil => rfl
  | cons first others ih =>
      rw [sum_cons, h first (List.mem_cons_self ..), zero_add,
        ih fun other hother => h other (List.mem_cons_of_mem _ hother)]

end Tally

namespace Tallying

/-- Whatever the bracketing, the tallies add up. -/
theorem result_eq_sum (tallying : Tallying) : tallying.result = .sum tallying.tallies := by
  induction tallying with
  | nothing => rfl
  | one tally => exact (Tally.zero_add tally).symm
  | both left right ihLeft ihRight => rw [result, tallies, Tally.sum_append, ihLeft, ihRight]

theorem tallies_halving (given : List Tally) : (halving given).tallies = given := by
  fun_induction halving given with
  | case1 => rfl
  | case2 tally => rfl
  | case3 first second others all middle ihLeft ihRight =>
      rw [tallies, ihLeft, ihRight, List.take_append_drop]

end Tallying

namespace Forest

/-- The types of a row in the order in which a pass visits them: a type before the types
nested in it, and those that follow before both. -/
def backwards : Forest → List TypeDecl
  | nil => []
  | absent rest => rest.backwards
  | present type nested rest => rest.backwards ++ type :: nested.backwards

theorem backwards_perm (forest : Forest) : forest.backwards.Perm forest.preorder := by
  induction forest with
  | nil => exact .refl _
  | absent rest ih => exact ih
  | present type nested rest ihNested ihRest =>
      exact List.perm_append_comm.trans ((ihNested.append ihRest).cons type)

/-- A type that waits to be visited, and those nested in it as they will be. -/
def waitingTypes (entry : TypeDecl × Forest) : List TypeDecl := entry.1 :: entry.2.backwards

theorem flatMap_stack (waiting : List (TypeDecl × Forest)) (row : Forest) :
    (stack waiting row).flatMap waitingTypes = row.backwards ++ waiting.flatMap waitingTypes := by
  induction row generalizing waiting with
  | nil => rfl
  | absent rest ih => exact ih waiting
  | present type nested rest _ ih =>
      rw [stack, ih, backwards, List.flatMap_cons, waitingTypes, List.append_assoc]

/-- A pass visits the types on its stack, each followed by those nested in it. -/
theorem visits_eq (seen : List TypeDecl) (waiting : List (TypeDecl × Forest)) :
    visits seen waiting = seen.reverse ++ waiting.flatMap waitingTypes := by
  fun_induction visits seen waiting with
  | case1 seen => rw [List.flatMap_nil, List.append_nil]
  | case2 seen type nested waiting ih =>
      rw [ih, flatMap_stack, List.flatMap_cons, waitingTypes, List.reverse_cons, List.append_assoc,
        List.cons_append]
      rfl

/-- What a pass visits in a slot. -/
theorem visits_slot (type : TypeDecl) (nested : Forest) :
    visits [] [(type, nested)] = type :: nested.backwards := by
  rw [visits_eq, List.flatMap_singleton]
  rfl

theorem hiddenIn_some (type : TypeDecl) (nested : Forest) :
    hiddenIn (some (type, nested)) = .sum ((type :: nested.preorder).map TypeDecl.hidden) := by
  rw [hiddenIn, visits_slot]
  exact Tally.sum_perm ((nested.backwards_perm.cons type).map TypeDecl.hidden)

theorem sum_hiddenIn (forest : Forest) :
    .sum (forest.slots.map hiddenIn) = Tally.sum (forest.preorder.map TypeDecl.hidden) := by
  induction forest with
  | nil => rfl
  | absent rest ih =>
      rw [slots_absent, List.map_cons, Tally.sum_cons, ih, hiddenIn, Tally.zero_add]
      rfl
  | present type nested rest _ ih =>
      rw [slots_present, List.map_cons, Tally.sum_cons, ih, hiddenIn_some, preorder, ← List.cons_append,
        List.map_append, Tally.sum_append]

/-- A pass counts what it changes in every type of the forest. -/
theorem tally_unveil (forest : Forest) (parallel : Bool) :
    (forest.unveil parallel).2 = .sum (forest.preorder.map TypeDecl.hidden) := by
  rw [← sum_hiddenIn]
  cases parallel with
  | false => rfl
  | true =>
      have hall := (Tallying.halving (forest.slots.map hiddenIn)).result_eq_sum
      rwa [Tallying.tallies_halving] at hall

/-- A second pass changes nothing. -/
theorem tally_unveil_again (forest : Forest) (parallel : Bool) :
    ((forest.map TypeDecl.unveil).unveil parallel).2 = .zero := by
  rw [tally_unveil, map_eq_mapTypes, preorder_mapTypes, List.map_map]
  apply Tally.sum_eq_zero
  intro tally htally
  obtain ⟨type, -, rfl⟩ := List.mem_map.mp htally
  exact type.hidden_unveil

end Forest

end Unveil
