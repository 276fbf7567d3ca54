import Unveil.Proofs.Declaration.Iteration
import Unveil.Proofs.Writing.Passes

/-!
Iterations and passes meet the same types. A pass takes the slots that wait in another
order than an iteration, but the types that it has visited and those in the slots that
wait are always the types of the forest; so a pass that is finished has visited each of
them once.
-/

namespace Unveil

open Forest (Move)

namespace Pass

/-- What a pass has visited so far: the address of every slot that it looked at and
found a type in. -/
inductive Visits (first : Pass) : List (List Move) → Pass → Prop
  | refl : Visits first [] first
  | look {seen : List (List Move)} {pass next : Pass} {address : List Move}
      (hvisits : Visits first seen pass) (hlook : Looks pass address next) :
      Visits first (seen ++ pass.forest.typeAt address) next

variable {forest : Forest} {first pass : Pass} {seen : List (List Move)}

theorem Visits.exists_runs (h : Visits first seen pass) : ∃ turns, Runs first turns pass := by
  induction h with
  | refl => exact ⟨0, .refl⟩
  | look _ hlook ih =>
      obtain ⟨turns, hruns⟩ := ih
      exact ⟨turns + 1, .step hruns hlook.step⟩

theorem Underway.typesAt_eq {turns : Nat} (h : Underway forest turns pass) :
    pass.forest.typesAt = forest.typesAt := by
  funext address
  rw [← Forest.typesAt_mapTypes TypeDecl.unveil, h.same, Forest.typesAt_mapTypes]

/-- A look takes a slot from those that wait. The type that it finds there and what then
waits are the types that waited before. -/
theorem Looks.perm {turns : Nat} {address : List Move} {next : Pass}
    (hlook : Looks pass address next) (hunderway : Underway forest turns pass) :
    (pass.forest.typeAt address ++ next.waiting.flatMap forest.typesAt).Perm
      (pass.waiting.flatMap forest.typesAt) := by
  obtain ⟨before, behind, row, hwaiting, hrow, -, -, hwaiting', -⟩ := hlook.cases
  have htypes := Forest.typesAt_eq hrow
  rw [hunderway.typesAt_eq] at htypes
  rw [hwaiting, hwaiting']
  simp only [List.flatMap_append, List.flatMap_cons, htypes, List.append_assoc]
  have hinner := (List.reverse_perm (row.innerAddresses.map (address ++ ·))).flatMap_right
    forest.typesAt
  refine (List.perm_append_comm_assoc ..).trans ?_
  exact (((hinner.append_right _).append_left _).append_left _)

/-- The types that have been visited and those in the slots that wait are all types. -/
theorem Visits.perm (h : Visits (start forest) seen pass) :
    (seen ++ pass.waiting.flatMap forest.typesAt).Perm forest.typeAddresses := by
  induction h with
  | refl => rw [waiting_start, Forest.flatMap_slotAddresses, List.nil_append]
  | @look seen pass next address hvisits hlook ih =>
      obtain ⟨turns, hruns⟩ := hvisits.exists_runs
      rw [List.append_assoc]
      exact ((hlook.perm (underway_of_runs hruns)).append_left seen).trans ih

/-- A pass can always go on until it is finished. -/
theorem Visits.exists_finished {turns left : Nat} (hvisits : Visits (start forest) seen pass)
    (hruns : Runs (start forest) turns pass) (hturns : turns + left = forest.slotCount) :
    ∃ seen pass, Visits (start forest) seen pass ∧ pass.Finished := by
  have hunderway := underway_of_runs hruns
  induction left generalizing turns seen pass with
  | zero => exact ⟨seen, pass, hvisits, hunderway.finished_iff_turns.mpr hturns⟩
  | succ left ih =>
      have hopen : ¬ pass.Finished := by
        rw [hunderway.finished_iff_turns]
        omega
      obtain ⟨next, hstep⟩ := hunderway.exists_step hopen
      obtain ⟨address, hlook⟩ := hstep.exists_look
      have hnext : Runs (start forest) (turns + 1) next := .step hruns hstep
      exact ih (.look hvisits hlook) hnext (by omega) (underway_of_runs hnext)

end Pass

namespace Forest

/-- The types that a pass visits in a top-level slot. -/
def visitedIn : Option (TypeDecl × Forest) → List TypeDecl
  | none => []
  | some entry => visits [] [entry]

theorem visitedIn_perm (forest : Forest) :
    (forest.slots.flatMap visitedIn).Perm forest.preorder := by
  induction forest with
  | nil => exact .refl _
  | absent rest ih =>
      rw [slots_absent, List.flatMap_cons]
      exact ih
  | present type nested rest _ ih =>
      rw [slots_present, List.flatMap_cons, visitedIn, visits_slot, preorder]
      exact ((nested.backwards_perm.append ih).cons type)

/-- An iteration yields every type of a forest once, before the types nested in it and
before those that follow, and then nothing any more; each call comes to an end. Every
pass that is finished, whatever the order of its turns, has visited the same types,
although it visits later types of a row before earlier ones. -/
theorem types_enumerated (forest : Forest) :
    ∃ yielded, Enumerates forest yielded ∧ forest.types = forest.preorder ∧
      (∀ calls, ∃ left, callsWithin (forest.weight + 1) calls (start forest) =
        some ((List.range calls).map (yielded[·]?), left)) ∧
      (∀ rounds levels found left, nextWithin rounds levels = some (found, left) →
        next? (levels.map Level.row) =
          found.map fun (_, type) => (type, left.map Level.row)) ∧
      (∃ seen pass, Pass.Visits (.start forest) seen pass ∧ pass.Finished) ∧
      (∀ seen pass, Pass.Visits (.start forest) seen pass → pass.Finished →
        seen.Perm (yielded.map Prod.fst)) ∧
      (forest.slots.flatMap visitedIn).Perm forest.types ∧
      ∀ type nested, visitedIn (some (type, nested)) = type :: nested.backwards := by
  have htypes := forest.types_eq_preorder
  refine ⟨forest.placed, forest.enumerates_placed, htypes, forest.callsWithin_start, ?_,
    Pass.Visits.exists_finished .refl .refl (Nat.zero_add _), ?_, ?_, visits_slot⟩
  · exact fun rounds levels found left => next?_of_nextWithin
  · intro seen pass hvisits hfinished
    have hperm := hvisits.perm
    rwa [Pass.finished_iff.mp hfinished, List.flatMap_nil, List.append_nil] at hperm
  · rw [htypes]
    exact forest.visitedIn_perm

end Forest

end Unveil
