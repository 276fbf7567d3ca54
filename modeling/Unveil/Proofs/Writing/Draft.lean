import Unveil.Proofs.Store.Replacing
import Unveil.Writing.Draft

namespace Unveil

namespace Hosted

variable {α β ε : Type} {host host' : Host}

/-- What comes after a step starts from the host that the step leaves, unless
the step failed. -/
theorem run_bind (x : ExceptT ε Hosted α) (f : α → ExceptT ε Hosted β) (host : Host) :
    (x >>= f).run host =
      match x.run host with
      | (.ok a, between) => (f a).run between
      | (.error fault, between) => (.error fault, between) := by
  simp only [ExceptT.run, bind, ExceptT.bind, ExceptT.mk, StateT.bind]
  rcases x host with ⟨_ | a, between⟩
  · rfl
  · rfl

/-- A step that cannot fail. -/
theorem run_lift_bind (step : Hosted α) (f : α → ExceptT ε Hosted β) (host : Host) :
    ((ExceptT.lift step : ExceptT ε Hosted α) >>= f).run host =
      (f (step host).1).run (step host).2 := rfl

theorem bind_eq_ok {x : ExceptT Fault Hosted α} {f : α → ExceptT Fault Hosted β} {b : β} :
    (x >>= f).run host = (.ok b, host') ↔
      ∃ a between, x.run host = (.ok a, between) ∧ (f a).run between = (.ok b, host') := by
  rw [run_bind]
  constructor
  · intro h
    split at h
    · rename_i a between hx
      exact ⟨a, between, hx, h⟩
    · cases h
  · rintro ⟨a, between, hx, hf⟩
    rw [hx]
    exact hf

theorem lift_eq_ok {x : Hosted α} {a : α} :
    (ExceptT.lift x : ExceptT Fault Hosted α).run host = (.ok a, host') ↔ x host = (a, host') := by
  constructor
  · intro h
    obtain ⟨hvalue, hhost⟩ := Prod.mk.inj h
    exact Prod.ext (Except.ok.inj hvalue) hhost
  · intro h
    change (Except.ok (x host).1, (x host).2) = _
    rw [h]

end Hosted

theorem Obstacle.raise_ne_ok {α : Type} {obstacle : Obstacle} {host host' : Host} {a : α} :
    (obstacle.raise (m := Hosted)).run host ≠ (.ok a, host') :=
  fun h => nomatch congrArg Prod.fst h

namespace Draft

theorem fail_ne_ok {α : Type} {draft : Draft} {obstacle : Obstacle} {host host' : Host} {a : α} :
    (draft.fail (m := Hosted) obstacle).run host ≠ (.ok a, host') := by
  intro h
  obtain ⟨_, _, -, hraise⟩ := Hosted.bind_eq_ok.mp h
  exact Obstacle.raise_ne_ok hraise

/-- A draft made for a target is finished there. -/
theorem target_of_start {target : Path} {size : Nat} {tag : String} {host host' : Host}
    {draft : Draft} (h : (start (m := Hosted) target size tag).run host = (.ok draft, host')) :
    draft.target = target := by
  unfold start at h
  split at h
  · exact absurd h Obstacle.raise_ne_ok
  · obtain ⟨_, _, -, h⟩ := Hosted.bind_eq_ok.mp h
    split at h
    · obtain ⟨_, _, hraise, -⟩ := Hosted.bind_eq_ok.mp h
      exact absurd hraise Obstacle.raise_ne_ok
    obtain ⟨_, _, -, h⟩ := Hosted.bind_eq_ok.mp h
    split at h
    · obtain ⟨_, _, hraise, -⟩ := Hosted.bind_eq_ok.mp h
      exact absurd hraise Obstacle.raise_ne_ok
    obtain ⟨_, _, -, h⟩ := Hosted.bind_eq_ok.mp h
    split at h
    · obtain ⟨_, _, hfail, -⟩ := Hosted.bind_eq_ok.mp h
      exact absurd hfail fail_ne_ok
    obtain ⟨_, _, -, h⟩ := Hosted.bind_eq_ok.mp h
    split at h
    · obtain ⟨_, _, hfail, -⟩ := Hosted.bind_eq_ok.mp h
      exact absurd hfail fail_ne_ok
    cases h
    rfl

/-- When a draft is finished, the target holds what it was filled with. -/
theorem read?_of_finish {draft : Draft} {data : Bytes} {host host' : Host}
    (h : (draft.finish (m := Hosted) data).run host = (.ok (), host')) :
    host'.store.read? draft.target = some data := by
  unfold finish at h
  obtain ⟨flushed, between, hflush, h⟩ := Hosted.bind_eq_ok.mp h
  cases flushed with
  | false =>
      obtain ⟨_, _, hfail, -⟩ := Hosted.bind_eq_ok.mp h
      exact absurd hfail fail_ne_ok
  | true =>
      obtain ⟨renamed, last, hrename, h⟩ := Hosted.bind_eq_ok.mp h
      cases renamed with
      | false => exact absurd h fail_ne_ok
      | true =>
          cases h
          exact Store.read?_of_replaced
            (Host.attempt_eq_true (Hosted.lift_eq_ok.mp hflush))
            (Host.attempt_eq_true (Hosted.lift_eq_ok.mp hrename))

/-- In a store with nothing but a directory, a file can be drafted and
finished. -/
theorem exists_draft_of_empty (size : Nat) :
    ∃ draft between, (start (m := Hosted) ⟨['o', 'u', 't']⟩ size "0").run
        (Host.sound Store.empty) = (.ok draft, between) ∧
      ∀ data, ∃ host', (draft.finish (m := Hosted) data).run between = (.ok (), host') :=
  ⟨_, _, rfl, fun _ => ⟨_, rfl⟩⟩

end Draft

end Unveil
