import Unveil.Proofs.Outcome

/-!
Steps that only remark. What a step remarks never decides how it goes on, so it
comes to the same with every journal, and `Logged.Yields` says to what. A chain
of steps yields the chain of what they yield, and the journal can be left out of
whatever is said about its result.
-/

namespace Unveil

namespace Logged

variable {α β γ : Type}

/-- The step comes to `result`, whatever the journal says so far. -/
def Yields (step : Logged α) (result : Except Fault α) : Prop :=
  ∀ journal, ∃ after, step journal =
    match result with
    | .ok value => .ok value after
    | .error fault => .error fault after

theorem yields_pure (value : α) : Yields (pure value) (pure value) :=
  fun journal => ⟨journal, rfl⟩

theorem yields_lift (result : Except Fault α) : Yields (lift result) result := by
  intro journal
  refine ⟨journal, ?_⟩
  cases result with
  | ok value => rfl
  | error fault => rfl

theorem yields_throw (fault : Fault) : Yields (throw fault : Logged α) (.error fault) :=
  fun journal => ⟨journal, rfl⟩

/-- Nothing comes of what would have followed a fault. -/
theorem yields_throw_bind {fault : Fault} {next : α → Logged β} {result : γ → Except Fault β} :
    Yields (throw fault >>= next) (throw fault >>= result) :=
  fun journal => ⟨journal, rfl⟩

theorem yields_warn (origin : Origin) (text : String) :
    Yields (warn origin text) (pure ()) :=
  fun _ => ⟨_, rfl⟩

theorem yields_debug (origin : Origin) (text : String) :
    Yields (debug origin text) (pure ()) :=
  fun _ => ⟨_, rfl⟩

theorem Yields.bind {step : Logged α} {next : α → Logged β} {result : Except Fault α}
    {result' : α → Except Fault β} (hstep : Yields step result)
    (hnext : ∀ value, result = .ok value → Yields (next value) (result' value)) :
    Yields (step >>= next) (result >>= result') := by
  intro journal
  obtain ⟨between, hbetween⟩ := hstep journal
  cases result with
  | error fault => exact ⟨between, EStateM.bind_of_error hbetween⟩
  | ok value =>
      obtain ⟨after, hafter⟩ := hnext value rfl between
      exact ⟨after, by rw [EStateM.bind_of_ok hbetween, hafter]; rfl⟩

/-- A remark in front of a step changes nothing about it. -/
theorem Yields.after {remark : Logged Unit} {next : Unit → Logged β} {result : Except Fault β}
    (hremark : Yields remark (pure ())) (hnext : Yields (next ()) result) :
    Yields (remark >>= next) result := by
  intro journal
  obtain ⟨between, hbetween⟩ := hremark journal
  obtain ⟨after, hafter⟩ := hnext between
  exact ⟨after, by rw [EStateM.bind_of_ok hbetween, hafter]⟩

theorem Yields.map {step : Logged α} {result : Except Fault α} (f : α → β)
    (h : Yields step result) : Yields (f <$> step) (f <$> result) := by
  intro journal
  obtain ⟨after, hafter⟩ := h journal
  refine ⟨after, ?_⟩
  simp only [Functor.map, EStateM.map, hafter]
  cases result with
  | ok value => rfl
  | error fault => rfl

theorem yields_forM {items : List α} {remark : α → Logged Unit}
    (h : ∀ item ∈ items, Yields (remark item) (pure ())) :
    Yields (items.forM remark) (pure ()) := by
  induction items with
  | nil => exact yields_pure ()
  | cons item items ih =>
      have hothers := ih fun other hother => h other (by simp [hother])
      change Yields (remark item >>= fun _ => items.forM remark) _
      exact (h item (by simp)).after hothers

theorem yields_foldlM {items : List α} {step : β → α → Logged β} {result : β → α → Except Fault β}
    (h : ∀ value item, Yields (step value item) (result value item)) (value : β) :
    Yields (items.foldlM step value) (items.foldlM result value) := by
  induction items generalizing value with
  | nil => exact yields_pure value
  | cons item items ih =>
      simp only [List.foldlM_cons]
      exact (h value item).bind fun next _ => ih next

/-- A step that yields a value does so with every journal. -/
theorem Yields.ok_iff {step : Logged α} {result : Except Fault α} (h : Yields step result)
    {journal : Journal} {value : α} :
    (∃ after, step journal = .ok value after) ↔ result = .ok value := by
  obtain ⟨after, hafter⟩ := h journal
  rw [hafter]
  cases result with
  | ok other => simp
  | error fault => simp

theorem Yields.error_iff {step : Logged α} {result : Except Fault α} (h : Yields step result)
    {journal : Journal} {fault : Fault} :
    (∃ after, step journal = .error fault after) ↔ result = .error fault := by
  obtain ⟨after, hafter⟩ := h journal
  rw [hafter]
  cases result with
  | ok value => simp
  | error other => simp

end Logged

end Unveil
