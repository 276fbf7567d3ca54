import Unveil.Journal
import Unveil.Bytes.Basic

namespace Unveil

variable {α β σ : Type}

theorem Except.ok_bind {a : α} {f : α → Except Fault β} : (Except.ok a >>= f) = f a := rfl

theorem Except.bind_eq_ok {x : Except Fault α} {f : α → Except Fault β} {b : β} :
    (x >>= f) = .ok b ↔ ∃ a, x = .ok a ∧ f a = .ok b := by
  cases x with
  | error fault => simp [Bind.bind, Except.bind]
  | ok a => simp [Bind.bind, Except.bind]

theorem Except.bind_eq_error {x : Except Fault α} {f : α → Except Fault β} {fault : Fault} :
    (x >>= f) = .error fault ↔ x = .error fault ∨ ∃ a, x = .ok a ∧ f a = .error fault := by
  cases x with
  | error other => simp [Bind.bind, Except.bind]
  | ok a => simp [Bind.bind, Except.bind]

theorem Except.pure_eq_ok {a b : α} : (pure a : Except Fault α) = .ok b ↔ a = b := by
  simp [pure, Except.pure]

theorem Except.map_eq_ok {x : Except Fault α} {f : α → β} {b : β} :
    f <$> x = .ok b ↔ ∃ a, x = .ok a ∧ f a = b := by
  cases x with
  | error fault => simp [Functor.map, Except.map]
  | ok a => simp [Functor.map, Except.map]

theorem Except.bind_congr_ok {x : Except Fault α} {f g : α → Except Fault β}
    (h : ∀ a, x = .ok a → f a = g a) : (x >>= f) = x >>= g := by
  cases x with
  | error fault => rfl
  | ok a => exact h a rfl

/-- Two chains that fail alike, or succeed with results that are related. -/
inductive Except.Alike (related : α → β → Prop) : Except Fault α → Except Fault β → Prop where
  | error (fault : Fault) : Alike related (.error fault) (.error fault)
  | ok {a : α} {b : β} (h : related a b) : Alike related (.ok a) (.ok b)

theorem Except.Alike.imp {related related' : α → β → Prop} {x : Except Fault α}
    {y : Except Fault β} (h : Alike related x y) (himp : ∀ a b, related a b → related' a b) :
    Alike related' x y := by
  cases h with
  | error fault => exact .error fault
  | ok hab => exact .ok (himp _ _ hab)

/-- Chains whose steps behind related results are the same. -/
theorem Except.Alike.bind_eq {γ : Type} {related : α → β → Prop} {x : Except Fault α}
    {y : Except Fault β} {f : α → Except Fault γ} {g : β → Except Fault γ}
    (h : Alike related x y) (hnext : ∀ a b, related a b → g b = f a) : (y >>= g) = x >>= f := by
  cases h with
  | error fault => rfl
  | ok hab => exact hnext _ _ hab

/-- Chains that come to the same as far as is looked at fail alike. -/
theorem Except.alike_of_map {γ : Type} {related : α → β → Prop} {x : Except Fault α}
    {y : Except Fault β} {f : α → γ} {g : β → γ} (h : g <$> y = f <$> x)
    (hok : ∀ a b, x = .ok a → y = .ok b → related a b) : Alike related x y := by
  cases x with
  | error fault =>
      cases y with
      | error fault' =>
          cases h
          exact .error fault
      | ok b => cases h
  | ok a =>
      cases y with
      | error fault' => cases h
      | ok b => exact .ok (hok a b rfl rfl)

theorem Except.mapM_congr {f g : α → Except Fault β} {items : List α}
    (h : ∀ item ∈ items, f item = g item) : items.mapM f = items.mapM g := by
  induction items with
  | nil => rfl
  | cons item items ih =>
      rw [List.mapM_cons, List.mapM_cons, h item (by simp),
        ih fun other hother => h other (by simp [hother])]

theorem eq_ok_of_toOption {x : Except Fault α} {a : α} (h : x.toOption = some a) :
    x = .ok a := by
  cases x with
  | error fault => cases h
  | ok b => exact congrArg Except.ok (Option.some.inj h)

theorem itemAt_eq_ok {items : Array α} {index : Nat} {item : α} :
    itemAt items index = .ok item ↔ items[index]? = some item := by
  unfold itemAt
  split
  · rename_i found hfound
    simp [hfound]
  · rename_i hnone
    simp [hnone]

/-- An array that has an item wherever a list has one is as long as the list. -/
theorem Array.size_eq_of_getElem? {items : Array α} {list : List β}
    {f : Nat → β → α} (h : ∀ index : Nat, items[index]? = list[index]?.map (f index)) :
    items.size = list.length := by
  have hsame (index : Nat) : items.size ≤ index ↔ list.length ≤ index := by
    rw [← Array.getElem?_eq_none_iff, h index, Option.map_eq_none_iff, List.getElem?_eq_none_iff]
  have hle := (hsame list.length).mpr (Nat.le_refl _)
  have hge := (hsame items.size).mp (Nat.le_refl _)
  omega

theorem demand_eq_ok {condition : Prop} [Decidable condition] {fault : Fault} {u : Unit} :
    demand condition fault = .ok u ↔ condition := by
  by_cases h : condition
  · simp [demand, h]
  · simp [demand, h]

theorem demand_bind {condition : Prop} [Decidable condition] {fault : Fault}
    {next : Unit → Except Fault α} (h : condition) :
    (demand condition fault >>= next) = next () := by
  rw [demand, if_pos h]
  rfl

theorem demand_bind_of_not {condition : Prop} [Decidable condition] {fault : Fault}
    {next : Unit → Except Fault α} (h : ¬ condition) :
    (demand condition fault >>= next) = .error fault := by
  rw [demand, if_neg h]
  rfl

theorem EStateM.bind_eq_ok {x : EStateM Fault σ α} {f : α → EStateM Fault σ β} {s t : σ}
    {b : β} : (x >>= f) s = .ok b t ↔ ∃ a r, x s = .ok a r ∧ f a r = .ok b t := by
  simp only [Bind.bind, EStateM.bind]
  cases x s with
  | error fault r => simp
  | ok a r =>
      simp only [EStateM.Result.ok.injEq]
      constructor
      · intro h
        exact ⟨a, r, ⟨rfl, rfl⟩, h⟩
      · rintro ⟨_, _, ⟨rfl, rfl⟩, h⟩
        exact h

theorem EStateM.bind_of_ok {x : EStateM Fault σ α} {f : α → EStateM Fault σ β} {s r : σ}
    {a : α} (h : x s = .ok a r) : (x >>= f) s = f a r := by
  simp only [Bind.bind, EStateM.bind, h]

theorem EStateM.bind_of_error {x : EStateM Fault σ α} {f : α → EStateM Fault σ β} {s r : σ}
    {fault : Fault} (h : x s = .error fault r) : (x >>= f) s = .error fault r := by
  simp only [Bind.bind, EStateM.bind, h]

theorem EStateM.pure_eq_ok {a b : α} {s t : σ} :
    (pure a : EStateM Fault σ α) s = .ok b t ↔ a = b ∧ s = t := by
  simp [pure, EStateM.pure]

theorem EStateM.map_eq_ok {x : EStateM Fault σ α} {f : α → β} {s t : σ} {b : β} :
    (f <$> x) s = .ok b t ↔ ∃ a, x s = .ok a t ∧ f a = b := by
  simp only [Functor.map, EStateM.map]
  cases x s with
  | error fault r => simp
  | ok a r =>
      simp only [EStateM.Result.ok.injEq]
      constructor
      · rintro ⟨rfl, rfl⟩
        exact ⟨a, ⟨rfl, rfl⟩, rfl⟩
      · rintro ⟨_, ⟨rfl, rfl⟩, rfl⟩
        exact ⟨rfl, rfl⟩

theorem EStateM.throw_ne_ok {fault : Fault} {s t : σ} {b : β} :
    (throw fault : EStateM Fault σ β) s ≠ .ok b t := by
  intro h
  cases h

theorem Logged.lift_eq_ok {x : Except Fault α} {a : α} {s t : Journal} :
    Logged.lift x s = .ok a t ↔ x = .ok a ∧ s = t := by
  cases x with
  | error fault => simp [Logged.lift]
  | ok b => simp [Logged.lift]

theorem Scan.valueAt_eq_ok {scan : Scan α} {offset : Nat} {a : α} :
    scan.valueAt offset = .ok a ↔ ∃ stop, scan offset = .ok a stop := by
  simp only [Scan.valueAt]
  cases scan offset with
  | error fault r => simp
  | ok b r => simp

end Unveil
