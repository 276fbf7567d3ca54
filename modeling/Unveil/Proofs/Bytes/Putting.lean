import Unveil.Proofs.Bytes.Copying

/-!
Writers that put down the same bytes wherever they are used. Such a writer is
known by its bytes: where there is room they come to stand, all that is around
them stays, and writers that follow each other put down their bytes joined.
-/

namespace Unveil

namespace Bytes

theorem overwrite_append (data : Bytes) (start : Nat) (first second : List UInt8) :
    data.overwrite start (first ++ second) =
      (data.overwrite start first).overwrite (start + first.length) second := by
  induction first generalizing data start with
  | nil => rfl
  | cons byte rest ih =>
      rw [List.cons_append, overwrite, ih, overwrite, List.length_cons, Nat.add_assoc,
        Nat.add_comm 1]

/-- What `before` becomes when `size` bytes of `data`, those from `offset` on,
are copied to `start`. -/
structure Copied (data : Bytes) (offset size : Nat) (before : Bytes) (start : Nat)
    (after : Bytes) : Prop where
  size_eq : after.size = before.size
  inside : ∀ k, k < size → after.getD (start + k) 0 = data.getD (offset + k) 0
  outside : ∀ i, i < start ∨ start + size ≤ i → after.getD i 0 = before.getD i 0

theorem copied_overwrite {data before : Bytes} {offset size start : Nat}
    (hroom : start + size ≤ before.size) :
    Copied data offset size before start
      (before.overwrite start ((List.range' offset size).map fun i => data.getD i 0)) where
  size_eq := size_overwrite ..
  inside k hk := by
    rw [getD_overwrite_inside (by simpa using hroom) (by simpa using hk)]
    simp
  outside i hi := by
    apply getD_overwrite_outside
    simpa using hi

end Bytes

namespace Emit

/-- Puts `part` down, whatever the sheet and wherever on it, if there is room. -/
def Puts (emit : Emit Unit) (part : List UInt8) : Prop :=
  ∀ bytes start, start + part.length ≤ bytes.size →
    emit ⟨bytes, start⟩ = .ok () ⟨bytes.overwrite start part, start + part.length⟩

theorem puts_pure : Puts (pure ()) [] :=
  fun _ _ _ => rfl

theorem puts_number (width value : Nat) :
    Puts (number width value) (Bytes.spell width value) := by
  intro bytes start hroom
  rw [Bytes.length_spell] at hroom ⊢
  simp only [number, hroom, ↓reduceIte]

theorem Puts.bind {first second : Emit Unit} {part behind : List UInt8} (hfirst : Puts first part)
    (hsecond : Puts second behind) : Puts (first >>= fun _ => second) (part ++ behind) := by
  intro bytes start hroom
  rw [List.length_append, ← Nat.add_assoc] at hroom
  have hdone := hfirst bytes start (by omega)
  have hnext := hsecond (bytes.overwrite start part) (start + part.length)
    (by rwa [Bytes.size_overwrite])
  rw [EStateM.bind_of_ok hdone, hnext, Bytes.overwrite_append, List.length_append, Nat.add_assoc]

/-- A loop puts down what its rounds do, joined. -/
theorem puts_forM {γ : Type} {items : List γ} {step : γ → Emit Unit} {part : γ → List UInt8}
    (h : ∀ item ∈ items, Puts (step item) (part item)) :
    Puts (items.forM step) (items.flatMap part) := by
  induction items with
  | nil => exact puts_pure
  | cons item items ih =>
      rw [List.flatMap_cons]
      change Puts (step item >>= fun _ => items.forM step) _
      apply Puts.bind
      · exact h item (by simp)
      · apply ih
        intro other hother
        exact h other (by simp [hother])

end Emit

end Unveil
