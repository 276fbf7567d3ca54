import Unveil.Proofs.Declaration.Tally
import Unveil.Proofs.Module.Conservation
import Unveil.Proofs.Safety.Steps
import Unveil.Writing.Module

/-!
Counting without traps. Counters are sizes and go up one at a time, or by what
another counter has come to. Since they never go down, there is room at every
step if there is room in the end; so a pass and an inventory are safe wherever
what they come to is small.
-/

namespace Unveil

section Counting

variable {α : Type}

/-- The items that are counted, one at a time. -/
def countStrictly (counted : α → Bool) : (count : Nat) → List α → Except Fault Nat
  | count, [] => .ok count
  | count, item :: items => do
      let count ← if counted item then Size.add count 1 else pure count
      countStrictly counted count items

theorem countStrictly_eq {counted : α → Bool} {count : Nat} {items : List α}
    (h : count + items.countP counted < Size.limit) :
    countStrictly counted count items = .ok (count + items.countP counted) := by
  induction items generalizing count with
  | nil => rfl
  | cons item items ih =>
      rw [List.countP_cons] at h ⊢
      rw [countStrictly]
      by_cases hcounted : counted item = true
      · simp only [hcounted, ↓reduceIte] at h ⊢
        rw [Size.add_of_lt (by omega), Except.ok_bind, ih (by omega)]
        congr 1
        omega
      · simp only [hcounted, ↓reduceIte, Bool.false_eq_true] at h ⊢
        exact ih (by omega)

end Counting

namespace Tally

/-- A tally of which no count is too large for a size. -/
structure Small (tally : Tally) : Prop where
  types : tally.types < Size.limit
  methods : tally.methods < Size.limit
  fields : tally.fields < Size.limit

def addStrictly (a b : Tally) : Except Fault Tally := do
  let types ← Size.add a.types b.types
  let methods ← Size.add a.methods b.methods
  let fields ← Size.add a.fields b.fields
  pure ⟨types, methods, fields⟩

def sumStrictly (tallies : List Tally) : Except Fault Tally := tallies.foldlM addStrictly zero

variable {a b : Tally}

theorem Small.left (h : (a.add b).Small) : a.Small where
  types := Nat.lt_of_le_of_lt (Nat.le_add_right ..) h.types
  methods := Nat.lt_of_le_of_lt (Nat.le_add_right ..) h.methods
  fields := Nat.lt_of_le_of_lt (Nat.le_add_right ..) h.fields

theorem Small.right (h : (a.add b).Small) : b.Small := Small.left (add_comm a b ▸ h)

theorem Small.of_mem {tallies : List Tally} {tally : Tally} (h : (sum tallies).Small)
    (hmem : tally ∈ tallies) : tally.Small := by
  induction tallies with
  | nil => cases hmem
  | cons first others ih =>
      rw [sum_cons] at h
      rcases List.mem_cons.mp hmem with rfl | hlater
      · exact h.left
      · exact ih h.right hlater

theorem addStrictly_eq (h : (a.add b).Small) : a.addStrictly b = .ok (a.add b) := by
  rw [addStrictly, Size.add_of_lt h.types, Except.ok_bind, Size.add_of_lt h.methods,
    Except.ok_bind, Size.add_of_lt h.fields]
  rfl

theorem foldlM_addStrictly {start : Tally} {tallies : List Tally}
    (h : (start.add (sum tallies)).Small) :
    tallies.foldlM addStrictly start = .ok (start.add (sum tallies)) := by
  induction tallies generalizing start with
  | nil =>
      rw [add_comm]
      exact congrArg Except.ok (zero_add start).symm
  | cons first others ih =>
      rw [sum_cons, ← add_assoc] at h ⊢
      rw [List.foldlM_cons, addStrictly_eq h.left, Except.ok_bind, ih h]

theorem sumStrictly_eq {tallies : List Tally} (h : (sum tallies).Small) :
    sumStrictly tallies = .ok (sum tallies) := by
  rw [← zero_add (sum tallies)] at h ⊢
  exact foldlM_addStrictly h

end Tally

namespace Tallying

def resultStrictly : Tallying → Except Fault Tally
  | nothing => .ok .zero
  | one tally => .ok tally
  | both left right => do
      let before ← left.resultStrictly
      let behind ← right.resultStrictly
      before.addStrictly behind

/-- The bracketing that takes the tallies in one after the other. -/
def inTurn (tallies : List Tally) : Tallying :=
  tallies.foldl (fun before tally => both before (one tally)) nothing

theorem tallies_inTurn (given : List Tally) : (inTurn given).tallies = given := by
  have hfold (start : Tallying) :
      (given.foldl (fun before tally => both before (one tally)) start).tallies =
        start.tallies ++ given := by
    induction given generalizing start with
    | nil => exact (List.append_nil _).symm
    | cons first others ih =>
        rw [List.foldl_cons, ih, tallies, tallies, List.append_assoc, List.singleton_append]
  exact hfold nothing

/-- Whatever the bracketing, no partial sum is larger than the whole. -/
theorem resultStrictly_eq {tallying : Tallying} (h : (Tally.sum tallying.tallies).Small) :
    tallying.resultStrictly = .ok (Tally.sum tallying.tallies) := by
  induction tallying with
  | nothing => rfl
  | one tally => exact congrArg Except.ok (Tally.zero_add tally).symm
  | both left right ihLeft ihRight =>
      rw [tallies, Tally.sum_append] at h ⊢
      rw [resultStrictly, ihLeft h.left, Except.ok_bind, ihRight h.right, Except.ok_bind,
        Tally.addStrictly_eq h]

end Tallying

/-- What making a type public changes, counted declaration by declaration. -/
def TypeDecl.hiddenStrictly (type : TypeDecl) : Except Fault Tally := do
  let types ← countStrictly (!·.isPublic) 0 [type]
  let methods ← countStrictly (·.any (!·.isPublic)) 0 type.methods
  let fields ← countStrictly (·.any (!·.isPublic)) 0 type.fields
  pure ⟨types, methods, fields⟩

theorem countStrictly_zero {α : Type} {counted : α → Bool} {items : List α}
    (h : items.countP counted < Size.limit) :
    countStrictly counted 0 items = .ok (items.countP counted) := by
  rw [← Nat.zero_add (items.countP counted)] at h ⊢
  exact countStrictly_eq h

theorem TypeDecl.hiddenStrictly_eq {type : TypeDecl} (h : type.hidden.Small) :
    type.hiddenStrictly = .ok type.hidden := by
  have htypes : type.hidden.types = [type].countP (!·.isPublic) := by
    unfold hidden
    cases hpublic : type.isPublic with
    | true => simp [hpublic]
    | false => simp [hpublic]
  rw [hiddenStrictly, countStrictly_zero (htypes ▸ h.types), Except.ok_bind,
    countStrictly_zero h.methods, Except.ok_bind, countStrictly_zero h.fields, ← htypes]
  rfl

namespace Forest

def hiddenInStrictly : Option (TypeDecl × Forest) → Except Fault Tally
  | none => .ok .zero
  | some (type, nested) => do
      let tallies ← (visits [] [(type, nested)]).mapM TypeDecl.hiddenStrictly
      Tally.sumStrictly tallies

/-- Makes every declaration of a forest public. The partial tallies of the
top-level slots are added up with whatever bracketing they are shared out. -/
def unveilStrictly (forest : Forest) (share : List Tally → Tallying) :
    Except Fault (Forest × Tally) := do
  let partials ← forest.slots.mapM hiddenInStrictly
  let tally ← (share partials).resultStrictly
  pure (forest.map TypeDecl.unveil, tally)

theorem hiddenInStrictly_eq {slot : Option (TypeDecl × Forest)} (h : (hiddenIn slot).Small) :
    hiddenInStrictly slot = .ok (hiddenIn slot) := by
  match slot, h with
  | none, _ => rfl
  | some (type, nested), h =>
      unfold hiddenIn at h ⊢
      have htallies : (visits [] [(type, nested)]).mapM TypeDecl.hiddenStrictly =
          .ok ((visits [] [(type, nested)]).map TypeDecl.hidden) :=
        Except.mapM_of_ok fun other hother =>
          TypeDecl.hiddenStrictly_eq (h.of_mem (List.mem_map_of_mem hother))
      rw [hiddenInStrictly, htallies, Except.ok_bind, Tally.sumStrictly_eq h]

/-- A pass has room for all its counts if it has for the result. -/
theorem unveilStrictly_eq {forest : Forest} {share : List Tally → Tallying}
    (hshare : ∀ tallies, (share tallies).tallies = tallies)
    (h : (Tally.sum (forest.preorder.map TypeDecl.hidden)).Small) (parallel : Bool) :
    forest.unveilStrictly share = .ok (forest.unveil parallel) := by
  rw [← sum_hiddenIn] at h
  have hpartials : forest.slots.mapM hiddenInStrictly = .ok (forest.slots.map hiddenIn) :=
    Except.mapM_of_ok fun slot hslot => hiddenInStrictly_eq (h.of_mem (List.mem_map_of_mem hslot))
  have hresult : (share (forest.slots.map hiddenIn)).resultStrictly =
      .ok (forest.unveil parallel).2 := by
    rw [tally_unveil, ← sum_hiddenIn, Tallying.resultStrictly_eq (by rwa [hshare]), hshare]
  rw [unveilStrictly, hpartials, Except.ok_bind, hresult]
  rfl

end Forest

namespace Module

namespace Inventory

/-- An inventory of which no count is too large for a size. -/
structure Small (inventory : Inventory) : Prop where
  types : inventory.types < Size.limit
  methods : inventory.methods < Size.limit
  fields : inventory.fields < Size.limit
  absent : inventory.absent < Size.limit

/-- Counts the slots with and without a member, one at a time. -/
def addSlotsStrictly {α : Type} :
    List (Option α) → (held absent : Nat) → Except Fault (Nat × Nat)
  | [], held, absent => .ok (held, absent)
  | some _ :: slots, held, absent => do
      let held ← Size.add held 1
      addSlotsStrictly slots held absent
  | none :: slots, held, absent => do
      let absent ← Size.add absent 1
      addSlotsStrictly slots held absent

def addTypeStrictly (inventory : Inventory) (type : TypeDecl) : Except Fault Inventory := do
  let types ← Size.add inventory.types 1
  let (methods, absent) ← addSlotsStrictly type.methods inventory.methods inventory.absent
  let (fields, absent) ← addSlotsStrictly type.fields inventory.fields absent
  pure { types, methods, fields, absent }

def addSlotStrictly (inventory : Inventory) (slot : Nat × Option TypeDecl) :
    Except Fault Inventory :=
  match slot.2 with
  | some type => inventory.addTypeStrictly type
  | none => do
      let absent ← Size.add inventory.absent 1
      pure { inventory with absent }

theorem addSlotsStrictly_eq {α : Type} {slots : List (Option α)} {held absent : Nat}
    (hheld : held + slots.countP Option.isSome < Size.limit)
    (habsent : absent + slots.countP Option.isNone < Size.limit) :
    addSlotsStrictly slots held absent =
      .ok (held + slots.countP Option.isSome, absent + slots.countP Option.isNone) := by
  induction slots generalizing held absent with
  | nil => rfl
  | cons slot slots ih =>
      cases slot with
      | some member =>
          simp only [List.countP_cons, Option.isSome_some, Option.isNone_some, ↓reduceIte,
            Bool.false_eq_true, Nat.add_zero] at hheld habsent ⊢
          rw [addSlotsStrictly, Size.add_of_lt (by omega), Except.ok_bind,
            ih (by omega) habsent]
          congr 2
          omega
      | none =>
          simp only [List.countP_cons, Option.isSome_none, Option.isNone_none, ↓reduceIte,
            Bool.false_eq_true, Nat.add_zero] at hheld habsent ⊢
          rw [addSlotsStrictly, Size.add_of_lt (by omega), Except.ok_bind,
            ih hheld (by omega)]
          congr 2
          omega

variable {start inventory : Inventory} {slot : Nat × Option TypeDecl}
  {outline : List (Nat × Option TypeDecl)}

theorem addSlotStrictly_eq (h : (inventory.addSlot slot).Small) :
    inventory.addSlotStrictly slot = .ok (inventory.addSlot slot) := by
  obtain ⟨depth, slot⟩ := slot
  obtain ⟨htypes, hmethods, hfields, habsent⟩ := h
  cases slot with
  | none =>
      rw [addSlotStrictly, Size.add_of_lt habsent]
      rfl
  | some type =>
      simp only [addSlot, addType] at htypes hmethods hfields habsent
      change addTypeStrictly inventory type = .ok (inventory.addType type)
      simp only [addTypeStrictly, Size.add_of_lt htypes, Except.ok_bind,
        addSlotsStrictly_eq hmethods (Nat.lt_of_le_of_lt (Nat.le_add_right ..) habsent),
        addSlotsStrictly_eq hfields habsent]
      rfl

theorem Small.before (h : (inventory.addSlot slot).Small) : inventory.Small := by
  obtain ⟨depth, slot⟩ := slot
  obtain ⟨htypes, hmethods, hfields, habsent⟩ := h
  cases slot with
  | none => exact ⟨htypes, hmethods, hfields, Nat.lt_of_succ_lt habsent⟩
  | some type =>
      simp only [addSlot, addType] at htypes hmethods hfields habsent
      exact ⟨by omega, by omega, by omega, by omega⟩

theorem Small.of_foldl (h : (outline.foldl addSlot start).Small) : start.Small := by
  induction outline generalizing start with
  | nil => exact h
  | cons slot outline ih => exact (ih h).before

theorem foldlM_addSlotStrictly (h : (outline.foldl addSlot start).Small) :
    outline.foldlM addSlotStrictly start = .ok (outline.foldl addSlot start) := by
  induction outline generalizing start with
  | nil => rfl
  | cons slot outline ih =>
      rw [List.foldl_cons] at h ⊢
      rw [List.foldlM_cons, addSlotStrictly_eq h.of_foldl, Except.ok_bind, ih h]

end Inventory

def inventoryStrictly (module : Module) : Except Fault Inventory :=
  module.types.outline.foldlM Inventory.addSlotStrictly ⟨0, 0, 0, 0⟩

theorem inventoryStrictly_eq {module : Module} (h : module.inventory.Small) :
    module.inventoryStrictly = .ok module.inventory :=
  Inventory.foldlM_addSlotStrictly h

/-- Makes every declaration of a module public. -/
def unveilStrictly (module : Module) (share : List Tally → Tallying) :
    Except Fault (Module × Tally) := do
  let (types, tally) ← module.types.unveilStrictly share
  pure ({ module with types }, tally)

theorem yields_unveil {module : Module} {share : List Tally → Tallying}
    (hshare : ∀ tallies, (share tallies).tallies = tallies)
    (h : (Tally.sum (module.types.preorder.map TypeDecl.hidden)).Small) (parallel : Bool) :
    ∃ unveiled, module.unveilStrictly share = .ok unveiled ∧
      Logged.Yields (module.unveil parallel) (.ok unveiled) := by
  refine ⟨_, ?_, (Logged.yields_debug _ _).after (Logged.yields_pure _)⟩
  rw [unveilStrictly, Forest.unveilStrictly_eq hshare h parallel]
  rfl

end Module

end Unveil
