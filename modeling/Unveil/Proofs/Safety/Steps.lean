import Unveil.Proofs.Outcome

/-!
Steps that a machine cannot always take. An index may lie outside its array, a
difference be negative, and a number grow past the bits that hold it; here each
such step ends in a trap. The strict form of a function is the function written
with these steps wherever it has one. `Safe` says that a strict form comes to
what the function comes to and that this is no trap, and its rules follow the
way in which a computation is put together.
-/

namespace Unveil

/-- A number that has to stay below a bound. -/
def below (bound value : Nat) : Except Fault Nat :=
  if value < bound then .ok value else .error .trap

/-- The bounds of numbers of 8 and 32 bits. -/
def byteLimit : Nat := 0x100

def wordLimit : Nat := 0x100000000

/-- A difference that must not be negative. -/
def Size.sub (a b : Nat) : Except Fault Nat := if b ≤ a then .ok (a - b) else .error .trap

/-- A number moved up by some of its bits, of which it has `bits`. -/
def shiftUp (bits value amount : Nat) : Except Fault Nat :=
  if amount < bits then .ok (value <<< amount % 1 <<< bits) else .error .trap

/-- A number moved down by some of its bits, of which it has `bits`. -/
def shiftDown (bits value amount : Nat) : Except Fault Nat :=
  if amount < bits then .ok (value >>> amount) else .error .trap

/-- An array with another item at an index that has to lie inside. -/
def putAt {α : Type} (items : Array α) (index : Nat) (item : α) : Except Fault (Array α) :=
  if index < items.size then .ok (items.setIfInBounds index item) else .error .trap

/-- An array with the item at an index that has to lie inside changed. -/
def changeAt {α : Type} (items : Array α) (index : Nat) (change : α → α) :
    Except Fault (Array α) :=
  if index < items.size then .ok (items.modify index change) else .error .trap

section Steps

variable {α : Type} {a b bound value bits amount index : Nat} {items : Array α}

theorem below_of_lt (h : value < bound) : below bound value = .ok value := if_pos h

theorem Size.add_of_lt (h : a + b < Size.limit) : Size.add a b = .ok (a + b) := if_pos h

theorem Size.mul_of_lt (h : a * b < Size.limit) : Size.mul a b = .ok (a * b) := if_pos h

theorem Size.sub_of_le (h : b ≤ a) : Size.sub a b = .ok (a - b) := if_pos h

theorem shiftUp_of_lt (h : amount < bits) (hvalue : value <<< amount < 1 <<< bits) :
    shiftUp bits value amount = .ok (value <<< amount) := by
  rw [shiftUp, if_pos h, Nat.mod_eq_of_lt hvalue]

theorem shiftDown_of_lt (h : amount < bits) : shiftDown bits value amount = .ok (value >>> amount) :=
  if_pos h

theorem itemAt_of_lt (h : index < items.size) : itemAt items index = .ok items[index] := by
  rw [itemAt, Array.getElem?_eq_getElem h]

theorem putAt_of_lt {item : α} (h : index < items.size) :
    putAt items index item = .ok (items.setIfInBounds index item) := if_pos h

theorem changeAt_of_lt {change : α → α} (h : index < items.size) :
    changeAt items index change = .ok (items.modify index change) := if_pos h

theorem Bytes.cut_of_le {data : Bytes} {start stop : Nat} (hstart : start ≤ stop)
    (hstop : stop ≤ data.size) : data.cut start stop = .ok (data.extract start stop) :=
  if_pos ⟨hstart, hstop⟩

theorem Bytes.rest_of_le {data : Bytes} {start : Nat} (h : start ≤ data.size) :
    data.rest start = .ok (data.extract start data.size) :=
  cut_of_le h (Nat.le_refl _)

/-- A loop whose every round comes to a result. -/
theorem Except.mapM_of_ok {β : Type} {step : α → Except Fault β} {result : α → β} {items : List α}
    (h : ∀ item ∈ items, step item = .ok (result item)) :
    items.mapM step = .ok (items.map result) := by
  induction items with
  | nil => rfl
  | cons item items ih =>
      rw [List.mapM_cons, h item (List.mem_cons_self ..), Except.ok_bind,
        ih fun other hother => h other (List.mem_cons_of_mem _ hother)]
      rfl

/-- What every round of a loop keeps holds at its end. -/
theorem Except.inside_foldlM {β : Type} {step : β → α → Except Fault β} {inside : β → Prop}
    {items : List α} {value result : β} (hvalue : inside value)
    (hkept : ∀ value item next, item ∈ items → inside value → step value item = .ok next →
      inside next)
    (h : items.foldlM step value = .ok result) : inside result := by
  induction items generalizing value with
  | nil =>
      cases h
      exact hvalue
  | cons item items ih =>
      rw [List.foldlM_cons, Except.bind_eq_ok] at h
      obtain ⟨next, hnext, hrest⟩ := h
      exact ih (hkept value item next (List.mem_cons_self ..) hvalue hnext)
        (fun value other next hother => hkept value other next (List.mem_cons_of_mem _ hother))
        hrest

end Steps

/-- Is it the fault of a step that cannot be taken? -/
def Fault.isTrap : Fault → Bool
  | trap => true
  | _ => false

theorem Fault.ne_trap {fault : Fault} (h : fault.isTrap = false) : fault ≠ .trap := by
  rintro rfl
  cases h

/-- The strict form of a computation comes to the same, and to no trap. -/
structure Safe {α : Type} (strict plain : Except Fault α) : Prop where
  eq : strict = plain
  ne_trap : plain ≠ .error .trap

namespace Safe

variable {α β : Type} {strict plain : Except Fault α} {fault : Fault}

theorem ok (value : α) : Safe (.ok value) (.ok value) := ⟨rfl, nofun⟩

theorem pure (value : α) : Safe (pure value) (pure value) := ok value

theorem fail (h : fault ≠ .trap) : Safe (.error fault : Except Fault α) (.error fault) :=
  ⟨rfl, fun htrap => h (Except.error.inj htrap)⟩

theorem error (h : fault.isTrap = false) :
    Safe (.error fault : Except Fault α) (.error fault) :=
  fail (Fault.ne_trap h)

theorem demand {condition : Prop} [Decidable condition] (h : fault.isTrap = false) :
    Safe (demand condition fault) (demand condition fault) := by
  by_cases hcondition : condition
  · simp only [Unveil.demand, hcondition, ↓reduceIte]
    exact ok ()
  · simp only [Unveil.demand, hcondition, ↓reduceIte]
    exact error h

theorem bind {strictNext plainNext : α → Except Fault β} (h : Safe strict plain)
    (hnext : ∀ value, plain = .ok value → Safe (strictNext value) (plainNext value)) :
    Safe (strict >>= strictNext) (plain >>= plainNext) := by
  rw [h.eq]
  cases plain with
  | error other => exact fail fun htrap => h.ne_trap (congrArg _ htrap)
  | ok value => exact hnext value rfl

/-- A step that only the strict form takes. -/
theorem step {value : α} {next : α → Except Fault β} {plain : Except Fault β}
    (h : strict = .ok value) (hnext : Safe (next value) plain) : Safe (strict >>= next) plain := by
  rw [h]
  exact hnext

/-- What follows a demand may rely on it. -/
theorem demand_bind {condition : Prop} [Decidable condition] {next next' : Unit → Except Fault β}
    (h : fault.isTrap = false) (hnext : condition → Safe (next ()) (next' ())) :
    Safe (Unveil.demand condition fault >>= next) (Unveil.demand condition fault >>= next') :=
  (demand h).bind fun _ hmet => hnext (demand_eq_ok.mp hmet)

theorem map (f : α → β) (h : Safe strict plain) : Safe (f <$> strict) (f <$> plain) := by
  rw [h.eq]
  cases plain with
  | error other => exact fail fun htrap => h.ne_trap (congrArg _ htrap)
  | ok value => exact ok _

theorem ite {condition : Prop} [Decidable condition] {strict' plain' : Except Fault α}
    (h : condition → Safe strict plain) (h' : ¬ condition → Safe strict' plain') :
    Safe (if condition then strict else strict') (if condition then plain else plain') := by
  split
  · rename_i hcondition
    exact h hcondition
  · rename_i hcondition
    exact h' hcondition

theorem mapM {strictStep plainStep : α → Except Fault β} {items : List α}
    (h : ∀ item ∈ items, Safe (strictStep item) (plainStep item)) :
    Safe (items.mapM strictStep) (items.mapM plainStep) := by
  induction items with
  | nil => exact pure []
  | cons item items ih =>
      rw [List.mapM_cons, List.mapM_cons]
      refine (h item (List.mem_cons_self ..)).bind fun first _ => ?_
      exact (ih fun other hother => h other (List.mem_cons_of_mem _ hother)).bind fun others _ =>
        pure _

/-- A loop whose every round is safe where the ones before it have led. -/
theorem foldlM {strictStep plainStep : β → α → Except Fault β} {inside : β → Prop}
    {items : List α} {value : β} (hvalue : inside value)
    (h : ∀ value item, item ∈ items → inside value →
      Safe (strictStep value item) (plainStep value item))
    (hkept : ∀ value item next, item ∈ items → inside value →
      plainStep value item = .ok next → inside next) :
    Safe (items.foldlM strictStep value) (items.foldlM plainStep value) := by
  induction items generalizing value with
  | nil => exact pure value
  | cons item items ih =>
      rw [List.foldlM_cons, List.foldlM_cons]
      refine (h value item (List.mem_cons_self ..) hvalue).bind fun next hnext => ?_
      exact ih (hkept value item next (List.mem_cons_self ..) hvalue hnext)
        (fun value other hother => h value other (List.mem_cons_of_mem _ hother))
        fun value other next hother => hkept value other next (List.mem_cons_of_mem _ hother)

end Safe

/-- The same of a scan, from wherever it starts. -/
structure SafeScan {α : Type} (strict plain : Scan α) : Prop where
  eq : strict = plain
  ne_trap : ∀ offset stop, plain offset ≠ .error .trap stop

namespace SafeScan

variable {α β : Type} {strict plain : Scan α} {offset : Nat}

theorem pure (value : α) : SafeScan (pure value) (pure value) := ⟨rfl, nofun⟩

theorem throw {fault : Fault} (h : fault ≠ .trap) :
    SafeScan (throw fault : Scan α) (throw fault) := by
  refine ⟨rfl, fun offset stop htrap => h ?_⟩
  exact (EStateM.Result.error.inj htrap).1

theorem get : SafeScan get get := ⟨rfl, nofun⟩

theorem bind {strictNext plainNext : α → Scan β} (h : SafeScan strict plain)
    (hnext : ∀ value, SafeScan (strictNext value) (plainNext value)) :
    SafeScan (strict >>= strictNext) (plain >>= plainNext) := by
  refine ⟨by rw [h.eq, funext fun value => (hnext value).eq], fun offset stop htrap => ?_⟩
  cases hplain : plain offset with
  | error fault place =>
      rw [EStateM.bind_of_error hplain] at htrap
      cases htrap
      exact h.ne_trap _ _ hplain
  | ok value place =>
      rw [EStateM.bind_of_ok hplain] at htrap
      exact (hnext value).ne_trap _ _ htrap

theorem map (f : α → β) (h : SafeScan strict plain) : SafeScan (f <$> strict) (f <$> plain) := by
  rw [map_eq_pure_bind, map_eq_pure_bind]
  exact h.bind fun _ => pure _

theorem mapM {strictStep plainStep : α → Scan β} {items : List α}
    (h : ∀ item ∈ items, SafeScan (strictStep item) (plainStep item)) :
    SafeScan (items.mapM strictStep) (items.mapM plainStep) := by
  induction items with
  | nil => exact pure []
  | cons item items ih =>
      rw [List.mapM_cons, List.mapM_cons]
      refine (h item (List.mem_cons_self ..)).bind fun first => ?_
      exact (ih fun other hother => h other (List.mem_cons_of_mem _ hother)).bind fun others =>
        pure _

theorem valueAt (h : SafeScan strict plain) : Safe (strict.valueAt offset) (plain.valueAt offset) := by
  refine ⟨by rw [h.eq], fun htrap => ?_⟩
  unfold Scan.valueAt at htrap
  split at htrap
  · cases htrap
  · rename_i hplain
    cases htrap
    exact h.ne_trap _ _ hplain

theorem valueInside (h : SafeScan strict plain) {data : Bytes} (hinside : offset ≤ data.size) :
    Safe (strict.valueInside data offset) (plain.valueInside data offset) := by
  rw [Scan.valueInside, Scan.valueInside, if_pos hinside, if_pos hinside]
  exact h.valueAt

end SafeScan

end Unveil
