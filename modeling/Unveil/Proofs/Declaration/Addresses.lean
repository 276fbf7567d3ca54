import Unveil.Proofs.Declaration.Tally

/-!
Slots of a forest by their addresses. An address is the way to a slot from the
first one of the outermost row, so it stands for a reference into the forest:
the slot can be looked at, and the type in it changed, with the rest of the
forest left alone.
-/

namespace Unveil

namespace Forest

/-- One move on the way to a slot: into the row of a slot's type, or to the slot
behind it. -/
inductive Move where
  | inside | behind
  deriving DecidableEq, Repr

open Move

/-- The row from the slot at an address on. -/
def at? : Forest → List Move → Option Forest
  | forest, [] => some forest
  | absent rest, behind :: address => rest.at? address
  | present _ nested _, inside :: address => nested.at? address
  | present _ _ rest, behind :: address => rest.at? address
  | nil, _ :: _ | absent _, inside :: _ => none
termination_by structural _ address => address

/-- Changes the type in the slot at an address. -/
def changeAt (change : TypeDecl → TypeDecl) : Forest → List Move → Forest
  | present type nested rest, [] => present (change type) nested rest
  | absent rest, behind :: address => absent (rest.changeAt change address)
  | present type nested rest, inside :: address =>
      present type (nested.changeAt change address) rest
  | present type nested rest, behind :: address =>
      present type nested (rest.changeAt change address)
  | forest, _ => forest

/-- The addresses of the slots of a row, in their order. -/
def slotAddresses : Forest → List (List Move)
  | nil => []
  | absent rest => [] :: rest.slotAddresses.map (behind :: ·)
  | present _ _ rest => [] :: rest.slotAddresses.map (behind :: ·)

/-- The addresses of the slots right inside the first slot of a row. -/
def innerAddresses : Forest → List (List Move)
  | nil | absent _ => []
  | present _ nested _ => nested.slotAddresses.map (inside :: ·)

/-- How many slots a forest has, at whatever depth. -/
def slotCount : Forest → Nat
  | nil => 0
  | absent rest => rest.slotCount + 1
  | present _ nested rest => nested.slotCount + rest.slotCount + 1

/-- How many of them are the first slot or lie in it. -/
def firstCount : Forest → Nat
  | nil => 0
  | absent _ => 1
  | present _ nested _ => nested.slotCount + 1

/-- What making the type in the first slot public changes, apart from what is nested
in it. -/
def firstHidden : Forest → Tally
  | nil | absent _ => .zero
  | present type _ _ => type.hidden

/-- How many slots are the one at an address or lie in it. There is none exactly if
the address leads nowhere. -/
def countAt (forest : Forest) (address : List Move) : Nat :=
  ((forest.at? address).map firstCount).getD 0

section At

variable {forest row : Forest} {address : List Move} {change : TypeDecl → TypeDecl}

theorem at?_append (forest : Forest) (address others : List Move) :
    forest.at? (address ++ others) = (forest.at? address).bind (·.at? others) := by
  fun_induction at? forest address with
  | case1 forest => rfl
  | case2 rest address ih => exact ih
  | case3 type nested rest address ih => exact ih
  | case4 type nested rest address ih => exact ih
  | case5 first address => cases first <;> rfl
  | case6 rest address => rfl

theorem countAt_append (hrow : forest.at? address = some row) (others : List Move) :
    forest.countAt (address ++ others) = row.countAt others := by
  rw [countAt, at?_append, hrow]
  rfl

/-- At a slot something is to be counted. -/
theorem countAt_pos (hslot : 0 < forest.countAt address) :
    ∃ row, forest.at? address = some row ∧ 0 < row.firstCount := by
  unfold countAt at hslot
  cases hrow : forest.at? address with
  | none => simp [hrow] at hslot
  | some row => exact ⟨row, rfl, by simpa [hrow] using hslot⟩

theorem countAt_slotAddresses (row : Forest) : ∀ slot ∈ row.slotAddresses, 0 < row.countAt slot := by
  induction row with
  | nil => exact fun _ hslot => nomatch hslot
  | absent rest ih =>
      intro slot hslot
      rcases List.mem_cons.mp hslot with rfl | hbehind
      · exact Nat.one_pos
      · obtain ⟨other, hother, rfl⟩ := List.mem_map.mp hbehind
        exact ih other hother
  | present type nested rest _ ih =>
      intro slot hslot
      rcases List.mem_cons.mp hslot with rfl | hbehind
      · exact Nat.succ_pos _
      · obtain ⟨other, hother, rfl⟩ := List.mem_map.mp hbehind
        exact ih other hother

/-- The slots of a row and those in them are all there are. -/
theorem total_slotAddresses (row : Forest) :
    total (row.slotAddresses.map row.countAt) = row.slotCount := by
  induction row with
  | nil => rfl
  | absent rest ih =>
      have hbehind : (absent rest).countAt ∘ (behind :: ·) = rest.countAt := rfl
      rw [slotAddresses, List.map_cons, List.map_map, hbehind, total_cons, ih, slotCount,
        Nat.add_comm]
      rfl
  | present type nested rest _ ih =>
      have hbehind : (present type nested rest).countAt ∘ (behind :: ·) = rest.countAt := rfl
      have hfirst : (present type nested rest).countAt [] = nested.slotCount + 1 := rfl
      rw [slotAddresses, List.map_cons, List.map_map, hbehind, total_cons, ih, hfirst, slotCount]
      omega

/-- A slot that can be looked at is one more than the slots in it. -/
theorem total_innerAddresses (hrow : forest.at? address = some row) (hfirst : 0 < row.firstCount) :
    total ((row.innerAddresses.map (address ++ ·)).map forest.countAt) + 1 =
      forest.countAt address := by
  have hcount : forest.countAt address = row.firstCount := by
    rw [countAt, hrow]
    rfl
  have hinner : forest.countAt ∘ (address ++ ·) = row.countAt := funext (countAt_append hrow)
  rw [List.map_map, hinner, hcount]
  cases row with
  | nil => cases hfirst
  | absent rest => rfl
  | present type nested rest =>
      have hinside : (present type nested rest).countAt ∘ (inside :: ·) = nested.countAt := rfl
      rw [innerAddresses, List.map_map, hinside, total_slotAddresses, firstCount]

theorem countAt_innerAddresses (hrow : forest.at? address = some row) :
    ∀ slot ∈ row.innerAddresses, 0 < forest.countAt (address ++ slot) := by
  intro slot hslot
  rw [countAt_append hrow]
  cases row with
  | nil => cases hslot
  | absent rest => cases hslot
  | present type nested rest =>
      obtain ⟨other, hother, rfl⟩ := List.mem_map.mp hslot
      exact nested.countAt_slotAddresses other hother

@[simp] theorem slotCount_mapTypes (change : TypeDecl → TypeDecl) (forest : Forest) :
    (forest.mapTypes change).slotCount = forest.slotCount := by
  induction forest with
  | nil => rfl
  | absent rest ih => rw [mapTypes, slotCount, slotCount, ih]
  | present type nested rest ihNested ihRest =>
      rw [mapTypes, slotCount, slotCount, ihNested, ihRest]

theorem at?_mapTypes (change : TypeDecl → TypeDecl) (forest : Forest) (address : List Move) :
    (forest.mapTypes change).at? address = (forest.at? address).map (mapTypes change) := by
  fun_induction at? forest address with
  | case1 forest => rfl
  | case2 rest address ih => exact ih
  | case3 type nested rest address ih => exact ih
  | case4 type nested rest address ih => exact ih
  | case5 first address => cases first <;> rfl
  | case6 rest address => rfl

/-- Slots stay where they are when types are changed. -/
theorem countAt_mapTypes (change : TypeDecl → TypeDecl) (forest : Forest)
    (address : List Move) : (forest.mapTypes change).countAt address = forest.countAt address := by
  have hfirst (row : Forest) : (row.mapTypes change).firstCount = row.firstCount := by
    cases row with
    | nil => rfl
    | absent rest => rfl
    | present type nested rest => rw [mapTypes, firstCount, firstCount, slotCount_mapTypes]
  rw [countAt, countAt, at?_mapTypes, Option.map_map]
  exact congrArg (Option.getD · 0) (congrArg (Option.map · _) (funext hfirst))

/-- Forests that come to the same when their types are changed have the same slots. -/
theorem countAt_congr {other : Forest} (h : forest.mapTypes change = other.mapTypes change) :
    forest.countAt = other.countAt := by
  funext address
  rw [← countAt_mapTypes change, h, countAt_mapTypes]

/-- A change that is to be made everywhere may be made at one place before. -/
theorem mapTypes_changeAt (hagain : ∀ type, change (change type) = change type)
    (forest : Forest) (address : List Move) :
    (forest.changeAt change address).mapTypes change = forest.mapTypes change := by
  fun_induction changeAt change forest address with
  | case1 type nested rest => rw [mapTypes, mapTypes, hagain]
  | case2 rest address ih => rw [mapTypes, mapTypes, ih]
  | case3 type nested rest address ih => rw [mapTypes, mapTypes, ih]
  | case4 type nested rest address ih => rw [mapTypes, mapTypes, ih]
  | case5 forest address => rfl

theorem changeAt_of_absent {rest : Forest} (hrow : forest.at? address = some (absent rest)) :
    forest.changeAt change address = forest := by
  fun_induction at? forest address with
  | case1 forest =>
      cases hrow
      rfl
  | case2 rest address ih => rw [changeAt, ih hrow]
  | case3 type nested rest address ih => rw [changeAt, ih hrow]
  | case4 type nested rest address ih => rw [changeAt, ih hrow]
  | case5 first address => cases hrow
  | case6 rest address => cases hrow

/-- What is still to be counted in a forest is what one slot has and what is left when
its type has been made public. -/
theorem hidden_changeAt (hrow : forest.at? address = some row) :
    Tally.sum (forest.preorder.map TypeDecl.hidden) =
      row.firstHidden.add
        (.sum ((forest.changeAt TypeDecl.unveil address).preorder.map TypeDecl.hidden)) := by
  fun_induction at? forest address with
  | case1 forest =>
      obtain rfl : forest = row := Option.some.inj hrow
      cases forest with
      | nil => exact (Tally.zero_add _).symm
      | absent rest => exact (Tally.zero_add _).symm
      | present type nested rest =>
          rw [changeAt, preorder, preorder, List.map_cons, List.map_cons, Tally.sum_cons,
            Tally.sum_cons, type.hidden_unveil, Tally.zero_add, firstHidden]
  | case2 rest address ih => exact ih hrow
  | case3 type nested rest address ih =>
      simp only [changeAt, preorder, List.map_cons, List.map_append, Tally.sum_cons,
        Tally.sum_append, ih hrow, Tally.add, Tally.mk.injEq]
      omega
  | case4 type nested rest address ih =>
      simp only [changeAt, preorder, List.map_cons, List.map_append, Tally.sum_cons,
        Tally.sum_append, ih hrow, Tally.add, Tally.mk.injEq]
      omega
  | case5 first address => cases hrow
  | case6 rest address => cases hrow

end At

/-- The change is made everywhere but in slots that wait for it, and in what lies in
these. -/
def ChangedBut (change : TypeDecl → TypeDecl) : (waits : List Move → Prop) → Forest → Prop
  | _, nil => True
  | waits, absent rest => rest.ChangedBut change fun address => waits (behind :: address)
  | waits, present type nested rest =>
      (waits [] ∨ (change type = type ∧
        nested.ChangedBut change fun address => waits (inside :: address))) ∧
      rest.ChangedBut change fun address => waits (behind :: address)

namespace ChangedBut

variable {change : TypeDecl → TypeDecl} {waits waits' : List Move → Prop} {forest row : Forest}
  {address : List Move}

theorem mono (h : ChangedBut change waits forest)
    (hkept : ∀ address, waits address → waits' address) : ChangedBut change waits' forest := by
  induction forest generalizing waits waits' with
  | nil => trivial
  | absent rest ih => exact ih h fun _ => hkept _
  | present type nested rest ihNested ihRest =>
      obtain ⟨hfirst, hbehind⟩ := h
      refine ⟨?_, ihRest hbehind fun _ => hkept _⟩
      rcases hfirst with hwaits | ⟨hchanged, hinside⟩
      · exact Or.inl (hkept _ hwaits)
      · exact Or.inr ⟨hchanged, ihNested hinside fun _ => hkept _⟩

/-- It is so when all slots of the outermost row wait. -/
theorem of_slots (hwaits : ∀ address ∈ forest.slotAddresses, waits address) :
    ChangedBut change waits forest := by
  induction forest generalizing waits with
  | nil => trivial
  | absent rest ih =>
      exact ih fun _ haddress =>
        hwaits _ (List.mem_cons_of_mem _ (List.mem_map_of_mem haddress))
  | present type nested rest _ ih =>
      refine ⟨Or.inl (hwaits [] (List.mem_cons_self ..)), ?_⟩
      exact ih fun _ haddress =>
        hwaits _ (List.mem_cons_of_mem _ (List.mem_map_of_mem haddress))

/-- When nothing waits any more, the change is made everywhere. -/
theorem mapTypes_eq (h : ChangedBut change waits forest) (hnone : ∀ address, ¬ waits address) :
    forest.mapTypes change = forest := by
  induction forest generalizing waits with
  | nil => rfl
  | absent rest ih => rw [mapTypes, ih h fun _ => hnone _]
  | present type nested rest ihNested ihRest =>
      obtain ⟨hchanged, hinside⟩ := h.1.resolve_left (hnone [])
      rw [mapTypes, hchanged, ihNested hinside fun _ => hnone _, ihRest h.2 fun _ => hnone _]

/-- A slot waits no longer once its type has been changed and the slots in it wait. -/
theorem visit (h : ChangedBut change waits forest)
    (hagain : ∀ type, change (change type) = change type)
    (hrow : forest.at? address = some row)
    (hkept : ∀ other, other ≠ address → waits other → waits' other)
    (hinner : ∀ slot ∈ row.innerAddresses, waits' (address ++ slot)) :
    ChangedBut change waits' (forest.changeAt change address) := by
  fun_induction at? forest address generalizing waits waits' with
  | case1 forest =>
      obtain rfl : forest = row := Option.some.inj hrow
      cases forest with
      | nil => trivial
      | absent rest =>
          have hrest : ChangedBut change (fun address => waits (behind :: address)) rest := h
          exact hrest.mono fun _ => hkept _ nofun
      | present type nested rest =>
          refine ⟨Or.inr ⟨hagain type, of_slots fun slot hslot => ?_⟩, ?_⟩
          · exact hinner _ (List.mem_map_of_mem hslot)
          · exact h.2.mono fun _ => hkept _ nofun
  | case2 rest address ih =>
      exact ih h hrow (fun _ hother => hkept _ (hother ∘ List.tail_eq_of_cons_eq)) hinner
  | case3 type nested rest address ih =>
      refine ⟨?_, h.2.mono fun _ => hkept _ nofun⟩
      rcases h.1 with hwaits | ⟨hchanged, hinside⟩
      · exact Or.inl (hkept _ nofun hwaits)
      · exact Or.inr ⟨hchanged, ih hinside hrow
          (fun _ hother => hkept _ (hother ∘ List.tail_eq_of_cons_eq)) hinner⟩
  | case4 type nested rest address ih =>
      refine ⟨?_, ih h.2 hrow (fun _ hother => hkept _ (hother ∘ List.tail_eq_of_cons_eq)) hinner⟩
      rcases h.1 with hwaits | ⟨hchanged, hinside⟩
      · exact Or.inl (hkept _ nofun hwaits)
      · exact Or.inr ⟨hchanged, hinside.mono fun _ => hkept _ nofun⟩
  | case5 first address => cases hrow
  | case6 rest address => cases hrow

end ChangedBut

end Forest

end Unveil
