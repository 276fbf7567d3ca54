import Unveil.Proofs.Module.Silent

/-!
What the member lists of all types come to. A pool is the list of all members
less those in rows that were named before, so the slots of a list follow from
the rows that it names and the rows that were named already. `slotsFrom` says so
for all lists together, with no pool in it.
-/

namespace Unveil

namespace MemberPool

variable {α β : Type}

/-- What is left of some members when certain rows have been named. -/
structure Left (members : List α) (pointers? : Option (Array UInt32)) (named : List Nat)
    (pool : MemberPool α) : Prop where
  pointers_eq : pool.pointers? = pointers?
  entry_eq : ∀ index : Nat, pool.entries[index]? = members[index]?.map fun member =>
    if index + 1 ∈ named then none else some member

/-- The slot for a row, after others have been named. -/
def slotOf (members : List α) (named : List Nat) (row : Nat) : Option α :=
  if row = 0 ∨ row ∈ named then none else members[row - 1]?

def slotsOf (members : List α) : (named rows : List Nat) → List (Option α)
  | _, [] => []
  | named, row :: rows => slotOf members named row :: slotsOf members (row :: named) rows

/-- The row that a position names. -/
def rowVia (pointers? : Option (Array UInt32)) (position : Nat) : Nat :=
  match pointers? with
  | some pointers => (pointers.getD (position - 1) 0).toNat
  | none => position

/-- How many positions a list can name. -/
def reachVia (members : List α) (pointers? : Option (Array UInt32)) : Nat :=
  match pointers? with
  | some pointers => pointers.size
  | none => members.length

/-- Where the lists of some types run to. -/
def spans (stop : Nat) : (starts : List Nat) → List (Nat × Nat)
  | [] => []
  | [start] => [(start, stop)]
  | start :: next :: starts => (start, next) :: spans stop (next :: starts)

def positions (stop start finish : Nat) : List Nat :=
  if start = 0 ∨ finish < start then [] else List.range' start (min finish stop - start)

/-- The slot for what a list names past the end. -/
def pastEnd (stop start finish : Nat) : List (Option α) :=
  if start = 0 ∨ finish < start then [] else if stop < finish then [none] else []

/-- The slots of lists that name their rows one list after the other. -/
def slotsFrom (members : List α) (pointers? : Option (Array UInt32)) (stop : Nat) :
    (named : List Nat) → (lists : List (Nat × Nat)) → List (List (Option α))
  | _, [] => []
  | named, (start, finish) :: lists =>
      let rows := (positions stop start finish).map (rowVia pointers?)
      (slotsOf members named rows ++ pastEnd stop start finish) ::
        slotsFrom members pointers? stop (rows.reverse ++ named) lists

section Pool

variable {members : List α} {pointers? : Option (Array UInt32)} {named : List Nat}
  {pool : MemberPool α}

theorem left_ofList (members : List α) (pointers? : Option (Array UInt32)) :
    Left members pointers? [] (ofList members pointers?) where
  pointers_eq := rfl
  entry_eq index := by simp [ofList]

theorem Left.size_eq (h : Left members pointers? named pool) :
    pool.entries.size = members.length :=
  Array.size_eq_of_getElem? h.entry_eq

theorem Left.rowOf_eq (h : Left members pointers? named pool) (position : Nat) :
    pool.rowOf position = rowVia pointers? position := by
  rw [rowOf, h.pointers_eq]
  rfl

theorem Left.reach_eq (h : Left members pointers? named pool) :
    pool.reach = reachVia members pointers? := by
  rw [reach, h.pointers_eq, h.size_eq]
  rfl

/-- Naming a row that holds nothing, or nothing any more, takes nothing. -/
theorem Left.name (h : Left members pointers? named pool) {row : Nat}
    (hvain : row = 0 ∨ row ∈ named ∨ members[row - 1]? = none) :
    Left members pointers? (row :: named) pool where
  pointers_eq := h.pointers_eq
  entry_eq index := by
    rw [h.entry_eq index]
    by_cases hrow : index + 1 = row
    · subst hrow
      rcases hvain with hzero | hnamed | hnone
      · omega
      · simp [hnamed]
      · rw [Nat.add_sub_cancel] at hnone
        simp [hnone]
    · simp [hrow]

/-- Naming a row that still holds its member takes it out. -/
theorem Left.take {entries : Array (Option α)} {pointers : Option (Array UInt32)} {row : Nat}
    {member : α} (h : Left members pointers? named ⟨entries, pointers⟩)
    (hmember : members[row - 1]? = some member) (hrow : row ≠ 0) :
    Left members pointers? (row :: named) ⟨entries.setIfInBounds (row - 1) none, pointers⟩ where
  pointers_eq := h.pointers_eq
  entry_eq index := by
    have hinside : row - 1 < entries.size := by
      have hsize : entries.size = members.length := h.size_eq
      rw [hsize]
      exact (List.getElem?_eq_some_iff.mp hmember).1
    by_cases hsame : index = row - 1
    · subst hsame
      have hnumber : row - 1 + 1 = row := Nat.sub_add_cancel (Nat.pos_of_ne_zero hrow)
      simp [hinside, hmember, hnumber]
    · have hother : index + 1 ≠ row := by omega
      have hbefore : entries[index]? = _ := h.entry_eq index
      rw [Array.getElem?_setIfInBounds_ne (Ne.symm hsame), hbefore]
      simp only [List.mem_cons, hother, false_or]

theorem Left.claim (h : Left members pointers? named pool) (position : Nat) :
    (MemberPool.claim position pool).1.2.slot =
        slotOf members named (rowVia pointers? position) ∧
      Left members pointers? (rowVia pointers? position :: named)
        (MemberPool.claim position pool).2 := by
  rw [← h.rowOf_eq]
  generalize hrow : pool.rowOf position = row
  by_cases hzero : row = 0
  · simp only [MemberPool.claim, hrow, hzero, ↓reduceIte, Claim.slot, slotOf, true_or, true_and]
    exact h.name (Or.inl rfl)
  have hentry := h.entry_eq (row - 1)
  rw [Nat.sub_add_cancel (by omega)] at hentry
  obtain ⟨entries, pointers⟩ := pool
  simp only at hentry
  cases hfound : entries[row - 1]? with
  | none =>
      have hmember : members[row - 1]? = none := by
        rw [hfound, eq_comm, Option.map_eq_none_iff] at hentry
        exact hentry
      simp only [MemberPool.claim, hrow, hzero, ↓reduceIte, hfound, Claim.slot, slotOf, hmember,
        ite_self, true_and]
      exact h.name (Or.inr (Or.inr hmember))
  | some slot =>
      rw [hfound, eq_comm, Option.map_eq_some_iff] at hentry
      obtain ⟨member, hmember, hslot⟩ := hentry
      by_cases hnamed : row ∈ named
      · simp only [hnamed, ↓reduceIte] at hslot
        subst hslot
        simp only [MemberPool.claim, hrow, hzero, ↓reduceIte, hfound, Claim.slot, slotOf, hnamed,
          or_true, true_and]
        exact h.name (Or.inr (Or.inl hnamed))
      · simp only [hnamed, ↓reduceIte] at hslot
        subst hslot
        simp only [MemberPool.claim, hrow, hzero, ↓reduceIte, hfound, Claim.slot, slotOf, hnamed,
          or_self, hmember, true_and]
        exact h.take hmember hzero

theorem Left.mapM_claim (h : Left members pointers? named pool) (places : List Nat) :
    ((places.mapM MemberPool.claim pool).1.map fun claim => claim.2.slot) =
        slotsOf members named (places.map (rowVia pointers?)) ∧
      Left members pointers? ((places.map (rowVia pointers?)).reverse ++ named)
        (places.mapM MemberPool.claim pool).2 := by
  induction places generalizing named pool with
  | nil => exact ⟨rfl, h⟩
  | cons place places ih =>
      obtain ⟨hslot, hnext⟩ := h.claim place
      obtain ⟨hslots, hlast⟩ := ih hnext
      rw [List.mapM_cons]
      constructor
      · exact congr (congrArg List.cons hslot) hslots
      · rw [List.map_cons, List.reverse_cons, List.append_assoc]
        exact hlast

theorem Left.takeSlots (h : Left members pointers? named pool) (start finish : Nat) :
    (MemberPool.takeSlots start finish pool).1 =
        slotsOf members named ((positions (reachVia members pointers? + 1) start finish).map
          (rowVia pointers?)) ++ pastEnd (reachVia members pointers? + 1) start finish ∧
      Left members pointers? (((positions (reachVia members pointers? + 1) start finish).map
          (rowVia pointers?)).reverse ++ named) (MemberPool.takeSlots start finish pool).2 := by
  rw [← h.reach_eq]
  by_cases hempty : start = 0 ∨ finish < start
  · simp only [MemberPool.takeSlots, positions, pastEnd, hempty, ↓reduceIte]
    exact ⟨rfl, h⟩
  · obtain ⟨hslots, hleft⟩ :=
      h.mapM_claim (List.range' start (min finish (pool.reach + 1) - start))
    simp only [MemberPool.takeSlots, positions, pastEnd, hempty, ↓reduceIte, hslots]
    exact ⟨trivial, hleft⟩

end Pool

/-- A slot holds the member in its row, and none that was named before. -/
theorem slotOf_eq_some {members : List α} {named : List Nat} {row : Nat} {member : α} :
    slotOf members named row = some member ↔
      row ≠ 0 ∧ row ∉ named ∧ members[row - 1]? = some member := by
  unfold slotOf
  split
  · rename_i hvain
    constructor
    · intro hnone
      cases hnone
    · rintro ⟨hzero, hnamed, -⟩
      exact absurd hvain (not_or.mpr ⟨hzero, hnamed⟩)
  · rename_i hfree
    rw [not_or] at hfree
    exact ⟨fun h => ⟨hfree.1, hfree.2, h⟩, fun h => h.2.2⟩

theorem mem_of_mem_slotsOf {members : List α} {named rows : List Nat} {member : α}
    (h : some member ∈ slotsOf members named rows) : member ∈ members := by
  induction rows generalizing named with
  | nil => cases h
  | cons row rows ih =>
      rcases List.mem_cons.mp h with hfirst | hlater
      · exact List.mem_of_getElem? (slotOf_eq_some.mp hfirst.symm).2.2
      · exact ih hlater

/-- Every member in a slot is one of those there were. -/
theorem mem_of_mem_slotsFrom {members : List α} {pointers? : Option (Array UInt32)} {stop : Nat}
    {named : List Nat} {lists : List (Nat × Nat)} {slots : List (Option α)} {member : α}
    (hslots : slots ∈ slotsFrom members pointers? stop named lists)
    (hmember : some member ∈ slots) : member ∈ members := by
  induction lists generalizing named with
  | nil => cases hslots
  | cons list lists ih =>
      obtain ⟨start, finish⟩ := list
      rcases List.mem_cons.mp hslots with rfl | hlater
      · rcases List.mem_append.mp hmember with hnamed | hpast
        · exact mem_of_mem_slotsOf hnamed
        · unfold pastEnd at hpast
          split at hpast
          · cases hpast
          · split at hpast
            · simp at hpast
            · cases hpast
      · exact ih hlater

theorem slotsOf_map (f : α → β) (members : List α) (named rows : List Nat) :
    slotsOf (members.map f) named rows = (slotsOf members named rows).map (Option.map f) := by
  induction rows generalizing named with
  | nil => rfl
  | cons row rows ih =>
      have hslot : slotOf (members.map f) named row = (slotOf members named row).map f := by
        unfold slotOf
        split
        · rfl
        · exact List.getElem?_map ..
      simp only [slotsOf, List.map_cons, hslot, ih]

/-- Changed members come into the same slots. -/
theorem slotsFrom_map (f : α → β) (members : List α) (pointers? : Option (Array UInt32))
    (stop : Nat) (named : List Nat) (lists : List (Nat × Nat)) :
    slotsFrom (members.map f) pointers? stop named lists =
      (slotsFrom members pointers? stop named lists).map (List.map (Option.map f)) := by
  induction lists generalizing named with
  | nil => rfl
  | cons list lists ih =>
      obtain ⟨start, finish⟩ := list
      have hpast : (pastEnd stop start finish : List (Option β)) =
          (pastEnd stop start finish).map (Option.map f) := by
        unfold pastEnd
        split
        · rfl
        · split
          · rfl
          · rfl
      simp only [slotsFrom, List.map_cons, List.map_append, slotsOf_map, ih, ← hpast]

@[simp] theorem length_slotsFrom (members : List α) (pointers? : Option (Array UInt32))
    (stop : Nat) (named : List Nat) (lists : List (Nat × Nat)) :
    (slotsFrom members pointers? stop named lists).length = lists.length := by
  induction lists generalizing named with
  | nil => rfl
  | cons list lists ih => simp only [slotsFrom, List.length_cons, ih]

@[simp] theorem length_spans (stop : Nat) (starts : List Nat) :
    (spans stop starts).length = starts.length := by
  fun_induction spans stop starts with
  | case1 => rfl
  | case2 start => rfl
  | case3 start next starts ih => simp only [List.length_cons] at ih ⊢; omega

end MemberPool

end Unveil
