import Unveil.Proofs.Module.Members
import Unveil.Proofs.Safety.Reading

namespace Unveil

namespace MemberPool

variable {α : Type}

def rowOfStrictly (pool : MemberPool α) (position : Nat) : Except Fault Nat :=
  match pool.pointers? with
  | some pointers => do
      let index ← Size.sub position 1
      pure (pointers.getD index 0).toNat
  | none => .ok position

def claimStrictly (position : Nat) (pool : MemberPool α) :
    Except Fault ((Nat × Claim α) × MemberPool α) := do
  let row ← pool.rowOfStrictly position
  if row = 0 ∨ pool.entries.size < row then
    pure ((position, .missing row), pool)
  else do
    let index ← Size.sub row 1
    match ← itemAt pool.entries index with
    | none => pure ((position, .taken row), pool)
    | some member =>
        let entries ← putAt pool.entries index none
        pure ((position, .granted member), ⟨entries, pool.pointers?⟩)

def claimAllStrictly : List Nat → MemberPool α →
    Except Fault (List (Nat × Claim α) × MemberPool α)
  | [], pool => .ok ([], pool)
  | position :: positions, pool => do
      let (claim, pool) ← claimStrictly position pool
      let (claims, pool) ← claimAllStrictly positions pool
      pure (claim :: claims, pool)

/-- The slots of a list. The remark on a list that runs past the end names the
last row, which is one less than where lists end. -/
def takeStrictly (start finish : Nat) (pool : MemberPool α) :
    Except Fault (List (Option α) × MemberPool α) :=
  if start = 0 ∨ finish < start then
    .ok ([], pool)
  else do
    let stop := pool.stop
    let (claims, pool) ← claimAllStrictly (List.range' start (min finish stop - start)) pool
    if stop < finish then do
      let _last ← Size.sub stop 1
      pure (claims.map (·.2.slot) ++ [none], pool)
    else
      pure (claims.map (·.2.slot), pool)

variable {pool : MemberPool α} {position start finish : Nat}

theorem one_le_stop (pool : MemberPool α) : 1 ≤ pool.stop := by
  unfold stop wordMax
  omega

theorem rowOfStrictly_eq (h : 1 ≤ position) :
    pool.rowOfStrictly position = .ok (pool.rowOf position) := by
  unfold rowOfStrictly rowOf
  cases pool.pointers? with
  | none => rfl
  | some pointers =>
      dsimp only
      rw [Size.sub_of_le h]
      rfl

theorem claimStrictly_eq (h : 1 ≤ position) :
    claimStrictly position pool = .ok (claim position pool) := by
  rw [claimStrictly, rowOfStrictly_eq h, Except.ok_bind]
  unfold claim
  generalize pool.rowOf position = row
  obtain ⟨entries, pointers?⟩ := pool
  by_cases hzero : row = 0
  · simp only [hzero, true_or, ↓reduceIte]
    rfl
  · have hrow : 1 ≤ row := Nat.pos_of_ne_zero hzero
    by_cases hpast : entries.size < row
    · have hnone : entries[row - 1]? = none := Array.getElem?_eq_none (by omega)
      simp only [hzero, hpast, or_true, ↓reduceIte, hnone]
      rfl
    · have hinside : row - 1 < entries.size := by omega
      simp only [hzero, hpast, or_self, ↓reduceIte, Array.getElem?_eq_getElem hinside]
      rw [Size.sub_of_le hrow, Except.ok_bind, itemAt_of_lt hinside, Except.ok_bind]
      cases entries[row - 1] with
      | none => rfl
      | some member =>
          dsimp only
          rw [putAt_of_lt hinside]
          rfl

theorem claimAllStrictly_eq {positions : List Nat} (h : ∀ position ∈ positions, 1 ≤ position) :
    claimAllStrictly positions pool = .ok (positions.mapM claim pool) := by
  induction positions generalizing pool with
  | nil => rfl
  | cons position positions ih =>
      have hothers := fun other hother => h other (List.mem_cons_of_mem _ hother)
      rw [claimAllStrictly, claimStrictly_eq (h position (List.mem_cons_self ..)), Except.ok_bind]
      simp only [ih hothers, List.mapM_cons]
      rfl

theorem takeStrictly_eq (h : pool.reach < wordMax ∨ finish ≤ wordMax) (start : Nat) :
    takeStrictly start finish pool = .ok (takeSlots start finish pool) := by
  rw [← claimRun_eq_takeSlots h]
  by_cases hempty : start = 0 ∨ finish < start
  · simp only [takeStrictly, claimRun, hempty, ↓reduceIte, Run.slots]
    rfl
  · have hpositions : ∀ position ∈ List.range' start (min finish pool.stop - start),
        1 ≤ position := by
      intro position hposition
      have hrange := List.mem_range'_1.mp hposition
      omega
    simp only [takeStrictly, hempty, ↓reduceIte, claimAllStrictly_eq hpositions,
      Size.sub_of_le pool.one_le_stop, Except.ok_bind]
    rw [claimRun_of_nonempty hempty]
    by_cases hpast : pool.stop < finish
    · simp only [hpast, ↓reduceIte, Run.slots, decide_true]
      rfl
    · simp only [hpast, ↓reduceIte, Run.slots, decide_false, Bool.false_eq_true, List.append_nil]
      rfl

end MemberPool

namespace Module

def declareTypeStrictly (strings : StringHeap) (entry : Entry TypeRow)
    (next? : Option (Entry TypeRow)) (pools : Pools) : Except Fault (TypeDecl × Pools) := do
  let fieldStop := match next? with
    | some next => next.row.fieldList.toNat
    | none => pools.fields.stop
  let methodStop := match next? with
    | some next => next.row.methodList.toNat
    | none => pools.methods.stop
  let name ← strings.getStrictly entry.row.name.toNat
  let space ← strings.getStrictly entry.row.space.toNat
  let methods ← pools.methods.takeStrictly entry.row.methodList.toNat methodStop
  let fields ← pools.fields.takeStrictly entry.row.fieldList.toNat fieldStop
  let type : TypeDecl := {
    token := entry.token, name, space
    flags := entry.row.flags
    isNested := false
    methods := methods.1
    fields := fields.1 }
  pure (type, ⟨fields.2, methods.2⟩)

/-- The rows are counted on the way, to look at the one after. -/
def declareStrictly (strings : StringHeap) :
    (index : Nat) → List (Entry TypeRow) → Pools → Except Fault (List TypeDecl × Pools)
  | _, [], pools => .ok ([], pools)
  | index, entry :: others, pools => do
      let next ← Size.add index 1
      let (type, pools) ← declareTypeStrictly strings entry others.head? pools
      let (types, pools) ← declareStrictly strings next others pools
      pure (type :: types, pools)

variable {pools : Pools}

theorem safe_declareType (h : pools.Narrow) (strings : StringHeap) (entry : Entry TypeRow)
    (next? : Option (Entry TypeRow)) :
    Safe (declareTypeStrictly strings entry next? pools)
      (declareType strings entry next? pools) := by
  unfold declareTypeStrictly
  rw [h.stop_eq.1, h.stop_eq.2]
  refine (strings.safe_get _).bind fun name _ => (strings.safe_get _).bind fun space _ => ?_
  exact Safe.step (MemberPool.takeStrictly_eq (.inl h.methods) _) <|
    Safe.step (MemberPool.takeStrictly_eq (.inl h.fields) _) <| Safe.pure _

theorem safe_declare (h : pools.Narrow) (strings : StringHeap) {index : Nat}
    {entries : List (Entry TypeRow)} (hcount : index + entries.length < Size.limit) :
    Safe (declareStrictly strings index entries pools) (declare strings entries pools) := by
  induction entries generalizing index pools with
  | nil => exact Safe.ok _
  | cons entry others ih =>
      rw [List.length_cons] at hcount
      refine Safe.step (Size.add_of_lt (by omega)) ?_
      refine (safe_declareType h strings entry _).bind fun first hfirst => ?_
      exact (ih (h.declareType hfirst) (by omega)).bind fun _ _ => Safe.pure _

end Module

end Unveil
