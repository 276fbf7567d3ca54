import Unveil.Proofs.Module.Conservation
import Unveil.Proofs.Safety.Members

/-!
Whole histories of calls for members. Each list gets a slot for each position
that it can name, and a row's member is in the first slot that names the row, in
this list or in one before it; so no member is handed out twice, and what is in
slots and what is left are together what there was. It does not matter that the
calls count in words, which are held at their greatest value.
-/

namespace Unveil

/-- One call for the members of a list, which goes from its start up to its
finish. -/
structure ListCall where
  owner : Token
  start : UInt32
  finish : UInt32

/-- No position lies in a list that starts at zero or runs backwards. -/
def ListCall.IsEmpty (call : ListCall) : Prop :=
  call.start.toNat = 0 ∨ call.finish.toNat < call.start.toNat

theorem ListCall.finish_le (call : ListCall) : call.finish.toNat ≤ MemberPool.wordMax :=
  Nat.le_of_lt_succ call.finish.toNat_lt

namespace MemberPool

variable {α : Type} {members : List α} {pointers? : Option (Array UInt32)} {named : List Nat}
  {pool : MemberPool α} {call : ListCall}

/-- The slots of lists that are called for one after the other, with the pool that
is left. -/
def takeAll (kind : MemberKind) :
    List ListCall → MemberPool α → Logged (List (List (Option α)) × MemberPool α)
  | [], pool => pure ([], pool)
  | call :: calls, pool => do
      let (slots, pool) ← take kind call.owner call.start.toNat call.finish.toNat pool
      let (lists, pool) ← takeAll kind calls pool
      pure (slots :: lists, pool)

def takeAllSlots : List ListCall → MemberPool α → List (List (Option α)) × MemberPool α
  | [], pool => ([], pool)
  | call :: calls, pool =>
      let (slots, pool) := takeSlots call.start.toNat call.finish.toNat pool
      let (lists, pool) := takeAllSlots calls pool
      (slots :: lists, pool)

def takeAllStrictly :
    List ListCall → MemberPool α → Except Fault (List (List (Option α)) × MemberPool α)
  | [], pool => .ok ([], pool)
  | call :: calls, pool => do
      let (slots, pool) ← takeStrictly call.start.toNat call.finish.toNat pool
      let (lists, pool) ← takeAllStrictly calls pool
      pure (slots :: lists, pool)

/-- The rows that a list names, position by position. -/
def rowsOf (members : List α) (pointers? : Option (Array UInt32)) (call : ListCall) : List Nat :=
  (positions (reachVia members pointers? + 1) call.start.toNat call.finish.toNat).map
    (rowVia pointers?)

/-- The member in a row, unless there is no such row or it was named before. -/
def memberAt (members : List α) (named : List Nat) (row : Nat) : Option α :=
  if 1 ≤ row ∧ row ≤ members.length ∧ row ∉ named then members[row - 1]? else none

/-- What a list gets after others named their rows. A list that is not empty gets a
slot for each position, which sees the rows named before it in the same list as
well, and one more if it goes on past the end. -/
structure Serves (members : List α) (pointers? : Option (Array UInt32)) (named : List Nat)
    (call : ListCall) (slots : List (Option α)) : Prop where
  empty : call.IsEmpty → slots = []
  slots_eq : ¬ call.IsEmpty → slots =
    ((List.range' call.start.toNat
        (min call.finish.toNat (reachVia members pointers? + 1) - call.start.toNat)).map
      fun position =>
        memberAt members
          (named ++ (List.range' call.start.toNat (position - call.start.toNat)).map
            (rowVia pointers?))
          (rowVia pointers? position)) ++
      if reachVia members pointers? + 1 < call.finish.toNat then [none] else []

theorem yields_takeAll (kind : MemberKind) (calls : List ListCall) (pool : MemberPool α) :
    Logged.Yields (takeAll kind calls pool) (.ok (takeAllSlots calls pool)) := by
  induction calls generalizing pool with
  | nil => exact Logged.yields_pure _
  | cons call calls ih =>
      exact (yields_take kind call.owner (.inr call.finish_le)).bind fun taken _ =>
        (ih taken.2).bind fun others _ => Logged.yields_pure _

/-- Held words and checked steps come to the same. -/
theorem takeAllStrictly_eq (calls : List ListCall) (pool : MemberPool α) :
    takeAllStrictly calls pool = .ok (takeAllSlots calls pool) := by
  induction calls generalizing pool with
  | nil => rfl
  | cons call calls ih =>
      rw [takeAllStrictly, takeStrictly_eq (.inr call.finish_le), Except.ok_bind]
      simp only [ih]
      rfl

theorem length_takeAllSlots (calls : List ListCall) (pool : MemberPool α) :
    (takeAllSlots calls pool).1.length = calls.length := by
  induction calls generalizing pool with
  | nil => rfl
  | cons call calls ih => simp only [takeAllSlots, List.length_cons, ih]

theorem memberAt_eq (members : List α) (named : List Nat) (row : Nat) :
    memberAt members named row = slotOf members named row := by
  unfold memberAt slotOf
  by_cases hvain : row = 0 ∨ row ∈ named
  · rw [if_pos hvain, if_neg]
    rintro ⟨hpos, -, hfree⟩
    rcases hvain with rfl | hnamed
    · omega
    · exact hfree hnamed
  · rw [if_neg hvain]
    by_cases hpast : members.length < row
    · rw [List.getElem?_eq_none (by omega), ite_self]
    · rw [not_or] at hvain
      rw [if_pos ⟨by omega, by omega, hvain.2⟩]

theorem slotOf_congr {named' : List Nat} (h : ∀ row, row ∈ named ↔ row ∈ named') (row : Nat) :
    slotOf members named row = slotOf members named' row := by
  simp only [slotOf, h row]

/-- The last of some rows sees those before it. -/
theorem slotsOf_append (members : List α) (named rows : List Nat) (row : Nat) :
    slotsOf members named (rows ++ [row]) =
      slotsOf members named rows ++ [slotOf members (rows.reverse ++ named) row] := by
  induction rows generalizing named with
  | nil => rfl
  | cons first rows ih =>
      simp only [List.cons_append, slotsOf, ih, List.reverse_cons, List.append_assoc,
        List.nil_append]

/-- Each of some positions in a row sees the rows of those before it. -/
theorem slotsOf_range' (members : List α) (named : List Nat) (row : Nat → Nat)
    (start count : Nat) :
    slotsOf members named ((List.range' start count).map row) =
      (List.range' start count).map fun position =>
        slotOf members (named ++ (List.range' start (position - start)).map row)
          (row position) := by
  induction count with
  | zero => rfl
  | succ count ih =>
      have hlast : slotOf members (((List.range' start count).map row).reverse ++ named)
          (row (start + count)) =
        slotOf members (named ++ (List.range' start (start + count - start)).map row)
          (row (start + count)) := by
        apply slotOf_congr
        intro other
        rw [Nat.add_sub_cancel_left, List.mem_append, List.mem_append, List.mem_reverse, or_comm]
      rw [List.range'_concat, Nat.one_mul, List.map_append, List.map_append, List.map_singleton,
        List.map_singleton, slotsOf_append, ih, hlast]

/-- What one call gets, and which rows are named after it. -/
theorem Left.serves (h : Left members pointers? named pool) (call : ListCall) :
    Serves members pointers? named call
        (MemberPool.takeSlots call.start.toNat call.finish.toNat pool).1 ∧
      Left members pointers? ((rowsOf members pointers? call).reverse ++ named)
        (MemberPool.takeSlots call.start.toNat call.finish.toNat pool).2 := by
  obtain ⟨hslots, hleft⟩ := h.takeSlots call.start.toNat call.finish.toNat
  refine ⟨⟨?_, ?_⟩, hleft⟩
  · intro hempty
    rw [ListCall.IsEmpty] at hempty
    rw [hslots, positions, if_pos hempty, pastEnd, if_pos hempty]
    rfl
  · intro hlist
    rw [ListCall.IsEmpty] at hlist
    rw [hslots, positions, if_neg hlist, pastEnd, if_neg hlist, slotsOf_range']
    simp only [memberAt_eq]

/-- Each call gets what the calls before it have left. -/
theorem Left.serves_all (h : Left members pointers? named pool) {calls : List ListCall}
    {place : Nat} (hcall : calls[place]? = some call) :
    ∃ slots, (takeAllSlots calls pool).1[place]? = some slots ∧
      ∃ before, Serves members pointers? before call slots ∧
        ∀ row, row ∈ before ↔
          row ∈ named ∨ row ∈ (calls.take place).flatMap (rowsOf members pointers?) := by
  induction calls generalizing named pool place with
  | nil => cases hcall
  | cons first calls ih =>
      obtain ⟨hserves, hleft⟩ := h.serves first
      cases place with
      | zero =>
          obtain rfl : first = call := Option.some.inj hcall
          exact ⟨_, rfl, named, hserves, fun row => by simp⟩
      | succ place =>
          obtain ⟨slots, hslots, before, hserved, hbefore⟩ := ih hleft hcall
          refine ⟨slots, hslots, before, hserved, fun row => ?_⟩
          rw [hbefore, List.mem_append, List.mem_reverse, List.take_succ_cons, List.flatMap_cons,
            List.mem_append, or_assoc, or_left_comm]

/-- Only which rows were named matters, not in what order. -/
theorem Serves.congr {named' : List Nat} {slots : List (Option α)}
    (h : Serves members pointers? named call slots) (hsame : ∀ row, row ∈ named ↔ row ∈ named') :
    Serves members pointers? named' call slots where
  empty := h.empty
  slots_eq hempty := by
    rw [h.slots_eq hempty]
    congr 1
    refine List.map_congr_left fun position _ => ?_
    rw [memberAt_eq, memberAt_eq]
    apply slotOf_congr
    intro row
    rw [List.mem_append, List.mem_append, hsame]

theorem takeAllSlots_conserves (calls : List ListCall) (pool : MemberPool α) :
    ((takeAllSlots calls pool).1.flatten.filterMap id ++ (takeAllSlots calls pool).2.rest).Perm
      pool.rest := by
  induction calls generalizing pool with
  | nil => exact .refl _
  | cons call calls ih =>
      have hfirst := takeSlots_conserves call.start.toNat call.finish.toNat pool
      have hothers := ih (takeSlots call.start.toNat call.finish.toNat pool).2
      simp only [takeAllSlots, List.flatten_cons, List.filterMap_append, List.append_assoc]
      exact (hothers.append_left _).trans hfirst

/-- Whatever is called for, in whatever order, a member goes to the first slot that
names its row. Lists that start at zero or run backwards get no slots; another list
gets one for each of its positions up to the end, and an empty one if it goes on. No
member is handed out twice, and those in slots and those left over are all there
were. -/
theorem first_call_gets (kind : MemberKind) (members : List α)
    (pointers? : Option (Array UInt32)) (calls : List ListCall) (journal : Journal) :
    ∃ lists left after,
      takeAll kind calls (ofList members pointers?) journal = .ok (lists, left) after ∧
      takeAllStrictly calls (ofList members pointers?) = .ok (lists, left) ∧
      lists.length = calls.length ∧
      (∀ (place : Nat) (call : ListCall), calls[place]? = some call →
        ∃ slots, lists[place]? = some slots ∧
          Serves members pointers? ((calls.take place).flatMap (rowsOf members pointers?))
            call slots) ∧
      (lists.flatten.filterMap id ++ left.rest).Perm members ∧
      lists.flatten.countP Option.isSome + left.unclaimed = members.length := by
  have hyields := yields_takeAll kind calls (ofList members pointers?)
  obtain ⟨after, htake⟩ := hyields.ok_iff.mpr rfl
  have hperm := takeAllSlots_conserves calls (ofList members pointers?)
  rw [rest_ofList] at hperm
  refine ⟨_, _, after, htake, takeAllStrictly_eq calls _, length_takeAllSlots calls _, ?_, hperm,
    ?_⟩
  · intro place call hcall
    obtain ⟨slots, hslots, before, hserves, hbefore⟩ :=
      (left_ofList members pointers?).serves_all hcall
    refine ⟨slots, hslots, hserves.congr fun row => ?_⟩
    rw [hbefore]
    simp
  · have hlength := hperm.length_eq
    rw [List.length_append, length_rest, Module.length_filterMap_id] at hlength
    exact hlength

/-- Three lists over redirected positions: the second names rows that are gone and
runs past the end, and the third runs backwards. -/
example :
    (takeAllSlots [⟨.ofParts .typeDef 1, 1, 3⟩, ⟨.ofParts .typeDef 2, 2, 9⟩,
        ⟨.ofParts .typeDef 3, 4, 2⟩] (ofList ["a", "b", "c"] (some #[3, 1, 0, 2, 1]))).1 =
      [[some "c", some "a"], [none, none, some "b", none, none], []] := by
  decide

end MemberPool

end Unveil
