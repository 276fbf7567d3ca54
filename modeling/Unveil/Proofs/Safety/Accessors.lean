import Unveil.Bytes.Basic
import Unveil.Proofs.Safety.Tables

/-!
Accessors on their own. A loader asks only for what it has checked before; here
the same accessors are asked for anything. Moving about in the data, looking up a
string and reading a header give an answer to whatever they are asked. Two other
accessors do not: the heap flags are looked for behind the first six bytes without
a check that there are six, which only a row count would have made, and where an
identifier ends is a product that may leave the range of sizes.
-/

namespace Unveil

namespace Cursor

/-- One use of a position: going somewhere, or reading what stands there. -/
inductive Move where
  | seek (position : Nat)
  | advance (step : Nat)
  | number (width : Nat)
  | take (length : Nat)

/-- What is read on a move, if anything. -/
inductive Found where
  | none
  | number (value : Nat)
  | bytes (part : Bytes)

/-- Skips `step` bytes, if the sum is a size. -/
def advanceStrictly (data : Bytes) (step : Nat) : Scan Unit := fun offset =>
  if offset + step < Size.limit then seek data (offset + step) offset
  else .error .outOfBounds offset

def takeStrictly (data : Bytes) (length : Nat) : Scan Bytes := fun offset =>
  if length ≤ remaining data offset then
    match Size.add offset length >>= data.cut offset with
    | .ok part => .ok part (offset + length)
    | .error fault => .error fault offset
  else
    .error .outOfBounds offset

namespace Move

def scan (data : Bytes) : Move → Scan Found
  | seek position => (fun _ => .none) <$> Cursor.seek data position
  | advance step => (fun _ => .none) <$> Cursor.advance data step
  | number width => .number <$> Scan.number data width
  | take length => .bytes <$> Cursor.take data length

def scanStrictly (data : Bytes) : Move → Scan Found
  | seek position => (fun _ => .none) <$> Cursor.seek data position
  | advance step => (fun _ => .none) <$> advanceStrictly data step
  | number width => .number <$> Scan.numberStrictly data width
  | take length => .bytes <$> takeStrictly data length

/-- Where a move leads. -/
def target (offset : Nat) : Move → Nat
  | seek position => position
  | advance step => offset + step
  | number width => offset + width
  | take length => offset + length

/-- What a move finds on the way. -/
def found (data : Bytes) (offset : Nat) : Move → Found
  | seek _ => .none
  | advance _ => .none
  | number width => .number (data.number offset width)
  | take length => .bytes (data.extract offset (offset + length))

end Move

/-- The position behind a move, whether it was made or refused. -/
def behind {α : Type} : EStateM.Result Fault Nat α → Nat
  | .ok _ stop => stop
  | .error _ stop => stop

/-- The position after some moves from the first byte. -/
def positionAfter (data : Bytes) (moves : List Move) : Nat :=
  moves.foldl (fun offset move => behind (move.scan data offset)) 0

variable {data : Bytes} {offset : Nat}

theorem take_eq (length : Nat) (hinside : offset ≤ data.size) :
    take data length offset =
      if offset + length ≤ data.size then .ok (data.extract offset (offset + length)) (offset + length)
      else .error .outOfBounds offset := by
  unfold take remaining
  by_cases hroom : offset + length ≤ data.size
  · rw [if_pos (by omega), if_pos hroom, Bytes.cut_of_le (Nat.le_add_right ..) hroom]
  · rw [if_neg (by omega), if_neg hroom]

/-- A step that depends on a check still does when something is made of its
value. -/
theorem map_checked {α β : Type} {scan : Scan α} {room : Prop} [Decidable room] {value : α}
    {stop : Nat} {fault : Fault} (f : α → β)
    (h : scan offset = if room then .ok value stop else .error fault offset) :
    (f <$> scan) offset = if room then .ok (f value) stop else .error fault offset := by
  by_cases hroom : room
  · rw [if_pos hroom] at h ⊢
    exact EStateM.map_eq_ok.mpr ⟨value, h, rfl⟩
  · rw [if_neg hroom] at h ⊢
    rw [map_eq_pure_bind]
    exact EStateM.bind_of_error h

/-- A move that leads to a place inside the data is made, and any other leaves
the position where it was. -/
theorem Move.scan_eq (move : Move) (hinside : offset ≤ data.size) :
    move.scan data offset =
      if move.target offset ≤ data.size then .ok (move.found data offset) (move.target offset)
      else .error .outOfBounds offset := by
  cases move with
  | seek position => exact map_checked _ rfl
  | advance step => exact map_checked _ rfl
  | number width => exact map_checked _ rfl
  | take length => exact map_checked _ (take_eq length hinside)

theorem advanceStrictly_eq (hsize : data.size < Size.limit) (step : Nat) :
    advanceStrictly data step = advance data step := by
  funext start
  unfold advanceStrictly advance
  by_cases hsum : start + step < Size.limit
  · rw [if_pos hsum]
  · rw [if_neg hsum, seek, if_neg (by omega)]

theorem takeStrictly_eq (hsize : data.size < Size.limit) (length : Nat)
    (hinside : offset ≤ data.size) : takeStrictly data length offset = take data length offset := by
  unfold takeStrictly take
  by_cases hroom : length ≤ remaining data offset
  · have hstop : offset + length ≤ data.size := by
      unfold remaining at hroom
      omega
    rw [if_pos hroom, if_pos hroom, Size.add_of_lt (by omega), Except.ok_bind,
      Bytes.cut_of_le (Nat.le_add_right ..) hstop]
  · rw [if_neg hroom, if_neg hroom]

/-- From a position inside the data no move takes a step that it cannot take. -/
theorem Move.scanStrictly_eq (hsize : data.size < Size.limit) (move : Move)
    (hinside : offset ≤ data.size) : move.scanStrictly data offset = move.scan data offset := by
  cases move with
  | seek position => rfl
  | advance step => simp only [scanStrictly, scan, advanceStrictly_eq hsize]
  | number width => simp only [scanStrictly, scan, (Scan.safe_number hsize width).eq]
  | take length =>
      simp only [scanStrictly, scan, Functor.map, EStateM.map, takeStrictly_eq hsize length hinside]

theorem behind_le (move : Move) (hinside : offset ≤ data.size) :
    behind (move.scan data offset) ≤ data.size := by
  rw [move.scan_eq hinside]
  split
  · rename_i hroom
    exact hroom
  · exact hinside

/-- No moves lead out of the data. -/
theorem positionAfter_le (data : Bytes) (moves : List Move) :
    positionAfter data moves ≤ data.size := by
  have hrun (offset : Nat) (hinside : offset ≤ data.size) :
      moves.foldl (fun offset move => behind (move.scan data offset)) offset ≤ data.size := by
    induction moves generalizing offset with
    | nil => exact hinside
    | cons move moves ih =>
        apply ih
        exact behind_le move hinside
  exact hrun 0 (Nat.zero_le _)

end Cursor

namespace GuidHeap

/-- What comes of asking for an identifier, with any number. -/
theorem get_eq (heap : GuidHeap) (index : Nat) (hsize : heap.data.size < Size.limit) :
    heap.get index =
      if 1 ≤ index ∧ index * 16 ≤ heap.data.size then
        .ok ⟨heap.data.extract ((index - 1) * 16) ((index - 1) * 16 + 16)⟩
      else if index * 16 < Size.limit then .error .outOfBounds
      else .error .trap := by
  unfold get
  by_cases hfirst : 1 ≤ index
  · rw [demand_bind hfirst, Size.mul]
    by_cases hproduct : index * 16 < Size.limit
    · rw [if_pos hproduct, Except.ok_bind, if_pos hproduct]
      by_cases hroom : index * 16 ≤ heap.data.size
      · rw [demand_bind hroom, Bytes.cut_of_le (by omega) (by omega), if_pos ⟨hfirst, hroom⟩]
        rfl
      · rw [demand_bind_of_not hroom, if_neg fun h => hroom h.2]
    · rw [if_neg hproduct, if_neg hproduct, if_neg (by omega)]
      rfl
  · rw [demand_bind_of_not hfirst, if_neg fun h => hfirst h.1,
      if_pos (by unfold Size.limit; omega)]

/-- A number whose product is a size takes no other step that cannot be taken. -/
theorem getStrictly_eq (heap : GuidHeap) (index : Nat) (hsize : heap.data.size < Size.limit) :
    heap.getStrictly index = heap.get index := by
  unfold getStrictly get
  apply Except.bind_congr_ok
  intro _ hfirst
  apply Except.bind_congr_ok
  intro stop hstop
  apply Except.bind_congr_ok
  intro _ hroom
  rw [demand_eq_ok] at hfirst hroom
  have hproduct : index * 16 = stop := by
    unfold Size.mul at hstop
    split at hstop
    · exact Except.ok.inj hstop
    · cases hstop
  rw [Size.sub_of_le hfirst, Except.ok_bind, Size.mul_of_lt (by omega), Except.ok_bind,
    Size.add_of_lt (by omega), Except.ok_bind]

end GuidHeap

/-- Accessors that are asked for anything. Reading the sizes of a tables stream
needs all row counts or, where there are none, the heap flags, and answers that
they are missing, but traps where the flags are more than a byte past the end. An
identifier is found exactly where its bytes are, and any other number is out of
bounds, but traps once its product with the size of an identifier is no size.
Strings and headers answer whatever they are asked. Moves from the first byte
never leave the data, a refused one leaves the position where it was, and none
takes a step that it cannot take. -/
theorem accessors_answer {data : Bytes} (hsize : data.size < Size.limit) :
    (∀ mask, Sizes.readStrictly data mask = Sizes.read data mask ∧
      Sizes.read data mask =
        if Sizes.reach mask ≤ data.size then .ok (Sizes.stated data mask)
        else if Sizes.present mask ≠ [] ∨ 6 ≤ data.size then .error .outOfBounds
        else .error .trap) ∧
    (∀ heap, GuidHeap.ofData data = .ok heap → ∀ index,
      heap.getStrictly index = heap.get index ∧
      heap.get index =
        if 1 ≤ index ∧ index * 16 ≤ data.size then
          .ok ⟨data.extract ((index - 1) * 16) ((index - 1) * 16 + 16)⟩
        else if index * 16 < Size.limit then .error .outOfBounds
        else .error .trap) ∧
    (∀ (heap : StringHeap) index, Safe (heap.getStrictly index) (heap.get index)) ∧
    Safe (StreamHeader.ofDataStrictly data) (StreamHeader.ofData data) ∧
    Safe (RuntimeHeader.ofDataStrictly data) (RuntimeHeader.ofData data) ∧
    ∀ (moves : List Cursor.Move) (move : Cursor.Move),
      Cursor.positionAfter data moves ≤ data.size ∧
      move.scanStrictly data (Cursor.positionAfter data moves) =
        move.scan data (Cursor.positionAfter data moves) ∧
      move.scan data (Cursor.positionAfter data moves) =
        if move.target (Cursor.positionAfter data moves) ≤ data.size then
          .ok (move.found data (Cursor.positionAfter data moves))
            (move.target (Cursor.positionAfter data moves))
        else .error .outOfBounds (Cursor.positionAfter data moves) := by
  refine ⟨?sizes, ?guids, ?strings, ?streams, ?runtime, ?moves⟩
  case sizes =>
    intro mask
    exact ⟨Sizes.readStrictly_eq hsize, Sizes.read_eq data mask⟩
  case guids =>
    intro heap hheap index
    obtain rfl : heap = ⟨data⟩ := by
      unfold GuidHeap.ofData at hheap
      split at hheap
      · cases hheap
      · exact (Except.ok.inj hheap).symm
    exact ⟨GuidHeap.getStrictly_eq _ index hsize, GuidHeap.get_eq _ index hsize⟩
  case strings =>
    intro heap index
    exact heap.safe_get index
  case streams => exact StreamHeader.safe_ofData hsize
  case runtime => exact RuntimeHeader.safe_ofData hsize
  case moves =>
    intro moves move
    have hinside := Cursor.positionAfter_le data moves
    exact ⟨hinside, move.scanStrictly_eq hsize hinside, move.scan_eq hinside⟩

/-- Without bytes and without a marked table the heap flags are not there, and
nothing has looked; and sixteen bytes hold one identifier, which the number one
finds, the next one does not, and a large enough one traps on. -/
theorem accessors_answer_short :
    Sizes.read #[] 0 = .error .trap ∧
      (GuidHeap.mk (Array.replicate 16 7)).get 1 = .ok ⟨Array.replicate 16 7⟩ ∧
      (GuidHeap.mk (Array.replicate 16 7)).get 2 = .error .outOfBounds ∧
      (GuidHeap.mk (Array.replicate 16 7)).get (2 ^ 60) = .error .trap := by
  obtain ⟨hsizes, -⟩ := accessors_answer (show (#[] : Bytes).size < Size.limit by decide)
  obtain ⟨-, hguids, -⟩ := accessors_answer
    (show (Array.replicate 16 7 : Bytes).size < Size.limit by decide)
  have hheap := hguids ⟨Array.replicate 16 7⟩ rfl
  exact ⟨(hsizes 0).2, (hheap 1).2, (hheap 2).2, (hheap (2 ^ 60)).2⟩

end Unveil
