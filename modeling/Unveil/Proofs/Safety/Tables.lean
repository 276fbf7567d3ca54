import Mathlib.Data.Nat.Bitwise
import Unveil.Proofs.Safety.Rows
import Unveil.Proofs.Table.Partition

/-!
The tables stream without traps. Row counts are words and rows are short, so
how long a table would be can be calculated before anyone knows whether there is
room for it; once a stream is accepted its tables lie inside the data.
-/

namespace Unveil

namespace Sizes

/-- Every row count is a word. -/
def Narrow (sizes : Sizes) : Prop :=
  ∀ table count, sizes.count? table = some count → count < wordLimit

/-- A mask has a bit for every table. -/
def marksStrictly (mask : UInt64) (table : TableId) : Except Fault Bool := do
  let bit ← shiftUp 64 1 table.number
  pure (mask.toNat &&& bit != 0)

def presentStrictly (mask : UInt64) : Except Fault (List TableId) := do
  let marks ← TableId.all.mapM fun table => do
    let marked ← marksStrictly mask table
    pure (table, marked)
  pure ((marks.filter (·.2)).map (·.1))

/-- The row counts of the marked tables, of which the first stands at `offset`. -/
def countsStrictly (data : Bytes) :
    List TableId → (offset : Nat) → Except Fault (List (TableId × Nat))
  | [], _ => .ok []
  | table :: tables, offset => do
      let stop ← Size.add offset 4
      demand (stop ≤ data.size) .outOfBounds
      let rows ← (Scan.u32Strictly data).valueAt offset
      let others ← countsStrictly data tables stop
      pure ((table, rows.toNat) :: others)

/-- The bits of a coded index are counted in a byte, for every kind once the row
counts are known. -/
def readStrictly (data : Bytes) (mask : UInt64) : Except Fault Sizes := do
  let tables ← presentStrictly mask
  let counts ← countsStrictly data tables 24
  let flags ← (Scan.u8Strictly data).valueInside data 6
  let sizes := ofCounts (fun table => counts.lookup table) flags
  let _bits ← CodedKind.all.mapM fun kind => below byteLimit (sizes.codedBits kind)
  pure sizes

/-- How many bytes have to be there for the sizes to be read: those up to the
last row count, or up to the heap flags if no table is marked. -/
def reach (mask : UInt64) : Nat :=
  if present mask = [] then 7 else 24 + 4 * (present mask).length

/-- The sizes that the data states. -/
def stated (data : Bytes) (mask : UInt64) : Sizes :=
  ofCounts (fun table => (countsAt data (present mask) 24).lookup table)
    (UInt8.ofNat (data.number 6 1))

theorem marksStrictly_eq (mask : UInt64) (table : TableId) :
    marksStrictly mask table = .ok (mask.toNat.testBit table.number) := by
  have hnumber : table.number < 64 := Nat.lt_trans table.number_lt (by decide)
  have hbit : 1 <<< table.number = 2 ^ table.number := Nat.one_shiftLeft _
  have hless : 1 <<< table.number < 1 <<< 64 := by
    rw [hbit, Nat.one_shiftLeft]
    exact Nat.pow_lt_pow_right (by decide) hnumber
  rw [marksStrictly, shiftUp_of_lt hnumber hless, Except.ok_bind, hbit, Nat.and_two_pow]
  cases mask.toNat.testBit table.number with
  | false => simp [Pure.pure, Except.pure]
  | true => simp [Pure.pure, Except.pure]

theorem presentStrictly_eq (mask : UInt64) : presentStrictly mask = .ok (present mask) := by
  have hmarks : (TableId.all.mapM fun table => do
      let marked ← marksStrictly mask table
      pure (table, marked)) =
        .ok (TableId.all.map fun table => (table, mask.toNat.testBit table.number)) := by
    refine Except.mapM_of_ok fun table _ => ?_
    rw [marksStrictly_eq]
    rfl
  rw [presentStrictly, hmarks, Except.ok_bind, List.filter_map, List.map_map]
  exact congrArg Except.ok (List.map_id _)

variable {data : Bytes} {mask : UInt64} {sizes : Sizes}

/-- The row counts are read one after the other, up to the first that is not
there. -/
theorem valueAt_scanCounts (tables : List TableId) (offset : Nat) :
    (scanCounts data tables).valueAt offset =
      if tables = [] ∨ offset + 4 * tables.length ≤ data.size then .ok (countsAt data tables offset)
      else .error .outOfBounds := by
  cases tables with
  | nil => rfl
  | cons table tables =>
      have hmarked : (table :: tables = [] ∨ offset + 4 * (table :: tables).length ≤ data.size) ↔
          offset + 4 * (table :: tables).length ≤ data.size := by simp
      rw [if_congr hmarked rfl rfl]
      by_cases hinside : offset ≤ data.size
      · split
        · rename_i hroom
          exact Scan.valueAt_eq_ok.mpr ⟨_, (scanCounts_eq_ok hinside).mpr ⟨hroom, rfl, rfl⟩⟩
        · rename_i hshort
          obtain ⟨stop, hcounts⟩ := scanCounts_of_short hinside (Nat.lt_of_not_le hshort)
          rw [Scan.valueAt, hcounts]
      · have hfirst : Scan.u32 data offset = .error .outOfBounds offset :=
          Scan.number_of_short _ (by omega)
        have hcounts : scanCounts data (table :: tables) offset = .error .outOfBounds offset :=
          EStateM.bind_of_error (EStateM.bind_of_error hfirst)
        rw [if_neg (by rw [List.length_cons]; omega), Scan.valueAt, hcounts]

theorem countsStrictly_eq (hsize : data.size < Size.limit) (tables : List TableId) {offset : Nat}
    (hbound : offset + 4 * tables.length < Size.limit) :
    countsStrictly data tables offset = (scanCounts data tables).valueAt offset := by
  induction tables generalizing offset with
  | nil => rfl
  | cons table tables ih =>
      rw [List.length_cons] at hbound
      rw [countsStrictly, Size.add_of_lt (by omega), Except.ok_bind, valueAt_scanCounts]
      simp only [reduceCtorEq, false_or, List.length_cons]
      by_cases hroom : offset + 4 ≤ data.size
      · have hrows : (Scan.u32Strictly data).valueAt offset =
            .ok (UInt32.ofNat (data.number offset 4)) := by
          rw [(Scan.safe_u32 hsize).eq]
          exact Scan.valueAt_eq_ok.mpr ⟨_, Scan.u32_eq_ok.mpr ⟨hroom, rfl, rfl⟩⟩
        have hothers : (tables = [] ∨ offset + 4 + 4 * tables.length ≤ data.size) ↔
            offset + 4 * (tables.length + 1) ≤ data.size := by
          rw [← List.length_eq_zero_iff]
          omega
        rw [demand_bind hroom, hrows, Except.ok_bind, ih (by omega), valueAt_scanCounts,
          if_congr hothers rfl rfl]
        split
        · rw [Except.ok_bind, Bytes.toNat_ofNat_number _ _ (Nat.le_refl 4)]
          rfl
        · rfl
      · rw [demand_bind_of_not hroom, if_neg (by omega)]

theorem countsAt_lt {tables : List TableId} {offset count : Nat} {table : TableId}
    (h : (countsAt data tables offset).lookup table = some count) : count < wordLimit := by
  induction tables generalizing offset with
  | nil => cases h
  | cons first tables ih =>
      rw [countsAt, List.lookup_cons] at h
      split at h
      · cases h
        exact data.number_lt offset 4
      · exact ih h

/-- However short the data is, the row counts that are read are words. -/
theorem narrow_of_counts {counts : List (TableId × Nat)} {flags : UInt8}
    (h : (scanCounts data (present mask)).valueAt 24 = .ok counts) :
    (ofCounts (fun table => counts.lookup table) flags).Narrow := by
  intro table count hcount
  rw [count?_ofCounts] at hcount
  rw [valueAt_scanCounts] at h
  split at h
  · cases h
    exact countsAt_lt hcount
  · cases h

theorem Narrow.rows_lt (h : sizes.Narrow) (table : TableId) : sizes.rows table < wordLimit := by
  unfold rows
  cases hcount : sizes.count? table with
  | none => decide
  | some count => exact h table count hcount

theorem Narrow.rowBits_le (h : sizes.Narrow) (table : TableId) : sizes.rowBits table ≤ 32 :=
  (sizes.rowBits_le_iff (by decide)).mpr (h.rows_lt table)

theorem Narrow.codedBits_lt (h : sizes.Narrow) (kind : CodedKind) :
    sizes.codedBits kind < byteLimit := by
  have hbits := CodedIndex.tagBits_lt kind
  have hwidest : (kind.targets.map sizes.rowBits).foldl max 0 ≤ 32 := by
    rw [foldl_max_le]
    constructor
    · exact Nat.zero_le _
    · rw [List.forall_mem_map]
      intro table _
      exact h.rowBits_le table
  unfold codedBits byteLimit
  omega

theorem length_present_le (mask : UInt64) : (present mask).length ≤ 45 :=
  Nat.le_trans (List.length_filter_le ..) (Nat.le_of_eq rfl)

/-- Reading the sizes takes only steps that can be taken, except where the heap
flags are not there. -/
theorem readStrictly_eq (hsize : data.size < Size.limit) :
    readStrictly data mask = read data mask := by
  have hcount := length_present_le mask
  rw [readStrictly, presentStrictly_eq, Except.ok_bind,
    countsStrictly_eq hsize _ (by unfold Size.limit; omega), (Scan.safe_u8 hsize).eq, read]
  apply Except.bind_congr_ok
  intro counts hcounts
  apply Except.bind_congr_ok
  intro flags _
  have hnarrow : (ofCounts (fun table => counts.lookup table) flags).Narrow :=
    narrow_of_counts hcounts
  have hbits := Except.mapM_of_ok fun kind (_ : kind ∈ CodedKind.all) =>
    below_of_lt (hnarrow.codedBits_lt kind)
  dsimp only
  rw [hbits, Except.ok_bind]

theorem flags_eq (data : Bytes) :
    (Scan.u8 data).valueInside data 6 =
      if 7 ≤ data.size then .ok (UInt8.ofNat (data.number 6 1))
      else if 6 ≤ data.size then .error .outOfBounds
      else .error .trap := by
  by_cases hlong : 7 ≤ data.size
  · rw [if_pos hlong]
    exact Scan.valueInside_number.mpr ⟨hlong, rfl⟩
  · rw [if_neg hlong, Scan.valueInside]
    apply if_congr Iff.rfl _ rfl
    have hnone : Scan.u8 data 6 = .error .outOfBounds 6 := Scan.number_of_short _ hlong
    rw [Scan.valueAt, hnone]

/-- What comes of reading the sizes, from any data and with any mask. -/
theorem read_eq (data : Bytes) (mask : UInt64) :
    read data mask =
      if reach mask ≤ data.size then .ok (stated data mask)
      else if present mask ≠ [] ∨ 6 ≤ data.size then .error .outOfBounds
      else .error .trap := by
  rw [read, valueAt_scanCounts, flags_eq, reach, stated]
  by_cases hnone : present mask = []
  · simp only [hnone, true_or, ↓reduceIte, Except.ok_bind, ne_eq, not_true_eq_false, false_or]
    split
    · rfl
    · split
      · rfl
      · rfl
  · simp only [hnone, false_or, ↓reduceIte, ne_eq, not_false_eq_true, true_or]
    have hpositive : 0 < (present mask).length := List.length_pos_iff.mpr hnone
    split
    · rw [Except.ok_bind, if_pos (by omega)]
      rfl
    · rfl

/-- Behind a header of full length the heap flags are there. -/
theorem safe_read (hsize : data.size < Size.limit) (hlong : 24 ≤ data.size) :
    Safe (readStrictly data mask) (read data mask) where
  eq := readStrictly_eq hsize
  ne_trap := by
    rw [read_eq]
    split
    · nofun
    · rw [if_pos (Or.inr (by omega))]
      nofun

theorem narrow_of_read (h : read data mask = .ok sizes) : sizes.Narrow := by
  obtain ⟨counts, hcounts, hrest⟩ := Except.bind_eq_ok.mp h
  obtain ⟨flags, -, hsizes⟩ := Except.bind_eq_ok.mp hrest
  rw [← Except.pure_eq_ok.mp hsizes]
  exact narrow_of_counts hcounts

end Sizes

namespace TablesStream

def scanExtraStrictly (data : Bytes) (heapFlags : UInt8) (offset : Nat) :
    Except Fault (Option UInt32 × Nat) :=
  if heapFlags &&& extraFlag != 0 then do
    let stop ← Size.add offset 4
    demand (stop ≤ data.size) .outOfBounds
    let extra ← (Scan.u32Strictly data).valueInside data offset
    pure (some extra, stop)
  else
    .ok (none, offset)

/-- Gives every table its place. How long its rows are is a word, and how long
it is itself a size; the end of it is a sum that is checked. -/
def placeStrictly (sizes : Sizes) (limit : Nat) :
    (offset : Nat) → List TableId → Except Fault (List (TableId × Extent))
  | _, [] => .ok []
  | offset, table :: others => do
      let rowSize ← below wordLimit (sizes.rowSize table)
      let size ← Size.mul rowSize (sizes.rows table)
      demand (offset + size < Size.limit ∧ offset + size ≤ limit) .outOfBounds
      let placed ← placeStrictly sizes limit (offset + size) others
      pure ((table, ⟨offset, rowSize, sizes.rows table⟩) :: placed)

def ofDataStrictly (data : Bytes) : Except Fault TablesStream := do
  demand (24 ≤ data.size) .outOfBounds
  let mask ← (Scan.u64Strictly data).valueInside data 8
  demand (mask ≠ 0) (.malformed .noTables)
  let _unknown ← shiftDown 64 mask.toNat TableId.count
  match unknownBit? mask with
  | some bit => .error (.unknownTable bit)
  | none => do
    let heapFlags ← (Scan.u8Strictly data).valueInside data 6
    let sizes ← Sizes.readStrictly data mask
    let words ← Size.mul 4 (bitCount mask)
    let behind ← Size.add 24 words
    let (extra, headerSize) ← scanExtraStrictly data heapFlags behind
    let tables ← Sizes.presentStrictly mask
    let extents ← placeStrictly sizes data.size headerSize tables
    let major ← (Scan.u8Strictly data).valueInside data 4
    let minor ← (Scan.u8Strictly data).valueInside data 5
    let sorted ← (Scan.u64Strictly data).valueInside data 16
    pure { data, major, minor, heapFlags, mask, sorted, sizes, extra, headerSize, extents }

/-- A table as a view; how long a row is, is calculated in a byte. -/
def viewStrictly? (stream : TablesStream) (ρ : Type) [TypedRow ρ] :
    Except Fault (Option (TableView ρ)) :=
  match stream.extent? (TypedRow.table ρ) with
  | none => .ok none
  | some extent => do
      let data ← stream.data.rest extent.offset
      let rowSize ← below byteLimit (TypedRow.size ρ stream.sizes)
      let size ← Size.mul extent.rows rowSize
      pure (if data.size < size then none else some ⟨data, extent.rows, stream.sizes⟩)

def rowsStrictly (stream : TablesStream) (ρ : Type) [TypedRow ρ] [StrictRow ρ] :
    Except Fault (List (Entry ρ)) := do
  match ← stream.viewStrictly? ρ with
  | some table =>
      ((List.range' 1 table.count).mapM
        (Entry.scanStrictly ρ table.sizes table.data)).valueAt 0
  | none => pure []

variable {data : Bytes} {tables : TablesStream}

theorem safe_scanExtra (hsize : data.size + 4 < Size.limit) {heapFlags : UInt8} {offset : Nat}
    (hoffset : offset ≤ data.size) :
    Safe (scanExtraStrictly data heapFlags offset) (scanExtra data heapFlags offset) := by
  refine Safe.ite (fun _ => ?_) fun _ => Safe.ok _
  refine Safe.step (Size.add_of_lt (by omega)) (Safe.demand_bind rfl fun hroom => ?_)
  exact ((Scan.safe_u32 (by omega)).valueInside hoffset).bind fun _ _ => Safe.pure _

theorem safe_place {sizes : Sizes} (hnarrow : sizes.Narrow) {limit : Nat}
    (hlimit : limit < Size.limit) (offset : Nat) (tables : List TableId) :
    Safe (placeStrictly sizes limit offset tables) (place sizes limit offset tables) := by
  induction tables generalizing offset with
  | nil => exact Safe.ok []
  | cons table others ih =>
      have hrow := sizes.rowSize_le table
      have hrows := hnarrow.rows_lt table
      have hsize : sizes.rowSize table * sizes.rows table < Size.limit := by
        have hproduct : sizes.rowSize table * sizes.rows table ≤ 36 * wordLimit :=
          Nat.mul_le_mul hrow (Nat.le_of_lt hrows)
        exact Nat.lt_of_le_of_lt hproduct (by decide)
      refine Safe.step (below_of_lt (Nat.lt_of_le_of_lt hrow (by decide))) ?_
      refine Safe.step (Size.mul_of_lt hsize) ?_
      have hchecked : (offset + sizes.rowSize table * sizes.rows table < Size.limit ∧
          offset + sizes.rowSize table * sizes.rows table ≤ limit) ↔
          offset + sizes.rowSize table * sizes.rows table ≤ limit := by
        constructor
        · exact And.right
        · exact fun h => ⟨Nat.lt_of_le_of_lt h hlimit, h⟩
      simp only [hchecked]
      exact Safe.demand_bind rfl fun _ => (ih _).bind fun _ _ => Safe.pure _

theorem bitCount_le (mask : UInt64) : bitCount mask ≤ 64 :=
  Nat.le_trans List.countP_le_length (Nat.le_of_eq List.length_range)

theorem safe_ofData (hsize : data.size + 4 < Size.limit) :
    Safe (ofDataStrictly data) (ofData data) := by
  have hbytes : data.size < Size.limit := by omega
  refine Safe.demand_bind rfl fun hlong => ?_
  refine ((Scan.safe_u64 hbytes).valueInside (by omega)).bind fun mask _ => ?_
  refine Safe.demand_bind rfl fun _ => ?_
  refine Safe.step (shiftDown_of_lt (by decide)) ?_
  cases hknown : unknownBit? mask with
  | some bit => exact Safe.error rfl
  | none =>
      refine ((Scan.safe_u8 hbytes).valueInside (by omega)).bind fun heapFlags _ => ?_
      refine (Sizes.safe_read hbytes hlong).bind fun sizes hsizes => ?_
      have hcount := bitCount_le mask
      refine Safe.step (Size.mul_of_lt (by unfold Size.limit; omega)) ?_
      refine Safe.step (Size.add_of_lt (by unfold Size.limit; omega)) ?_
      have hcounts : 24 + 4 * bitCount mask ≤ data.size := by
        rw [← length_present hknown]
        exact ((Sizes.read_eq_ok hlong).mp hsizes).1
      refine (safe_scanExtra hsize hcounts).bind fun extra _ => ?_
      refine Safe.step (Sizes.presentStrictly_eq mask) ?_
      refine (safe_place (Sizes.narrow_of_read hsizes) hbytes _ _).bind fun extents _ => ?_
      exact ((Scan.safe_u8 hbytes).valueInside (by omega)).bind fun _ _ =>
        ((Scan.safe_u8 hbytes).valueInside (by omega)).bind fun _ _ =>
        ((Scan.safe_u64 hbytes).valueInside (by omega)).bind fun _ _ => Safe.pure _

section Rows

variable {ρ : Type} [TypedRow ρ]

theorem size_view {table : TableView ρ} (h : tables.view? ρ = .ok (some table)) :
    table.data.size ≤ tables.data.size := by
  unfold view? at h
  split at h
  · cases h
  · obtain ⟨part, hpart, hview⟩ := Except.bind_eq_ok.mp h
    obtain ⟨-, rfl⟩ := Bytes.rest_eq_ok.mp hpart
    rw [Except.pure_eq_ok, TableView.ofData] at hview
    split at hview
    · cases hview
    · cases hview
      rw [Array.size_extract]
      omega

variable [Schema ρ]

theorem Accepted.safe_view (h : Accepted data tables) (hsize : data.size < Size.limit) :
    Safe (tables.viewStrictly? ρ) (tables.view? ρ) := by
  unfold viewStrictly? view?
  cases hextent : tables.extent? (TypedRow.table ρ) with
  | none => exact Safe.ok none
  | some extent =>
      obtain ⟨-, hstop, hrowSize⟩ := h.extent_bounds hextent
      rw [Extent.size, hrowSize, Nat.mul_comm] at hstop
      have hrow := tables.sizes.rowSize_le (TypedRow.table ρ)
      have hinside : extent.offset ≤ tables.data.size := by
        rw [h.data_eq]
        omega
      have hrest := Bytes.rest_of_le hinside
      dsimp only
      rw [hrest, Except.ok_bind, Except.ok_bind, Schema.size_eq]
      refine Safe.step (below_of_lt (Nat.lt_of_le_of_lt hrow (by decide))) ?_
      refine Safe.step (Size.mul_of_lt (by omega)) ?_
      have hview : (if (tables.data.extract extent.offset tables.data.size).size <
            extent.rows * tables.sizes.rowSize (TypedRow.table ρ) then none
          else some ⟨tables.data.extract extent.offset tables.data.size, extent.rows,
            tables.sizes⟩) =
          (TableView.ofData ρ (tables.data.extract extent.offset tables.data.size) extent.rows
            tables.sizes).toOption := by
        rw [TableView.ofData, Schema.size_eq]
        split
        · rfl
        · rfl
      rw [hview]
      exact Safe.pure _

theorem Accepted.safe_rows [StrictRow ρ] (h : Accepted data tables)
    (hsize : data.size < Size.limit) : Safe (tables.rowsStrictly ρ) (tables.rows ρ) := by
  refine (h.safe_view hsize).bind fun view? hview => ?_
  cases view? with
  | none => exact Safe.pure []
  | some table =>
      have hpart : table.data.size < Size.limit :=
        Nat.lt_of_le_of_lt (size_view hview) (h.data_eq ▸ hsize)
      exact (SafeScan.mapM fun rid _ => Entry.safe_scan ρ hpart table.sizes rid).valueAt

end Rows

end TablesStream

end Unveil
