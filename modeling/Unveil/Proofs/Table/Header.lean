import Mathlib.Algebra.Group.Nat.Defs
import Unveil.Proofs.Bytes.Spelling
import Unveil.Proofs.Outcome
import Unveil.Table.Stream

namespace Unveil

namespace Bytes

theorem rest_eq_ok {data part : Bytes} {start : Nat} :
    data.rest start = .ok part ↔ start ≤ data.size ∧ data.extract start data.size = part := by
  by_cases h : start ≤ data.size
  · simp [rest, cut, h]
  · simp [rest, cut, h]

theorem slice_eq_ok {data part : Bytes} {start length : Nat} :
    data.slice start length = .ok part ↔
      start + length ≤ data.size ∧ data.extract start (start + length) = part := by
  by_cases h : start + length ≤ data.size
  · simp [slice, h]
  · simp [slice, h]

theorem size_slice {data part : Bytes} {start length : Nat}
    (h : data.slice start length = .ok part) : part.size = length := by
  obtain ⟨hroom, rfl⟩ := slice_eq_ok.mp h
  rw [Array.size_extract]
  omega

theorem getD_slice {data part : Bytes} {start length k : Nat}
    (h : data.slice start length = .ok part) (hk : k < length) :
    part.getD k 0 = data.getD (start + k) 0 := by
  obtain ⟨hroom, rfl⟩ := slice_eq_ok.mp h
  exact getD_extract hroom (by omega)

theorem getD_slice_congr {data data' part part' : Bytes} {start length k : Nat}
    (h : data.slice start length = .ok part) (h' : data'.slice start length = .ok part')
    (hsame : k < length → data'.getD (start + k) 0 = data.getD (start + k) 0) :
    part'.getD k 0 = part.getD k 0 := by
  by_cases hk : k < length
  · rw [getD_slice h hk, getD_slice h' hk, hsame hk]
  · have hsize := size_slice h
    have hsize' := size_slice h'
    rw [getD_of_size_le (by omega), getD_of_size_le (by omega)]

/-- The same range of data of the same length. -/
theorem exists_slice {data data' part : Bytes} {start length : Nat}
    (h : data.slice start length = .ok part) (hsize : data'.size = data.size) :
    ∃ part', data'.slice start length = .ok part' ∧ part'.size = part.size := by
  obtain ⟨hroom, -⟩ := slice_eq_ok.mp h
  have hslice : data'.slice start length = .ok (data'.extract start (start + length)) :=
    slice_eq_ok.mpr ⟨hsize ▸ hroom, rfl⟩
  exact ⟨_, hslice, (size_slice hslice).trans (size_slice h).symm⟩

end Bytes

namespace Scan

theorem number_eq_ok {data : Bytes} {width offset value stop : Nat} :
    number data width offset = .ok value stop ↔
      offset + width ≤ data.size ∧ data.number offset width = value ∧ offset + width = stop := by
  by_cases h : offset + width ≤ data.size
  · simp [number, h]
  · simp [number, h]

theorem u32_eq_ok {data : Bytes} {offset stop : Nat} {value : UInt32} :
    u32 data offset = .ok value stop ↔ offset + 4 ≤ data.size ∧
      UInt32.ofNat (data.number offset 4) = value ∧ offset + 4 = stop := by
  simp only [u32, EStateM.map_eq_ok, number_eq_ok]
  constructor
  · rintro ⟨_, ⟨hroom, rfl, hstop⟩, rfl⟩
    exact ⟨hroom, rfl, hstop⟩
  · rintro ⟨hroom, rfl, hstop⟩
    exact ⟨_, ⟨hroom, rfl, hstop⟩, rfl⟩

variable {α : Type}

theorem valueInside_number {data : Bytes} {start width : Nat} {value : α} {f : Nat → α} :
    (f <$> number data width).valueInside data start = .ok value ↔
      start + width ≤ data.size ∧ f (data.number start width) = value := by
  by_cases hstart : start ≤ data.size
  · rw [valueInside, if_pos hstart]
    simp only [valueAt_eq_ok, EStateM.map_eq_ok, number_eq_ok]
    constructor
    · rintro ⟨stop, _, ⟨hroom, rfl, _⟩, rfl⟩
      exact ⟨hroom, rfl⟩
    · rintro ⟨hroom, rfl⟩
      exact ⟨_, _, ⟨hroom, rfl, rfl⟩, rfl⟩
  · rw [valueInside, if_neg hstart]
    constructor
    · intro h
      cases h
    · rintro ⟨hroom, -⟩
      omega

/-- A number that is not all there moves nothing. -/
theorem number_of_short {data : Bytes} {offset width : Nat} (f : Nat → α)
    (h : ¬ offset + width ≤ data.size) :
    (f <$> number data width) offset = .error .outOfBounds offset := by
  rw [map_eq_pure_bind]
  exact EStateM.bind_of_error (if_neg h)

/-- A step behind a number that is read inside the data. -/
theorem exists_valueInside {data : Bytes} {start width : Nat} {f : Nat → α} {next : α → Prop} :
    (∃ value, (f <$> number data width).valueInside data start = .ok value ∧ next value) ↔
      start + width ≤ data.size ∧ next (f (data.number start width)) := by
  simp only [valueInside_number]
  constructor
  · rintro ⟨_, ⟨hroom, rfl⟩, hnext⟩
    exact ⟨hroom, hnext⟩
  · rintro ⟨hroom, hnext⟩
    exact ⟨_, ⟨hroom, rfl⟩, hnext⟩

end Scan

namespace Sizes

theorem count?_ofCounts (count? : TableId → Option Nat) (heapFlags : UInt8) (table : TableId) :
    (ofCounts count? heapFlags).count? table = count? table := by
  have hinside : table.number < TableId.count := table.number_lt
  change (Vector.ofFn fun number => count? (TableId.ofFin number))[table.number] = _
  rw [Vector.getElem_ofFn, TableId.ofFin_number]

theorem nodup_present (mask : UInt64) : (present mask).Nodup :=
  List.Pairwise.filter _ (by decide)

/-- The row counts of some tables, the first of which stands at `offset`. -/
def countsAt (data : Bytes) : List TableId → Nat → List (TableId × Nat)
  | [], _ => []
  | table :: tables, offset => (table, data.number offset 4) :: countsAt data tables (offset + 4)

theorem scanCounts_eq_ok {data : Bytes} {tables : List TableId} {offset stop : Nat}
    {counts : List (TableId × Nat)} (hoffset : offset ≤ data.size) :
    scanCounts data tables offset = .ok counts stop ↔
      offset + 4 * tables.length ≤ data.size ∧ countsAt data tables offset = counts ∧
        offset + 4 * tables.length = stop := by
  induction tables generalizing offset counts stop with
  | nil => simp [scanCounts, countsAt, pure, EStateM.pure, hoffset]
  | cons table tables ih =>
      simp only [scanCounts, List.mapM_cons, EStateM.bind_eq_ok, Scan.u32_eq_ok,
        EStateM.pure_eq_ok] at ih ⊢
      simp only [countsAt, List.length_cons]
      constructor
      · rintro ⟨_, _, ⟨_, _, ⟨hroom, rfl, rfl⟩, rfl, rfl⟩, others, _, hothers, rfl, rfl⟩
        obtain ⟨hroom', rfl, hstop⟩ := (ih hroom).mp hothers
        exact ⟨by omega, by rw [Bytes.toNat_ofNat_number _ _ (Nat.le_refl 4)], by omega⟩
      · rintro ⟨hroom, rfl, rfl⟩
        refine ⟨_, _, ⟨_, _, ⟨by omega, rfl, rfl⟩, rfl, rfl⟩, _, _, ?_,
          by rw [Bytes.toNat_ofNat_number _ _ (Nat.le_refl 4)],
          rfl⟩
        exact (ih (by omega)).mpr ⟨by omega, rfl, by omega⟩

/-- The row counts are those behind the fixed header. -/
theorem read_eq_ok {data : Bytes} {mask : UInt64} {sizes : Sizes} (hlong : 24 ≤ data.size) :
    read data mask = .ok sizes ↔
      24 + 4 * (present mask).length ≤ data.size ∧
        ofCounts (fun table => (countsAt data (present mask) 24).lookup table)
          (UInt8.ofNat (data.number 6 1)) = sizes := by
  unfold read
  simp only [Except.bind_eq_ok, Scan.u8, Scan.exists_valueInside, Except.pure_eq_ok]
  simp only [Scan.valueAt_eq_ok, scanCounts_eq_ok hlong]
  constructor
  · rintro ⟨_, ⟨_, hroom, rfl, _⟩, _, hsizes⟩
    exact ⟨hroom, hsizes⟩
  · rintro ⟨hroom, hsizes⟩
    exact ⟨_, ⟨_, hroom, rfl, rfl⟩, by omega, hsizes⟩

theorem lookup_countsAt {data : Bytes} {tables : List TableId} {offset k : Nat} {table : TableId}
    (hnodup : tables.Nodup) (htable : tables[k]? = some table) :
    (countsAt data tables offset).lookup table = some (data.number (offset + 4 * k) 4) := by
  induction tables generalizing offset k with
  | nil => simp at htable
  | cons first tables ih =>
      obtain ⟨hfirst, hothers⟩ := List.nodup_cons.mp hnodup
      cases k with
      | zero =>
          obtain rfl : first = table := by simpa using htable
          simp [countsAt]
      | succ k =>
          have htable' : tables[k]? = some table := by simpa using htable
          have hdiffers : table ≠ first := by
            rintro rfl
            exact hfirst (List.mem_of_getElem? htable')
          have hmissed : (table == first) = false := beq_eq_false_iff_ne.mpr hdiffers
          have hplace : offset + 4 + 4 * k = offset + 4 * (k + 1) := by omega
          rw [countsAt, List.lookup_cons, hmissed, ih hothers htable', hplace]

end Sizes

namespace TablesStream

/-- What is found and checked when a tables stream is read. -/
structure Accepted (data : Bytes) (tables : TablesStream) : Prop where
  data_eq : tables.data = data
  long : 24 ≤ data.size
  mask_eq : UInt64.ofNat (data.number 8 8) = tables.mask
  mask_ne : tables.mask ≠ 0
  known : unknownBit? tables.mask = none
  heapFlags_eq : UInt8.ofNat (data.number 6 1) = tables.heapFlags
  sizes_eq : Sizes.read data tables.mask = .ok tables.sizes
  extra_eq : scanExtra data tables.heapFlags (24 + 4 * bitCount tables.mask) =
    .ok (tables.extra, tables.headerSize)
  extents_eq : place tables.sizes data.size tables.headerSize (Sizes.present tables.mask) =
    .ok tables.extents
  major_eq : UInt8.ofNat (data.number 4 1) = tables.major
  minor_eq : UInt8.ofNat (data.number 5 1) = tables.minor
  sorted_eq : UInt64.ofNat (data.number 16 8) = tables.sorted

/-- A stream is read as `tables` exactly if every check passes with these
values. -/
theorem ofData_eq_ok {data : Bytes} {tables : TablesStream} :
    ofData data = .ok tables ↔ Accepted data tables := by
  unfold ofData
  simp only [Except.bind_eq_ok, demand_eq_ok, exists_const, Scan.u64, Scan.u8,
    Scan.exists_valueInside]
  constructor
  · rintro ⟨hlong, _, hne, h⟩
    split at h
    · cases h
    · rename_i hknown
      simp only [Except.bind_eq_ok, Scan.exists_valueInside, Except.pure_eq_ok] at h
      obtain ⟨_, sizes, hsizes, ⟨extra, headerSize⟩, hextra, extents, hextents, _, _, _, rfl⟩ := h
      exact ⟨rfl, hlong, rfl, hne, hknown, rfl, hsizes, hextra, hextents, rfl, rfl, rfl⟩
  · rintro ⟨rfl, hlong, hmask, hne, hknown, hheap, hsizes, hextra, hextents, hmajor, hminor,
      hsorted⟩
    rw [← hmask] at hne hknown hsizes hextents hextra
    rw [← hheap] at hextra
    refine ⟨hlong, by omega, hne, ?_⟩
    simp only [hknown, Except.bind_eq_ok, Scan.exists_valueInside, Except.pure_eq_ok]
    refine ⟨by omega, _, hsizes, _, hextra, _, hextents, by omega, by omega, by omega, ?_⟩
    rw [hmask, hheap, hmajor, hminor, hsorted]

end TablesStream

end Unveil
