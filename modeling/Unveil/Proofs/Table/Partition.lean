import Unveil.Proofs.Table.Rows

/-!
Which bytes are a tables stream, and how its tables share them. What a stream
states about itself stands at fixed places of its header; a stream is read
exactly if its marks are known and everything it states fits, and then its
rows take every byte behind the header up to the end of the last table, each
byte belonging to one row.
-/

namespace Unveil

/-- The bytes that the rows of some tables take together. -/
def Sizes.tablesSize (sizes : Sizes) (tables : List TableId) : Nat :=
  total (tables.map fun table => sizes.rows table * sizes.rowSize table)

namespace TablesStream

section Stated

variable (data : Bytes)

/-- The marks of the tables that are said to be there. -/
def statedMask : UInt64 := .ofNat (data.number 8 8)

def statedFlags : UInt8 := .ofNat (data.number 6 1)

/-- Where the row counts end, of which each mark has one. -/
def countsEnd : Nat := 24 + 4 * bitCount (statedMask data)

/-- Where the header ends: with the row counts, or with one more word that the
heap flags announce. -/
def headerEnd : Nat :=
  countsEnd data + if statedFlags data &&& 0x40 ≠ 0 then 4 else 0

/-- The sizes that follow from the row counts and heap flags. -/
def statedSizes : Sizes :=
  .ofCounts (fun table => (Sizes.countsAt data (Sizes.present (statedMask data)) 24).lookup table)
    (statedFlags data)

/-- Where the last table ends. -/
def statedEnd : Nat :=
  headerEnd data + (statedSizes data).tablesSize (Sizes.present (statedMask data))

/-- The row counts, the word behind them and the tables all lie in the data. -/
structure Fits : Prop where
  counts : countsEnd data ≤ data.size
  header : headerEnd data ≤ data.size
  tables : statedEnd data ≤ data.size

end Stated

/-- The lowest mark that stands for no table. -/
structure LowestUnknown (mask : UInt64) (bit : Nat) : Prop where
  unknown : 45 ≤ bit
  marked : mask.toNat.testBit bit = true
  lowest : ∀ other, 45 ≤ other → mask.toNat.testBit other = true → bit ≤ other

/-- Tables that lie one right behind the other, from `start` to `stop`. -/
inductive BackToBack : Nat → List (TableId × Extent) → Nat → Prop where
  | nil (start : Nat) : BackToBack start [] start
  | cons {start stop : Nat} {table : TableId} {extent : Extent}
      {others : List (TableId × Extent)} (hstart : extent.offset = start)
      (hothers : BackToBack (start + extent.size) others stop) :
      BackToBack start ((table, extent) :: others) stop

/-- A stream that was read, and the bytes that its tables and rows take. -/
structure Partitioned (data : Bytes) (tables : TablesStream) : Prop where
  headerSize_eq : tables.headerSize = headerEnd data
  /-- The tables are those that are marked, in ascending order of number. -/
  hasTable_iff : ∀ table, tables.hasTable table = true ↔
    (statedMask data).toNat.testBit table.number = true
  ascending : (tables.extents.map fun (table, _) => table.number).Pairwise (· < ·)
  backToBack : BackToBack tables.headerSize tables.extents tables.tablesEnd
  tablesEnd_eq : tables.tablesEnd = statedEnd data
  tablesEnd_le : tables.tablesEnd ≤ data.size
  /-- A table has the rows of its count, each as long as its columns together. -/
  rows_eq : ∀ k table extent, tables.extents[k]? = some (table, extent) →
    extent.rows = data.number (24 + 4 * k) 4
  size_eq : ∀ table extent, tables.extent? table = some extent →
    extent.rowSize = tables.sizes.rowSize table ∧ extent.size = extent.rows * extent.rowSize
  rowOffset?_isSome : ∀ table extent rid, tables.extent? table = some extent →
    ((extent.rowOffset? rid).isSome = true ↔ 1 ≤ rid ∧ rid ≤ extent.rows)
  rows_apart : ∀ table rid place other rid' place',
    tables.rowPlace? table rid = some place → tables.rowPlace? other rid' = some place' →
    (table, rid) ≠ (other, rid') →
      place + tables.sizes.rowSize table ≤ place' ∨ place' + tables.sizes.rowSize other ≤ place
  rows_cover : ∀ i, (tables.headerSize ≤ i ∧ i < tables.tablesEnd) ↔
    ∃ table rid place, tables.rowPlace? table rid = some place ∧
      place ≤ i ∧ i < place + tables.sizes.rowSize table

theorem lt_of_marked {mask : UInt64} {bit : Nat} (h : mask.toNat.testBit bit = true) :
    bit < 64 := by
  apply Nat.lt_of_not_le
  intro hle
  have hsmall : mask.toNat < 2 ^ bit :=
    Nat.lt_of_lt_of_le mask.toNat_lt (Nat.pow_le_pow_right (by decide) hle)
  rw [Nat.testBit_lt_two_pow hsmall] at h
  cases h

theorem unknownBit?_eq_some {mask : UInt64} {bit : Nat} :
    unknownBit? mask = some bit ↔ LowestUnknown mask bit := by
  unfold unknownBit?
  rw [List.find?_range_eq_some]
  simp only [Bool.and_eq_true, decide_eq_true_eq, List.mem_range]
  constructor
  · rintro ⟨⟨hunknown, hbit⟩, -, hlowest⟩
    refine ⟨hunknown, hbit, ?_⟩
    intro other hother htest
    have hother' : TableId.count ≤ other := hother
    apply Nat.le_of_not_lt
    intro hlt
    have hno := hlowest other hlt
    simp [hother', htest] at hno
  · rintro ⟨hunknown, hbit, hlowest⟩
    refine ⟨⟨hunknown, hbit⟩, lt_of_marked hbit, ?_⟩
    intro other hlt
    rw [Bool.not_eq_true', Bool.eq_false_iff]
    intro hother
    simp only [Bool.and_eq_true, decide_eq_true_eq] at hother
    have hle := hlowest other hother.1 hother.2
    omega

theorem unknownBit?_eq_none {mask : UInt64} :
    unknownBit? mask = none ↔ ∀ bit, 45 ≤ bit → mask.toNat.testBit bit = false := by
  rw [unknownBit?, List.find?_eq_none]
  simp only [Bool.and_eq_true, decide_eq_true_eq, not_and, Bool.not_eq_true, List.mem_range]
  constructor
  · intro h bit hunknown
    by_cases hbit : bit < 64
    · exact h bit hbit hunknown
    · rw [Bool.eq_false_iff]
      intro hmarked
      exact hbit (lt_of_marked hmarked)
  · intro h bit _ hunknown
    exact h bit hunknown

end TablesStream

namespace Sizes

theorem scanCounts_of_short {data : Bytes} {tables : List TableId} {offset : Nat}
    (hoffset : offset ≤ data.size) (hshort : data.size < offset + 4 * tables.length) :
    ∃ stop, scanCounts data tables offset = .error .outOfBounds stop := by
  induction tables generalizing offset with
  | nil =>
      rw [List.length_nil] at hshort
      omega
  | cons table tables ih =>
      rw [List.length_cons] at hshort
      by_cases hroom : offset + 4 ≤ data.size
      · obtain ⟨stop, hothers⟩ := ih hroom (by omega)
        have hfirst : (do
            let rows ← Scan.u32 data
            pure (table, rows.toNat)) offset = .ok _ (offset + 4) :=
          EStateM.bind_of_ok (Scan.u32_eq_ok.mpr ⟨hroom, rfl, rfl⟩)
        refine ⟨stop, ?_⟩
        rw [scanCounts, List.mapM_cons, EStateM.bind_of_ok hfirst]
        exact EStateM.bind_of_error hothers
      · have hfirst : Scan.u32 data offset = .error .outOfBounds offset :=
          Scan.number_of_short _ hroom
        exact ⟨offset, EStateM.bind_of_error (EStateM.bind_of_error hfirst)⟩

theorem read_of_short {data : Bytes} {mask : UInt64} (hlong : 24 ≤ data.size)
    (hshort : data.size < 24 + 4 * (present mask).length) :
    read data mask = .error .outOfBounds := by
  obtain ⟨stop, hcounts⟩ := scanCounts_of_short hlong hshort
  rw [read, Scan.valueAt, hcounts]
  rfl

end Sizes

namespace TablesStream

/-- The header ends where it is stated to. -/
theorem scanExtra_of_fits {data : Bytes} (hroom : headerEnd data ≤ data.size) :
    ∃ extra, scanExtra data (statedFlags data) (countsEnd data) = .ok (extra, headerEnd data) := by
  rw [headerEnd] at hroom ⊢
  by_cases hflag : statedFlags data &&& 0x40 ≠ 0
  · simp only [if_pos hflag] at hroom ⊢
    have hannounced : (statedFlags data &&& extraFlag != 0) = true := bne_iff_ne.mpr hflag
    have hextra : (Scan.u32 data).valueInside data (countsEnd data) = _ :=
      Scan.valueInside_number.mpr ⟨hroom, rfl⟩
    rw [scanExtra, if_pos hannounced, demand_bind hroom, hextra]
    exact ⟨_, rfl⟩
  · rw [if_neg hflag]
    have hsilent : ¬ (statedFlags data &&& extraFlag != 0) = true := fun h =>
      hflag (bne_iff_ne.mp h)
    rw [scanExtra, if_neg hsilent]
    exact ⟨_, rfl⟩

theorem scanExtra_of_short {data : Bytes} (hcounts : countsEnd data ≤ data.size)
    (hshort : data.size < headerEnd data) :
    scanExtra data (statedFlags data) (countsEnd data) = .error .outOfBounds := by
  rw [headerEnd] at hshort
  by_cases hflag : statedFlags data &&& 0x40 ≠ 0
  · rw [if_pos hflag] at hshort
    have hannounced : (statedFlags data &&& extraFlag != 0) = true := bne_iff_ne.mpr hflag
    rw [scanExtra, if_pos hannounced, demand_bind_of_not (Nat.not_le.mpr hshort)]
  · rw [if_neg hflag] at hshort
    omega

section Placing

variable {sizes : Sizes} {limit offset : Nat} {table : TableId} {tables : List TableId}

theorem size_placed (offset : Nat) :
    Extent.size ⟨offset, sizes.rowSize table, sizes.rows table⟩ =
      sizes.rows table * sizes.rowSize table :=
  Nat.mul_comm _ _

theorem place_cons : place sizes limit offset (table :: tables) = (do
    let stop := offset + sizes.rows table * sizes.rowSize table
    demand (stop ≤ limit) .outOfBounds
    let placed ← place sizes limit stop tables
    pure ((table, ⟨offset, sizes.rowSize table, sizes.rows table⟩) :: placed)) := by
  simp only [place, size_placed]

theorem tablesSize_cons : offset + sizes.tablesSize (table :: tables) =
    offset + sizes.rows table * sizes.rowSize table + sizes.tablesSize tables := by
  rw [Sizes.tablesSize, List.map_cons, total_cons, ← Nat.add_assoc]
  rfl

theorem place_of_fits (hroom : offset + sizes.tablesSize tables ≤ limit) :
    ∃ extents, place sizes limit offset tables = .ok extents := by
  induction tables generalizing offset with
  | nil => exact ⟨[], rfl⟩
  | cons table tables ih =>
      rw [tablesSize_cons] at hroom
      obtain ⟨others, hothers⟩ := ih hroom
      rw [place_cons, demand_bind (Nat.le_trans (Nat.le_add_right _ _) hroom), hothers]
      exact ⟨_, rfl⟩

theorem place_of_short (hoffset : offset ≤ limit)
    (hshort : limit < offset + sizes.tablesSize tables) :
    place sizes limit offset tables = .error .outOfBounds := by
  induction tables generalizing offset with
  | nil => exact absurd hoffset (Nat.not_le.mpr hshort)
  | cons table tables ih =>
      rw [tablesSize_cons] at hshort
      rw [place_cons]
      by_cases hroom : offset + sizes.rows table * sizes.rowSize table ≤ limit
      · rw [demand_bind hroom, ih hroom hshort]
        rfl
      · exact demand_bind_of_not hroom

end Placing

section Verdict

variable {data : Bytes}

theorem ofData_of_short (hshort : data.size < 24) : ofData data = .error .outOfBounds :=
  demand_bind_of_not (Nat.not_le.mpr hshort)

theorem mask_read (hlong : 24 ≤ data.size) :
    (Scan.u64 data).valueInside data 8 = .ok (statedMask data) :=
  Scan.valueInside_number.mpr ⟨by omega, rfl⟩

theorem ofData_of_unmarked (hlong : 24 ≤ data.size) (hmask : statedMask data = 0) :
    ofData data = .error (.malformed .noTables) := by
  rw [ofData, demand_bind hlong, mask_read hlong, Except.ok_bind,
    demand_bind_of_not fun hsome => hsome hmask]

theorem ofData_of_unknown (hlong : 24 ≤ data.size) (hmask : statedMask data ≠ 0) {bit : Nat}
    (hunknown : LowestUnknown (statedMask data) bit) :
    ofData data = .error (.unknownTable bit) := by
  rw [ofData, demand_bind hlong, mask_read hlong, Except.ok_bind, demand_bind hmask,
    unknownBit?_eq_some.mpr hunknown]

variable (hlong : 24 ≤ data.size) (hmask : statedMask data ≠ 0)
  (hknown : ∀ bit, 45 ≤ bit → (statedMask data).toNat.testBit bit = false)

include hknown in
theorem countsEnd_eq : countsEnd data = 24 + 4 * (Sizes.present (statedMask data)).length := by
  rw [countsEnd, length_present (unknownBit?_eq_none.mpr hknown)]

include hlong hmask hknown

/-- What is left to do when the marks are known. -/
theorem ofData_of_known :
    ∃ finish : Sizes → Option UInt32 × Nat → List (TableId × Extent) → Except Fault TablesStream,
    ofData data = (do
    let sizes ← Sizes.read data (statedMask data)
    let found ← scanExtra data (statedFlags data) (countsEnd data)
    let extents ← place sizes data.size found.2 (Sizes.present (statedMask data))
    finish sizes found extents) := by
  have hflags : (Scan.u8 data).valueInside data 6 = .ok (statedFlags data) :=
    Scan.valueInside_number.mpr ⟨by omega, rfl⟩
  rw [ofData, demand_bind hlong, mask_read hlong, Except.ok_bind, demand_bind hmask,
    unknownBit?_eq_none.mpr hknown]
  simp only [hflags, Except.ok_bind]
  exact ⟨_, rfl⟩

theorem ofData_of_not_fits (hmisfit : ¬ Fits data) : ofData data = .error .outOfBounds := by
  obtain ⟨finish, hread⟩ := ofData_of_known hlong hmask hknown
  rw [hread]
  by_cases hcounts : countsEnd data ≤ data.size
  · have hsizes : Sizes.read data (statedMask data) = .ok (statedSizes data) :=
      (Sizes.read_eq_ok hlong).mpr ⟨countsEnd_eq hknown ▸ hcounts, rfl⟩
    rw [hsizes, Except.ok_bind]
    by_cases hheader : headerEnd data ≤ data.size
    · obtain ⟨extra, hextra⟩ := scanExtra_of_fits hheader
      have htables : data.size < statedEnd data :=
        Nat.lt_of_not_le fun hroom => hmisfit ⟨hcounts, hheader, hroom⟩
      have hplaces : place (statedSizes data) data.size (headerEnd data) _ = _ :=
        place_of_short hheader htables
      rw [hextra, Except.ok_bind, hplaces]
      rfl
    · rw [scanExtra_of_short hcounts (Nat.lt_of_not_le hheader)]
      rfl
  · rw [countsEnd_eq hknown] at hcounts
    rw [Sizes.read_of_short hlong (Nat.lt_of_not_le hcounts)]
    rfl

theorem ofData_of_fits (hfits : Fits data) : ∃ tables, ofData data = .ok tables := by
  obtain ⟨extra, hextra⟩ := scanExtra_of_fits hfits.header
  obtain ⟨extents, hextents⟩ := place_of_fits hfits.tables
  refine ⟨⟨data, .ofNat (data.number 4 1), .ofNat (data.number 5 1), statedFlags data,
    statedMask data, .ofNat (data.number 16 8), statedSizes data, extra, headerEnd data,
    extents⟩, ?_⟩
  exact ofData_eq_ok.mpr {
    data_eq := rfl
    long := hlong
    mask_eq := rfl
    mask_ne := hmask
    known := unknownBit?_eq_none.mpr hknown
    heapFlags_eq := rfl
    sizes_eq := (Sizes.read_eq_ok hlong).mpr ⟨countsEnd_eq hknown ▸ hfits.counts, rfl⟩
    extra_eq := hextra
    extents_eq := hextents
    major_eq := rfl
    minor_eq := rfl
    sorted_eq := rfl }

end Verdict

namespace BackToBack

variable {start stop : Nat} {extents : List (TableId × Extent)}

theorem le (h : BackToBack start extents stop) : start ≤ stop := by
  induction h with
  | nil => exact Nat.le_refl _
  | cons _ _ ih => omega

theorem bounds (h : BackToBack start extents stop) {table : TableId} {extent : Extent}
    (hmem : (table, extent) ∈ extents) : start ≤ extent.offset ∧
      extent.offset + extent.size ≤ stop := by
  induction h with
  | nil => cases hmem
  | cons hstart hothers ih =>
      rcases List.mem_cons.mp hmem with hfirst | hlater
      · cases hfirst
        exact ⟨Nat.le_of_eq hstart.symm, hstart ▸ hothers.le⟩
      · have hbounds := ih hlater
        omega

/-- Each place between the first table and the end of the last is in a table. -/
theorem covers (h : BackToBack start extents stop) {i : Nat} (hstart : start ≤ i)
    (hstop : i < stop) : ∃ table extent, (table, extent) ∈ extents ∧ extent.offset ≤ i ∧
      i < extent.offset + extent.size := by
  induction h with
  | nil => omega
  | @cons start stop table extent others hfirst hothers ih =>
      by_cases hinside : i < start + extent.size
      · exact ⟨table, extent, List.mem_cons_self, by omega, by omega⟩
      · obtain ⟨other, found, hmem, hplace⟩ := ih (Nat.le_of_not_lt hinside) hstop
        exact ⟨other, found, List.mem_cons_of_mem _ hmem, hplace⟩

/-- The greatest end of a table is that of the last. -/
theorem foldl_eq (h : BackToBack start extents stop) :
    extents.foldl (fun reached (_, extent) => max reached (extent.offset + extent.size)) start =
      stop := by
  induction h with
  | nil => rfl
  | @cons start stop table extent others hfirst hothers ih =>
      change List.foldl _ (max start (extent.offset + extent.size)) others = stop
      rw [hfirst, Nat.max_eq_right (Nat.le_add_right _ _)]
      exact ih

end BackToBack

theorem place_backToBack {sizes : Sizes} {limit offset : Nat} {tables : List TableId}
    {extents : List (TableId × Extent)} (h : place sizes limit offset tables = .ok extents) :
    BackToBack offset extents (offset + sizes.tablesSize tables) := by
  induction tables generalizing offset extents with
  | nil =>
      cases h
      exact .nil offset
  | cons table tables ih =>
      simp only [place_cons, Except.bind_eq_ok, demand_eq_ok, exists_const,
        Except.pure_eq_ok] at h
      obtain ⟨-, others, hothers, rfl⟩ := h
      rw [tablesSize_cons]
      refine .cons rfl ?_
      rw [size_placed]
      exact ih hothers

namespace Accepted

variable {data : Bytes} {tables : TablesStream} {table other : TableId} {extent : Extent}
  {rid rid' place place' i : Nat}

/-- Only a stream that fits is read. -/
theorem fits (h : Accepted data tables) : Fits data := by
  apply Classical.byContradiction
  intro hmisfit
  have hread := ofData_eq_ok.mpr h
  have hmask : statedMask data ≠ 0 := fun hzero => h.mask_ne (h.mask_eq.symm.trans hzero)
  have hknown : unknownBit? (statedMask data) = none := (congrArg _ h.mask_eq).trans h.known
  rw [ofData_of_not_fits h.long hmask (unknownBit?_eq_none.mp hknown) hmisfit] at hread
  cases hread

theorem headerSize_eq (h : Accepted data tables) : tables.headerSize = headerEnd data := by
  obtain ⟨extra, hextra⟩ := scanExtra_of_fits h.fits.header
  have hown := h.extra_eq
  rw [← h.mask_eq, ← h.heapFlags_eq] at hown
  have hsame := Except.ok.inj (hextra.symm.trans hown)
  exact (Prod.mk.inj hsame).2.symm

theorem sizes_stated (h : Accepted data tables) : tables.sizes = statedSizes data := by
  have hsizes := ((Sizes.read_eq_ok h.long).mp h.sizes_eq).2
  rw [← h.mask_eq] at hsizes
  exact hsizes.symm

theorem backToBack (h : Accepted data tables) :
    BackToBack tables.headerSize tables.extents (statedEnd data) := by
  have hplaces := place_backToBack h.extents_eq
  rw [← h.mask_eq, h.sizes_stated, h.headerSize_eq] at hplaces
  rw [h.headerSize_eq]
  exact hplaces

theorem tablesEnd_eq (h : Accepted data tables) : tables.tablesEnd = statedEnd data :=
  h.backToBack.foldl_eq

theorem hasTable_iff (h : Accepted data tables) :
    tables.hasTable table = true ↔ (statedMask data).toNat.testBit table.number = true := by
  have hmarked : table ∈ Sizes.present tables.mask ↔
      (statedMask data).toNat.testBit table.number = true := by
    rw [Sizes.present, List.mem_filter, and_iff_right table.mem_all, ← h.mask_eq]
    rfl
  rw [← hmarked, ← h.keys_eq, hasTable, Option.isSome_iff_exists, List.mem_map]
  constructor
  · rintro ⟨extent, hextent⟩
    obtain ⟨k, hk⟩ := mem_extents hextent
    exact ⟨_, List.mem_of_getElem? hk, rfl⟩
  · rintro ⟨⟨_, extent⟩, hmem, rfl⟩
    obtain ⟨k, hk⟩ := List.mem_iff_getElem?.mp hmem
    exact ⟨extent, h.extent?_eq hk⟩

theorem ascending (h : Accepted data tables) :
    (tables.extents.map fun (table, _) => table.number).Pairwise (· < ·) := by
  have hkeys : (tables.extents.map fun (table, _) => table.number) =
      (Sizes.present tables.mask).map TableId.number := by
    rw [← h.keys_eq, List.map_map]
    rfl
  rw [hkeys, List.pairwise_map]
  exact List.Pairwise.filter _ (by decide)

/-- No byte is shared by two rows. -/
theorem rows_apart (h : Accepted data tables)
    (hplace : tables.rowPlace? table rid = some place)
    (hplace' : tables.rowPlace? other rid' = some place')
    (hdiffers : (table, rid) ≠ (other, rid')) :
    place + tables.sizes.rowSize table ≤ place' ∨ place' + tables.sizes.rowSize other ≤ place := by
  by_cases htable : table = other
  · subst htable
    obtain ⟨extent, hextent, hfirst, -, rfl⟩ := h.rowPlace?_eq_some.mp hplace
    obtain ⟨extent', hextent', hfirst', -, rfl⟩ := h.rowPlace?_eq_some.mp hplace'
    obtain rfl := Option.some.inj (hextent.symm.trans hextent')
    have hrid : rid ≠ rid' := fun hsame => hdiffers (hsame ▸ rfl)
    have hstep (a b : Nat) (hlt : a < b) : a * tables.sizes.rowSize table +
        tables.sizes.rowSize table ≤ b * tables.sizes.rowSize table := by
      rw [← Nat.succ_mul]
      exact Nat.mul_le_mul_right _ hlt
    rcases Nat.lt_or_gt_of_ne hrid with hlt | hlt
    · have := hstep (rid - 1) (rid' - 1) (by omega)
      omega
    · have := hstep (rid' - 1) (rid - 1) (by omega)
      omega
  · obtain ⟨extent, hextent, hstart, hstop⟩ := h.rowPlace_inside hplace
    obtain ⟨extent', hextent', hstart', hstop'⟩ := h.rowPlace_inside hplace'
    have hapart := h.extents_apart hextent hextent' htable
    omega

/-- Each byte of a table is in one of its rows. -/
theorem exists_row (h : Accepted data tables) (hextent : tables.extent? table = some extent)
    (hstart : extent.offset ≤ i) (hstop : i < extent.offset + extent.size) :
    ∃ rid place, tables.rowPlace? table rid = some place ∧ place ≤ i ∧
      i < place + tables.sizes.rowSize table := by
  have hwidth := tables.sizes.rowSize_pos table
  obtain ⟨distance, rfl⟩ := Nat.exists_eq_add_of_le hstart
  rw [Extent.size, (h.extent_bounds hextent).2.2] at hstop
  have hk : distance / tables.sizes.rowSize table < extent.rows :=
    Nat.div_lt_of_lt_mul (by omega)
  have hsplit := Nat.div_add_mod' distance (tables.sizes.rowSize table)
  have hrest := Nat.mod_lt distance hwidth
  refine ⟨_, _, h.rowPlace?_succ hextent hk, ?_, ?_⟩
  · omega
  · omega

theorem rows_cover (h : Accepted data tables) :
    (tables.headerSize ≤ i ∧ i < tables.tablesEnd) ↔
      ∃ table rid place, tables.rowPlace? table rid = some place ∧ place ≤ i ∧
        i < place + tables.sizes.rowSize table := by
  rw [h.tablesEnd_eq]
  constructor
  · rintro ⟨hstart, hstop⟩
    obtain ⟨table, extent, hmem, hfirst, hlast⟩ := h.backToBack.covers hstart hstop
    obtain ⟨k, hk⟩ := List.mem_iff_getElem?.mp hmem
    exact ⟨table, h.exists_row (h.extent?_eq hk) hfirst hlast⟩
  · rintro ⟨table, rid, place, hplace, hfirst, hlast⟩
    obtain ⟨extent, hextent, hstart, hstop⟩ := h.rowPlace_inside hplace
    obtain ⟨k, hk⟩ := mem_extents hextent
    have hbounds := h.backToBack.bounds (List.mem_of_getElem? hk)
    omega

theorem partitioned (h : Accepted data tables) : Partitioned data tables where
  headerSize_eq := h.headerSize_eq
  hasTable_iff _ := h.hasTable_iff
  ascending := h.ascending
  backToBack := h.tablesEnd_eq ▸ h.backToBack
  tablesEnd_eq := h.tablesEnd_eq
  tablesEnd_le := h.tablesEnd_eq ▸ h.fits.tables
  rows_eq _ _ _ hk := h.rows_eq hk
  size_eq table extent hextent := ⟨(h.extent_bounds hextent).2.2, Nat.mul_comm _ _⟩
  rowOffset?_isSome table extent rid hextent := by
    rw [Extent.rowOffset?]
    split
    · simp
      omega
    · simp
      omega
  rows_apart _ _ _ _ _ _ hplace hplace' hdiffers := h.rows_apart hplace hplace' hdiffers
  rows_cover _ := h.rows_cover

end Accepted

/-- Which bytes are read as a tables stream, and how its tables share them. The
checks are made in order, and the first that fails gives the fault: there is a
header of 24 bytes, some table is marked, no mark is unknown, and the row
counts, the word that may stand behind them and the rows of all tables fit. -/
theorem ofData_partitions (data : Bytes) :
    (data.size < 24 → ofData data = .error .outOfBounds) ∧
    (24 ≤ data.size →
      (statedMask data = 0 → ofData data = .error (.malformed .noTables)) ∧
      (statedMask data ≠ 0 →
        (∀ bit, LowestUnknown (statedMask data) bit →
          ofData data = .error (.unknownTable bit)) ∧
        ((∀ bit, 45 ≤ bit → (statedMask data).toNat.testBit bit = false) →
          (¬ Fits data → ofData data = .error .outOfBounds) ∧
          (Fits data → ∃ tables, ofData data = .ok tables)))) ∧
    ∀ tables, ofData data = .ok tables → Partitioned data tables := by
  refine ⟨ofData_of_short, ?_, fun tables hread => (ofData_eq_ok.mp hread).partitioned⟩
  intro hlong
  refine ⟨ofData_of_unmarked hlong, ?_⟩
  intro hmask
  refine ⟨fun bit => ofData_of_unknown hlong hmask, ?_⟩
  intro hknown
  exact ⟨ofData_of_not_fits hlong hmask hknown, ofData_of_fits hlong hmask hknown⟩

/-- A stream with two rows that redirect fields and one nested type, and with a
word behind the row counts. -/
def shortStream : List UInt8 :=
  [0, 0, 0, 0, 2, 0, 0x40, 1, 8, 0, 0, 0, 0, 2, 0, 0, 0, 0, 0, 0, 0, 0, 0, 0, 2, 0, 0, 0,
    1, 0, 0, 0, 0, 0, 0, 0, 2, 0, 1, 0, 2, 0, 1, 0]

/-- The stream is read, its header takes 36 bytes and its last byte is in a row;
without that byte it is not read. -/
theorem ofData_partitions_sample :
    (∃ tables, ofData shortStream.toArray = .ok tables ∧ tables.headerSize = 36 ∧
      tables.hasTable .nestedClass = true ∧
      ∃ table rid place, tables.rowPlace? table rid = some place ∧ place ≤ 43 ∧
        43 < place + tables.sizes.rowSize table) ∧
    ofData shortStream.dropLast.toArray = .error .outOfBounds := by
  have hknown (data : Bytes) (hmask : statedMask data = 0x20000000008) (bit : Nat)
      (hbit : 45 ≤ bit) : (statedMask data).toNat.testBit bit = false := by
    rw [hmask]
    exact Nat.testBit_lt_two_pow (Nat.lt_of_lt_of_le (by decide)
      (Nat.pow_le_pow_right (by decide) hbit))
  have hmask : statedMask shortStream.toArray = 0x20000000008 := by decide +kernel
  have hmask' : statedMask shortStream.dropLast.toArray = 0x20000000008 := by decide +kernel
  have hfits : Fits shortStream.toArray :=
    ⟨by decide +kernel, by decide +kernel, by decide +kernel⟩
  have hmisfit : ¬ Fits shortStream.dropLast.toArray := fun h => absurd h.tables (by decide +kernel)
  obtain ⟨-, hverdict, hshares⟩ := ofData_partitions shortStream.toArray
  obtain ⟨-, hverdict', -⟩ := ofData_partitions shortStream.dropLast.toArray
  have hmarked : statedMask shortStream.toArray ≠ 0 := by
    rw [hmask]
    decide
  have hmarked' : statedMask shortStream.dropLast.toArray ≠ 0 := by
    rw [hmask']
    decide
  obtain ⟨tables, hread⟩ :=
    (((hverdict (by decide)).2 hmarked).2 (hknown _ hmask)).2 hfits
  have hparts := hshares tables hread
  have hheader : tables.headerSize = 36 := hparts.headerSize_eq.trans (by decide +kernel)
  have hend : tables.tablesEnd = 44 := hparts.tablesEnd_eq.trans (by decide +kernel)
  refine ⟨⟨tables, hread, hheader, ?_, ?_⟩, ?_⟩
  · rw [hparts.hasTable_iff, hmask]
    decide
  · exact (hparts.rows_cover 43).mp ⟨by omega, by omega⟩
  · exact (((hverdict' (by decide)).2 hmarked').2 (hknown _ hmask')).1 hmisfit

end TablesStream

end Unveil
