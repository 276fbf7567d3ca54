import Unveil.Proofs.Table.GenericRow
import Unveil.Proofs.Table.IndexWidths

namespace Unveil

namespace Sizes

/-- Sizes that give every table as many rows, none if it is not present, and
every heap index the same width. -/
structure Alike (a b : Sizes) : Prop where
  rows_eq : ∀ table, a.rows table = b.rows table
  wideStrings_eq : a.wideStrings = b.wideStrings
  wideGuids_eq : a.wideGuids = b.wideGuids
  wideBlobs_eq : a.wideBlobs = b.wideBlobs

namespace Alike

variable {a b : Sizes}

theorem isWide_eq (h : Alike a b) (table : TableId) : a.isWide table = b.isWide table := by
  simp only [isWide, h.rows_eq]

theorem codedWidth_eq (h : Alike a b) (kind : CodedKind) :
    a.codedWidth kind = b.codedWidth kind := by
  have hbits : a.codedBits kind ≤ 16 ↔ b.codedBits kind ≤ 16 := by
    simp only [codedBits_le_iff, h.rows_eq]
  simp only [codedWidth, ← Nat.not_le, hbits]

theorem width_eq (h : Alike a b) (column : Column) : column.width a = column.width b := by
  cases column with
  | byte => rfl
  | half => rfl
  | word => rfl
  | string => simp only [Column.width, stringWidth, h.wideStrings_eq]
  | guid => simp only [Column.width, guidWidth, h.wideGuids_eq]
  | blob => simp only [Column.width, blobWidth, h.wideBlobs_eq]
  | row table => simp only [Column.width, rowIndexWidth_eq, h.isWide_eq]
  | coded kind => exact h.codedWidth_eq kind

theorem rowSize_eq (h : Alike a b) (table : TableId) : a.rowSize table = b.rowSize table := by
  have hwidths : Column.width a = Column.width b := funext h.width_eq
  rw [rowSize, rowSize, hwidths]

end Alike

theorem lookup_countsAt_of_not_mem {data : Bytes} {tables : List TableId} {offset : Nat}
    {table : TableId} (h : table ∉ tables) :
    (countsAt data tables offset).lookup table = none := by
  induction tables generalizing offset with
  | nil => rfl
  | cons first tables ih =>
      obtain ⟨hfirst, hothers⟩ := not_or.mp (List.mem_cons.not.mp h)
      rw [countsAt, List.lookup_cons, beq_eq_false_iff_ne.mpr hfirst]
      exact ih hothers

end Sizes

namespace TablesStream

namespace Accepted

variable {data : Bytes} {tables : TablesStream} {table : TableId}

/-- The sizes of a stream and its tables give the same row counts. -/
theorem sizes_rows (h : Accepted data tables) (table : TableId) :
    tables.sizes.rows table = tables.rowCount table := by
  cases hextent : tables.extent? table with
  | some extent =>
      obtain ⟨k, hk⟩ := mem_extents hextent
      rw [rowCount_of_extent hextent, h.extent_eq hk]
  | none =>
      have hunmarked : table ∉ Sizes.present tables.mask := by
        rw [← h.keys_eq, List.mem_map]
        rintro ⟨⟨_, extent⟩, hmem, rfl⟩
        obtain ⟨k, hk⟩ := List.mem_iff_getElem?.mp hmem
        rw [h.extent?_eq hk] at hextent
        cases hextent
      obtain ⟨-, hsizes⟩ := (Sizes.read_eq_ok h.long).mp h.sizes_eq
      simp only [Sizes.rows, ← hsizes, Sizes.count?_ofCounts,
        Sizes.lookup_countsAt_of_not_mem hunmarked, rowCount, hextent, Option.getD_none]

theorem sizes_flags (h : Accepted data tables) :
    tables.sizes.wideStrings = (tables.heapFlags &&& 1 != 0) ∧
      tables.sizes.wideGuids = (tables.heapFlags &&& 2 != 0) ∧
      tables.sizes.wideBlobs = (tables.heapFlags &&& 4 != 0) := by
  obtain ⟨-, hsizes⟩ := (Sizes.read_eq_ok h.long).mp h.sizes_eq
  rw [h.heapFlags_eq] at hsizes
  rw [← hsizes]
  exact ⟨rfl, rfl, rfl⟩

theorem genericRows_of_absent (habsent : tables.extent? table = none) :
    tables.genericRows table = .ok [] := by
  simp only [genericRows, habsent]

theorem exists_genericRows (h : Accepted data tables) (table : TableId) :
    ∃ rows, tables.genericRows table = .ok rows ∧ rows.length = tables.rowCount table := by
  cases hextent : tables.extent? table with
  | none => exact ⟨[], genericRows_of_absent hextent, by simp only [rowCount, hextent]; rfl⟩
  | some extent =>
      refine ⟨_, h.genericRows_eq hextent, ?_⟩
      rw [rowCount_of_extent hextent, List.length_map, List.length_range']

end Accepted

/-- The second stream says what the first does and marks some more tables, none
of which has rows. -/
structure MarksMore (first second : TablesStream) : Prop where
  major_eq : second.major = first.major
  minor_eq : second.minor = first.minor
  heapFlags_eq : second.heapFlags = first.heapFlags
  extra_eq : second.extra = first.extra
  marked : ∀ table, first.hasTable table = true → second.hasTable table = true
  genericRows_eq : ∀ table, second.genericRows table = first.genericRows table

namespace MarksMore

variable {first second : TablesStream} {data data' : Bytes}

theorem rowCount_eq (h : MarksMore first second) (hfirst : Accepted data first)
    (hsecond : Accepted data' second) (table : TableId) :
    second.rowCount table = first.rowCount table := by
  obtain ⟨rows, hrows, hcount⟩ := hfirst.exists_genericRows table
  obtain ⟨rows', hrows', hcount'⟩ := hsecond.exists_genericRows table
  rw [h.genericRows_eq, hrows] at hrows'
  rw [← hcount, ← hcount', Except.ok.inj hrows']

theorem alike (h : MarksMore first second) (hfirst : Accepted data first)
    (hsecond : Accepted data' second) : second.sizes.Alike first.sizes := by
  obtain ⟨hstrings, hguids, hblobs⟩ := hfirst.sizes_flags
  obtain ⟨hstrings', hguids', hblobs'⟩ := hsecond.sizes_flags
  rw [h.heapFlags_eq] at hstrings' hguids' hblobs'
  exact {
    rows_eq table := by
      rw [hsecond.sizes_rows, hfirst.sizes_rows, h.rowCount_eq hfirst hsecond]
    wideStrings_eq := hstrings'.trans hstrings.symm
    wideGuids_eq := hguids'.trans hguids.symm
    wideBlobs_eq := hblobs'.trans hblobs.symm }

/-- A table is marked in both streams, or has no rows in either. -/
theorem extent_cases (h : MarksMore first second) (hfirst : Accepted data first)
    (hsecond : Accepted data' second) (table : TableId) :
    (∃ extent extent', first.extent? table = some extent ∧ second.extent? table = some extent' ∧
      extent'.rows = extent.rows) ∨
    first.extent? table = none ∧
      (second.extent? table = none ∨
        ∃ extent', second.extent? table = some extent' ∧ extent'.rows = 0) := by
  have hcount := h.rowCount_eq hfirst hsecond table
  have hmarked := h.marked table
  simp only [hasTable] at hmarked
  simp only [rowCount] at hcount
  cases hextent : first.extent? table with
  | none =>
      rw [hextent] at hcount
      refine Or.inr ⟨rfl, ?_⟩
      cases hextent' : second.extent? table with
      | none => exact Or.inl rfl
      | some extent' =>
          rw [hextent'] at hcount
          exact Or.inr ⟨extent', rfl, hcount⟩
  | some extent =>
      rw [hextent] at hcount hmarked
      obtain ⟨extent', hextent'⟩ := Option.isSome_iff_exists.mp (hmarked rfl)
      rw [hextent'] at hcount
      exact Or.inl ⟨extent, extent', rfl, hextent', hcount⟩

variable {ρ : Type} [TypedRow ρ] [Schema ρ]

/-- The rows of a table are read from both streams alike, with the same fault
if there is one. -/
theorem rows_eq (h : MarksMore first second) (hfirst : Accepted data first)
    (hsecond : Accepted data' second) : second.rows ρ = first.rows ρ := by
  rcases h.extent_cases hfirst hsecond (TypedRow.table ρ) with
    ⟨extent, extent', hextent, hextent', hcount⟩ | ⟨hnone, hnone' | ⟨extent', hextent', hempty⟩⟩
  · have hgeneric := h.genericRows_eq (TypedRow.table ρ)
    rw [hfirst.genericRows_eq hextent, hsecond.genericRows_eq hextent', hcount,
      Except.ok.injEq, List.map_inj_left] at hgeneric
    rw [hfirst.rows_of_extent hextent, hsecond.rows_of_extent hextent', hcount]
    apply Except.mapM_congr
    intro rid hrid
    have hvalues := congrArg GenericRow.values (hgeneric rid hrid)
    simp only [(h.alike hfirst hsecond).rowSize_eq] at hvalues ⊢
    simp only [Schema.rowAt, hvalues]
  · rw [Accepted.rows_of_absent hnone, Accepted.rows_of_absent hnone']
  · rw [Accepted.rows_of_absent hnone, hsecond.rows_of_extent hextent', hempty]
    rfl

end MarksMore

end TablesStream

end Unveil
