import Unveil.Proofs.Table.Placement
import Unveil.Proofs.Table.Schema

namespace Unveil

section Loops

variable {α β : Type}

/-- A loop over consecutive numbers comes to an end with the results of its
rounds. -/
theorem Except.mapM_range'_eq_ok {f : Nat → Except Fault α} {first n : Nat} {items : List α} :
    (List.range' first n).mapM f = .ok items ↔
      items.length = n ∧ ∀ k item, items[k]? = some item → f (first + k) = .ok item := by
  induction n generalizing first items with
  | zero =>
      simp only [List.range'_zero, List.mapM_nil, Except.pure_eq_ok, List.length_eq_zero_iff]
      constructor
      · rintro rfl
        simp
      · rintro ⟨rfl, _⟩
        rfl
  | succ n ih =>
      simp only [List.range'_succ, List.mapM_cons, Except.bind_eq_ok, Except.pure_eq_ok, ih]
      constructor
      · rintro ⟨item, hitem, others, ⟨hlength, hothers⟩, rfl⟩
        refine ⟨by simp [hlength], ?_⟩
        intro k found hfound
        cases k with
        | zero =>
            cases hfound
            exact hitem
        | succ k =>
            have := hothers k found (by simpa using hfound)
            rwa [Nat.add_assoc, Nat.add_comm 1 k] at this
      · rintro ⟨hlength, hitems⟩
        match items, hlength, hitems with
        | item :: others, hlength, hitems =>
            refine ⟨item, hitems 0 item rfl, others, ⟨by simpa using hlength, ?_⟩, rfl⟩
            intro k found hfound
            have := hitems (k + 1) found (by simpa using hfound)
            rwa [Nat.add_assoc, Nat.add_comm 1 k]

theorem Except.exists_mapM {f : β → Except Fault α} {items : List β}
    (h : ∀ item ∈ items, ∃ result, f item = .ok result) :
    ∃ results, items.mapM f = .ok results := by
  induction items with
  | nil => exact ⟨[], rfl⟩
  | cons item items ih =>
      obtain ⟨result, hresult⟩ := h item (by simp)
      obtain ⟨results, hresults⟩ := ih fun other hother => h other (by simp [hother])
      rw [List.mapM_cons, hresult, hresults]
      exact ⟨_, rfl⟩

/-- A loop comes to an end with a fault if one of its rounds does and no round
has another. -/
theorem Except.mapM_eq_error {f : β → Except Fault α} {items : List β} {fault : Fault}
    (h : ∀ item ∈ items, (∃ result, f item = .ok result) ∨ f item = .error fault)
    (hfault : ∃ item ∈ items, f item = .error fault) : items.mapM f = .error fault := by
  induction items with
  | nil =>
      obtain ⟨_, hmem, -⟩ := hfault
      cases hmem
  | cons item items ih =>
      rw [List.mapM_cons]
      rcases h item (by simp) with ⟨result, hresult⟩ | herror
      · have hothers : ∃ other ∈ items, f other = .error fault := by
          obtain ⟨other, hmem, herror⟩ := hfault
          rcases List.mem_cons.mp hmem with rfl | hlater
          · rw [hresult] at herror
            cases herror
          · exact ⟨other, hlater, herror⟩
        rw [hresult, ih (fun other hmem => h other (by simp [hmem])) hothers]
        rfl
      · rw [herror]
        rfl

/-- What a loop over a list gives in place of each of its items. -/
theorem Except.getElem?_mapM {f : β → Except Fault α} {items : List β} {results : List α}
    (h : items.mapM f = .ok results) :
    results.length = items.length ∧ ∀ (k : Nat) (result : α), results[k]? = some result →
      ∃ item, items[k]? = some item ∧ f item = .ok result := by
  induction items generalizing results with
  | nil =>
      cases h
      simp
  | cons item items ih =>
      simp only [List.mapM_cons, Except.bind_eq_ok, Except.pure_eq_ok] at h
      obtain ⟨first, hfirst, others, hothers, rfl⟩ := h
      obtain ⟨hlength, hresults⟩ := ih hothers
      refine ⟨by simp [hlength], ?_⟩
      intro k result hresult
      cases k with
      | zero =>
          cases hresult
          exact ⟨item, rfl, hfirst⟩
      | succ k => exact hresults k result (by simpa using hresult)

/-- A loop of scans, each of which takes `stride` bytes if it succeeds, finds
what the scans find at their own places. -/
theorem Scan.valueAt_mapM_range' {step : Nat → Scan α} {result : Nat → Except Fault α}
    {first n start stride : Nat}
    (hok : ∀ k < n, ∀ a, result (first + k) = .ok a →
      step (first + k) (start + k * stride) = .ok a (start + (k + 1) * stride))
    (herror : ∀ k < n, ∀ fault, result (first + k) = .error fault →
      ∃ stop, step (first + k) (start + k * stride) = .error fault stop) :
    ((List.range' first n).mapM step).valueAt start = (List.range' first n).mapM result := by
  induction n generalizing first start with
  | zero => rfl
  | succ n ih =>
      have hplace (k : Nat) : start + (k + 1) * stride = start + stride + k * stride := by
        rw [Nat.add_mul, Nat.one_mul]
        omega
      have hnumber (k : Nat) : first + (k + 1) = first + 1 + k := by omega
      rw [List.range'_succ, List.mapM_cons, List.mapM_cons]
      cases hfirst : result first with
      | error fault =>
          obtain ⟨stop, hstop⟩ := herror 0 (by omega) fault hfirst
          simp only [Nat.add_zero, Nat.zero_mul] at hstop
          rw [Scan.valueAt, EStateM.bind_of_error hstop]
          rfl
      | ok a =>
          have hstep := hok 0 (by omega) a hfirst
          simp only [Nat.add_zero, Nat.zero_mul, Nat.zero_add, Nat.one_mul] at hstep
          have hothers : ((List.range' (first + 1) n).mapM step).valueAt (start + stride) =
              (List.range' (first + 1) n).mapM result := by
            apply ih
            · intro k hk b hb
              have := hok (k + 1) (by omega) b (by rwa [hnumber])
              rwa [hplace, hplace, hnumber] at this
            · intro k hk fault hfault
              have := herror (k + 1) (by omega) fault (by rwa [hnumber])
              rwa [hplace, hnumber] at this
          rw [Scan.valueAt, EStateM.bind_of_ok hstep, ← hothers, Scan.valueAt]
          simp only [Bind.bind, EStateM.bind, Except.bind]
          cases ((List.range' (first + 1) n).mapM step) (start + stride) with
          | error fault stop => rfl
          | ok others stop => rfl

end Loops

namespace Column

/-- Columns that lie in a part of the data hold what they hold in the data. -/
theorem valuesAt_extract {sizes : Sizes} {data : Bytes} {columns : List Column}
    {start stop offset : Nat} (hstop : stop ≤ data.size)
    (hroom : offset + total (columns.map (width sizes)) ≤ stop - start) :
    valuesAt sizes (data.extract start stop) columns offset =
      valuesAt sizes data columns (start + offset) := by
  induction columns generalizing offset with
  | nil => rfl
  | cons column columns ih =>
      simp only [List.map_cons, total_cons] at hroom
      have hvalue : Bytes.number (data.extract start stop) offset (column.width sizes) =
          data.number (start + offset) (column.width sizes) :=
        Bytes.number_extract hstop (by omega)
      have hothers : valuesAt sizes (data.extract start stop) columns
          (offset + column.width sizes) =
          valuesAt sizes data columns (start + offset + column.width sizes) := by
        rw [Nat.add_assoc]
        exact ih (by omega)
      simp only [valuesAt, hvalue, hothers]

end Column

namespace Schema

def rowAt (ρ : Type) [TypedRow ρ] [Schema ρ] (sizes : Sizes) (data : Bytes) (offset : Nat) :
    Except Fault ρ :=
  ofValues (Column.valuesAt sizes data (TypedRow.table ρ).columns offset)

variable {ρ : Type} [TypedRow ρ] [Schema ρ] {sizes : Sizes} {data : Bytes} {offset rid : Nat}

theorem entry_of_row {row : ρ} (hroom : offset + sizes.rowSize (TypedRow.table ρ) ≤ data.size)
    (hrow : rowAt ρ sizes data offset = .ok row) :
    Entry.scan ρ sizes data rid offset =
      .ok ⟨rid, offset, row⟩ (offset + sizes.rowSize (TypedRow.table ρ)) := by
  have hscan := scan_of_values hroom hrow
  have hget : (get : Scan Nat) offset = .ok offset offset := rfl
  rw [Entry.scan, EStateM.bind_of_ok hget, EStateM.bind_of_ok hscan]
  rfl

theorem entry_of_fault {fault : Fault}
    (hroom : offset + sizes.rowSize (TypedRow.table ρ) ≤ data.size)
    (hfault : rowAt ρ sizes data offset = .error fault) :
    ∃ stop, Entry.scan ρ sizes data rid offset = .error fault stop := by
  obtain ⟨stop, hscan⟩ := scan_of_fault hroom hfault
  have hget : (get : Scan Nat) offset = .ok offset offset := rfl
  refine ⟨stop, ?_⟩
  rw [Entry.scan, EStateM.bind_of_ok hget]
  simp only [bind, EStateM.bind, hscan]

end Schema

namespace TablesStream

/-- Where a row of a table starts, if the table has it. -/
def rowPlace? (tables : TablesStream) (table : TableId) (rid : Nat) : Option Nat :=
  (tables.extent? table).bind (·.rowOffset? rid)

/-- Entries that show every row of a table: each is numbered and placed as its
row, and holds what stands there. -/
structure Shows {ρ : Type} [TypedRow ρ] [Schema ρ] (tables : TablesStream)
    (entries : List (Entry ρ)) : Prop where
  length_eq : entries.length = tables.rowCount (TypedRow.table ρ)
  row_eq : ∀ k entry, entries[k]? = some entry → entry.rid = k + 1 ∧
    entry.offset = k * tables.sizes.rowSize (TypedRow.table ρ) ∧
    ∃ place, tables.rowPlace? (TypedRow.table ρ) (k + 1) = some place ∧
      Schema.rowAt ρ tables.sizes tables.data place = .ok entry.row

namespace Accepted

variable {data : Bytes} {tables : TablesStream} {table : TableId} {extent : Extent}

theorem rowPlace?_eq_some (h : Accepted data tables) {rid place : Nat} :
    tables.rowPlace? table rid = some place ↔ ∃ extent, tables.extent? table = some extent ∧
      1 ≤ rid ∧ rid ≤ extent.rows ∧
      place = extent.offset + (rid - 1) * tables.sizes.rowSize table := by
  simp only [rowPlace?, Option.bind_eq_some_iff, Extent.rowOffset?]
  constructor
  · rintro ⟨extent, hextent, hplace⟩
    split at hplace
    · cases hplace
    · rw [← (h.extent_bounds hextent).2.2]
      exact ⟨extent, hextent, by omega, by omega, (Option.some.inj hplace).symm⟩
  · rintro ⟨extent, hextent, hfirst, hlast, rfl⟩
    refine ⟨extent, hextent, ?_⟩
    rw [if_neg (by omega), (h.extent_bounds hextent).2.2]

/-- A row lies in its table. -/
theorem rowPlace_inside (h : Accepted data tables) {rid place : Nat}
    (hplace : tables.rowPlace? table rid = some place) :
    ∃ extent, tables.extent? table = some extent ∧ extent.offset ≤ place ∧
      place + tables.sizes.rowSize table ≤ extent.offset + extent.size := by
  obtain ⟨extent, hextent, hfirst, hlast, rfl⟩ := h.rowPlace?_eq_some.mp hplace
  have hrows : (rid - 1 + 1) * tables.sizes.rowSize table ≤
      extent.rows * tables.sizes.rowSize table := Nat.mul_le_mul_right _ (by omega)
  rw [Nat.add_mul, Nat.one_mul] at hrows
  refine ⟨extent, hextent, Nat.le_add_right _ _, ?_⟩
  rw [Extent.size, (h.extent_bounds hextent).2.2, Nat.mul_comm (tables.sizes.rowSize table)]
  omega

/-- A row lies behind the header and inside the data. -/
theorem rowPlace_bounds (h : Accepted data tables) {rid place : Nat}
    (hplace : tables.rowPlace? table rid = some place) :
    tables.headerSize ≤ place ∧ place + tables.sizes.rowSize table ≤ data.size := by
  obtain ⟨extent, hextent, hstart, hstop⟩ := h.rowPlace_inside hplace
  obtain ⟨hheader, hend, -⟩ := h.extent_bounds hextent
  omega

theorem rowPlace?_succ (h : Accepted data tables) {k : Nat}
    (hextent : tables.extent? table = some extent) (hk : k < extent.rows) :
    tables.rowPlace? table (k + 1) =
      some (extent.offset + k * tables.sizes.rowSize table) :=
  h.rowPlace?_eq_some.mpr ⟨extent, hextent, by omega, by omega, by rw [Nat.add_sub_cancel]⟩

theorem row_room (h : Accepted data tables) {k : Nat}
    (hextent : tables.extent? table = some extent) (hk : k < extent.rows) :
    k * tables.sizes.rowSize table + tables.sizes.rowSize table ≤
      (tables.data.extract extent.offset tables.data.size).size := by
  have hbounds := (h.rowPlace_bounds (h.rowPlace?_succ hextent hk)).2
  rw [Array.size_extract, Nat.min_self, h.data_eq]
  omega

variable {ρ : Type} [TypedRow ρ]

theorem rows_of_absent (habsent : tables.extent? (TypedRow.table ρ) = none) :
    tables.rows ρ = .ok [] := by
  simp only [rows, view?, habsent]
  rfl

theorem rowCount_of_extent (hextent : tables.extent? table = some extent) :
    tables.rowCount table = extent.rows := by
  simp only [rowCount, hextent]

variable [Schema ρ]

/-- The view of a table that is there starts where the table does and holds
all its rows. -/
theorem view?_of_extent (h : Accepted data tables)
    (hextent : tables.extent? (TypedRow.table ρ) = some extent) :
    ∃ rest, tables.data.rest extent.offset = .ok rest ∧
      rest = tables.data.extract extent.offset tables.data.size ∧
      TableView.ofData ρ rest extent.rows tables.sizes = .ok ⟨rest, extent.rows, tables.sizes⟩ ∧
      tables.view? ρ = .ok (some ⟨rest, extent.rows, tables.sizes⟩) := by
  obtain ⟨-, hstop, hrowSize⟩ := h.extent_bounds hextent
  rw [Extent.size, hrowSize, Nat.mul_comm, ← h.data_eq] at hstop
  have hsize : (tables.data.extract extent.offset tables.data.size).size =
      tables.data.size - extent.offset := by simp
  have hrest : tables.data.rest extent.offset =
      .ok (tables.data.extract extent.offset tables.data.size) :=
    Bytes.rest_eq_ok.mpr ⟨by omega, rfl⟩
  have hview : TableView.ofData ρ (tables.data.extract extent.offset tables.data.size)
      extent.rows tables.sizes =
      .ok ⟨tables.data.extract extent.offset tables.data.size, extent.rows, tables.sizes⟩ := by
    rw [TableView.ofData, Schema.size_eq, if_neg (by omega)]
  refine ⟨_, hrest, rfl, hview, ?_⟩
  simp only [view?, hextent, hrest, bind, Except.bind, hview]
  rfl

/-- The rows of a table are scanned one after the other, from its start on. -/
theorem rows_eq_scan (h : Accepted data tables)
    (hextent : tables.extent? (TypedRow.table ρ) = some extent) :
    tables.rows ρ = ((List.range' 1 extent.rows).mapM (Entry.scan ρ tables.sizes
      (tables.data.extract extent.offset tables.data.size))).valueAt 0 := by
  obtain ⟨_, -, rfl, -, hview⟩ := h.view?_of_extent hextent
  simp only [rows, hview, bind, Except.bind]
  rfl

/-- The rows of a table that is there, each read at its own place. -/
theorem rows_of_extent (h : Accepted data tables)
    (hextent : tables.extent? (TypedRow.table ρ) = some extent) :
    tables.rows ρ = (List.range' 1 extent.rows).mapM fun rid =>
      let distance := (rid - 1) * tables.sizes.rowSize (TypedRow.table ρ)
      (Schema.rowAt ρ tables.sizes tables.data (extent.offset + distance)).map
        (Entry.mk rid distance) := by
  have hvalues (k : Nat) (hk : k < extent.rows) :
      Schema.rowAt ρ tables.sizes (tables.data.extract extent.offset tables.data.size)
        (k * tables.sizes.rowSize (TypedRow.table ρ)) =
      Schema.rowAt ρ tables.sizes tables.data
        (extent.offset + k * tables.sizes.rowSize (TypedRow.table ρ)) := by
    have hroom := h.row_room hextent hk
    rw [Array.size_extract, Nat.min_self] at hroom
    rw [Schema.rowAt, Schema.rowAt, Column.valuesAt_extract (Nat.le_refl _) hroom]
  have hscan := @Scan.valueAt_mapM_range' (Entry ρ)
    (Entry.scan ρ tables.sizes (tables.data.extract extent.offset tables.data.size))
    (fun rid => (Schema.rowAt ρ tables.sizes tables.data
      (extent.offset + (rid - 1) * tables.sizes.rowSize (TypedRow.table ρ))).map
        (Entry.mk rid ((rid - 1) * tables.sizes.rowSize (TypedRow.table ρ))))
    1 extent.rows 0 (tables.sizes.rowSize (TypedRow.table ρ))
  simp only [Nat.add_sub_cancel_left, Nat.zero_add, Nat.add_mul, Nat.one_mul] at hscan
  rw [h.rows_eq_scan hextent]
  apply hscan
  · intro k hk entry hentry
    obtain ⟨row, hrow, rfl⟩ := Except.map_eq_ok.mp hentry
    exact Schema.entry_of_row (h.row_room hextent hk) ((hvalues k hk).trans hrow)
  · intro k hk fault hfault
    refine Schema.entry_of_fault (h.row_room hextent hk) ((hvalues k hk).trans ?_)
    revert hfault
    cases Schema.rowAt ρ tables.sizes tables.data
      (extent.offset + k * tables.sizes.rowSize (TypedRow.table ρ)) with
    | error other => exact fun hfault => by cases hfault; rfl
    | ok row => exact fun hfault => by cases hfault

/-- The rows are read exactly if each of them can be. -/
theorem rows_eq_ok (h : Accepted data tables) {entries : List (Entry ρ)} :
    tables.rows ρ = .ok entries ↔ tables.Shows entries := by
  cases hextent : tables.extent? (TypedRow.table ρ) with
  | none =>
      rw [rows_of_absent hextent]
      constructor
      · rintro ⟨⟩
        exact ⟨by simp [rowCount, hextent], by simp⟩
      · intro hshows
        have hlength := hshows.length_eq
        simp only [rowCount, hextent, List.length_eq_zero_iff] at hlength
        rw [hlength]
  | some extent =>
      rw [h.rows_of_extent hextent, Except.mapM_range'_eq_ok]
      constructor
      · rintro ⟨hlength, hrows⟩
        refine ⟨by rw [hlength, rowCount_of_extent hextent], ?_⟩
        intro k entry hentry
        have hk : k < extent.rows := hlength ▸ (List.getElem?_eq_some_iff.mp hentry).1
        obtain ⟨row, hrow, rfl⟩ := Except.map_eq_ok.mp (hrows k entry hentry)
        simp only [Nat.add_sub_cancel_left] at hrow ⊢
        exact ⟨Nat.add_comm 1 k, trivial, _, h.rowPlace?_succ hextent hk, hrow⟩
      · rintro ⟨hlength, hrows⟩
        rw [rowCount_of_extent hextent] at hlength
        refine ⟨hlength, ?_⟩
        intro k entry hentry
        have hk : k < extent.rows := hlength ▸ (List.getElem?_eq_some_iff.mp hentry).1
        obtain ⟨hrid, hoffset, place, hplace, hrow⟩ := hrows k entry hentry
        rw [h.rowPlace?_succ hextent hk] at hplace
        cases hplace
        simp only [Nat.add_sub_cancel_left]
        rw [hrow, Nat.add_comm 1 k, ← hrid, ← hoffset]
        rfl

/-- Each row takes a byte at least. -/
theorem rowCount_le (h : Accepted data tables) (table : TableId) :
    tables.rowCount table ≤ data.size := by
  unfold rowCount
  cases hextent : tables.extent? table with
  | none => exact Nat.zero_le _
  | some extent =>
      obtain ⟨-, hstop, hrowSize⟩ := h.extent_bounds hextent
      have hrow := tables.sizes.rowSize_pos table
      have hrows : extent.rows ≤ extent.rowSize * extent.rows :=
        Nat.le_mul_of_pos_left _ (hrowSize ▸ hrow)
      unfold Extent.size at hstop
      dsimp only
      omega

theorem length_rows (h : Accepted data tables) {entries : List (Entry ρ)}
    (hrows : tables.rows ρ = .ok entries) : entries.length ≤ data.size :=
  (h.rows_eq_ok.mp hrows).length_eq ▸ h.rowCount_le _

/-- The rows of a table without coded indexes can always be read. -/
theorem exists_rows (h : Accepted data tables)
    (hrow : ∀ values : List UInt32, values.length = (TypedRow.table ρ).columns.length →
      ∃ row : ρ, Schema.ofValues values = .ok row) :
    ∃ entries : List (Entry ρ), tables.rows ρ = .ok entries := by
  cases hextent : tables.extent? (TypedRow.table ρ) with
  | none => exact ⟨[], rows_of_absent hextent⟩
  | some extent =>
      rw [h.rows_of_extent hextent]
      apply Except.exists_mapM
      intro rid _
      obtain ⟨row, hok⟩ := hrow (Column.valuesAt tables.sizes tables.data
        (TypedRow.table ρ).columns (extent.offset + (rid - 1) *
          tables.sizes.rowSize (TypedRow.table ρ))) (Column.length_valuesAt ..)
      simp only [Schema.rowAt, hok]
      exact ⟨_, rfl⟩

end Accepted

end TablesStream

end Unveil
