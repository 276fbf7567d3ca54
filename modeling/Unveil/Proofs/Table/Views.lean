import Unveil.Proofs.Table.Typed

/-!
The ways to read a table. What stands at the place of a row is an entry or a
fault, and each way gives these: all rows at once give every entry or the first
fault, one by one they give the entries before it, and a row on its own gives
what stands at its place, whatever is before it.
-/

namespace Unveil

section Loops

variable {α β : Type}

/-- What a loop gives before its first fault. -/
def Except.untilFault (f : β → Except Fault α) : List β → List α
  | [] => []
  | item :: items =>
      match f item with
      | .ok result => result :: untilFault f items
      | .error _ => []

/-- A loop comes to an end with all its results, or with the fault of the first
round that has one. -/
theorem Except.mapM_cases (f : β → Except Fault α) (items : List β) :
    (∃ results, items.mapM f = .ok results ∧ Except.untilFault f items = results) ∨
      ∃ (k : Nat) (item : β) (fault : Fault), items[k]? = some item ∧ f item = .error fault ∧
        items.mapM f = .error fault ∧ (Except.untilFault f items).length = k := by
  induction items with
  | nil => exact Or.inl ⟨[], rfl, rfl⟩
  | cons item items ih =>
      cases hfirst : f item with
      | error fault =>
          right
          refine ⟨0, item, fault, rfl, hfirst, ?_, ?_⟩
          · rw [List.mapM_cons, hfirst]
            rfl
          · simp only [untilFault, hfirst, List.length_nil]
      | ok result =>
          rcases ih with ⟨results, hresults, huntil⟩ |
            ⟨k, other, fault, hk, hother, hfault, hlength⟩
          · left
            refine ⟨result :: results, ?_, ?_⟩
            · rw [List.mapM_cons, hfirst, hresults]
              rfl
            · simp only [untilFault, hfirst, huntil]
          · right
            refine ⟨k + 1, other, fault, hk, hother, ?_, ?_⟩
            · rw [List.mapM_cons, hfirst, hfault]
              rfl
            · simp only [untilFault, hfirst, List.length_cons, hlength]

theorem Except.getElem?_untilFault {f : β → Except Fault α} {items : List β} {k : Nat}
    {result : α} (h : (Except.untilFault f items)[k]? = some result) :
    ∃ item, items[k]? = some item ∧ f item = .ok result := by
  induction items generalizing k with
  | nil => cases h
  | cons item items ih =>
      cases hfirst : f item with
      | error fault =>
          simp only [untilFault, hfirst] at h
          cases h
      | ok first =>
          simp only [untilFault, hfirst] at h
          cases k with
          | zero =>
              cases h
              exact ⟨item, rfl, hfirst⟩
          | succ k => exact ih h

end Loops

namespace TableView

variable {ρ : Type} [TypedRow ρ] {table : TableView ρ}

/-- The first `count` rows of a table, one by one: each entry has the number and
the place of its row and is what the table gives for that number. -/
structure Leads (table : TableView ρ) (entries : List (Entry ρ)) (count : Nat) : Prop where
  length_eq : entries.length = count
  entry_eq : ∀ k entry, entries[k]? = some entry → entry.rid = k + 1 ∧
    entry.offset = k * table.rowSize ∧ table.row? (k + 1) = some entry

/-- A view is made exactly of data that holds all rows. -/
theorem ofData_eq_ok {data : Bytes} {count : Nat} {sizes : Sizes} :
    ofData ρ data count sizes = .ok table ↔
      table = ⟨data, count, sizes⟩ ∧ table.size ≤ table.data.size := by
  unfold ofData
  split
  · rename_i hshort
    constructor
    · intro h
      cases h
    · rintro ⟨rfl, hwhole⟩
      exact absurd hwhole (Nat.not_le.mpr hshort)
  · rename_i hroom
    constructor
    · intro h
      cases h
      exact ⟨rfl, Nat.not_lt.mp hroom⟩
    · rintro ⟨rfl, -⟩
      rfl

theorem room_of_lt (hwhole : table.size ≤ table.data.size) {k : Nat} (hk : k < table.count) :
    k * table.rowSize + table.rowSize ≤ table.data.size := by
  have hrows : (k + 1) * table.rowSize ≤ table.count * table.rowSize :=
    Nat.mul_le_mul_right _ hk
  rw [Nat.add_mul, Nat.one_mul] at hrows
  exact Nat.le_trans hrows hwhole

variable [Schema ρ]

/-- What stands at the place of a row. -/
def entryAt (table : TableView ρ) (rid : Nat) : Except Fault (Entry ρ) :=
  Entry.mk rid ((rid - 1) * table.rowSize) <$>
    Schema.rowAt ρ table.sizes table.data ((rid - 1) * table.rowSize)

/-- All ways to read a table agree. -/
structure Agrees (table : TableView ρ) : Prop where
  /-- A row on its own is what stands at its place, if anything does. -/
  row?_iff : ∀ rid entry, table.row? rid = some entry ↔
    1 ≤ rid ∧ rid ≤ table.count ∧ table.entryAt rid = .ok entry
  /-- All rows at once are all rows one by one, or a row stands in the way of
  both: its fault is that of all rows, and the rows one by one end before it. -/
  rows_cases :
    (∃ entries, table.rows = .ok entries ∧ table.readable = entries ∧
      table.Leads entries table.count) ∨
    ∃ k fault, k < table.count ∧ table.entryAt (k + 1) = .error fault ∧
      table.rows = .error fault ∧ table.Leads table.readable k

theorem rowSize_eq (table : TableView ρ) :
    table.rowSize = table.sizes.rowSize (TypedRow.table ρ) :=
  Schema.size_eq table.sizes

/-- Reading at the place of a row gives what stands there and goes on to the
next. -/
theorem scan_of_entry (hwhole : table.size ≤ table.data.size) {k : Nat} (hk : k < table.count)
    {entry : Entry ρ} (hentry : table.entryAt (1 + k) = .ok entry) :
    Entry.scan ρ table.sizes table.data (1 + k) (k * table.rowSize) =
      .ok entry ((k + 1) * table.rowSize) := by
  have hroom := room_of_lt hwhole hk
  obtain ⟨row, hrow, rfl⟩ := Except.map_eq_ok.mp hentry
  rw [Nat.add_sub_cancel_left] at hrow ⊢
  rw [Nat.add_mul, Nat.one_mul]
  rw [rowSize_eq] at *
  exact Schema.entry_of_row hroom hrow

theorem scan_of_no_entry (hwhole : table.size ≤ table.data.size) {k : Nat}
    (hk : k < table.count) {fault : Fault} (hentry : table.entryAt (1 + k) = .error fault) :
    ∃ stop, Entry.scan ρ table.sizes table.data (1 + k) (k * table.rowSize) =
      .error fault stop := by
  have hroom := room_of_lt hwhole hk
  have hrow : Schema.rowAt ρ table.sizes table.data (k * table.rowSize) = .error fault := by
    rw [entryAt, Nat.add_sub_cancel_left] at hentry
    revert hentry
    cases Schema.rowAt ρ table.sizes table.data (k * table.rowSize) with
    | error other => exact fun hentry => by cases hentry; rfl
    | ok row => exact fun hentry => by cases hentry
  rw [rowSize_eq] at *
  exact Schema.entry_of_fault hroom hrow

theorem rows_eq (hwhole : table.size ≤ table.data.size) :
    table.rows = (List.range' 1 table.count).mapM table.entryAt := by
  apply Scan.valueAt_mapM_range'
  · intro k hk entry hentry
    rw [Nat.zero_add, Nat.zero_add]
    exact scan_of_entry hwhole hk hentry
  · intro k hk fault hfault
    rw [Nat.zero_add]
    exact scan_of_no_entry hwhole hk hfault

/-- The rest of the rows, from the `k`th on, when those before it were read. -/
theorem go_eq (hwhole : table.size ≤ table.data.size) {left k : Nat}
    (hleft : k + left = table.count) (seen : List (Entry ρ)) :
    readable.go table left (1 + k) (k * table.rowSize) seen =
      seen.reverse ++ Except.untilFault table.entryAt (List.range' (1 + k) left) := by
  induction left generalizing k seen with
  | zero =>
      rw [readable.go, List.range'_zero, Except.untilFault, List.append_nil]
  | succ left ih =>
      have hk : k < table.count := by omega
      rw [readable.go, List.range'_succ, Except.untilFault]
      cases hentry : table.entryAt (1 + k) with
      | ok entry =>
          have hothers := ih (show k + 1 + left = table.count by omega) (entry :: seen)
          rw [scan_of_entry hwhole hk hentry]
          simp only [Nat.add_assoc] at hothers ⊢
          rw [hothers, List.reverse_cons, List.append_assoc]
          rfl
      | error fault =>
          obtain ⟨stop, hstop⟩ := scan_of_no_entry hwhole hk hentry
          rw [hstop, List.append_nil]

theorem readable_eq (hwhole : table.size ≤ table.data.size) :
    table.readable = Except.untilFault table.entryAt (List.range' 1 table.count) := by
  have hall := go_eq hwhole (show 0 + table.count = table.count from Nat.zero_add _) []
  rwa [Nat.zero_mul] at hall

theorem row?_eq_some (hwhole : table.size ≤ table.data.size) {rid : Nat} {entry : Entry ρ} :
    table.row? rid = some entry ↔
      1 ≤ rid ∧ rid ≤ table.count ∧ table.entryAt rid = .ok entry := by
  by_cases hrange : rid = 0 ∨ table.count < rid
  · rw [row?, if_pos hrange]
    constructor
    · intro h
      cases h
    · rintro ⟨hfirst, hlast, -⟩
      omega
  · obtain ⟨k, rfl⟩ : ∃ k, rid = 1 + k := ⟨rid - 1, by omega⟩
    have hk : k < table.count := by omega
    rw [row?, if_neg hrange, Nat.add_sub_cancel_left, Scan.valueAt]
    cases hentry : table.entryAt (1 + k) with
    | ok found =>
        rw [scan_of_entry hwhole hk hentry]
        constructor
        · intro h
          cases h
          exact ⟨by omega, by omega, rfl⟩
        · rintro ⟨-, -, hsame⟩
          cases hsame
          rfl
    | error fault =>
        obtain ⟨stop, hstop⟩ := scan_of_no_entry hwhole hk hentry
        rw [hstop]
        constructor
        · intro h
          cases h
        · rintro ⟨-, -, hother⟩
          cases hother

/-- The rows one by one are the first rows, however many they are. -/
theorem leads_readable (hwhole : table.size ≤ table.data.size) {n : Nat}
    (hlength : table.readable.length = n) : table.Leads table.readable n where
  length_eq := hlength
  entry_eq k entry hk := by
    rw [readable_eq hwhole] at hk
    obtain ⟨rid, hrid, hentry⟩ := Except.getElem?_untilFault hk
    obtain ⟨hlt, hplace⟩ := List.getElem?_eq_some_iff.mp hrid
    rw [List.length_range'] at hlt
    rw [List.getElem_range', Nat.one_mul] at hplace
    subst hplace
    have hrow : table.row? (1 + k) = some entry :=
      (row?_eq_some hwhole).mpr ⟨by omega, by omega, hentry⟩
    obtain ⟨row, -, rfl⟩ := Except.map_eq_ok.mp hentry
    rw [Nat.add_comm k 1]
    exact ⟨rfl, by rw [Nat.add_sub_cancel_left], hrow⟩

theorem agrees (hwhole : table.size ≤ table.data.size) : table.Agrees where
  row?_iff _ _ := row?_eq_some hwhole
  rows_cases := by
    have hreadable := readable_eq hwhole
    rcases Except.mapM_cases table.entryAt (List.range' 1 table.count) with
      ⟨entries, hentries, huntil⟩ | ⟨k, rid, fault, hrid, hfault, hrows, hlength⟩
    · left
      have hall : table.readable = entries := hreadable.trans huntil
      have hcount : table.readable.length = table.count := by
        rw [hall]
        exact (Except.mapM_range'_eq_ok.mp hentries).1
      have hleads := leads_readable hwhole hcount
      rw [hall] at hleads
      exact ⟨entries, (rows_eq hwhole).trans hentries, hall, hleads⟩
    · right
      obtain ⟨hlt, hplace⟩ := List.getElem?_eq_some_iff.mp hrid
      rw [List.length_range'] at hlt
      rw [List.getElem_range', Nat.one_mul, Nat.add_comm] at hplace
      subst hplace
      rw [← hreadable] at hlength
      exact ⟨k, fault, hlt, hfault, (rows_eq hwhole).trans hrows, leads_readable hwhole hlength⟩

end TableView

theorem Extent.rowOffset?_succ {extent : Extent} {k : Nat} (hk : k < extent.rows) :
    extent.rowOffset? (k + 1) = some (extent.offset + k * extent.rowSize) := by
  rw [rowOffset?, if_neg (by omega), Nat.add_sub_cancel]

namespace TablesStream.Accepted

variable {ρ : Type} [TypedRow ρ] [Schema ρ] {data : Bytes} {tables : TablesStream}
  {extent : Extent}

/-- The rows of a table are as many as its header says, and each stands where the
header says. -/
theorem rows_placed (h : Accepted data tables)
    (hextent : tables.extent? (TypedRow.table ρ) = some extent) {entries : List (Entry ρ)}
    (hrows : tables.rows ρ = .ok entries) :
    entries.length = extent.rows ∧ ∀ k entry, entries[k]? = some entry →
      extent.rowOffset? (k + 1) = some (extent.offset + entry.offset) := by
  have hshows := h.rows_eq_ok.mp hrows
  have hlength := hshows.length_eq
  rw [rowCount_of_extent hextent] at hlength
  refine ⟨hlength, ?_⟩
  intro k entry hentry
  have hk : k < extent.rows := hlength ▸ (List.getElem?_eq_some_iff.mp hentry).1
  rw [Extent.rowOffset?_succ hk, (hshows.row_eq k entry hentry).2.1,
    (h.extent_bounds hextent).2.2]

theorem row?_placed (h : Accepted data tables)
    (hextent : tables.extent? (TypedRow.table ρ) = some extent) {rest : Bytes}
    (hwhole : TableView.size (ρ := ρ) ⟨rest, extent.rows, tables.sizes⟩ ≤ rest.size) {rid : Nat}
    {entry : Entry ρ}
    (hrow : TableView.row? ⟨rest, extent.rows, tables.sizes⟩ rid = some entry) :
    extent.rowOffset? rid = some (extent.offset + entry.offset) := by
  obtain ⟨hfirst, hlast, hentry⟩ := (TableView.row?_eq_some hwhole).mp hrow
  obtain ⟨row, -, rfl⟩ := Except.map_eq_ok.mp hentry
  obtain ⟨k, rfl⟩ : ∃ k, rid = k + 1 := ⟨rid - 1, by omega⟩
  rw [Extent.rowOffset?_succ hlast, Nat.add_sub_cancel, TableView.rowSize_eq,
    (h.extent_bounds hextent).2.2]

end TablesStream.Accepted

namespace TypedTable

/-- All ways to read a table agree, for every table that holds its rows and so
for every table of a stream. The rows of a table of a stream are as many as its
header says, or cannot be read, so there are none only if the table is absent
or empty; and each stands where the header says. -/
theorem views_agree (kind : TypedTable) :
    (∀ data count sizes, count * TypedRow.size kind.Row sizes ≤ data.size →
      ∃ table : TableView kind.Row, TableView.ofData kind.Row data count sizes = .ok table ∧
        table = ⟨data, count, sizes⟩ ∧ table.Agrees) ∧
    ∀ data tables, TablesStream.ofData data = .ok tables →
      (tables.extent? kind.table = none → tables.rows kind.Row = .ok []) ∧
      (∀ extent, tables.extent? kind.table = some extent →
        ∃ (rest : Bytes) (table : TableView kind.Row), data.rest extent.offset = .ok rest ∧
          TableView.ofData kind.Row rest extent.rows tables.sizes = .ok table ∧
          tables.view? kind.Row = .ok (some table) ∧ table.Agrees ∧
          tables.rows kind.Row = table.rows ∧
          (∀ entries, tables.rows kind.Row = .ok entries →
            entries.length = extent.rows ∧ ∀ k entry, entries[k]? = some entry →
              extent.rowOffset? (k + 1) = some (extent.offset + entry.offset)) ∧
          ∀ rid entry, table.row? rid = some entry →
            extent.rowOffset? rid = some (extent.offset + entry.offset)) ∧
      (tables.rows kind.Row = .ok [] →
        ∀ extent, tables.extent? kind.table = some extent → extent.rows = 0) := by
  constructor
  · intro data count sizes hroom
    exact ⟨_, TableView.ofData_eq_ok.mpr ⟨rfl, hroom⟩, rfl, TableView.agrees hroom⟩
  · intro data tables hread
    have h := TablesStream.ofData_eq_ok.mp hread
    refine ⟨TablesStream.Accepted.rows_of_absent, ?_, ?_⟩
    · intro extent hextent
      obtain ⟨rest, hrest, -, htable, hview⟩ := h.view?_of_extent hextent
      have hwhole := (TableView.ofData_eq_ok.mp htable).2
      rw [h.data_eq] at hrest
      refine ⟨rest, _, hrest, htable, hview, TableView.agrees hwhole, ?_, ?_, ?_⟩
      · simp only [TablesStream.rows, hview, bind, Except.bind]
      · intro entries hrows
        exact h.rows_placed hextent hrows
      · intro rid entry hrow
        exact h.row?_placed hextent hwhole hrow
    · intro hrows extent hextent
      exact (h.rows_placed hextent hrows).1.symm

/-- A stream with three types, of which the second has a base that refers to no
table. -/
def middleSpoilt : Bytes :=
  #[0, 0, 0, 0, 2, 0, 0, 1, 4, 0, 0, 0, 0, 0, 0, 0, 0, 0, 0, 0, 0, 0, 0, 0, 3, 0, 0, 0,
    0, 0, 0, 0, 0, 0, 0, 0, 0, 0, 1, 0, 1, 0,
    0, 0, 0, 0, 0, 0, 0, 0, 3, 0, 1, 0, 1, 0,
    1, 0, 0, 0, 0, 0, 0, 0, 4, 0, 1, 0, 1, 0]

/-- All rows at once fail, one by one they end with the first, and the third can be
looked at on its own. -/
theorem views_agree_sample :
    ∃ tables extent entry, ∃ table : TableView (Row .typeDef),
      TablesStream.ofData middleSpoilt = .ok tables ∧
      tables.extent? .typeDef = some extent ∧ tables.view? (Row .typeDef) = .ok (some table) ∧
      tables.rows (Row .typeDef) = .error .outOfBounds ∧ table.readable.length = 1 ∧
      table.row? 2 = none ∧ table.row? 3 = some entry ∧
      extent.rowOffset? 3 = some (extent.offset + 28) := by
  have hparts : ((TablesStream.ofData middleSpoilt).toOption.map fun tables =>
      (tables.extent? .typeDef, tables.sizes)) =
      some (some ⟨28, 14, 3⟩,
        .ofCounts (fun table => if table = .typeDef then some 3 else none) 0) := by
    decide +kernel
  obtain ⟨tables, htables, hpair⟩ := Option.map_eq_some_iff.mp hparts
  simp only [Prod.mk.injEq] at hpair
  obtain ⟨hextent, hsizes⟩ := hpair
  obtain ⟨-, hstream⟩ := views_agree .typeDef
  obtain ⟨-, hpresent, -⟩ := hstream middleSpoilt tables (eq_ok_of_toOption htables)
  obtain ⟨rest, table, hrest, htable, hview, hagrees, hrows, -, hplaced⟩ :=
    hpresent ⟨28, 14, 3⟩ hextent
  obtain ⟨-, rfl⟩ := Bytes.rest_eq_ok.mp hrest
  obtain ⟨hview_eq, -⟩ := TableView.ofData_eq_ok.mp htable
  rw [hsizes] at hview_eq
  have hcount : table.count = 3 := by rw [hview_eq]
  have hfirst : table.entryAt 1 = .ok ⟨1, 0, TypeRow.mk 0 0 0 ⟨.typeDef, 0⟩ 1 1⟩ := by
    rw [hview_eq]
    rfl
  have hsecond : table.entryAt 2 = .error .outOfBounds := by
    rw [hview_eq]
    rfl
  have hthird : table.entryAt 3 = .ok ⟨3, 28, TypeRow.mk 1 0 0 ⟨.typeDef, 1⟩ 1 1⟩ := by
    rw [hview_eq]
    rfl
  have hrow := (hagrees.row?_iff 3 _).mpr ⟨by decide, Nat.le_of_eq hcount.symm, hthird⟩
  have hnone (entry : Entry (Row .typeDef)) : table.row? 2 ≠ some entry := by
    intro hsome
    obtain ⟨-, -, hentry⟩ := (hagrees.row?_iff 2 entry).mp hsome
    rw [hsecond] at hentry
    cases hentry
  rcases hagrees.rows_cases with ⟨entries, -, -, hleads⟩ | ⟨k, fault, hk, hfault, hfails, hleads⟩
  · have hlength := hleads.length_eq
    have hlt : 1 < entries.length := by omega
    exact absurd (hleads.entry_eq 1 _ (List.getElem?_eq_getElem hlt)).2.2 (hnone entries[1])
  · rw [hcount] at hk
    obtain rfl | rfl | rfl : k = 0 ∨ k = 1 ∨ k = 2 := by omega
    · cases hfirst.symm.trans hfault
    · cases hsecond.symm.trans hfault
      exact ⟨tables, _, _, _, eq_ok_of_toOption htables, hextent, hview, hrows.trans hfails,
        hleads.length_eq, Option.eq_none_iff_forall_ne_some.mpr hnone, hrow, hplaced 3 _ hrow⟩
    · cases hthird.symm.trans hfault

end TypedTable

end Unveil
