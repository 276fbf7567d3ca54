import Unveil.Proofs.Bytes.Revision
import Unveil.Proofs.Table.Rows
import Unveil.Proofs.Writing.Attribute

/-!
New attribute words as edits of a tables stream. Every row with a word that
differs has one edit, which lies inside the row, so the edits of all rows are
apart; and a stream with the edits made has the new word in each of these rows,
and what it had everywhere else.
-/

namespace Unveil

namespace WordedSchema

variable {ρ : Type} [WordedRow ρ] [WordedSchema ρ]

theorem word_room (ρ : Type) [WordedRow ρ] [WordedSchema ρ] (sizes : Sizes) :
    WordedRow.wordOffset ρ + WordedRow.wordWidth ρ ≤ sizes.rowSize (TypedRow.table ρ) := by
  have hnext := Column.distance_succ sizes (TypedRow.table ρ).columns (column_eq (ρ := ρ))
  have hwhole : Column.distance sizes (TypedRow.table ρ).columns (wordIndex ρ + 1) ≤
      sizes.rowSize (TypedRow.table ρ) := Column.distance_le ..
  rwa [hnext, distance_eq, width_eq] at hwhole

end WordedSchema

namespace Entry

variable {ρ : Type} [WordedRow ρ]

/-- The row with its new word. -/
def reworded (words : AttributeWords) (entry : Entry ρ) : ρ :=
  match entry.changedWord? words with
  | some word => WordedRow.withWord entry.row word
  | none => entry.row

/-- Puts the new word of a row, whose table starts at `start`, in its place, if
there is one that differs. -/
def edit? (start : Nat) (words : AttributeWords) (entry : Entry ρ) : Option Edit :=
  (entry.changedWord? words).map fun word =>
    ⟨start + entry.offset + WordedRow.wordOffset ρ,
      Bytes.spell (WordedRow.wordWidth ρ) word.toNat⟩

theorem newWord_of_changed {words : AttributeWords} {entry : Entry ρ} {word : UInt32}
    (h : entry.changedWord? words = some word) :
    WordedRow.newWord? ρ words entry.rid = some word ∧ word ≠ WordedRow.word entry.row := by
  rw [changedWord?, Option.filter_eq_some_iff] at h
  exact ⟨h.1, by simpa using h.2⟩

end Entry

namespace TablesStream

def start (tables : TablesStream) (table : TableId) : Nat :=
  match tables.extent? table with
  | some extent => extent.offset
  | none => 0

def editsOf {ρ : Type} [WordedRow ρ] (tables : TablesStream) (words : AttributeWords)
    (entries : List (Entry ρ)) : List Edit :=
  entries.filterMap (Entry.edit? (tables.start (TypedRow.table ρ)) words)

/-- The edit does not reach into a table. -/
def Spares (tables : TablesStream) (table : TableId) (edit : Edit) : Prop :=
  ∀ extent, tables.extent? table = some extent →
    edit.stop ≤ extent.offset ∨ extent.offset + extent.size ≤ edit.offset

/-- Of some edits, those that reach into a table are the ones for its rows. -/
structure Covers {ρ : Type} [WordedRow ρ] (tables : TablesStream) (words : AttributeWords)
    (entries : List (Entry ρ)) (edits : List Edit) : Prop where
  mem : ∀ edit ∈ tables.editsOf words entries, edit ∈ edits
  spares : ∀ edit ∈ edits, edit ∈ tables.editsOf words entries ∨
    tables.Spares (TypedRow.table ρ) edit

section Rows

variable {ρ : Type} [WordedRow ρ] {data : Bytes} {tables : TablesStream}
  {words : AttributeWords} {entries : List (Entry ρ)} {edits : List Edit}

theorem mem_editsOf {edit : Edit} (hmem : edit ∈ tables.editsOf words entries) :
    ∃ (k : Nat) (entry : Entry ρ), entries[k]? = some entry ∧
      entry.edit? (tables.start (TypedRow.table ρ)) words = some edit := by
  obtain ⟨entry, hentry, hedit⟩ := List.mem_filterMap.mp hmem
  obtain ⟨k, hk⟩ := List.mem_iff_getElem?.mp hentry
  exact ⟨k, entry, hk, hedit⟩

variable [WordedSchema ρ]

theorem Shows.place_eq (h : Accepted data tables) (hshows : tables.Shows entries) {k : Nat}
    {entry : Entry ρ} (hk : entries[k]? = some entry) :
    tables.rowPlace? (TypedRow.table ρ) (k + 1) =
      some (tables.start (TypedRow.table ρ) + entry.offset) := by
  obtain ⟨-, hoffset, place, hplace, -⟩ := hshows.row_eq k entry hk
  obtain ⟨extent, hextent, _, _, hplace'⟩ := h.rowPlace?_eq_some.mp hplace
  rw [Nat.add_sub_cancel, ← hoffset] at hplace'
  rw [hplace, hplace', start, hextent]

theorem edit_inside (sizes : Sizes) {start : Nat} {entry : Entry ρ} {edit : Edit}
    (hedit : entry.edit? start words = some edit) :
    start + entry.offset ≤ edit.offset ∧
      edit.stop ≤ start + entry.offset + sizes.rowSize (TypedRow.table ρ) := by
  obtain ⟨word, -, rfl⟩ := Option.map_eq_some_iff.mp hedit
  have hroom := WordedSchema.word_room ρ sizes
  simp only [Edit.stop, Bytes.length_spell]
  omega

/-- Rows of different numbers share no byte. -/
theorem Shows.rows_apart (hshows : tables.Shows entries) {j k : Nat} {earlier later : Entry ρ}
    (hj : entries[j]? = some earlier) (hk : entries[k]? = some later) (hlt : j < k) :
    earlier.offset + tables.sizes.rowSize (TypedRow.table ρ) ≤ later.offset := by
  obtain ⟨-, hearlier, -⟩ := hshows.row_eq j earlier hj
  obtain ⟨-, hlater, -⟩ := hshows.row_eq k later hk
  have : (j + 1) * tables.sizes.rowSize (TypedRow.table ρ) ≤
      k * tables.sizes.rowSize (TypedRow.table ρ) := Nat.mul_le_mul_right _ hlt
  rw [hearlier, hlater]
  rw [Nat.add_mul, Nat.one_mul] at this
  exact this

theorem Shows.pairwise_editsOf (hshows : tables.Shows entries) :
    (tables.editsOf words entries).Pairwise Edit.Apart := by
  have hrows : entries.Pairwise fun earlier later =>
      earlier.offset + tables.sizes.rowSize (TypedRow.table ρ) ≤ later.offset := by
    rw [List.pairwise_iff_getElem]
    intro j k hj hk hlt
    exact hshows.rows_apart (List.getElem?_eq_getElem hj) (List.getElem?_eq_getElem hk) hlt
  refine List.pairwise_filterMap.mpr (hrows.imp ?_)
  intro earlier later hapart first hfirst second hsecond
  have hbefore := edit_inside tables.sizes hfirst
  have hbehind := edit_inside tables.sizes hsecond
  exact Or.inl (by omega)

theorem Shows.editsOf_inside (h : Accepted data tables) (hshows : tables.Shows entries)
    {edit : Edit} (hmem : edit ∈ tables.editsOf words entries) :
    ∃ extent, tables.extent? (TypedRow.table ρ) = some extent ∧
      extent.offset ≤ edit.offset ∧ edit.stop ≤ extent.offset + extent.size := by
  obtain ⟨k, entry, hk, hedit⟩ := mem_editsOf hmem
  have hinside := edit_inside tables.sizes hedit
  obtain ⟨extent, hextent, -, hlast, hplace⟩ :=
    h.rowPlace?_eq_some.mp (hshows.place_eq h hk)
  have hrows : (k + 1) * tables.sizes.rowSize (TypedRow.table ρ) ≤
      extent.rows * tables.sizes.rowSize (TypedRow.table ρ) := Nat.mul_le_mul_right _ hlast
  rw [Nat.add_sub_cancel] at hplace
  rw [Nat.add_mul, Nat.one_mul] at hrows
  refine ⟨extent, hextent, by omega, ?_⟩
  rw [Extent.size, (h.extent_bounds hextent).2.2, Nat.mul_comm]
  omega

/-- Only the edit of a row reaches into it. -/
theorem Covers.spares_row (hcovers : tables.Covers words entries edits)
    (h : Accepted data tables) (hshows : tables.Shows entries) {k : Nat} {entry : Entry ρ}
    (hk : entries[k]? = some entry) {edit : Edit} (hmem : edit ∈ edits) :
    entry.edit? (tables.start (TypedRow.table ρ)) words = some edit ∨
      edit.stop ≤ tables.start (TypedRow.table ρ) + entry.offset ∨
      tables.start (TypedRow.table ρ) + entry.offset +
        tables.sizes.rowSize (TypedRow.table ρ) ≤ edit.offset := by
  rcases hcovers.spares edit hmem with hown | hspares
  · obtain ⟨j, other, hj, hedit⟩ := mem_editsOf hown
    have hinside := edit_inside tables.sizes hedit
    rcases Nat.lt_trichotomy j k with hlt | rfl | hlt
    · have := hshows.rows_apart hj hk hlt
      exact Or.inr (Or.inl (by omega))
    · obtain rfl := Option.some.inj (hj.symm.trans hk)
      exact Or.inl hedit
    · have := hshows.rows_apart hk hj hlt
      exact Or.inr (Or.inr (by omega))
  · obtain ⟨extent, hextent, -, hlast, hplace⟩ :=
      h.rowPlace?_eq_some.mp (hshows.place_eq h hk)
    have hrows : (k + 1) * tables.sizes.rowSize (TypedRow.table ρ) ≤
        extent.rows * tables.sizes.rowSize (TypedRow.table ρ) := Nat.mul_le_mul_right _ hlast
    rw [Nat.add_sub_cancel] at hplace
    rw [Nat.add_mul, Nat.one_mul] at hrows
    have houtside := hspares extent hextent
    rw [Extent.size, (h.extent_bounds hextent).2.2, Nat.mul_comm] at houtside
    exact Or.inr (by omega)

/-- A row whose word does not change stays in its place. -/
theorem Covers.agree_of_unchanged (hcovers : tables.Covers words entries edits)
    (h : Accepted data tables) (hshows : tables.Shows entries) {k : Nat} {entry : Entry ρ}
    (hk : entries[k]? = some entry) (hword : entry.changedWord? words = none) :
    Bytes.Agree (data.revise edits) data (tables.start (TypedRow.table ρ) + entry.offset)
      (tables.start (TypedRow.table ρ) + entry.offset +
        tables.sizes.rowSize (TypedRow.table ρ)) := by
  apply Bytes.agree_revise
  intro edit hmem
  rcases hcovers.spares_row h hshows hk hmem with hown | houtside
  · rw [Entry.edit?, hword] at hown
    cases hown
  · exact houtside.symm

/-- A row whose word changes has the new word in its place, and around it what
it had. -/
theorem Covers.valuesAt_of_changed (hcovers : tables.Covers words entries edits)
    (h : Accepted data tables) (hshows : tables.Shows entries)
    (hapart : edits.Pairwise Edit.Apart) {k : Nat} {entry : Entry ρ}
    (hk : entries[k]? = some entry) {word : UInt32} (hword : entry.changedWord? words = some word) :
    Column.valuesAt tables.sizes (data.revise edits) (TypedRow.table ρ).columns
        (tables.start (TypedRow.table ρ) + entry.offset) =
      (Column.valuesAt tables.sizes data (TypedRow.table ρ).columns
        (tables.start (TypedRow.table ρ) + entry.offset)).set (WordedSchema.wordIndex ρ) word := by
  have hroom := (h.rowPlace_bounds (hshows.place_eq h hk)).2
  have hwordRoom := WordedSchema.word_room ρ tables.sizes
  have hown : entry.edit? (tables.start (TypedRow.table ρ)) words =
      some ⟨tables.start (TypedRow.table ρ) + entry.offset + WordedRow.wordOffset ρ,
        Bytes.spell (WordedRow.wordWidth ρ) word.toNat⟩ := by
    rw [Entry.edit?, hword]
    rfl
  have hmem := hcovers.mem _ (List.mem_filterMap.mpr ⟨entry, List.mem_of_getElem? hk, hown⟩)
  have hnumber : (data.revise edits).number
      (tables.start (TypedRow.table ρ) + entry.offset + WordedRow.wordOffset ρ)
      (WordedRow.wordWidth ρ) = _ := Bytes.number_revise hapart hmem (by omega)
  rw [Nat.mod_eq_of_lt (WordedSchema.newWord_lt (Entry.newWord_of_changed hword).1)] at hnumber
  have hcolumn := WordedSchema.column_eq (ρ := ρ)
  have hnext := Column.distance_succ tables.sizes (TypedRow.table ρ).columns hcolumn
  rw [WordedSchema.distance_eq, WordedSchema.width_eq] at hnext
  have hbefore : Bytes.Agree (data.revise edits) data
      (tables.start (TypedRow.table ρ) + entry.offset)
      (tables.start (TypedRow.table ρ) + entry.offset + Column.distance tables.sizes
        (TypedRow.table ρ).columns (WordedSchema.wordIndex ρ)) := by
    apply Bytes.agree_revise
    intro edit hedit
    rw [WordedSchema.distance_eq]
    rcases hcovers.spares_row h hshows hk hedit with hself | houtside
    · cases hown.symm.trans hself
      exact Or.inl (Nat.le_refl _)
    · omega
  have hbehind : Bytes.Agree (data.revise edits) data
      (tables.start (TypedRow.table ρ) + entry.offset + Column.distance tables.sizes
        (TypedRow.table ρ).columns (WordedSchema.wordIndex ρ + 1))
      (tables.start (TypedRow.table ρ) + entry.offset +
        tables.sizes.rowSize (TypedRow.table ρ)) := by
    apply Bytes.agree_revise
    intro edit hedit
    rw [hnext]
    rcases hcovers.spares_row h hshows hk hedit with hself | houtside
    · cases hown.symm.trans hself
      simp only [Edit.stop, Bytes.length_spell]
      omega
    · omega
  have hset := Column.valuesAt_set hcolumn hbefore hbehind
  rw [WordedSchema.distance_eq, WordedSchema.width_eq, hnumber, UInt32.ofNat_toNat] at hset
  exact hset

/-- The edited stream has in the place of a row the row with its new word. -/
theorem Covers.rowAt_revise (hcovers : tables.Covers words entries edits)
    (h : Accepted data tables) (hshows : tables.Shows entries)
    (hapart : edits.Pairwise Edit.Apart) {k : Nat} {entry : Entry ρ}
    (hk : entries[k]? = some entry) :
    Schema.rowAt ρ tables.sizes (data.revise edits)
      (tables.start (TypedRow.table ρ) + entry.offset) = .ok (entry.reworded words) := by
  obtain ⟨-, -, place, hplace, hrow⟩ := hshows.row_eq k entry hk
  obtain rfl := Option.some.inj (hplace.symm.trans (hshows.place_eq h hk))
  rw [h.data_eq] at hrow
  cases hword : entry.changedWord? words with
  | none =>
      rw [Schema.rowAt, Column.valuesAt_congr (hcovers.agree_of_unchanged h hshows hk hword),
        Entry.reworded, hword]
      exact hrow
  | some word =>
      rw [Schema.rowAt, hcovers.valuesAt_of_changed h hshows hapart hk hword, Entry.reworded, hword]
      exact WordedSchema.ofValues_set word hrow

theorem Shows.spares (h : Accepted data tables) (hshows : tables.Shows entries) {edit : Edit}
    (hmem : edit ∈ tables.editsOf words entries) {table : TableId}
    (hdiffers : TypedRow.table ρ ≠ table) : tables.Spares table edit := by
  intro extent hextent
  obtain ⟨own, hown, hstart, hstop⟩ := hshows.editsOf_inside h hmem
  rcases h.extents_apart hown hextent hdiffers with hbefore | hbehind
  · exact Or.inl (by omega)
  · exact Or.inr (by omega)

theorem Shows.editsOf_apart (h : Accepted data tables) (hshows : tables.Shows entries)
    {σ : Type} [WordedRow σ] [WordedSchema σ] {others : List (Entry σ)}
    (hothers : tables.Shows others) (hdiffers : TypedRow.table ρ ≠ TypedRow.table σ) :
    ∀ edit ∈ tables.editsOf words entries, ∀ other ∈ tables.editsOf words others,
      Edit.Apart edit other := by
  intro edit hedit other hother
  obtain ⟨extent, hextent, hstart, hstop⟩ := hothers.editsOf_inside h hother
  rcases hshows.spares h hedit hdiffers extent hextent with hbefore | hbehind
  · exact Or.inl (by omega)
  · exact Or.inr (by omega)

end Rows

/-- The rows of the three tables with attribute words, all of them read. -/
structure Worded (tables : TablesStream) where
  types : List (Entry TypeRow)
  methods : List (Entry MethodRow)
  fields : List (Entry FieldRow)
  shows_types : tables.Shows types
  shows_methods : tables.Shows methods
  shows_fields : tables.Shows fields

namespace Worded

variable {data : Bytes} {tables : TablesStream} {table : TableId} {edit : Edit}

def edits (rows : Worded tables) (words : AttributeWords) : List Edit :=
  tables.editsOf words rows.types ++
    (tables.editsOf words rows.methods ++ tables.editsOf words rows.fields)

variable (rows : Worded tables) (words : AttributeWords)

theorem mem_edits : edit ∈ rows.edits words ↔ edit ∈ tables.editsOf words rows.types ∨
    edit ∈ tables.editsOf words rows.methods ∨ edit ∈ tables.editsOf words rows.fields := by
  simp only [edits, List.mem_append]

theorem pairwise_edits (h : Accepted data tables) :
    (rows.edits words).Pairwise Edit.Apart := by
  refine List.pairwise_append.mpr ⟨rows.shows_types.pairwise_editsOf,
    List.pairwise_append.mpr ⟨rows.shows_methods.pairwise_editsOf,
      rows.shows_fields.pairwise_editsOf, ?_⟩, ?_⟩
  · exact rows.shows_methods.editsOf_apart h rows.shows_fields (by decide)
  · intro edit hedit other hother
    rcases List.mem_append.mp hother with hmethod | hfield
    · exact rows.shows_types.editsOf_apart h rows.shows_methods (by decide) edit hedit other
        hmethod
    · exact rows.shows_types.editsOf_apart h rows.shows_fields (by decide) edit hedit other
        hfield

theorem covers_types (h : Accepted data tables) :
    tables.Covers words rows.types (rows.edits words) where
  mem _ hmem := (rows.mem_edits words).mpr (.inl hmem)
  spares _ hmem := by
    rcases (rows.mem_edits words).mp hmem with htype | hmethod | hfield
    · exact .inl htype
    · exact .inr (rows.shows_methods.spares h hmethod (by decide))
    · exact .inr (rows.shows_fields.spares h hfield (by decide))

theorem covers_methods (h : Accepted data tables) :
    tables.Covers words rows.methods (rows.edits words) where
  mem _ hmem := (rows.mem_edits words).mpr (.inr (.inl hmem))
  spares _ hmem := by
    rcases (rows.mem_edits words).mp hmem with htype | hmethod | hfield
    · exact .inr (rows.shows_types.spares h htype (by decide))
    · exact .inl hmethod
    · exact .inr (rows.shows_fields.spares h hfield (by decide))

theorem covers_fields (h : Accepted data tables) :
    tables.Covers words rows.fields (rows.edits words) where
  mem _ hmem := (rows.mem_edits words).mpr (.inr (.inr hmem))
  spares _ hmem := by
    rcases (rows.mem_edits words).mp hmem with htype | hmethod | hfield
    · exact .inr (rows.shows_types.spares h htype (by decide))
    · exact .inr (rows.shows_methods.spares h hmethod (by decide))
    · exact .inl hfield

theorem spares_plain (h : Accepted data tables) (htype : table ≠ .typeDef)
    (hmethod : table ≠ .methodDef) (hfield : table ≠ .field) (hmem : edit ∈ rows.edits words) :
    tables.Spares table edit := by
  rcases (rows.mem_edits words).mp hmem with hedit | hedit | hedit
  · exact rows.shows_types.spares h hedit htype.symm
  · exact rows.shows_methods.spares h hedit hmethod.symm
  · exact rows.shows_fields.spares h hedit hfield.symm

/-- Every edit lies behind the header and inside the data. -/
theorem edit_bounds (h : Accepted data tables) (hmem : edit ∈ rows.edits words) :
    ∃ table extent, tables.extent? table = some extent ∧ extent.offset ≤ edit.offset ∧
      edit.stop ≤ extent.offset + extent.size := by
  rcases (rows.mem_edits words).mp hmem with hedit | hedit | hedit
  · exact ⟨_, rows.shows_types.editsOf_inside h hedit⟩
  · exact ⟨_, rows.shows_methods.editsOf_inside h hedit⟩
  · exact ⟨_, rows.shows_fields.editsOf_inside h hedit⟩

end Worded

end TablesStream

end Unveil
