import Unveil.Proofs.Declaration.Publicity
import Unveil.Proofs.Writing.Rewording

namespace Unveil

/-- The words give each row in `published` its word with new low bits, and no
other row a word. -/
structure Widens {ρ : Type} [WordedRow ρ] (words : AttributeWords)
    (published : Nat → UInt8 → Prop) (entries : List (Entry ρ)) : Prop where
  bits_lt : ∀ rid v, published rid v → v.toNat < 8
  word_eq : ∀ (k : Nat) (entry : Entry ρ) (v : UInt8), entries[k]? = some entry →
    published (k + 1) v → ∃ word, WordedRow.newWord? ρ words (k + 1) = some word ∧
      word.toNat = (WordedRow.word entry.row).toNat / 8 * 8 + v.toNat
  published : ∀ (k : Nat) (entry : Entry ρ) (word : UInt32), entries[k]? = some entry →
    WordedRow.newWord? ρ words (k + 1) = some word → ∃ v, published (k + 1) v

section Rows

variable {ρ : Type} [WordedRow ρ] [WordedSchema ρ]

theorem WordedSchema.toNat_word {sizes : Sizes} {data : Bytes} {place : Nat} {row : ρ}
    (hrow : Schema.rowAt ρ sizes data place = .ok row) :
    (WordedRow.word row).toNat =
      data.number (place + WordedRow.wordOffset ρ) (WordedRow.wordWidth ρ) := by
  have hread := WordedSchema.word_eq hrow
  rw [Column.getElem?_valuesAt WordedSchema.column_eq, WordedSchema.distance_eq,
    WordedSchema.width_eq] at hread
  have hwidth : WordedRow.wordWidth ρ ≤ 4 := by
    rw [← WordedSchema.width_eq sizes]
    exact (Column.width_bounds sizes _).2
  rw [← Option.some.inj hread, Bytes.toNat_ofNat_number _ _ hwidth]

/-- A row that was read takes a new word over. -/
theorem WordedSchema.word_withWord {values : List UInt32} {row : ρ} (word : UInt32)
    (hrow : Schema.ofValues values = .ok row) :
    WordedRow.word (WordedRow.withWord row word) = word := by
  have hlt := (List.getElem?_eq_some_iff.mp (WordedSchema.word_eq hrow)).1
  have hset := WordedSchema.word_eq (WordedSchema.ofValues_set word hrow)
  rw [List.getElem?_set_self hlt] at hset
  exact (Option.some.inj hset).symm

/-- A row for which there is a word has it in the end, whether it differs or
not. -/
theorem Entry.word_reworded {values : List UInt32} {words : AttributeWords} {entry : Entry ρ}
    {word : UInt32} (hrow : Schema.ofValues values = .ok entry.row)
    (hword : WordedRow.newWord? ρ words entry.rid = some word) :
    WordedRow.word (entry.reworded words) = word := by
  unfold reworded changedWord?
  rw [hword]
  by_cases hsame : word = WordedRow.word entry.row
  · simp [Option.filter, hsame]
  · simp only [Option.filter, hsame, ne_eq, not_false_eq_true, decide_true, ↓reduceIte]
    exact WordedSchema.word_withWord word hrow

namespace TablesStream

variable {data : Bytes} {tables : TablesStream} {words : AttributeWords}
  {entries : List (Entry ρ)} {edits : List Edit} {published : Nat → UInt8 → Prop}

theorem Shows.entry_of_place (h : Accepted data tables) (hshows : tables.Shows entries)
    {rid place : Nat} (hplace : tables.rowPlace? (TypedRow.table ρ) rid = some place) :
    ∃ k entry, rid = k + 1 ∧ entries[k]? = some entry ∧
      place = tables.start (TypedRow.table ρ) + entry.offset := by
  obtain ⟨extent, hextent, hfirst, hlast, -⟩ := h.rowPlace?_eq_some.mp hplace
  have hlength := hshows.length_eq
  rw [Accepted.rowCount_of_extent hextent] at hlength
  obtain ⟨k, rfl⟩ : ∃ k, rid = k + 1 := ⟨rid - 1, by omega⟩
  have hentry := List.getElem?_eq_getElem (show k < entries.length by omega)
  have hown := hshows.place_eq h hentry
  exact ⟨k, _, rfl, hentry, Option.some.inj (hplace.symm.trans hown)⟩

/-- Of the word of a published row only the lowest byte changes. -/
theorem Covers.bytes_of_published (hcovers : tables.Covers words entries edits)
    (h : Accepted data tables) (hshows : tables.Shows entries)
    (hapart : edits.Pairwise Edit.Apart) (hwidens : Widens words published entries) {rid place : Nat}
    {v : UInt8} (hpublished : published rid v)
    (hplace : tables.rowPlace? (TypedRow.table ρ) rid = some place) :
    (data.revise edits).getD (place + WordedRow.wordOffset ρ) 0 =
        (data.getD (place + WordedRow.wordOffset ρ) 0 &&& ~~~7) ||| v ∧
      Bytes.Agree (data.revise edits) data (place + WordedRow.wordOffset ρ + 1)
        (place + WordedRow.wordOffset ρ + WordedRow.wordWidth ρ) := by
  obtain ⟨k, entry, rfl, hentry, rfl⟩ := hshows.entry_of_place h hplace
  obtain ⟨hrid, -, place, hplace', hrow⟩ := hshows.row_eq k entry hentry
  obtain rfl := Option.some.inj (hplace'.symm.trans hplace)
  obtain ⟨word, hnew, hword⟩ := hwidens.word_eq k entry v hentry hpublished
  rw [h.data_eq] at hrow
  have hnumber := WordedSchema.toNat_word (hcovers.rowAt_revise h hshows hapart hentry)
  rw [Entry.word_reworded hrow (hrid ▸ hnew), hword, WordedSchema.toNat_word hrow] at hnumber
  obtain ⟨width, hwidth⟩ : ∃ width, WordedRow.wordWidth ρ = width + 1 := by
    have hpositive := ((WordedSchema.wordColumn ρ).width_bounds tables.sizes).1
    rw [WordedSchema.width_eq] at hpositive
    exact ⟨_, (Nat.sub_add_cancel hpositive).symm⟩
  rw [hwidth] at hnumber ⊢
  have hbytes := Bytes.spell_number (data.revise edits)
    (tables.start (TypedRow.table ρ) + entry.offset + WordedRow.wordOffset ρ) (width + 1)
  rw [← hnumber, Bytes.spell_lowBits _ _ _ (hwidens.bits_lt _ _ hpublished), List.range'_succ,
    List.map_cons, List.cons.injEq] at hbytes
  refine ⟨hbytes.1.symm, fun i hstart hstop => ?_⟩
  exact (List.map_inj_left.mp hbytes.2 i (List.mem_range'_1.mpr (by omega))).symm

/-- An edit is for the word of a published row. -/
theorem Shows.published_of_mem (h : Accepted data tables) (hshows : tables.Shows entries)
    (hwidens : Widens words published entries) {edit : Edit}
    (hmem : edit ∈ tables.editsOf words entries) :
    ∃ rid place v, published rid v ∧ tables.rowPlace? (TypedRow.table ρ) rid = some place ∧
      edit.offset = place + WordedRow.wordOffset ρ ∧
      edit.stop = place + WordedRow.wordOffset ρ + WordedRow.wordWidth ρ := by
  obtain ⟨k, entry, hentry, hedit⟩ := mem_editsOf hmem
  obtain ⟨word, hword, rfl⟩ := Option.map_eq_some_iff.mp hedit
  have hnew := (Entry.newWord_of_changed hword).1
  rw [(hshows.row_eq k entry hentry).1] at hnew
  obtain ⟨v, hpublished⟩ := hwidens.published k entry word hentry hnew
  refine ⟨k + 1, _, v, hpublished, hshows.place_eq h hentry, rfl, ?_⟩
  simp only [Edit.stop, Bytes.length_spell]

end TablesStream

end Rows

namespace TablesStream

/-- The places of a stream at which the lowest byte of a published row's word
stands, with the bits that the word gets. -/
inductive Exposes (tables : TablesStream) (published : TableId → Nat → UInt8 → Prop) :
    Nat → UInt8 → Prop
  | type {rid place : Nat} {v : UInt8} (hpublished : published .typeDef rid v)
      (hplace : tables.rowPlace? .typeDef rid = some place) : Exposes tables published place v
  | method {rid place : Nat} {v : UInt8} (hpublished : published .methodDef rid v)
      (hplace : tables.rowPlace? .methodDef rid = some place) :
      Exposes tables published (place + MethodRow.flagsOffset) v
  | field {rid place : Nat} {v : UInt8} (hpublished : published .field rid v)
      (hplace : tables.rowPlace? .field rid = some place) : Exposes tables published place v

/-- The words widen exactly the published rows of the three tables. -/
structure Worded.Widened {tables : TablesStream} (rows : Worded tables) (words : AttributeWords)
    (published : TableId → Nat → UInt8 → Prop) : Prop where
  types : Widens words (published .typeDef) rows.types
  methods : Widens words (published .methodDef) rows.methods
  fields : Widens words (published .field) rows.fields

namespace Worded

variable {data : Bytes} {tables : TablesStream} {words : AttributeWords}
  {published : TableId → Nat → UInt8 → Prop} {rows : Worded tables}

theorem lt_of_exposes (h : Accepted data tables) {place : Nat} {v : UInt8}
    (hexposes : tables.Exposes published place v) : place < data.size := by
  cases hexposes with
  | type hpublished hplace =>
      have hroom := WordedSchema.word_room TypeRow tables.sizes
      have hbounds := (h.rowPlace_bounds hplace).2
      simp only [WordedRow.wordWidth, TypedRow.table] at hroom
      omega
  | method hpublished hplace =>
      have hroom := WordedSchema.word_room MethodRow tables.sizes
      have hbounds := (h.rowPlace_bounds hplace).2
      simp only [WordedRow.wordOffset, WordedRow.wordWidth, TypedRow.table] at hroom
      omega
  | field hpublished hplace =>
      have hroom := WordedSchema.word_room FieldRow tables.sizes
      have hbounds := (h.rowPlace_bounds hplace).2
      simp only [WordedRow.wordWidth, TypedRow.table] at hroom
      omega

/-- The edited stream has new low bits in every exposed byte. -/
theorem getD_of_exposes (h : Accepted data tables) (hwidened : rows.Widened words published)
    {place : Nat} {v : UInt8} (hexposes : tables.Exposes published place v) :
    (data.revise (rows.edits words)).getD place 0 = (data.getD place 0 &&& ~~~7) ||| v := by
  have hapart := rows.pairwise_edits words h
  cases hexposes with
  | type hpublished hplace =>
      exact ((rows.covers_types words h).bytes_of_published h rows.shows_types hapart
        hwidened.types hpublished hplace).1
  | method hpublished hplace =>
      exact ((rows.covers_methods words h).bytes_of_published h rows.shows_methods hapart
        hwidened.methods hpublished hplace).1
  | field hpublished hplace =>
      exact ((rows.covers_fields words h).bytes_of_published h rows.shows_fields hapart
        hwidened.fields hpublished hplace).1

theorem getD_of_not_exposes (h : Accepted data tables) (hwidened : rows.Widened words published)
    {i : Nat} (hhidden : ∀ v, ¬ tables.Exposes published i v) :
    (data.revise (rows.edits words)).getD i 0 = data.getD i 0 := by
  have hapart := rows.pairwise_edits words h
  by_cases hcovered : ∃ edit ∈ rows.edits words, edit.offset ≤ i ∧ i < edit.stop
  · obtain ⟨edit, hmem, hoffset, hstop⟩ := hcovered
    rcases (rows.mem_edits words).mp hmem with htype | hmethod | hfield
    · obtain ⟨rid, place, v, hpublished, hplace, hstart, hend⟩ :=
        rows.shows_types.published_of_mem h hwidened.types htype
      have hfirst : i ≠ place := fun hsame => hhidden v (hsame ▸ .type hpublished hplace)
      exact ((rows.covers_types words h).bytes_of_published h rows.shows_types hapart
        hwidened.types hpublished hplace).2 i (by simp only [WordedRow.wordOffset] at *; omega)
        (by omega)
    · obtain ⟨rid, place, v, hpublished, hplace, hstart, hend⟩ :=
        rows.shows_methods.published_of_mem h hwidened.methods hmethod
      have hfirst : i ≠ place + MethodRow.flagsOffset :=
        fun hsame => hhidden v (hsame ▸ .method hpublished hplace)
      exact ((rows.covers_methods words h).bytes_of_published h rows.shows_methods hapart
        hwidened.methods hpublished hplace).2 i (by simp only [WordedRow.wordOffset] at *; omega)
        (by omega)
    · obtain ⟨rid, place, v, hpublished, hplace, hstart, hend⟩ :=
        rows.shows_fields.published_of_mem h hwidened.fields hfield
      have hfirst : i ≠ place := fun hsame => hhidden v (hsame ▸ .field hpublished hplace)
      exact ((rows.covers_fields words h).bytes_of_published h rows.shows_fields hapart
        hwidened.fields hpublished hplace).2 i (by simp only [WordedRow.wordOffset] at *; omega)
        (by omega)
  · apply Bytes.getD_revise_outside
    intro edit hmem
    have hnot : ¬ (edit.offset ≤ i ∧ i < edit.stop) := fun hin => hcovered ⟨edit, hmem, hin⟩
    omega

end Worded

end TablesStream

end Unveil
