import Unveil.Proofs.Table.Substitution
import Unveil.Proofs.Writing.Widening

namespace Unveil

/-- An entry whose row has its new word. -/
def Entry.rewrite {ρ : Type} [WordedRow ρ] (words : AttributeWords) (entry : Entry ρ) : Entry ρ :=
  { entry with row := entry.reworded words }

namespace TablesStream

variable {data : Bytes} {tables : TablesStream} {words : AttributeWords}

/-- The new rows of a table are found in its edited bytes. -/
theorem Covers.shows_rewrite {ρ : Type} [WordedRow ρ] [WordedSchema ρ] {entries : List (Entry ρ)}
    {edits : List Edit} (hcovers : tables.Covers words entries edits) (h : Accepted data tables)
    (hshows : tables.Shows entries) (hapart : edits.Pairwise Edit.Apart) :
    (tables.withData (data.revise edits)).Shows (entries.map (Entry.rewrite words)) where
  length_eq := by
    rw [List.length_map, rowCount_withData]
    exact hshows.length_eq
  row_eq k entry hk := by
    rw [List.getElem?_map, Option.map_eq_some_iff] at hk
    obtain ⟨source, hsource, rfl⟩ := hk
    obtain ⟨hrid, hoffset, -⟩ := hshows.row_eq k source hsource
    refine ⟨hrid, hoffset, _, hshows.place_eq h hsource, ?_⟩
    exact hcovers.rowAt_revise h hshows hapart hsource

/-- A row that has its new word is not changed again. -/
theorem Shows.changedWord?_rewrite {ρ : Type} [WordedRow ρ] [WordedSchema ρ]
    {entries : List (Entry ρ)} (hshows : tables.Shows entries)
    (words : AttributeWords) {entry : Entry ρ} (hmem : entry ∈ entries) :
    (entry.rewrite words).changedWord? words = none := by
  obtain ⟨k, hk⟩ := List.mem_iff_getElem?.mp hmem
  obtain ⟨-, -, place, -, hrow⟩ := hshows.row_eq k entry hk
  unfold Entry.changedWord?
  cases hword : WordedRow.newWord? ρ words (entry.rewrite words).rid with
  | none => rfl
  | some word =>
      have hsame : WordedRow.word (entry.rewrite words).row = word :=
        Entry.word_reworded hrow hword
      simp [Option.filter, hsame]

theorem Shows.editsOf_rewrite {ρ : Type} [WordedRow ρ] [WordedSchema ρ]
    {entries : List (Entry ρ)} (hshows : tables.Shows entries) (words : AttributeWords)
    (again : TablesStream) : again.editsOf words (entries.map (Entry.rewrite words)) = [] := by
  rw [editsOf, List.filterMap_eq_nil_iff]
  intro rewritten hmem
  obtain ⟨entry, hentry, rfl⟩ := List.mem_map.mp hmem
  rw [Entry.edit?, hshows.changedWord?_rewrite words hentry]
  rfl

namespace Worded

variable (rows : Worded tables) (words)

theorem accepted_revise (h : Accepted data tables) :
    Accepted (data.revise (rows.edits words)) (tables.withData (data.revise (rows.edits words))) := by
  refine h.withData (Bytes.size_revise ..) fun k hk _ => Bytes.getD_revise_outside ?_
  intro edit hmem
  obtain ⟨table, extent, hextent, hstart, -⟩ := rows.edit_bounds words h hmem
  have hheader := (h.extent_bounds hextent).1
  exact Or.inl (by omega)

def rewritten (h : Accepted data tables) :
    Worded (tables.withData (data.revise (rows.edits words))) where
  types := rows.types.map (Entry.rewrite words)
  methods := rows.methods.map (Entry.rewrite words)
  fields := rows.fields.map (Entry.rewrite words)
  shows_types := (rows.covers_types words h).shows_rewrite h rows.shows_types
    (rows.pairwise_edits words h)
  shows_methods := (rows.covers_methods words h).shows_rewrite h rows.shows_methods
    (rows.pairwise_edits words h)
  shows_fields := (rows.covers_fields words h).shows_rewrite h rows.shows_fields
    (rows.pairwise_edits words h)

theorem shows_plain {ρ : Type} [TypedRow ρ] [Schema ρ] {entries : List (Entry ρ)}
    (h : Accepted data tables) (hshows : tables.Shows entries)
    (htype : TypedRow.table ρ ≠ .typeDef) (hmethod : TypedRow.table ρ ≠ .methodDef)
    (hfield : TypedRow.table ρ ≠ .field) :
    (tables.withData (data.revise (rows.edits words))).Shows entries := by
  refine hshows.withData h fun extent hextent => Bytes.agree_revise fun edit hmem => ?_
  exact (rows.spares_plain words h htype hmethod hfield hmem extent hextent).symm

end Worded

end TablesStream

end Unveil
