import Unveil.Proofs.Writing.Rewording
import Unveil.Writing.Emission

namespace Unveil

namespace Patch

open TablesStream

variable {data image : Bytes} {tables : TablesStream} {words : AttributeWords} {base offset : Nat}

section Rows

variable {ρ : Type} [WordedRow ρ]

theorem row_of_unchanged {start changed : Nat} {entry : Entry ρ}
    (hword : entry.changedWord? words = none) (sheet : Sheet) :
    row start words changed entry sheet = .ok changed sheet := by
  simp only [row, hword]
  rfl

theorem row_of_changed {start changed : Nat} {entry : Entry ρ} {word : UInt32}
    (hword : entry.changedWord? words = some word)
    (hroom : start + entry.offset + WordedRow.wordOffset ρ + WordedRow.wordWidth ρ ≤ image.size) :
    row start words changed entry ⟨image, offset⟩ =
      .ok (changed + 1)
        ⟨image.overwrite (start + entry.offset + WordedRow.wordOffset ρ)
            (Bytes.spell (WordedRow.wordWidth ρ) word.toNat),
          start + entry.offset + WordedRow.wordOffset ρ + WordedRow.wordWidth ρ⟩ := by
  simp only [row, hword, bind, EStateM.bind, Emit.goTo, Emit.number, hroom, ↓reduceIte]
  rfl

theorem foldlM_row {start : Nat} (entries : List (Entry ρ)) (changed : Nat)
    (hroom : ∀ edit ∈ entries.filterMap (Entry.edit? start words),
      base + edit.stop ≤ image.size) :
    ∃ stop, entries.foldlM (row (base + start) words) changed ⟨image, offset⟩ =
      .ok (changed + (entries.filterMap (Entry.edit? start words)).length)
        ⟨image.revise ((entries.filterMap (Entry.edit? start words)).map (Edit.shift base)),
          stop⟩ := by
  induction entries generalizing image changed offset with
  | nil => exact ⟨offset, rfl⟩
  | cons entry entries ih =>
      rw [List.foldlM_cons]
      cases hword : entry.changedWord? words with
      | none =>
          have hedit : entry.edit? start words = none := by
            rw [Entry.edit?, hword]
            rfl
          rw [List.filterMap_cons_none hedit] at hroom ⊢
          rw [EStateM.bind_of_ok (row_of_unchanged hword _)]
          exact ih changed hroom
      | some word =>
          have hedit : entry.edit? start words = some
              ⟨start + entry.offset + WordedRow.wordOffset ρ,
                Bytes.spell (WordedRow.wordWidth ρ) word.toNat⟩ := by
            rw [Entry.edit?, hword]
            rfl
          rw [List.filterMap_cons_some hedit] at hroom ⊢
          have hfirst := hroom _ (List.mem_cons_self ..)
          simp only [Edit.stop, Bytes.length_spell] at hfirst
          rw [EStateM.bind_of_ok (row_of_changed hword (by omega))]
          have hothers : ∀ edit ∈ entries.filterMap (Entry.edit? start words),
              base + edit.stop ≤ (image.overwrite (base + start + entry.offset +
                WordedRow.wordOffset ρ) (Bytes.spell (WordedRow.wordWidth ρ) word.toNat)).size := by
            intro edit hmem
            rw [Bytes.size_overwrite]
            exact hroom edit (List.mem_cons_of_mem _ hmem)
          obtain ⟨stop, hrest⟩ := ih (changed + 1) hothers
          refine ⟨stop, hrest.trans ?_⟩
          simp only [List.length_cons, List.map_cons, Bytes.revise_cons, Edit.shift, Nat.add_assoc,
            Nat.add_comm 1]

/-- A table whose rows cannot be read stops the patch before any edit. -/
theorem table_of_fault {fault : Fault} (hfault : tables.rows ρ = .error fault) (sheet : Sheet) :
    table ρ base tables words sheet = .error fault sheet := by
  cases hextent : tables.extent? (TypedRow.table ρ) with
  | none =>
      rw [Accepted.rows_of_absent hextent] at hfault
      cases hfault
  | some extent =>
      have hlift : Emit.lift (tables.rows ρ) sheet = .error fault sheet := by
        rw [hfault]
        rfl
      simp only [table, hextent]
      exact EStateM.bind_of_error hlift

variable [WordedSchema ρ] {entries : List (Entry ρ)}

theorem table_of_shows (h : Accepted data tables) (hshows : tables.Shows entries)
    (hroom : base + data.size ≤ image.size) :
    ∃ stop, table ρ base tables words ⟨image, offset⟩ =
      .ok (tables.editsOf words entries).length
        ⟨image.revise ((tables.editsOf words entries).map (Edit.shift base)), stop⟩ := by
  cases hextent : tables.extent? (TypedRow.table ρ) with
  | none =>
      have hlength := hshows.length_eq
      simp only [rowCount, hextent, List.length_eq_zero_iff] at hlength
      subst hlength
      refine ⟨offset, ?_⟩
      simp only [table, hextent]
      rfl
  | some extent =>
      have hstart : tables.start (TypedRow.table ρ) = extent.offset := by rw [start, hextent]
      have hinside (edit : Edit) (hmem : edit ∈ tables.editsOf words entries) :
          base + edit.stop ≤ image.size := by
        obtain ⟨own, hown, -, hstop⟩ := hshows.editsOf_inside h hmem
        have := (h.extent_bounds hown).2.1
        omega
      have hrows : Emit.lift (tables.rows ρ) ⟨image, offset⟩ = .ok entries ⟨image, offset⟩ := by
        rw [h.rows_eq_ok.mpr hshows]
        rfl
      obtain ⟨stop, hpatched⟩ := foldlM_row entries 0 hinside
      rw [hstart, Nat.zero_add] at hpatched
      refine ⟨stop, ?_⟩
      simp only [table, hextent]
      rw [EStateM.bind_of_ok hrows, hpatched, editsOf, hstart]

end Rows

theorem apply_of_small (hsmall : image.size < base + tables.data.size) :
    apply base tables words ⟨image, offset⟩ = .error .outOfBounds ⟨image, offset⟩ := by
  simp only [apply, bind, EStateM.bind, Emit.size, hsmall, ↓reduceIte]
  rfl

theorem apply_of_room (hroom : base + tables.data.size ≤ image.size) :
    apply base tables words ⟨image, offset⟩ = (do
      let types ← table TypeRow base tables words
      let methods ← table MethodRow base tables words
      let fields ← table FieldRow base tables words
      pure (types + methods + fields)) ⟨image, offset⟩ := by
  have hlarge : ¬ image.size < base + tables.data.size := by omega
  simp only [apply, bind, EStateM.bind, Emit.size, hlarge, ↓reduceIte]

/-- The whole patch, where all rows can be read. -/
theorem apply_of_worded (h : Accepted data tables) (rows : Worded tables)
    (hroom : base + data.size ≤ image.size) :
    ∃ stop, apply base tables words ⟨image, offset⟩ =
      .ok (rows.edits words).length
        ⟨image.revise ((rows.edits words).map (Edit.shift base)), stop⟩ := by
  have hdata := h.data_eq
  let afterTypes := image.revise ((tables.editsOf words rows.types).map (Edit.shift base))
  let afterMethods :=
    afterTypes.revise ((tables.editsOf words rows.methods).map (Edit.shift base))
  obtain ⟨first, htypes⟩ : ∃ stop, table TypeRow base tables words ⟨image, offset⟩ =
      .ok (tables.editsOf words rows.types).length ⟨afterTypes, stop⟩ :=
    table_of_shows h rows.shows_types hroom
  obtain ⟨second, hmethods⟩ : ∃ stop, table MethodRow base tables words ⟨afterTypes, first⟩ =
      .ok (tables.editsOf words rows.methods).length ⟨afterMethods, stop⟩ :=
    table_of_shows h rows.shows_methods (by simpa [afterTypes] using hroom)
  obtain ⟨third, hfields⟩ : ∃ stop, table FieldRow base tables words ⟨afterMethods, second⟩ =
      .ok (tables.editsOf words rows.fields).length
        ⟨afterMethods.revise ((tables.editsOf words rows.fields).map (Edit.shift base)), stop⟩ :=
    table_of_shows h rows.shows_fields (by simpa [afterMethods, afterTypes] using hroom)
  refine ⟨third, ?_⟩
  rw [apply_of_room (by rw [hdata]; exact hroom), EStateM.bind_of_ok htypes,
    EStateM.bind_of_ok hmethods, EStateM.bind_of_ok hfields]
  simp only [Worded.edits, List.length_append, List.map_append, Bytes.revise_append,
    ← Nat.add_assoc]
  rfl

/-- A patch that fails leaves the image as it was. -/
theorem apply_of_fault (h : Accepted data tables) {fault : Fault}
    (hfault : tables.rows TypeRow = .error fault)
    (hroom : base + data.size ≤ image.size) :
    apply base tables words ⟨image, offset⟩ = .error fault ⟨image, offset⟩ := by
  rw [apply_of_room (h.data_eq.symm ▸ hroom)]
  exact EStateM.bind_of_error (table_of_fault hfault _)

end Patch

end Unveil
