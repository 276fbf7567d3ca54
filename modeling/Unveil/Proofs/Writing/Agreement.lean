import Unveil.Proofs.Module.Framing
import Unveil.Proofs.Table.Typed
import Unveil.Proofs.Writing.Emission
import Unveil.Proofs.Writing.Patch
import Unveil.Tally
import Unveil.Writing.Module

/-!
The two ways to write new attribute words agree. Laying the stream out anew and
changing it in place both make the same edits, and both are stopped by the same
thing, a type row whose base has a tag of no table. Nothing else that the
writers check can fail on a stream that was read.
-/

namespace Unveil

namespace TablesStream

variable {data : Bytes} {tables : TablesStream}

/-- Every type extends a row of some table: the tag of its base is one of the
three that stand for one. -/
def ExtendsValid (tables : TablesStream) : Prop :=
  ∀ rid place, tables.rowPlace? .typeDef rid = some place →
    tables.data.number (place + 4 + 2 * tables.sizes.stringWidth)
      (tables.sizes.codedWidth .typeDefOrRef) % 4 < 3

/-- No word that is given for a row of the table differs from the one there. -/
def Keeps (ρ : Type) [WordedRow ρ] (tables : TablesStream) (words : AttributeWords) : Prop :=
  ∀ rid place, tables.rowPlace? (TypedRow.table ρ) rid = some place →
    ∀ word, WordedRow.newWord? ρ words rid = some word →
      word.toNat = tables.data.number (place + WordedRow.wordOffset ρ) (WordedRow.wordWidth ρ)

/-- A type row is read exactly if its base is. -/
theorem typeRow_cases (sizes : Sizes) (data : Bytes) (place : Nat) :
    (data.number (place + 4 + 2 * sizes.stringWidth) (sizes.codedWidth .typeDefOrRef) % 4 < 3 ∧
      ∃ row, Schema.rowAt TypeRow sizes data place = .ok row) ∨
    (¬ data.number (place + 4 + 2 * sizes.stringWidth) (sizes.codedWidth .typeDefOrRef) % 4 < 3 ∧
      Schema.rowAt TypeRow sizes data place = .error .outOfBounds) := by
  have hplace : place + 4 + 2 * sizes.stringWidth =
      place + 4 + sizes.stringWidth + sizes.stringWidth := by omega
  have hrow : Schema.rowAt TypeRow sizes data place = (do
      let base ← CodedIndex.decode .typeDefOrRef (UInt32.ofNat
        (data.number (place + 4 + sizes.stringWidth + sizes.stringWidth)
          (sizes.codedWidth .typeDefOrRef)))
      pure (TypeRow.mk _ _ _ base _ _)) := rfl
  have hdecode := CodedIndex.decode_typeDefOrRef (UInt32.ofNat
    (data.number (place + 4 + sizes.stringWidth + sizes.stringWidth)
      (sizes.codedWidth .typeDefOrRef)))
  have hwidth : sizes.codedWidth .typeDefOrRef ≤ 4 :=
    ((Column.coded .typeDefOrRef).width_bounds sizes).2
  rw [Bytes.toNat_ofNat_number _ _ hwidth] at hdecode
  rw [hplace, hrow]
  rcases hdecode with ⟨hvalid, index, hindex⟩ | ⟨hinvalid, hfault⟩
  · rw [hindex]
    exact Or.inl ⟨hvalid, _, rfl⟩
  · rw [hfault]
    exact Or.inr ⟨hinvalid, rfl⟩

namespace Accepted

theorem types_cases (h : Accepted data tables) :
    (tables.ExtendsValid ∧ ∃ entries, tables.rows TypeRow = .ok entries) ∨
      (¬ tables.ExtendsValid ∧ tables.rows TypeRow = .error .outOfBounds) := by
  cases hextent : tables.extent? .typeDef with
  | none =>
      refine Or.inl ⟨?_, [], rows_of_absent hextent⟩
      intro rid place hplace
      obtain ⟨extent, hsome, -⟩ := h.rowPlace?_eq_some.mp hplace
      rw [hextent] at hsome
      cases hsome
  | some extent =>
      rw [h.rows_of_extent hextent]
      have hplace (rid : Nat) (hrid : rid ∈ List.range' 1 extent.rows) :
          tables.rowPlace? .typeDef rid =
            some (extent.offset + (rid - 1) * tables.sizes.rowSize .typeDef) := by
        have hrange := List.mem_range'_1.mp hrid
        exact h.rowPlace?_eq_some.mpr ⟨extent, hextent, by omega, by omega, rfl⟩
      have hrow (rid : Nat) := typeRow_cases tables.sizes tables.data
        (extent.offset + (rid - 1) * tables.sizes.rowSize .typeDef)
      by_cases hvalid : tables.ExtendsValid
      · refine Or.inl ⟨hvalid, Except.exists_mapM ?_⟩
        intro rid hrid
        rcases hrow rid with ⟨-, row, hok⟩ | ⟨hinvalid, -⟩
        · exact ⟨_, congrArg (Except.map _) hok⟩
        · exact absurd (hvalid rid _ (hplace rid hrid)) hinvalid
      · refine Or.inr ⟨hvalid, Except.mapM_eq_error ?_ ?_⟩
        · intro rid _
          rcases hrow rid with ⟨-, row, hok⟩ | ⟨-, hfault⟩
          · exact Or.inl ⟨_, congrArg (Except.map _) hok⟩
          · exact Or.inr (congrArg (Except.map _) hfault)
        · simp only [ExtendsValid, Classical.not_forall] at hvalid
          obtain ⟨rid, place, hsome, hinvalid⟩ := hvalid
          obtain ⟨found, hfound, hfirst, hlast, rfl⟩ := h.rowPlace?_eq_some.mp hsome
          obtain rfl := Option.some.inj (hextent.symm.trans hfound)
          refine ⟨rid, List.mem_range'_1.mpr (by omega), ?_⟩
          rcases hrow rid with ⟨hvalid, -⟩ | ⟨-, hfault⟩
          · exact absurd hvalid hinvalid
          · exact congrArg (Except.map _) hfault

/-- All rows with attribute words can be read if the bases are valid. -/
theorem exists_worded (h : Accepted data tables) {types : List (Entry TypeRow)}
    (htypes : tables.rows TypeRow = .ok types) : Nonempty (Worded tables) := by
  obtain ⟨methods, hmethods⟩ := h.exists_rows (ρ := MethodRow) fun _ hlength =>
    Cellular.exists_row (by decide) hlength
  obtain ⟨fields, hfields⟩ := h.exists_rows (ρ := FieldRow) fun _ hlength =>
    Cellular.exists_row (by decide) hlength
  exact ⟨⟨types, methods, fields, h.rows_eq_ok.mp htypes, h.rows_eq_ok.mp hmethods,
    h.rows_eq_ok.mp hfields⟩⟩

end Accepted

theorem Shows.editsOf_of_keeps {ρ : Type} [WordedRow ρ] [WordedSchema ρ] {words : AttributeWords}
    {entries : List (Entry ρ)} (hshows : tables.Shows entries) (hkeeps : Keeps ρ tables words) :
    tables.editsOf words entries = [] := by
  refine List.filterMap_eq_nil_iff.mpr fun entry hmem => ?_
  obtain ⟨k, hk⟩ := List.mem_iff_getElem?.mp hmem
  obtain ⟨hrid, -, place, hplace, hrow⟩ := hshows.row_eq k entry hk
  cases hword : entry.changedWord? words with
  | none =>
      rw [Entry.edit?, hword]
      rfl
  | some word =>
      obtain ⟨hnew, hdiffers⟩ := Entry.newWord_of_changed hword
      rw [hrid] at hnew
      have hnumber := hkeeps (k + 1) place hplace word hnew
      have hread := WordedSchema.word_eq hrow
      rw [Column.getElem?_valuesAt WordedSchema.column_eq, WordedSchema.distance_eq,
        WordedSchema.width_eq, ← hnumber, UInt32.ofNat_toNat] at hread
      exact absurd (Option.some.inj hread) hdiffers

end TablesStream

open TablesStream

variable {data image : Bytes} {tables : TablesStream} {base : Nat}

/-- What laying the stream out anew comes to. -/
theorem emit_cases (h : Accepted data tables) (words : AttributeWords) :
    (tables.ExtendsValid ∧ ∃ rows : Worded tables, Emission.emit tables words =
      .ok ((rows.edits words).length, data.revise (rows.edits words))) ∨
    (¬ tables.ExtendsValid ∧ Emission.emit tables words = .error .outOfBounds) := by
  rcases h.types_cases with ⟨hvalid, types, htypes⟩ | ⟨hinvalid, hfault⟩
  · obtain ⟨rows⟩ := h.exists_worded htypes
    exact Or.inl ⟨hvalid, rows, Emission.emit_of_worded h rows words⟩
  · exact Or.inr ⟨hinvalid, Emission.emit_of_fault h hfault⟩

/-- What patching an image with room for the stream comes to. Whichever way the
rows were read, they are the same. -/
theorem patch_cases (h : Accepted data tables) (words : AttributeWords) (offset : Nat)
    (hroom : base + data.size ≤ image.size) :
    (tables.ExtendsValid ∧ ∀ rows : Worded tables, ∃ stop,
      Patch.apply base tables words ⟨image, offset⟩ = .ok (rows.edits words).length
        ⟨image.revise ((rows.edits words).map (Edit.shift base)), stop⟩) ∨
    (¬ tables.ExtendsValid ∧
      Patch.apply base tables words ⟨image, offset⟩ = .error .outOfBounds ⟨image, offset⟩) := by
  rcases h.types_cases with ⟨hvalid, -⟩ | ⟨hinvalid, hfault⟩
  · exact Or.inl ⟨hvalid, fun rows => Patch.apply_of_worded h rows hroom⟩
  · exact Or.inr ⟨hinvalid, Patch.apply_of_fault h hfault hroom⟩

/-- A patch fails for one reason only, and leaves its image as it was. -/
theorem patch_error (h : Accepted data tables) {words : AttributeWords} {offset : Nat}
    {fault : Fault} {sheet : Sheet}
    (hfault : Patch.apply base tables words ⟨image, offset⟩ = .error fault sheet) :
    fault = .outOfBounds ∧ sheet.bytes = image := by
  by_cases hroom : base + data.size ≤ image.size
  · rcases patch_cases h words offset hroom with ⟨hvalid, hpatch⟩ | ⟨-, hpatch⟩
    · rcases emit_cases h words with ⟨-, rows, -⟩ | ⟨hinvalid, -⟩
      · obtain ⟨stop, hok⟩ := hpatch rows
        rw [hok] at hfault
        cases hfault
      · exact absurd hvalid hinvalid
    · rw [hpatch] at hfault
      cases hfault
      exact ⟨rfl, rfl⟩
  · rw [Patch.apply_of_small (by rw [h.data_eq]; omega)] at hfault
    cases hfault
    exact ⟨rfl, rfl⟩

/-- The edited stream put over the image is the image with the edits made
further on. -/
theorem place_revise (h : Accepted data tables) (rows : Worded tables) (words : AttributeWords)
    (himage : image.slice base data.size = .ok data) :
    image.place base (data.revise (rows.edits words)) =
      .ok (image.revise ((rows.edits words).map (Edit.shift base))) := by
  obtain ⟨hroom, hextract⟩ := Bytes.slice_eq_ok.mp himage
  have hsame (k : Nat) (hk : k < data.size) : image.getD (base + k) 0 = data.getD k 0 := by
    rw [← hextract, Bytes.getD_extract hroom (by omega)]
  have hedits (edit : Edit) (hmem : edit ∈ rows.edits words) : edit.stop ≤ data.size := by
    obtain ⟨table, extent, hextent, -, hstop⟩ := rows.edit_bounds words h hmem
    exact Nat.le_trans hstop (h.extent_bounds hextent).2.1
  rw [Bytes.place, Bytes.overwrite_revise hsame hedits hroom]
  simp only [Bytes.size_revise, demand, hroom, ↓reduceIte]
  rfl

theorem edits_of_keeps (rows : Worded tables) {words : AttributeWords}
    (htypes : Keeps TypeRow tables words) (hmethods : Keeps MethodRow tables words)
    (hfields : Keeps FieldRow tables words) : rows.edits words = [] := by
  rw [Worded.edits, rows.shows_types.editsOf_of_keeps htypes,
    rows.shows_methods.editsOf_of_keeps hmethods, rows.shows_fields.editsOf_of_keeps hfields]
  rfl

/-- Laying a stream out anew and patching it in an image agree. Each succeeds
exactly if every type extends a row of some table, and is stopped by nothing
else. They count the same rows, and the stream put over the image is the image
patched. Without a word that differs the stream is the source, and a patch that
fails leaves its image as it was. -/
theorem emission_agrees_with_patch (htables : TablesStream.ofData data = .ok tables)
    (words : AttributeWords) (himage : image.slice base data.size = .ok data) :
    ((∃ result, Emission.emit tables words = .ok result) ↔ tables.ExtendsValid) ∧
    ((∃ result, Emit.fill (Patch.apply base tables words) image = .ok result) ↔
      tables.ExtendsValid) ∧
    (∀ fault, Emission.emit tables words = .error fault → fault = .outOfBounds) ∧
    (∀ changed stream changed' patched, Emission.emit tables words = .ok (changed, stream) →
      Emit.fill (Patch.apply base tables words) image = .ok (changed', patched) →
        changed = changed' ∧ stream.size = data.size ∧ image.place base stream = .ok patched) ∧
    (Keeps TypeRow tables words → Keeps MethodRow tables words → Keeps FieldRow tables words →
      ∀ changed stream, Emission.emit tables words = .ok (changed, stream) →
        changed = 0 ∧ stream = data) ∧
    (∀ image' base' offset fault sheet,
      Patch.apply base' tables words ⟨image', offset⟩ = .error fault sheet →
        fault = .outOfBounds ∧ sheet.bytes = image') := by
  have h := ofData_eq_ok.mp htables
  have hroom := (Bytes.slice_eq_ok.mp himage).1
  have herror : ∀ image' base' offset fault sheet,
      Patch.apply base' tables words ⟨image', offset⟩ = .error fault sheet →
        fault = .outOfBounds ∧ sheet.bytes = image' := fun _ _ _ _ _ => patch_error h
  rcases emit_cases h words with ⟨hvalid, rows, hemit⟩ | ⟨hinvalid, hemit⟩
  · obtain ⟨stop, hpatch⟩ : ∃ stop, Patch.apply base tables words ⟨image, 0⟩ =
        .ok (rows.edits words).length
          ⟨image.revise ((rows.edits words).map (Edit.shift base)), stop⟩ := by
      rcases patch_cases h words 0 hroom with ⟨-, hpatch⟩ | ⟨hinvalid, -⟩
      · exact hpatch rows
      · exact absurd hvalid hinvalid
    simp only [Emit.fill, hemit, hpatch, Except.ok.injEq, Prod.mk.injEq, exists_eq', true_iff,
      reduceCtorEq, false_implies, implies_true, true_and]
    refine ⟨hvalid, hvalid, ?_, ?_, herror⟩
    · rintro changed stream changed' patched ⟨rfl, rfl⟩ ⟨rfl, rfl⟩
      exact ⟨rfl, by simp, place_revise h rows words himage⟩
    · rintro hkeepTypes hkeepMethods hkeepFields changed stream ⟨rfl, rfl⟩
      rw [edits_of_keeps rows hkeepTypes hkeepMethods hkeepFields]
      exact ⟨rfl, rfl⟩
  · have hpatch : Patch.apply base tables words ⟨image, 0⟩ = .error .outOfBounds ⟨image, 0⟩ := by
      rcases patch_cases h words 0 hroom with ⟨hvalid, -⟩ | ⟨-, hpatch⟩
      · exact absurd hvalid hinvalid
      · exact hpatch
    simp only [Emit.fill, hemit, hpatch, hinvalid, reduceCtorEq, exists_false, iff_self,
      Except.error.injEq, false_implies, implies_true, true_and]
    exact ⟨fun fault hfault => hfault.symm, herror⟩

open Framing in
/-- The smallest module, made public, is laid out anew and patched alike. -/
theorem emission_agrees_with_patch_plain :
    ∃ tables changed stream patched, TablesStream.ofData plainStream.toArray = .ok tables ∧
      Emission.emit tables (.ofForest (plainTypes.map TypeDecl.unveil)) =
        .ok (changed, stream) ∧
      Emit.fill (Patch.apply 473 tables (.ofForest (plainTypes.map TypeDecl.unveil))) plain =
        .ok (changed, patched) ∧
      plain.place 473 stream = .ok patched := by
  have hlists := eq_ok_of_toOption plain_sound.lists_eq
  obtain ⟨tables, htables, hlists⟩ := Except.bind_eq_ok.mp hlists
  obtain ⟨typeRows, htypeRows, -⟩ := Except.bind_eq_ok.mp hlists
  have hvalid : tables.ExtendsValid := by
    rcases (ofData_eq_ok.mp htables).types_cases with ⟨hvalid, -⟩ | ⟨-, hfault⟩
    · exact hvalid
    · rw [htypeRows] at hfault
      cases hfault
  obtain ⟨hemit, hpatch, -, hagree, -⟩ := emission_agrees_with_patch htables
    (.ofForest (plainTypes.map TypeDecl.unveil)) (Sample.Sound.slice_tables plainSample)
  obtain ⟨⟨changed, stream⟩, hemitted⟩ := hemit.mpr hvalid
  obtain ⟨⟨changed', patched⟩, hpatched⟩ := hpatch.mpr hvalid
  obtain ⟨rfl, -, hplace⟩ := hagree _ _ _ _ hemitted hpatched
  exact ⟨tables, changed, stream, patched, htables, hemitted, hpatched, hplace⟩

end Unveil
