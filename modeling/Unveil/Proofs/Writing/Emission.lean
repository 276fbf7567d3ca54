import Unveil.Proofs.Table.GenericRow
import Unveil.Proofs.Writing.Rewording
import Unveil.Writing.Emission

/-!
What a stream laid out anew looks like: the source with the edits of its rows
made. Every part of the writer, from the header to the padding, puts down what
the edited source has in that place, and comes out where the next part starts;
so none of the checks between the parts ever fails. The one thing that can stop
the writer is a row that cannot be read.
-/

namespace Unveil

namespace Emission

open Emit TablesStream

variable {data goal : Bytes} {tables : TablesStream} {words : AttributeWords}

/-- A number that was read from a place where the goal is as the data. -/
theorem copies_read {start width value limit : Nat} (hsize : goal.size = data.size)
    (hagree : Bytes.Agree goal data 0 limit) (hlimit : start + width ≤ limit)
    (hroom : limit ≤ data.size) (hvalue : data.number start width = value) :
    Copies goal (Emit.number width value) start (start + width) () := by
  refine copies_number (by omega) ?_
  rw [← hvalue]
  exact Bytes.number_congr (hagree.mono (Nat.zero_le _) hlimit)

theorem copies_counts (h : Accepted data tables) (hsize : goal.size = data.size)
    (hagree : Bytes.Agree goal data 0 tables.headerSize) :
    Copies goal (tables.extents.forM fun (_, extent) => Emit.number 4 extent.rows) 24
      (24 + 4 * tables.extents.length) () := by
  refine copies_forM (fun k => 24 + 4 * k) ?_
  rintro k ⟨table, extent⟩ hk
  have hlt := (List.getElem?_eq_some_iff.mp hk).1
  have hheader := h.counts_le_headerSize
  have hcopied : Copies goal (Emit.number 4 extent.rows) (24 + 4 * k) (24 + 4 * k + 4) () :=
    copies_read hsize hagree (by omega) h.headerSize_le (h.rows_eq hk).symm
  exact hcopied

/-- The header is written as it was read. -/
theorem copies_header (h : Accepted data tables) (hsize : goal.size = data.size)
    (hagree : Bytes.Agree goal data 0 tables.headerSize) :
    Copies goal (header tables) 0 tables.headerSize () := by
  have hheader := h.counts_le_headerSize
  have hfit := h.headerSize_le
  have hmajor : data.number 4 1 = tables.major.toNat := by
    rw [← h.major_eq, UInt8.toNat_ofNat']
    exact (Nat.mod_eq_of_lt (Bytes.number_lt data 4 1)).symm
  have hminor : data.number 5 1 = tables.minor.toNat := by
    rw [← h.minor_eq, UInt8.toNat_ofNat']
    exact (Nat.mod_eq_of_lt (Bytes.number_lt data 5 1)).symm
  have hflags : data.number 6 1 = tables.heapFlags.toNat := by
    rw [← h.heapFlags_eq, UInt8.toNat_ofNat']
    exact (Nat.mod_eq_of_lt (Bytes.number_lt data 6 1)).symm
  have hmask : data.number 8 8 = tables.mask.toNat := by
    rw [← h.mask_eq, UInt64.toNat_ofNat']
    exact (Nat.mod_eq_of_lt (Bytes.number_lt data 8 8)).symm
  have hsorted : data.number 16 8 = tables.sorted.toNat := by
    rw [← h.sorted_eq, UInt64.toNat_ofNat']
    exact (Nat.mod_eq_of_lt (Bytes.number_lt data 16 8)).symm
  have hread {start width value : Nat} (hplace : start + width ≤ tables.headerSize)
      (hvalue : data.number start width = value) :
      Copies goal (Emit.number width value) start (start + width) () :=
    copies_read hsize hagree hplace hfit hvalue
  have hcheck : Copies goal
      (do
        let found ← Emit.position
        if found ≠ tables.headerSize then
          throw (.malformed (.headerSize found tables.headerSize)))
      tables.headerSize tables.headerSize () := by
    refine copies_position.bind ?_
    simp only [ne_eq, not_true_eq_false, ↓reduceIte]
    exact copies_pure ()
  unfold header
  rw [h.data_eq]
  refine (hread (by omega) rfl).bind <| (hread (by omega) hmajor).bind <|
    (hread (by omega) hminor).bind <| (hread (by omega) hflags).bind <|
    (hread (by omega) rfl).bind <| (hread (by omega) hmask).bind <|
    (hread (by omega) hsorted).bind <| (copies_counts h hsize hagree).bind ?_
  rcases h.header_cases with ⟨hextra, hend⟩ | ⟨hextra, hend, -⟩
  · rw [← hend]
    simp only [hextra]
    exact hcheck
  · have hword : data.number (24 + 4 * tables.extents.length) 4 =
        (UInt32.ofNat (data.number (24 + 4 * tables.extents.length) 4)).toNat :=
      (Bytes.toNat_ofNat_number data _ (Nat.le_refl 4)).symm
    have hcopied := hread (by omega) hword
    rw [← hend] at hcopied
    simp only [hextra]
    exact hcopied.bind hcheck

variable {table : TableId} {extent : Extent}

/-- A table whose bytes no edit reaches is carried over. -/
theorem copies_plainTable (h : Accepted data tables) (hsize : goal.size = data.size)
    (hextent : tables.extent? table = some extent)
    (hagree : Bytes.Agree goal data extent.offset (extent.offset + extent.size)) :
    Copies goal (plainTable tables table) extent.offset (extent.offset + extent.size) 0 := by
  obtain ⟨-, hstop, hrowSize⟩ := h.extent_bounds hextent
  have hwhole : extent.size = extent.rows * tables.sizes.rowSize table := by
    rw [Extent.size, hrowSize, Nat.mul_comm]
  have hrow (k : Nat) (hk : k < extent.rows) :
      k * tables.sizes.rowSize table + tables.sizes.rowSize table ≤ extent.size := by
    have : (k + 1) * tables.sizes.rowSize table ≤ extent.rows * tables.sizes.rowSize table :=
      Nat.mul_le_mul_right _ hk
    rw [Nat.add_mul, Nat.one_mul] at this
    omega
  have hcopied : Copies goal
      (((List.range' 1 extent.rows).map fun rid => (⟨table, rid, Column.valuesAt tables.sizes
        tables.data table.columns
          (extent.offset + (rid - 1) * tables.sizes.rowSize table)⟩ : GenericRow)).forM
        fun row => row.emit tables.sizes) (extent.offset + 0 * tables.sizes.rowSize table) _ () :=
    copies_forM (fun k => extent.offset + k * tables.sizes.rowSize table) <| by
      intro k row hk
      rw [List.getElem?_map, Option.map_eq_some_iff] at hk
      obtain ⟨rid, hrid, rfl⟩ := hk
      obtain ⟨hlt, hrid⟩ := List.getElem?_eq_some_iff.mp hrid
      rw [List.length_range'] at hlt
      rw [List.getElem_range', Nat.one_mul] at hrid
      subst hrid
      have hinside := hrow k hlt
      have hvalues : Column.valuesAt tables.sizes tables.data table.columns
          (extent.offset + k * tables.sizes.rowSize table) =
          Column.valuesAt tables.sizes goal table.columns
            (extent.offset + k * tables.sizes.rowSize table) := by
        rw [h.data_eq]
        refine (Column.valuesAt_congr (hagree.mono (by omega) ?_)).symm
        change _ + tables.sizes.rowSize table ≤ _
        omega
      rw [Nat.add_sub_cancel_left, hvalues, Nat.add_mul k 1, Nat.one_mul, ← Nat.add_assoc]
      exact GenericRow.copies_emit (by omega)
  simp only [Nat.zero_mul, Nat.add_zero, List.length_map, List.length_range', ← hwhole]
    at hcopied
  exact (copies_lift (h.genericRows_eq hextent)).bind (hcopied.bind (copies_pure 0))

section Worded

variable {ρ : Type} [WordedRow ρ] {entries : List (Entry ρ)} {edits : List Edit}

theorem wordedRow_eq (changed : Nat) (entry : Entry ρ) :
    wordedRow tables words changed entry = (do
      TypedRow.emit tables.sizes (entry.reworded words)
      pure (changed + (entry.edit? (tables.start (TypedRow.table ρ)) words).toList.length)) := by
  unfold wordedRow Entry.reworded Entry.edit?
  cases entry.changedWord? words with
  | none => rfl
  | some word => rfl

/-- A table with attribute words is written with its new ones. -/
theorem copies_wordedTable [WordedSchema ρ] (h : Accepted data tables) (hshows : tables.Shows entries)
    (hextent : tables.extent? (TypedRow.table ρ) = some extent)
    (hcovers : tables.Covers words entries edits) (hapart : edits.Pairwise Edit.Apart) :
    Copies (data.revise edits) (wordedTable ρ tables words) extent.offset
      (extent.offset + extent.size) (tables.editsOf words entries).length := by
  obtain ⟨-, hstop, hrowSize⟩ := h.extent_bounds hextent
  have hstart : tables.start (TypedRow.table ρ) = extent.offset := by rw [start, hextent]
  have hlength : entries.length = extent.rows :=
    hshows.length_eq.trans (Accepted.rowCount_of_extent hextent)
  have hwhole : extent.size = extent.rows * tables.sizes.rowSize (TypedRow.table ρ) := by
    rw [Extent.size, hrowSize, Nat.mul_comm]
  have hcopied : Copies (data.revise edits) (entries.foldlM (wordedRow tables words) 0)
      (extent.offset + 0 * tables.sizes.rowSize (TypedRow.table ρ)) _
      (tables.editsOf words (entries.take entries.length)).length :=
    copies_foldlM (fun k => extent.offset + k * tables.sizes.rowSize (TypedRow.table ρ))
      (fun k => (tables.editsOf words (entries.take k)).length) <| by
      intro k entry hk
      obtain ⟨-, hoffset, -⟩ := hshows.row_eq k entry hk
      have hrow := hcovers.rowAt_revise h hshows hapart hk
      have hroom := (h.rowPlace_bounds (hshows.place_eq h hk)).2
      -- The running count is the number of edits among the rows so far.
      have hcount : (tables.editsOf words (entries.take (k + 1))).length =
          (tables.editsOf words (entries.take k)).length +
            (entry.edit? (tables.start (TypedRow.table ρ)) words).toList.length := by
        rw [List.take_add_one, hk, editsOf, List.filterMap_append, List.length_append, editsOf]
        cases hedit : entry.edit? (tables.start (TypedRow.table ρ)) words with
        | none => simp [hedit]
        | some edit => simp [hedit]
      rw [hstart, hoffset] at hrow hroom
      rw [wordedRow_eq, hcount, Nat.add_mul, Nat.one_mul, ← Nat.add_assoc]
      exact (Schema.copies_emit (by simpa using hroom) hrow).bind (copies_pure _)
  rw [List.take_length, Nat.zero_mul, Nat.add_zero, hlength, ← hwhole] at hcopied
  exact (copies_lift (h.rows_eq_ok.mpr hshows)).bind hcopied

end Worded

def changedIn (rows : Worded tables) (words : AttributeWords) : TableId → Nat
  | .typeDef => (tables.editsOf words rows.types).length
  | .methodDef => (tables.editsOf words rows.methods).length
  | .field => (tables.editsOf words rows.fields).length
  | _ => 0

theorem changedIn_plain (rows : Worded tables) (htype : table ≠ .typeDef)
    (hmethod : table ≠ .methodDef) (hfield : table ≠ .field) :
    changedIn rows words table = 0 := by
  cases table with
  | typeDef => exact absurd rfl htype
  | methodDef => exact absurd rfl hmethod
  | field => exact absurd rfl hfield
  | _ => rfl

theorem tableRows_plain (htype : table ≠ .typeDef) (hmethod : table ≠ .methodDef)
    (hfield : table ≠ .field) : tableRows tables words table = plainTable tables table := by
  cases table with
  | typeDef => exact absurd rfl htype
  | methodDef => exact absurd rfl hmethod
  | field => exact absurd rfl hfield
  | _ => rfl

theorem copies_tableRows (h : Accepted data tables) (rows : Worded tables)
    (hextent : tables.extent? table = some extent) :
    Copies (data.revise (rows.edits words)) (tableRows tables words table) extent.offset
      (extent.offset + extent.size) (changedIn rows words table) := by
  have hapart := rows.pairwise_edits words h
  by_cases htype : table = .typeDef
  · subst htype
    exact copies_wordedTable h rows.shows_types hextent (rows.covers_types words h) hapart
  by_cases hmethod : table = .methodDef
  · subst hmethod
    exact copies_wordedTable h rows.shows_methods hextent (rows.covers_methods words h) hapart
  by_cases hfield : table = .field
  · subst hfield
    exact copies_wordedTable h rows.shows_fields hextent (rows.covers_fields words h) hapart
  · rw [changedIn_plain rows htype hmethod hfield, tableRows_plain htype hmethod hfield]
    refine copies_plainTable h (by simp) hextent (Bytes.agree_revise fun edit hmem => ?_)
    exact (rows.spares_plain words h htype hmethod hfield hmem extent hextent).symm

theorem copies_placedTable {changed : Nat}
    (hrows : Copies goal (tableRows tables words table) extent.offset
      (extent.offset + extent.size) changed) :
    Copies goal (placedTable tables words table extent) extent.offset
      (extent.offset + extent.size) changed := by
  refine copies_position.bind (hrows.bind (copies_position.bind ?_))
  simp only [ne_eq, not_true_eq_false, Nat.add_sub_cancel_left, or_self, ↓reduceIte]
  exact copies_pure changed

theorem copies_padding {stop : Nat} (hdata : tables.data = data) (hsize : goal.size = data.size)
    (hstop : stop ≤ data.size) (hagree : Bytes.Agree goal data stop data.size) :
    Copies goal (padding tables) stop goal.size () := by
  have hrest : tables.data.rest stop = .ok (data.extract stop data.size) := by
    rw [hdata]
    exact Bytes.rest_eq_ok.mpr ⟨hstop, rfl⟩
  have hlength : (data.extract stop data.size).size = data.size - stop := by simp
  have hcopied : Copies goal (Emit.bytes (data.extract stop data.size)) stop
      (stop + (data.extract stop data.size).size) () := by
    refine copies_bytes (by omega) ?_
    intro k hk
    rw [Bytes.getD_extract (Nat.le_refl _) (by omega)]
    exact (hagree (stop + k) (by omega) (by omega)).symm
  have hend : stop + (data.extract stop data.size).size = goal.size := by omega
  rw [hend] at hcopied
  exact copies_position.bind ((copies_lift hrest).bind hcopied)

/-- A sum over the tables that are there, of what the others add nothing to. -/
theorem total_present {mask : UInt64} {weight : TableId → Nat}
    (hzero : ∀ table, table ∉ Sizes.present mask → weight table = 0) :
    total ((Sizes.present mask).map weight) = total (TableId.all.map weight) := by
  have hfilter (tables : List TableId)
      (hnone : ∀ table ∈ tables, mask.toNat.testBit table.number = false → weight table = 0) :
      total ((tables.filter fun table => mask.toNat.testBit table.number).map weight) =
        total (tables.map weight) := by
    induction tables with
    | nil => rfl
    | cons table tables ih =>
        have hothers := ih fun other hother => hnone other (by simp [hother])
        by_cases hmarked : mask.toNat.testBit table.number = true
        · simp only [List.filter_cons, hmarked, ↓reduceIte, List.map_cons, total_cons, hothers]
        · have hthis := hnone table (by simp) (by simpa using hmarked)
          simp only [List.filter_cons, hmarked, Bool.false_eq_true, ↓reduceIte, List.map_cons,
            total_cons, hothers, hthis, Nat.zero_add]
  refine hfilter TableId.all fun table _ hunmarked => hzero table ?_
  simp [Sizes.present, hunmarked]

theorem editsOf_absent {ρ : Type} [WordedRow ρ] [Schema ρ] {entries : List (Entry ρ)}
    (hshows : tables.Shows entries) (habsent : tables.extent? (TypedRow.table ρ) = none) :
    tables.editsOf words entries = [] := by
  have hlength := hshows.length_eq
  simp only [rowCount, habsent, List.length_eq_zero_iff] at hlength
  rw [hlength]
  rfl

theorem total_changedIn (h : Accepted data tables) (rows : Worded tables) :
    total (tables.extents.map fun (table, _) => changedIn rows words table) =
      (rows.edits words).length := by
  have hkeys : (tables.extents.map fun (table, _) => changedIn rows words table) =
      (Sizes.present tables.mask).map (changedIn rows words) := by
    rw [← h.keys_eq, List.map_map]
    rfl
  have hzero (table : TableId) (hmissing : table ∉ Sizes.present tables.mask) :
      changedIn rows words table = 0 := by
    have habsent : tables.extent? table = none := by
      rw [extent?, List.lookup_eq_none_iff]
      intro entry hentry
      rw [← h.keys_eq] at hmissing
      have hdiffers : table ≠ entry.1 := by
        rintro rfl
        exact hmissing (List.mem_map_of_mem hentry)
      simpa using hdiffers
    by_cases htype : table = .typeDef
    · subst htype
      exact congrArg List.length (editsOf_absent rows.shows_types habsent)
    by_cases hmethod : table = .methodDef
    · subst hmethod
      exact congrArg List.length (editsOf_absent rows.shows_methods habsent)
    by_cases hfield : table = .field
    · subst hfield
      exact congrArg List.length (editsOf_absent rows.shows_fields habsent)
    · exact changedIn_plain rows htype hmethod hfield
  rw [hkeys, total_present hzero]
  simp only [TableId.all, List.map_cons, List.map_nil, total_cons, total_nil, changedIn,
    Worded.edits, List.length_append]
  omega

theorem reach_length_le (h : Accepted data tables) :
    tables.reach tables.extents.length ≤ data.size := by
  cases hlast : tables.extents.length with
  | zero =>
      have hempty : tables.reach 0 = tables.headerSize := by
        simp [reach, reachFrom]
      rw [hempty]
      exact h.headerSize_le
  | succ last =>
      have hlt : last < tables.extents.length := by omega
      exact h.reach_le (List.getElem?_eq_getElem hlt)

/-- The whole stream is written as its source with the edits made. -/
theorem emit_of_worded (h : Accepted data tables) (rows : Worded tables) (words : AttributeWords) :
    emit tables words = .ok ((rows.edits words).length, data.revise (rows.edits words)) := by
  have hsize : (data.revise (rows.edits words)).size = data.size := by simp
  have hheader : Bytes.Agree (data.revise (rows.edits words)) data 0 tables.headerSize := by
    refine Bytes.agree_revise fun edit hmem => Or.inl ?_
    obtain ⟨table, extent, hextent, hstart, -⟩ := rows.edit_bounds words h hmem
    exact Nat.le_trans (h.extent_bounds hextent).1 hstart
  have htables : Copies (data.revise (rows.edits words))
      (tables.extents.foldlM (fun changed (table, extent) => do
        pure (changed + (← placedTable tables words table extent))) 0)
      (tables.reach 0) (tables.reach tables.extents.length)
      (total ((tables.extents.take tables.extents.length).map fun (table, _) =>
        changedIn rows words table)) :=
    copies_foldlM tables.reach
      (fun k => total ((tables.extents.take k).map fun (table, _) =>
        changedIn rows words table)) <| by
      rintro k ⟨table, extent⟩ hk
      have hplaced : Copies (data.revise (rows.edits words))
          (placedTable tables words table extent) extent.offset (extent.offset + extent.size) _ :=
        copies_placedTable (copies_tableRows h rows (h.extent?_eq hk))
      have hoffset : extent.offset = tables.reach k := by rw [h.extent_eq hk]
      rw [List.take_add_one, hk, List.map_append, total_append, Accepted.reach_succ hk,
        ← hoffset]
      exact hplaced.bind (copies_pure _)
  have hpadding : Bytes.Agree (data.revise (rows.edits words)) data
      (tables.reach tables.extents.length) data.size := by
    refine Bytes.agree_revise fun edit hmem => Or.inr ?_
    obtain ⟨table, extent, hextent, -, hstop⟩ := rows.edit_bounds words h hmem
    obtain ⟨k, hk⟩ := Accepted.mem_extents hextent
    have hoffset : extent.offset = tables.reach k := by rw [h.extent_eq hk]
    have hlast : tables.reach (k + 1) ≤ tables.reach tables.extents.length :=
      reachFrom_mono (List.getElem?_eq_some_iff.mp hk).1
    have hnext := Accepted.reach_succ hk
    omega
  have hfirst : tables.reach 0 = tables.headerSize := by simp [reach, reachFrom]
  rw [List.take_length, total_changedIn h rows, hfirst] at htables
  have hstream : Copies (data.revise (rows.edits words)) (stream tables words) 0
      (data.revise (rows.edits words)).size (rows.edits words).length :=
    (copies_header h hsize hheader).bind <| htables.bind <|
      (copies_padding h.data_eq hsize (reach_length_le h) hpadding).bind (copies_pure _)
  have hfilled := Copies.fill hstream
  rw [hsize] at hfilled
  rw [emit, h.data_eq]
  exact hfilled

/-- Tables before that of the types are of neither kind with attribute words. -/
theorem plain_before_types (h : Accepted data tables) {j k : Nat} {extent' : Extent}
    (hj : tables.extents[j]? = some (table, extent))
    (hk : tables.extents[k]? = some (.typeDef, extent')) (hlt : j < k) :
    table ≠ .typeDef ∧ table ≠ .methodDef ∧ table ≠ .field := by
  have hsorted : (Sizes.present tables.mask).Pairwise fun a b => a.number < b.number :=
    List.Pairwise.filter _ (by decide)
  rw [← h.keys_eq, List.pairwise_map, List.pairwise_iff_getElem] at hsorted
  obtain ⟨hj', hj⟩ := List.getElem?_eq_some_iff.mp hj
  obtain ⟨hk', hk⟩ := List.getElem?_eq_some_iff.mp hk
  have hbefore := hsorted j k hj' hk' hlt
  simp only [hj, hk] at hbefore
  refine ⟨?_, ?_, ?_⟩
  · rintro rfl
    exact absurd hbefore (by decide)
  · rintro rfl
    exact absurd hbefore (by decide)
  · rintro rfl
    exact absurd hbefore (by decide)

/-- Type rows that cannot be read stop the writer with their fault. -/
theorem emit_of_fault (h : Accepted data tables) {fault : Fault}
    (hfault : tables.rows TypeRow = .error fault) : emit tables words = .error fault := by
  have hagree (start stop : Nat) : Bytes.Agree data data start stop := .refl data start stop
  cases hextent : tables.extent? .typeDef with
  | none =>
      rw [Accepted.rows_of_absent hextent] at hfault
      cases hfault
  | some extent =>
      obtain ⟨k, hk⟩ := Accepted.mem_extents hextent
      have htypes : Fails data (placedTable tables words .typeDef extent) (tables.reach k) fault :=
        copies_position.bind_fails (fails_lift hfault).bind.bind
      have htables : Fails data
          (tables.extents.foldlM (fun changed (table, extent) => do
            pure (changed + (← placedTable tables words table extent))) 0)
          (tables.reach 0) fault := by
        refine fails_foldlM tables.reach (fun _ => 0) ?_ hk htypes.bind
        rintro j ⟨table, extent⟩ hlt hj
        obtain ⟨htype, hmethod, hfield⟩ := plain_before_types h hj hk hlt
        have hrows : Copies data (tableRows tables words table) extent.offset
            (extent.offset + extent.size) 0 := by
          rw [tableRows_plain htype hmethod hfield]
          exact copies_plainTable h rfl (h.extent?_eq hj) (hagree _ _)
        have hoffset : extent.offset = tables.reach j := by rw [h.extent_eq hj]
        rw [Accepted.reach_succ hj, ← hoffset]
        exact (copies_placedTable hrows).bind (copies_pure _)
      have hfirst : tables.reach 0 = tables.headerSize := by simp [reach, reachFrom]
      rw [hfirst] at htables
      rw [emit, h.data_eq]
      exact ((copies_header h rfl (hagree _ _)).bind_fails htables.bind).fill

end Emission

end Unveil
