import Unveil.Proofs.Table.Rows

namespace Unveil

theorem Sizes.countsAt_congr {data data' : Bytes} {tables : List TableId} {offset : Nat}
    (hagree : Bytes.Agree data' data offset (offset + 4 * tables.length)) :
    countsAt data' tables offset = countsAt data tables offset := by
  induction tables generalizing offset with
  | nil => rfl
  | cons table tables ih =>
      simp only [List.length_cons] at hagree
      have hfirst : data'.number offset 4 = data.number offset 4 :=
        Bytes.number_congr (hagree.mono (Nat.le_refl _) (by omega))
      have hothers : countsAt data' tables (offset + 4) = countsAt data tables (offset + 4) :=
        ih (hagree.mono (by omega) (by omega))
      simp only [countsAt, hfirst, hothers]

namespace TablesStream

/-- The stream with other data under it. -/
def withData (tables : TablesStream) (data : Bytes) : TablesStream := { tables with data }

@[simp] theorem data_withData (tables : TablesStream) (data : Bytes) :
    (tables.withData data).data = data := rfl

@[simp] theorem sizes_withData (tables : TablesStream) (data : Bytes) :
    (tables.withData data).sizes = tables.sizes := rfl

@[simp] theorem rowPlace?_withData (tables : TablesStream) (data : Bytes) (table : TableId)
    (rid : Nat) :
    (tables.withData data).rowPlace? table rid = tables.rowPlace? table rid := rfl

@[simp] theorem rowCount_withData (tables : TablesStream) (data : Bytes) (table : TableId) :
    (tables.withData data).rowCount table = tables.rowCount table := rfl

variable {data data' : Bytes} {tables : TablesStream}

/-- Only the header decides how a stream is read, and in it not the reserved
bytes. -/
theorem Accepted.withData (h : Accepted data tables) (hsize : data'.size = data.size)
    (hagree : ∀ k, k < tables.headerSize → 4 ≤ k ∧ k ≠ 7 → data'.getD k 0 = data.getD k 0) :
    Accepted data' (tables.withData data') := by
  have hcounts := h.counts_le_headerSize
  have hnumber {start width : Nat} (hroom : start + width ≤ tables.headerSize)
      (hread : 4 ≤ start ∧ (start + width ≤ 7 ∨ 8 ≤ start)) :
      data'.number start width = data.number start width :=
    Bytes.number_congr fun k hlow hhigh => hagree k (by omega) (by omega)
  have hpresent : (Sizes.present tables.mask).length = tables.extents.length := by
    rw [← h.keys_eq, List.length_map]
  obtain ⟨hroom, hsizes⟩ := (Sizes.read_eq_ok h.long).mp h.sizes_eq
  refine {
    data_eq := rfl
    long := hsize ▸ h.long
    mask_eq := by rw [hnumber (by omega) (by omega)]; exact h.mask_eq
    mask_ne := h.mask_ne
    known := h.known
    heapFlags_eq := by rw [hnumber (by omega) (by omega)]; exact h.heapFlags_eq
    sizes_eq := ?_
    extra_eq := ?_
    extents_eq := by rw [hsize]; exact h.extents_eq
    major_eq := by rw [hnumber (by omega) (by omega)]; exact h.major_eq
    minor_eq := by rw [hnumber (by omega) (by omega)]; exact h.minor_eq
    sorted_eq := by rw [hnumber (by omega) (by omega)]; exact h.sorted_eq }
  · refine (Sizes.read_eq_ok (hsize ▸ h.long)).mpr ⟨hsize ▸ hroom, ?_⟩
    have hagree' : Bytes.Agree data' data 24 (24 + 4 * (Sizes.present tables.mask).length) :=
      fun k hlow hhigh => hagree k (by omega) (by omega)
    change Sizes.ofCounts (fun table =>
      (Sizes.countsAt data' (Sizes.present tables.mask) 24).lookup table) _ = _
    rw [hnumber (by omega) (by omega), Sizes.countsAt_congr hagree']
    exact hsizes
  · have hextra := h.extra_eq
    change scanExtra data' tables.heapFlags (24 + 4 * bitCount tables.mask) =
      .ok (tables.extra, tables.headerSize)
    unfold scanExtra at hextra ⊢
    split at hextra
    · rename_i hflag
      rw [if_pos hflag]
      simp only [Except.bind_eq_ok, demand_eq_ok, exists_const, Scan.u32, Scan.exists_valueInside,
        Except.pure_eq_ok] at hextra ⊢
      obtain ⟨hfit, hfit', hresult⟩ := hextra
      have hend : 24 + 4 * bitCount tables.mask + 4 = tables.headerSize := congrArg Prod.snd hresult
      rw [hsize, hnumber (by omega) (by omega)]
      exact ⟨hfit, hfit', hresult⟩
    · rename_i hflag
      rw [if_neg hflag]
      exact hextra

variable {ρ : Type} [TypedRow ρ] [Schema ρ] {entries : List (Entry ρ)}

/-- A table has the rows that its own bytes hold. -/
theorem Shows.withData (h : Accepted data tables) (hshows : tables.Shows entries)
    (hagree : ∀ extent, tables.extent? (TypedRow.table ρ) = some extent →
      Bytes.Agree data' data extent.offset (extent.offset + extent.size)) :
    (tables.withData data').Shows entries where
  length_eq := hshows.length_eq
  row_eq k entry hk := by
    obtain ⟨hrid, hoffset, place, hplace, hrow⟩ := hshows.row_eq k entry hk
    refine ⟨hrid, hoffset, place, hplace, ?_⟩
    obtain ⟨extent, hextent, hfirst, hlast, rfl⟩ := h.rowPlace?_eq_some.mp hplace
    have hrows : (k + 1) * tables.sizes.rowSize (TypedRow.table ρ) ≤
        extent.rows * tables.sizes.rowSize (TypedRow.table ρ) := Nat.mul_le_mul_right _ hlast
    rw [Nat.add_mul, Nat.one_mul] at hrows
    have hsame := hagree extent hextent
    rw [Extent.size, (h.extent_bounds hextent).2.2, Nat.mul_comm] at hsame
    rw [Nat.add_sub_cancel] at hrow ⊢
    rw [h.data_eq] at hrow
    have hplaces : Bytes.Agree data' data
        (extent.offset + k * tables.sizes.rowSize (TypedRow.table ρ))
        (extent.offset + k * tables.sizes.rowSize (TypedRow.table ρ) +
          tables.sizes.rowSize (TypedRow.table ρ)) :=
      hsame.mono (Nat.le_add_right ..) (by omega)
    rw [Schema.rowAt, sizes_withData, data_withData, Column.valuesAt_congr hplaces]
    exact hrow

end TablesStream

end Unveil
