import Unveil.Proofs.Table.Header

namespace Unveil

namespace TablesStream

theorem map_number_all : TableId.all.map TableId.number = List.range TableId.count := by
  decide

/-- Where no mark is unknown, there are as many tables as marks. -/
theorem length_present {mask : UInt64} (hknown : unknownBit? mask = none) :
    (Sizes.present mask).length = bitCount mask := by
  have hall : (Sizes.present mask).length = (List.range TableId.count).countP mask.toNat.testBit := by
    rw [Sizes.present, ← List.countP_eq_length_filter, ← map_number_all, List.countP_map]
    rfl
  have hsplit : List.range 64 = List.range TableId.count ++ List.range' TableId.count 19 := by
    decide
  have hnone : (List.range' TableId.count 19).countP mask.toNat.testBit = 0 := by
    rw [List.countP_eq_zero]
    intro bit hbit
    have hrange := List.mem_range'_1.mp hbit
    have hunmarked := List.find?_eq_none.mp hknown bit (by simp [TableId.count] at *; omega)
    simpa [hrange.1] using hunmarked
  rw [bitCount, hsplit, List.countP_append, hnone, hall, Nat.add_zero]

/-- The place behind the first `k` of some tables that start at `offset`. -/
def reachFrom (offset : Nat) (extents : List (TableId × Extent)) (k : Nat) : Nat :=
  offset + total ((extents.take k).map fun (_, extent) => extent.size)

/-- The place behind the first `k` tables of a stream. -/
def reach (tables : TablesStream) (k : Nat) : Nat :=
  reachFrom tables.headerSize tables.extents k

theorem reachFrom_succ {offset k : Nat} {extents : List (TableId × Extent)} {table : TableId}
    {extent : Extent} (h : extents[k]? = some (table, extent)) :
    reachFrom offset extents (k + 1) = reachFrom offset extents k + extent.size := by
  simp only [reachFrom, List.take_add_one, h, Option.toList_some, List.map_append, List.map_cons,
    List.map_nil, total_append, total_cons, total_nil, Nat.add_zero, Nat.add_assoc]

theorem reachFrom_mono {offset j k : Nat} {extents : List (TableId × Extent)} (h : j ≤ k) :
    reachFrom offset extents j ≤ reachFrom offset extents k := by
  obtain ⟨d, rfl⟩ := Nat.exists_eq_add_of_le h
  simp only [reachFrom, List.take_add, List.map_append, total_append]
  omega

theorem place_eq_ok {sizes : Sizes} {limit offset : Nat} {tables : List TableId}
    {extents : List (TableId × Extent)} (h : place sizes limit offset tables = .ok extents) :
    extents.map Prod.fst = tables ∧ ∀ k table extent, extents[k]? = some (table, extent) →
      extent = ⟨reachFrom offset extents k, sizes.rowSize table, sizes.rows table⟩ ∧
        reachFrom offset extents (k + 1) ≤ limit := by
  induction tables generalizing offset extents with
  | nil =>
      cases h
      simp
  | cons first tables ih =>
      simp only [place, Except.bind_eq_ok, demand_eq_ok, exists_const, Except.pure_eq_ok] at h
      obtain ⟨hroom, others, hothers, rfl⟩ := h
      obtain ⟨hkeys, hplaces⟩ := ih hothers
      refine ⟨by simp [hkeys], ?_⟩
      intro k table extent hk
      cases k with
      | zero =>
          cases hk
          simpa [reachFrom] using hroom
      | succ k =>
          obtain ⟨hextent, hlimit⟩ := hplaces k table extent (by simpa using hk)
          have hreach (n : Nat) : reachFrom offset
              ((first, ⟨offset, sizes.rowSize first, sizes.rows first⟩) :: others) (n + 1) =
              reachFrom (offset + Extent.size ⟨offset, sizes.rowSize first, sizes.rows first⟩)
                others n := by
            simp only [reachFrom, List.take_succ_cons, List.map_cons, total_cons, Nat.add_assoc]
          rw [hreach, hreach]
          exact ⟨hextent, hlimit⟩

namespace Accepted

variable {data : Bytes} {tables : TablesStream} {table : TableId} {extent : Extent} {k : Nat}

theorem keys_eq (h : Accepted data tables) :
    tables.extents.map Prod.fst = Sizes.present tables.mask :=
  (place_eq_ok h.extents_eq).1

theorem nodup_keys (h : Accepted data tables) : (tables.extents.map Prod.fst).Nodup :=
  h.keys_eq ▸ Sizes.nodup_present tables.mask

theorem length_extents (h : Accepted data tables) :
    tables.extents.length = bitCount tables.mask := by
  rw [← length_present h.known, ← h.keys_eq, List.length_map]

/-- The place and size of a table in the order of the stream. -/
theorem extent_eq (h : Accepted data tables) (hk : tables.extents[k]? = some (table, extent)) :
    extent = ⟨tables.reach k, tables.sizes.rowSize table, tables.sizes.rows table⟩ :=
  ((place_eq_ok h.extents_eq).2 k table extent hk).1

theorem reach_succ (hk : tables.extents[k]? = some (table, extent)) :
    tables.reach (k + 1) = tables.reach k + extent.size :=
  reachFrom_succ hk

theorem reach_le (h : Accepted data tables) (hk : tables.extents[k]? = some (table, extent)) :
    tables.reach (k + 1) ≤ data.size :=
  ((place_eq_ok h.extents_eq).2 k table extent hk).2

/-- The header ends with the row counts, or with one more word behind them. -/
theorem header_cases (h : Accepted data tables) :
    (tables.extra = none ∧ tables.headerSize = 24 + 4 * tables.extents.length) ∨
      (tables.extra =
          some (UInt32.ofNat (data.number (24 + 4 * tables.extents.length) 4)) ∧
        tables.headerSize = 24 + 4 * tables.extents.length + 4 ∧
        tables.headerSize ≤ data.size) := by
  have hextra := h.extra_eq
  rw [← h.length_extents] at hextra
  unfold scanExtra at hextra
  split at hextra
  · simp only [Except.bind_eq_ok, demand_eq_ok, exists_const, Scan.u32, Scan.exists_valueInside,
      Except.pure_eq_ok, Prod.mk.injEq] at hextra
    obtain ⟨hroom, _, hextra, hheader⟩ := hextra
    exact Or.inr ⟨hextra.symm, hheader.symm, hheader ▸ hroom⟩
  · simp only [Except.ok.injEq, Prod.mk.injEq] at hextra
    exact Or.inl ⟨hextra.1.symm, hextra.2.symm⟩

theorem counts_le (h : Accepted data tables) : 24 + 4 * tables.extents.length ≤ data.size := by
  have hroom := ((Sizes.read_eq_ok h.long).mp h.sizes_eq).1
  rwa [← h.keys_eq, List.length_map] at hroom

theorem counts_le_headerSize (h : Accepted data tables) :
    24 + 4 * tables.extents.length ≤ tables.headerSize := by
  rcases h.header_cases with ⟨_, hheader⟩ | ⟨_, hheader, _⟩
  · omega
  · omega

theorem headerSize_le (h : Accepted data tables) : tables.headerSize ≤ data.size := by
  rcases h.header_cases with ⟨_, hheader⟩ | ⟨_, _, hroom⟩
  · rw [hheader]
    exact h.counts_le
  · exact hroom

theorem rows_eq (h : Accepted data tables) (hk : tables.extents[k]? = some (table, extent)) :
    extent.rows = data.number (24 + 4 * k) 4 := by
  have htable : (Sizes.present tables.mask)[k]? = some table := by
    rw [← h.keys_eq, List.getElem?_map, hk]
    rfl
  obtain ⟨_, hsizes⟩ := (Sizes.read_eq_ok h.long).mp h.sizes_eq
  rw [h.extent_eq hk]
  simp only [Sizes.rows, ← hsizes, Sizes.count?_ofCounts]
  rw [Sizes.lookup_countsAt (Sizes.nodup_present _) htable, Option.getD_some]

theorem mem_extents (h : tables.extent? table = some extent) :
    ∃ k : Nat, tables.extents[k]? = some (table, extent) := by
  obtain ⟨before, behind, hsplit, _⟩ := List.lookup_eq_some_iff.mp h
  exact List.mem_iff_getElem?.mp (by rw [hsplit]; simp)

theorem extent?_eq (h : Accepted data tables) (hk : tables.extents[k]? = some (table, extent)) :
    tables.extent? table = some extent := by
  obtain ⟨before, behind, hsplit⟩ := List.append_of_mem (List.mem_of_getElem? hk)
  refine List.lookup_eq_some_iff.mpr ⟨before, behind, hsplit, ?_⟩
  intro other hother
  have hnodup := h.nodup_keys
  rw [hsplit, List.map_append, List.map_cons] at hnodup
  have hdiffers := (List.nodup_append.mp hnodup).2.2 other.1 (List.mem_map_of_mem hother) table
    (by simp)
  simpa using Ne.symm hdiffers

/-- A table lies behind the header and inside the data, and its row sizes and
row count are those that the sizes give it. -/
theorem extent_bounds (h : Accepted data tables) (hextent : tables.extent? table = some extent) :
    tables.headerSize ≤ extent.offset ∧ extent.offset + extent.size ≤ data.size ∧
      extent.rowSize = tables.sizes.rowSize table := by
  obtain ⟨k, hk⟩ := mem_extents hextent
  have hplace := h.extent_eq hk
  have hstop := h.reach_le hk
  rw [reach_succ hk] at hstop
  have hstart : tables.reach 0 ≤ tables.reach k := reachFrom_mono (Nat.zero_le k)
  simp only [reach, reachFrom, List.take_zero, List.map_nil, total_nil, Nat.add_zero] at hstart
  rw [hplace] at hstop ⊢
  exact ⟨hstart, hstop, rfl⟩

/-- Two tables share no byte. -/
theorem extents_apart (h : Accepted data tables) {other : TableId} {extent' : Extent}
    (hextent : tables.extent? table = some extent)
    (hextent' : tables.extent? other = some extent') (hdiffers : table ≠ other) :
    extent.offset + extent.size ≤ extent'.offset ∨
      extent'.offset + extent'.size ≤ extent.offset := by
  obtain ⟨j, hj⟩ := mem_extents hextent
  obtain ⟨k, hk⟩ := mem_extents hextent'
  have hoffset : extent.offset = tables.reach j := by rw [h.extent_eq hj]
  have hoffset' : extent'.offset = tables.reach k := by rw [h.extent_eq hk]
  have hstop := reach_succ hj
  have hstop' := reach_succ hk
  have hne : j ≠ k := by
    rintro rfl
    exact hdiffers (congrArg Prod.fst (Option.some.inj (hj.symm.trans hk)))
  rcases Nat.lt_or_gt_of_ne hne with hlt | hlt
  · have hmono : tables.reach (j + 1) ≤ tables.reach k := reachFrom_mono hlt
    exact Or.inl (by omega)
  · have hmono : tables.reach (k + 1) ≤ tables.reach j := reachFrom_mono hlt
    exact Or.inr (by omega)

end Accepted

end TablesStream

end Unveil
