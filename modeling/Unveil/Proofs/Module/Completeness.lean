import Unveil.Proofs.Module.Backing

/-!
Member lists that leave nothing out. Where the lists of all types start at one
and follow each other in order, they name every position once, and where the
positions are redirected by a permutation they still name every row once. Every
member then has one slot, and no slot is empty.
-/

namespace Unveil

namespace MemberPool

variable {α : Type}

/-- Lists that start one after the other, the first of them at one and none past
the end, and pointers that name every row once. -/
structure WellFormed (starts : List Nat) (pointers? : Option (Array UInt32)) (count : Nat) :
    Prop where
  first : starts.head? = some 1
  sorted : starts.Pairwise (· ≤ ·)
  inside : ∀ start ∈ starts, start ≤ (pointers?.map Array.size).getD count + 1
  pointers : ∀ pointers, pointers? = some pointers →
    (pointers.toList.map UInt32.toNat).Perm (List.range' 1 count)

/-- The type at `index` is the last whose list starts at or before a
position. -/
structure Last (starts : List Nat) (index position : Nat) : Prop where
  start_le : ∃ start, starts[index]? = some start ∧ start ≤ position
  later : ∀ other start, index < other → starts[other]? = some start → position < start

section Spans

variable {stop start position : Nat} {starts : List Nat}

/-- Lists in order go through a range without a gap. -/
theorem flatMap_positions (hsorted : (start :: starts).Pairwise (· ≤ ·)) (hpositive : 1 ≤ start)
    (hinside : ∀ other ∈ start :: starts, other ≤ stop) :
    ((spans stop (start :: starts)).flatMap fun span => positions stop span.1 span.2) =
      List.range' start (stop - start) := by
  induction starts generalizing start with
  | nil =>
      have hstart : start ≤ stop := hinside start (by simp)
      have hnonempty : ¬ (start = 0 ∨ stop < start) := by omega
      simp only [spans, List.flatMap_cons, List.flatMap_nil, List.append_nil, positions, hnonempty,
        ↓reduceIte, Nat.min_self]
  | cons next starts ih =>
      obtain ⟨hfirst, hothers⟩ := List.pairwise_cons.mp hsorted
      have hnext : start ≤ next := hfirst next (by simp)
      have hstop : next ≤ stop := hinside next (by simp)
      have hnonempty : ¬ (start = 0 ∨ next < start) := by omega
      have hrest := ih hothers (by omega) fun other hother =>
        hinside other (List.mem_cons_of_mem _ hother)
      have hjoin : List.range' start (next - start) ++ List.range' next (stop - next) =
          List.range' start (stop - start) := by
        have hmeet : start + (next - start) = next := by omega
        have hall : next - start + (stop - next) = stop - start := by omega
        have happend := @List.range'_append_1 start (next - start) (stop - next)
        rwa [hmeet, hall] at happend
      rw [spans, List.flatMap_cons, hrest, positions, if_neg hnonempty, Nat.min_eq_left hstop]
      exact hjoin

theorem pastEnd_eq_nil {span : Nat × Nat} (hinside : ∀ other ∈ starts, other ≤ stop)
    (hspan : span ∈ spans stop starts) : (pastEnd stop span.1 span.2 : List (Option α)) = [] := by
  have hfinish : span.2 ≤ stop := by
    fun_induction spans stop starts with
    | case1 => cases hspan
    | case2 start =>
        cases List.mem_singleton.mp hspan
        exact Nat.le_refl stop
    | case3 start next starts ih =>
        rcases List.mem_cons.mp hspan with rfl | hlater
        · exact hinside next (by simp)
        · exact ih (fun other hother => hinside other (List.mem_cons_of_mem _ hother)) hlater
  unfold pastEnd
  split
  · rfl
  · rw [if_neg (by omega)]

/-- Some list names a position, and it is the last that starts at or before
it. -/
theorem exists_last (hsorted : (start :: starts).Pairwise (· ≤ ·)) (hpositive : 1 ≤ start)
    (hinside : ∀ other ∈ start :: starts, other ≤ stop) (hfirst : start ≤ position)
    (hlast : position < stop) :
    ∃ (index : Nat) (span : Nat × Nat), (spans stop (start :: starts))[index]? = some span ∧
      Last (start :: starts) index position ∧ position ∈ positions stop span.1 span.2 := by
  induction starts generalizing start with
  | nil =>
      refine ⟨0, (start, stop), rfl, ⟨⟨start, rfl, hfirst⟩, ?_⟩, ?_⟩
      · intro other later hlater hother
        rw [List.getElem?_eq_none (show [start].length ≤ other from hlater)] at hother
        cases hother
      · rw [positions, if_neg (by omega), List.mem_range'_1]
        omega
  | cons next starts ih =>
      obtain ⟨hfollows, hothers⟩ := List.pairwise_cons.mp hsorted
      have hnext : start ≤ next := hfollows next (by simp)
      have hstop : next ≤ stop := hinside next (by simp)
      by_cases hown : position < next
      · refine ⟨0, (start, next), rfl, ⟨⟨start, rfl, hfirst⟩, ?_⟩, ?_⟩
        · intro other later hlater hother
          obtain ⟨k, rfl⟩ := Nat.exists_eq_add_of_lt hlater
          have hmem := List.mem_of_getElem? (show (next :: starts)[k]? = some later by
            simpa using hother)
          rcases List.mem_cons.mp hmem with rfl | hmem
          · exact hown
          · have := (List.pairwise_cons.mp hothers).1 later hmem
            omega
        · rw [positions, if_neg (by omega), List.mem_range'_1]
          omega
      · obtain ⟨index, span, hspan, hlast', hmem⟩ := ih hothers (by omega)
          (fun other hother => hinside other (List.mem_cons_of_mem _ hother)) (by omega)
        refine ⟨index + 1, span, hspan, ⟨hlast'.start_le, ?_⟩, hmem⟩
        intro other later hlater hother
        obtain ⟨k, rfl⟩ : ∃ k, other = k + 1 := ⟨other - 1, by omega⟩
        exact hlast'.later k later (by omega) hother

end Spans

section Slots

variable {members : List α} {pointers? : Option (Array UInt32)} {stop : Nat} {named rows : List Nat}
  {starts : List Nat} {lists : List (Nat × Nat)}

theorem slotsOf_of_fresh (hnodup : rows.Nodup) (hfresh : ∀ row ∈ rows, row ≠ 0 ∧ row ∉ named) :
    slotsOf members named rows = rows.map fun row => members[row - 1]? := by
  induction rows generalizing named with
  | nil => rfl
  | cons row rows ih =>
      obtain ⟨hrow, hothers⟩ := List.nodup_cons.mp hnodup
      obtain ⟨hzero, hnamed⟩ := hfresh row (by simp)
      have hslot : slotOf members named row = members[row - 1]? :=
        if_neg (not_or.mpr ⟨hzero, hnamed⟩)
      have hrest : slotsOf members (row :: named) rows = rows.map fun row => members[row - 1]? := by
        refine ih hothers fun other hother => ⟨(hfresh other (by simp [hother])).1, ?_⟩
        rw [List.mem_cons, not_or]
        refine ⟨?_, (hfresh other (by simp [hother])).2⟩
        rintro rfl
        exact hrow hother
      rw [slotsOf, hslot, hrest, List.map_cons]

/-- Lists that name no row twice and do not go past the end have a member in
each of their slots. -/
theorem slotsFrom_of_fresh
    (hpast : ∀ span ∈ lists, (pastEnd stop span.1 span.2 : List (Option α)) = [])
    (hnodup : ((lists.flatMap fun span => positions stop span.1 span.2).map
      (rowVia pointers?)).Nodup)
    (hfresh : ∀ row ∈ (lists.flatMap fun span => positions stop span.1 span.2).map
      (rowVia pointers?), row ≠ 0 ∧ row ∉ named) :
    slotsFrom members pointers? stop named lists = lists.map fun span =>
      (positions stop span.1 span.2).map fun position =>
        members[rowVia pointers? position - 1]? := by
  induction lists generalizing named with
  | nil => rfl
  | cons span lists ih =>
      obtain ⟨start, finish⟩ := span
      simp only [List.flatMap_cons, List.map_append, List.mem_append] at hnodup hfresh
      obtain ⟨hown, hothers, hapart⟩ := List.nodup_append.mp hnodup
      have hfirst : slotsOf members named ((positions stop start finish).map (rowVia pointers?)) =
          ((positions stop start finish).map (rowVia pointers?)).map fun row =>
            members[row - 1]? :=
        slotsOf_of_fresh hown fun row hrow => hfresh row (Or.inl hrow)
      have hrest := @ih (((positions stop start finish).map (rowVia pointers?)).reverse ++ named)
        (fun span hspan => hpast span (by simp [hspan])) hothers (by
          intro row hrow
          refine ⟨(hfresh row (Or.inr hrow)).1, ?_⟩
          rw [List.mem_append, List.mem_reverse, not_or]
          exact ⟨fun hmem => hapart row hmem row hrow rfl, (hfresh row (Or.inr hrow)).2⟩)
      simp only [slotsFrom, hfirst, hpast (start, finish) (by simp), List.append_nil, hrest,
        List.map_cons, List.map_map, Function.comp_def]

theorem WellFormed.rows_perm (h : WellFormed starts pointers? members.length) :
    reachVia members pointers? = members.length ∧
      ((List.range' 1 (reachVia members pointers?)).map (rowVia pointers?)).Perm
        (List.range' 1 members.length) := by
  cases pointers? with
  | none =>
      refine ⟨rfl, ?_⟩
      have hsame : rowVia none = id := rfl
      rw [hsame, List.map_id]
      exact List.Perm.refl _
  | some pointers =>
      have hperm := h.pointers pointers rfl
      have hsize : pointers.size = members.length := by
        have hlength := hperm.length_eq
        rwa [List.length_map, List.length_range', Array.length_toList] at hlength
      refine ⟨hsize, ?_⟩
      have hrows : (List.range' 1 pointers.size).map (rowVia (some pointers)) =
          pointers.toList.map UInt32.toNat := by
        apply List.ext_getElem
        · simp
        · intro k hk hk'
          simp only [List.length_map, List.length_range'] at hk
          simp [rowVia, hk]
      rw [reachVia, hrows]
      exact hperm

theorem WellFormed.inside_reach (h : WellFormed starts pointers? members.length) :
    ∀ start ∈ starts, start ≤ reachVia members pointers? + 1 := by
  have hreach : (pointers?.map Array.size).getD members.length = reachVia members pointers? := by
    cases pointers? <;> rfl
  rw [← hreach]
  exact h.inside

/-- Well-formed lists name all positions one after the other. -/
theorem WellFormed.positions_eq (h : WellFormed starts pointers? members.length) :
    ((spans (reachVia members pointers? + 1) starts).flatMap fun span =>
        positions (reachVia members pointers? + 1) span.1 span.2) =
      List.range' 1 (reachVia members pointers?) := by
  have hinside := h.inside_reach
  obtain ⟨hfirst, hsorted, -, -⟩ := h
  match starts, hfirst, hsorted, hinside with
  | _ :: starts, rfl, hsorted, hinside =>
      rw [flatMap_positions hsorted (Nat.le_refl 1) hinside, Nat.add_sub_cancel]

/-- Where the lists are well formed, every type has the members of its
positions. -/
theorem WellFormed.slotsFrom_eq (h : WellFormed starts pointers? members.length) :
    slotsFrom members pointers? (reachVia members pointers? + 1) []
        (spans (reachVia members pointers? + 1) starts) =
      (spans (reachVia members pointers? + 1) starts).map fun span =>
        (positions (reachVia members pointers? + 1) span.1 span.2).map fun position =>
          members[rowVia pointers? position - 1]? := by
  obtain ⟨-, hperm⟩ := h.rows_perm
  apply slotsFrom_of_fresh
  · exact fun span hspan => pastEnd_eq_nil h.inside_reach hspan
  · rw [h.positions_eq]
    exact hperm.nodup_iff.mpr List.nodup_range'
  · rw [h.positions_eq]
    intro row hrow
    have hrange := List.mem_range'_1.mp (hperm.mem_iff.mp hrow)
    exact ⟨by omega, List.not_mem_nil⟩

theorem WellFormed.member_of_position (h : WellFormed starts pointers? members.length)
    {position : Nat} (hfirst : 1 ≤ position) (hlast : position ≤ reachVia members pointers?) :
    ∃ member, 1 ≤ rowVia pointers? position ∧
      members[rowVia pointers? position - 1]? = some member := by
  have hmem := h.rows_perm.2.mem_iff.mp
    (List.mem_map_of_mem (List.mem_range'_1.mpr (show 1 ≤ position ∧ position < 1 + _ by omega)))
  have hrange := List.mem_range'_1.mp hmem
  exact ⟨_, hrange.1, List.getElem?_eq_getElem (by omega)⟩

/-- The slots of all types together hold every member once. -/
theorem WellFormed.flatten_perm (h : WellFormed starts pointers? members.length) :
    (slotsFrom members pointers? (reachVia members pointers? + 1) []
      (spans (reachVia members pointers? + 1) starts)).flatten.Perm (members.map some) := by
  have hslots : (slotsFrom members pointers? (reachVia members pointers? + 1) []
      (spans (reachVia members pointers? + 1) starts)).flatten =
      ((List.range' 1 (reachVia members pointers?)).map (rowVia pointers?)).map fun row =>
        members[row - 1]? := by
    rw [h.slotsFrom_eq, ← List.flatMap_def, ← h.positions_eq, List.map_map, List.map_flatMap]
    rfl
  have hmembers : ((List.range' 1 members.length).map fun row => members[row - 1]?) =
      members.map some := by
    apply List.ext_getElem
    · simp
    · intro k hk hk'
      simp only [List.length_map, List.length_range'] at hk
      simp [hk]
  rw [hslots, ← hmembers]
  exact h.rows_perm.2.map _

/-- The last type that starts at or before a position has the member that the
position leads to. -/
theorem WellFormed.exists_slot (h : WellFormed starts pointers? members.length)
    {position : Nat} (hfirst : 1 ≤ position) (hlast : position ≤ reachVia members pointers?) :
    ∃ (index : Nat) (slots : List (Option α)) (member : α),
      (slotsFrom members pointers? (reachVia members pointers? + 1) []
        (spans (reachVia members pointers? + 1) starts))[index]? = some slots ∧
      Last starts index position ∧ some member ∈ slots ∧
      members[rowVia pointers? position - 1]? = some member := by
  obtain ⟨member, -, hmember⟩ := h.member_of_position hfirst hlast
  have hslots := h.slotsFrom_eq
  have hinside := h.inside_reach
  obtain ⟨hhead, hsorted, -, -⟩ := h
  match starts, hhead, hsorted, hinside, hslots with
  | _ :: starts, rfl, hsorted, hinside, hslots =>
      obtain ⟨index, span, hspan, hlast', hposition⟩ :=
        exists_last hsorted (Nat.le_refl 1) hinside hfirst (by omega)
      refine ⟨index, (positions (reachVia members pointers? + 1) span.1 span.2).map fun position =>
        members[rowVia pointers? position - 1]?, member, ?_, hlast', ?_, hmember⟩
      · rw [hslots, List.getElem?_map, hspan, Option.map_some]
      · rw [← hmember]
        exact List.mem_map_of_mem hposition

end Slots

end MemberPool

theorem Token.ofParts_inj {table : TableId} {row row' : Nat} (hrow : row ≤ 0xFFFFFF)
    (hrow' : row' ≤ 0xFFFFFF) : Token.ofParts table row = Token.ofParts table row' ↔ row = row' := by
  constructor
  · intro h
    have hkept : (Token.ofParts table row).row = row := Token.row_ofParts hrow
    rw [← hkept, h, Token.row_ofParts hrow']
  · rintro rfl
    rfl

/-- A value that a function takes at one place only is found once. -/
theorem countP_range' {β : Type} [DecidableEq β] {f : Nat → β} {n row : Nat}
    (hinj : ∀ other, 1 ≤ other → other ≤ n → (f other = f row ↔ other = row))
    (hfirst : 1 ≤ row) (hlast : row ≤ n) :
    ((List.range' 1 n).map f).countP (· = f row) = 1 := by
  have hsame : (List.range' 1 n).countP ((fun value => decide (value = f row)) ∘ f) =
      (List.range' 1 n).countP (· == row) := by
    refine List.countP_congr fun other hother => ?_
    have hrange := List.mem_range'_1.mp hother
    simp only [Function.comp_apply, decide_eq_true_eq, beq_iff_eq]
    exact hinj other hrange.1 (by omega)
  have hnodup : (List.range' 1 n).Nodup := List.nodup_range'
  rw [List.countP_map, hsame]
  exact hnodup.count.trans (if_pos (List.mem_range'_1.mpr (by omega)))

namespace Module

open MemberPool

/-- Every row of a member table is in exactly one slot of these types, which is
a slot of the last type whose list starts at or before a position that leads to
the row, and no slot is empty. -/
structure HoldsAll {α : Type} (types : List TypeDecl) (slots : TypeDecl → List (Option α))
    (token : α → Token) (table : TableId) (starts : List Nat)
    (pointers? : Option (Array UInt32)) (count : Nat) : Prop where
  none_absent : ∀ type ∈ types, none ∉ slots type
  once : ∀ row, 1 ≤ row → row ≤ count →
    (types.flatMap slots).countP (fun slot => slot.any (token · = .ofParts table row)) = 1
  placed : ∀ row, 1 ≤ row → row ≤ count →
    ∃ position, 1 ≤ position ∧ position ≤ count ∧ rowVia pointers? position = row
  owner : ∀ position, 1 ≤ position → position ≤ count → ∃ index, Last starts index position ∧
    ∃ type ∈ types, type.token = .ofParts .typeDef (index + 1) ∧
      ∃ member, some member ∈ slots type ∧ token member = .ofParts table (rowVia pointers? position)

theorem holdsAll_of_wellFormed {α : Type} {types ordered : List TypeDecl} {members : List α}
    {slots : TypeDecl → List (Option α)} {token : α → Token} {table : TableId}
    {starts : List Nat} {pointers? : Option (Array UInt32)} (hperm : types.Perm ordered)
    (hslots : ordered.map slots = slotsFrom members pointers? (reachVia members pointers? + 1) []
      (spans (reachVia members pointers? + 1) starts))
    (htypes : ∀ (k : Nat) (type : TypeDecl), ordered[k]? = some type →
      type.token = .ofParts .typeDef (k + 1))
    (hmembers : ∀ (k : Nat) (member : α), members[k]? = some member →
      token member = .ofParts table (k + 1))
    (hcount : members.length ≤ 0xFFFFFF) (h : WellFormed starts pointers? members.length) :
    HoldsAll types slots token table starts pointers? members.length where
  none_absent type htype hnone := by
    have hmem : none ∈ (ordered.map slots).flatten := by
      rw [← List.flatMap_def]
      exact List.mem_flatMap.mpr ⟨type, hperm.mem_iff.mp htype, hnone⟩
    rw [hslots, h.flatten_perm.mem_iff] at hmem
    simp at hmem
  once row hfirst hlast := by
    have htokens : members.map token = (List.range' 1 members.length).map (Token.ofParts table) := by
      apply List.ext_getElem
      · simp
      · intro k hk hk'
        simp only [List.length_map] at hk
        simp only [List.getElem_map, List.getElem_range', Nat.one_mul, Nat.add_comm 1 k]
        exact hmembers k _ (List.getElem?_eq_getElem hk)
    have hflat : (types.flatMap slots).Perm (members.map some) := by
      refine (hperm.flatMap_right slots).trans ?_
      rw [List.flatMap_def, hslots]
      exact h.flatten_perm
    have hcounted : (members.map some).countP
        (fun slot => slot.any (token · = .ofParts table row)) =
        (members.map token).countP (· = .ofParts table row) := by
      rw [List.countP_map, List.countP_map]
      rfl
    rw [hflat.countP_eq, hcounted, htokens]
    exact countP_range' (fun other hfirst' hlast' => Token.ofParts_inj (by omega) (by omega))
      hfirst hlast
  placed row hfirst hlast := by
    obtain ⟨hreach, hrows⟩ := h.rows_perm
    have hmem := hrows.mem_iff.mpr (List.mem_range'_1.mpr (show 1 ≤ row ∧ row < 1 + _ by omega))
    obtain ⟨position, hposition, hrow⟩ := List.mem_map.mp hmem
    have hrange := List.mem_range'_1.mp hposition
    exact ⟨position, hrange.1, by omega, hrow⟩
  owner position hfirst hlast := by
    rw [← h.rows_perm.1] at hlast
    obtain ⟨index, found, member, hfound, hlast', hslot, hmember⟩ := h.exists_slot hfirst hlast
    rw [← hslots, List.getElem?_map, Option.map_eq_some_iff] at hfound
    obtain ⟨type, htype, rfl⟩ := hfound
    obtain ⟨-, hpositive, -⟩ := h.member_of_position hfirst hlast
    refine ⟨index, hlast', type, hperm.mem_iff.mpr (List.mem_of_getElem? htype),
      htypes index type htype, member, hslot, ?_⟩
    rw [hmembers _ member hmember, Nat.sub_add_cancel hpositive]

end Module

end Unveil
