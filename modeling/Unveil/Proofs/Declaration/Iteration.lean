import Unveil.Proofs.Declaration.Addresses

/-!
An iteration over the types of a forest, call by call. Each call takes up the levels
that the last one left, and a loop passes over absent slots and levels that are used
up; every round of the loop leaves less to go through, so it ends. With their addresses
the types come in the order of the addresses, each of them once.
-/

namespace Unveil

namespace Forest

open Move

/-- Types with their addresses, in a row that lies one move further on. -/
def moved (move : Move) (found : List (List Move × TypeDecl)) : List (List Move × TypeDecl) :=
  found.map fun (address, type) => (move :: address, type)

/-- Every type with its address: a type before the types nested in it, and those before
the types that follow. -/
def placed : Forest → List (List Move × TypeDecl)
  | nil => []
  | absent rest => moved behind rest.placed
  | present type nested rest => ([], type) :: (moved inside nested.placed ++ moved behind rest.placed)

/-- An address precedes those further on from it. Where two addresses part, the one that
goes inside precedes the one that passes by. -/
def Precedes : List Move → List Move → Prop :=
  List.Lex fun move other => move = inside ∧ other = behind

section Placed

variable {forest : Forest} {move : Move} {address : List Move} {type : TypeDecl}

theorem mem_moved {found : List (List Move × TypeDecl)} :
    (address, type) ∈ moved move found ↔
      ∃ further, address = move :: further ∧ (further, type) ∈ found := by
  rw [moved, List.mem_map]
  constructor
  · rintro ⟨⟨further, _⟩, hfound, hsame⟩
    cases hsame
    exact ⟨further, rfl, hfound⟩
  · rintro ⟨further, rfl, hfound⟩
    exact ⟨_, hfound, rfl⟩

/-- Exactly the slots that hold a type are listed. -/
theorem mem_placed : (address, type) ∈ forest.placed ↔
    ∃ nested rest, forest.at? address = some (present type nested rest) := by
  induction forest generalizing address with
  | nil => cases address <;> simp [placed, at?]
  | absent rest ih =>
      rw [placed, mem_moved]
      constructor
      · rintro ⟨further, rfl, hfurther⟩
        exact ih.mp hfurther
      · rintro ⟨nested, others, hrow⟩
        cases address with
        | nil => cases hrow
        | cons move further =>
            cases move with
            | inside => cases hrow
            | behind => exact ⟨further, rfl, ih.mpr ⟨nested, others, hrow⟩⟩
  | present first nested rest ihNested ihRest =>
      rw [placed, List.mem_cons, List.mem_append, mem_moved, mem_moved]
      constructor
      · rintro (hfirst | ⟨further, rfl, hfurther⟩ | ⟨further, rfl, hfurther⟩)
        · cases hfirst
          exact ⟨nested, rest, rfl⟩
        · exact ihNested.mp hfurther
        · exact ihRest.mp hfurther
      · rintro ⟨inner, others, hrow⟩
        cases address with
        | nil =>
            cases hrow
            exact Or.inl rfl
        | cons move further =>
            refine Or.inr ?_
            cases move with
            | inside => exact Or.inl ⟨further, rfl, ihNested.mpr ⟨inner, others, hrow⟩⟩
            | behind => exact Or.inr ⟨further, rfl, ihRest.mpr ⟨inner, others, hrow⟩⟩

theorem map_snd_moved (move : Move) (found : List (List Move × TypeDecl)) :
    (moved move found).map Prod.snd = found.map Prod.snd := by
  rw [moved, List.map_map]
  rfl

theorem map_snd_placed (forest : Forest) : forest.placed.map Prod.snd = forest.preorder := by
  induction forest with
  | nil => rfl
  | absent rest ih => rw [placed, map_snd_moved, ih, preorder]
  | present type nested rest ihNested ihRest =>
      rw [placed, List.map_cons, List.map_append, map_snd_moved, map_snd_moved, ihNested, ihRest,
        preorder]

theorem pairwise_moved {found : List (List Move × TypeDecl)}
    (h : found.Pairwise fun a b => Precedes a.1 b.1) :
    (moved move found).Pairwise fun a b => Precedes a.1 b.1 := by
  rw [moved, List.pairwise_map]
  exact h.imp fun hprecedes => List.Lex.cons hprecedes

/-- The addresses of the types ascend. -/
theorem pairwise_placed (forest : Forest) :
    forest.placed.Pairwise fun a b => Precedes a.1 b.1 := by
  induction forest with
  | nil => exact List.Pairwise.nil
  | absent rest ih => exact pairwise_moved ih
  | present type nested rest ihNested ihRest =>
      refine List.Pairwise.cons ?_ (List.pairwise_append.mpr
        ⟨pairwise_moved ihNested, pairwise_moved ihRest, ?_⟩)
      · rintro ⟨address, other⟩ hother
        rcases List.mem_append.mp hother with hinside | hbehind
        · obtain ⟨_, rfl, -⟩ := mem_moved.mp hinside
          exact List.Lex.nil
        · obtain ⟨_, rfl, -⟩ := mem_moved.mp hbehind
          exact List.Lex.nil
      · rintro ⟨address, first⟩ hfirst ⟨further, other⟩ hother
        obtain ⟨_, rfl, -⟩ := mem_moved.mp hfirst
        obtain ⟨_, rfl, -⟩ := mem_moved.mp hother
        exact List.Lex.rel ⟨rfl, rfl⟩

theorem Precedes.ne {other : List Move} (h : Precedes address other) : address ≠ other := by
  rintro rfl
  apply List.lex_irrefl _ address h
  rintro move ⟨rfl, hmove⟩
  cases hmove

/-- No address is listed twice. -/
theorem nodup_placed (forest : Forest) : (forest.placed.map Prod.fst).Nodup := by
  rw [List.Nodup, List.pairwise_map]
  exact forest.pairwise_placed.imp Precedes.ne

/-- A list that has every type of a forest with its address, each of them once and in the
order of the addresses. -/
structure Enumerates (forest : Forest) (yielded : List (List Move × TypeDecl)) : Prop where
  mem_iff : ∀ address type, (address, type) ∈ yielded ↔
    ∃ nested rest, forest.at? address = some (present type nested rest)
  once : (yielded.map Prod.fst).Nodup
  ascending : (yielded.map Prod.fst).Pairwise Precedes
  types_eq : yielded.map Prod.snd = forest.preorder

theorem enumerates_placed (forest : Forest) : Enumerates forest forest.placed where
  mem_iff _ _ := mem_placed
  once := forest.nodup_placed
  ascending := List.pairwise_map.mpr forest.pairwise_placed
  types_eq := forest.map_snd_placed

end Placed

/-- A level of an iteration: the slots that it has still to go through, and the address
of the first of them. -/
structure Level where
  address : List Move
  row : Forest

/-- Where an iteration over a forest starts. -/
def start (forest : Forest) : List Level := [⟨[], forest⟩]

/-- One call of an iteration, with the innermost level first. Every round of its loop
takes a slot from that level: an absent one is passed over, a level without any is given
up, and a type is the result, the types nested in it being the next level. There is no
result when no level is left, and no answer when the rounds do not suffice. -/
def nextWithin : (rounds : Nat) → List Level →
    Option (Option (List Move × TypeDecl) × List Level)
  | 0, _ => none
  | _ + 1, [] => some (none, [])
  | rounds + 1, ⟨_, nil⟩ :: levels => nextWithin rounds levels
  | rounds + 1, ⟨address, absent rest⟩ :: levels =>
      nextWithin rounds (⟨address ++ [behind], rest⟩ :: levels)
  | _ + 1, ⟨address, present type nested rest⟩ :: levels =>
      some (some (address, type),
        ⟨address ++ [inside], nested⟩ :: ⟨address ++ [behind], rest⟩ :: levels)

/-- So many calls, one after the other. -/
def callsWithin (rounds : Nat) : (calls : Nat) → List Level →
    Option (List (Option (List Move × TypeDecl)) × List Level)
  | 0, levels => some ([], levels)
  | calls + 1, levels => do
      let (found, left) ← nextWithin rounds levels
      let (others, left) ← callsWithin rounds calls left
      some (found :: others, left)

/-- The types that a level still leads to. -/
def Level.todo (level : Level) : List (List Move × TypeDecl) :=
  level.row.placed.map fun (address, type) => (level.address ++ address, type)

section Iterating

variable {forest : Forest} {levels left : List Level} {rounds : Nat}

theorem todo_moved (address : List Move) (move : Move) (row : Forest) :
    (moved move row.placed).map (fun (further, type) => (address ++ further, type)) =
      (Level.mk (address ++ [move]) row).todo := by
  rw [moved, Level.todo, List.map_map]
  apply List.map_congr_left
  rintro ⟨further, type⟩ -
  exact congrArg (·, type) (List.append_cons address move further)

theorem todo_absent (address : List Move) (rest : Forest) :
    (Level.mk address (absent rest)).todo = (Level.mk (address ++ [behind]) rest).todo :=
  todo_moved address behind rest

theorem todo_present (address : List Move) (type : TypeDecl) (nested rest : Forest) :
    (Level.mk address (present type nested rest)).todo =
      (address, type) :: ((Level.mk (address ++ [inside]) nested).todo ++
        (Level.mk (address ++ [behind]) rest).todo) := by
  rw [← todo_moved, ← todo_moved, ← List.map_append]
  simp only [Level.todo, placed, List.map_cons, List.append_nil]

/-- A call comes to an end when it may take a round for every slot and every end of a
level. It finds the first type that is still to come and leaves the others. -/
theorem nextWithin_eq (h : levelsWeight (levels.map Level.row) < rounds) :
    ∃ left, nextWithin rounds levels = some ((levels.flatMap Level.todo).head?, left) ∧
      left.flatMap Level.todo = (levels.flatMap Level.todo).tail ∧
      levelsWeight (left.map Level.row) ≤ levelsWeight (levels.map Level.row) := by
  fun_induction nextWithin rounds levels with
  | case1 levels => exact absurd h (Nat.not_lt_zero _)
  | case2 rounds => exact ⟨[], rfl, rfl, Nat.le_refl _⟩
  | case3 rounds address levels ih =>
      simp only [List.map_cons, levelsWeight, total_cons, weight] at h
      obtain ⟨left, hcall, htodo, hweight⟩ := ih (by unfold levelsWeight; omega)
      refine ⟨left, hcall, htodo, Nat.le_trans hweight ?_⟩
      simp only [List.map_cons, levelsWeight, total_cons]
      exact Nat.le_add_left ..
  | case4 rounds address rest levels ih =>
      simp only [List.map_cons, levelsWeight, total_cons, weight] at h ih
      obtain ⟨left, hcall, htodo, hweight⟩ := ih (by omega)
      rw [List.flatMap_cons, todo_absent, ← List.flatMap_cons]
      refine ⟨left, hcall, htodo, Nat.le_trans hweight ?_⟩
      simp only [List.map_cons, levelsWeight, total_cons, weight]
      omega
  | case5 rounds address type nested rest levels =>
      rw [List.flatMap_cons, todo_present]
      refine ⟨_, rfl, ?_, ?_⟩
      · rw [List.flatMap_cons, List.flatMap_cons, List.cons_append, List.tail_cons,
          List.append_assoc]
      · simp only [List.map_cons, levelsWeight, total_cons, weight]
        omega

/-- The calls find the types that are still to come, one after the other, and then
nothing any more. -/
theorem callsWithin_eq (h : levelsWeight (levels.map Level.row) < rounds) (calls : Nat) :
    ∃ left, callsWithin rounds calls levels =
      some ((List.range calls).map ((levels.flatMap Level.todo)[·]?), left) := by
  induction calls generalizing levels with
  | zero => exact ⟨levels, rfl⟩
  | succ calls ih =>
      obtain ⟨between, hcall, htodo, hweight⟩ := nextWithin_eq h
      obtain ⟨left, hcalls⟩ := ih (Nat.lt_of_le_of_lt hweight h)
      refine ⟨left, ?_⟩
      rw [callsWithin, hcall]
      simp only [Option.bind_eq_bind, Option.bind_some, hcalls]
      rw [htodo, List.range_succ_eq_map, List.map_cons, List.map_map, List.head?_eq_getElem?]
      simp only [List.getElem?_tail]
      rfl

theorem callsWithin_start (forest : Forest) (calls : Nat) :
    ∃ left, callsWithin (forest.weight + 1) calls (start forest) =
      some ((List.range calls).map (forest.placed[·]?), left) := by
  have htodo : (start forest).flatMap Level.todo = forest.placed := by
    rw [start, List.flatMap_singleton]
    exact List.map_id' _
  have hweight : levelsWeight ((start forest).map Level.row) < forest.weight + 1 := by
    rw [start, List.map_singleton, levelsWeight, List.map_singleton, total_cons]
    exact Nat.lt_succ_self _
  have hcalls := callsWithin_eq hweight calls
  rwa [htodo] at hcalls

/-- Addresses apart, a call does what the walk over a forest does. -/
theorem next?_of_nextWithin {found : Option (List Move × TypeDecl)}
    (h : nextWithin rounds levels = some (found, left)) :
    next? (levels.map Level.row) = found.map fun (_, type) => (type, left.map Level.row) := by
  fun_induction nextWithin rounds levels with
  | case1 levels => cases h
  | case2 rounds =>
      cases h
      rw [List.map_nil, next?]
      rfl
  | case3 rounds address levels ih =>
      rw [List.map_cons, next?]
      exact ih h
  | case4 rounds address rest levels ih =>
      rw [List.map_cons, next?]
      exact ih h
  | case5 rounds address type nested rest levels =>
      cases h
      rw [List.map_cons, next?]
      rfl

end Iterating

/-- The addresses of the types of a forest. -/
def typeAddresses (forest : Forest) : List (List Move) := forest.placed.map Prod.fst

/-- Those of the types in the first slot of a row. -/
def firstTypes : Forest → List (List Move)
  | nil | absent _ => []
  | present _ nested _ => [] :: nested.typeAddresses.map (inside :: ·)

/-- Those of the types in the slot at an address. -/
def typesAt (forest : Forest) (address : List Move) : List (List Move) :=
  ((forest.at? address).map fun row => row.firstTypes.map (address ++ ·)).getD []

/-- The address itself, if a type is there. -/
def typeAt (forest : Forest) (address : List Move) : List (List Move) :=
  match forest.at? address with
  | some (present _ _ _) => [address]
  | _ => []

section TypesAt

variable {forest row : Forest} {address : List Move}

theorem map_fst_moved (move : Move) (found : List (List Move × TypeDecl)) :
    (moved move found).map Prod.fst = (found.map Prod.fst).map (move :: ·) := by
  rw [moved, List.map_map, List.map_map]
  rfl

theorem typeAddresses_absent (rest : Forest) :
    (absent rest).typeAddresses = rest.typeAddresses.map (behind :: ·) :=
  map_fst_moved behind rest.placed

theorem typeAddresses_present (type : TypeDecl) (nested rest : Forest) :
    (present type nested rest).typeAddresses =
      (present type nested rest).firstTypes ++ rest.typeAddresses.map (behind :: ·) := by
  rw [typeAddresses, placed, List.map_cons, List.map_append, map_fst_moved, map_fst_moved]
  rfl

theorem typesAt_append (hrow : forest.at? address = some row) (others : List Move) :
    forest.typesAt (address ++ others) = (row.typesAt others).map (address ++ ·) := by
  rw [typesAt, at?_append, hrow, Option.bind_some, typesAt]
  cases row.at? others with
  | none => rfl
  | some further =>
      simp only [Option.map_some, Option.getD_some, List.map_map, Function.comp_def,
        List.append_assoc]

theorem flatMap_typesAt (hrow : forest.at? address = some row) (slots : List (List Move)) :
    (slots.map (address ++ ·)).flatMap forest.typesAt =
      (slots.flatMap row.typesAt).map (address ++ ·) := by
  rw [List.flatMap_map, List.map_flatMap]
  exact congrArg (slots.flatMap ·) (funext (typesAt_append hrow))

/-- The slots of a row have all types in them. -/
theorem flatMap_slotAddresses (row : Forest) :
    row.slotAddresses.flatMap row.typesAt = row.typeAddresses := by
  induction row with
  | nil => rfl
  | absent rest ih =>
      have hrest : (absent rest).at? [behind] = some rest := rfl
      have hbehind := flatMap_typesAt hrest rest.slotAddresses
      rw [ih] at hbehind
      rw [slotAddresses, List.flatMap_cons, typeAddresses_absent]
      exact hbehind
  | present type nested rest _ ih =>
      have hrest : (present type nested rest).at? [behind] = some rest := rfl
      have hbehind := flatMap_typesAt hrest rest.slotAddresses
      have hfirst : (present type nested rest).typesAt [] = (present type nested rest).firstTypes :=
        List.map_id' _
      rw [ih] at hbehind
      rw [slotAddresses, List.flatMap_cons, typeAddresses_present, hfirst]
      exact congrArg (_ ++ ·) hbehind

/-- The types in a slot are the one that it holds and those in the slots inside. -/
theorem typesAt_eq (hrow : forest.at? address = some row) : forest.typesAt address =
    forest.typeAt address ++ (row.innerAddresses.map (address ++ ·)).flatMap forest.typesAt := by
  rw [flatMap_typesAt hrow, typesAt, typeAt, hrow, Option.map_some, Option.getD_some]
  cases row with
  | nil => rfl
  | absent rest => rfl
  | present type nested rest =>
      have hnested : (present type nested rest).at? [inside] = some nested := rfl
      have hinside := flatMap_typesAt hnested nested.slotAddresses
      rw [flatMap_slotAddresses] at hinside
      rw [firstTypes, List.map_cons, List.append_nil, innerAddresses]
      exact congrArg (address :: List.map (address ++ ·) ·) hinside.symm

theorem typeAddresses_mapTypes (change : TypeDecl → TypeDecl) (forest : Forest) :
    (forest.mapTypes change).typeAddresses = forest.typeAddresses := by
  induction forest with
  | nil => rfl
  | absent rest ih => rw [mapTypes, typeAddresses_absent, typeAddresses_absent, ih]
  | present type nested rest ihNested ihRest =>
      rw [mapTypes, typeAddresses_present, typeAddresses_present, firstTypes, firstTypes, ihNested,
        ihRest]

/-- Types stay where they are when they are changed. -/
theorem typesAt_mapTypes (change : TypeDecl → TypeDecl) (forest : Forest) (address : List Move) :
    (forest.mapTypes change).typesAt address = forest.typesAt address := by
  have hfirst (row : Forest) : (row.mapTypes change).firstTypes = row.firstTypes := by
    cases row with
    | nil => rfl
    | absent rest => rfl
    | present type nested rest => rw [mapTypes, firstTypes, firstTypes, typeAddresses_mapTypes]
  rw [typesAt, typesAt, at?_mapTypes, Option.map_map]
  simp only [Function.comp_def, hfirst]

end TypesAt

end Forest

end Unveil
