import Unveil.Proofs.Declaration.Addresses
import Unveil.Proofs.Writing.Counting
import Unveil.Proofs.Writing.Module

/-!
Passes that change a forest in place. Each top-level slot is given to a worker of
its own, which keeps the addresses of slots that it still has to look at; a worker
takes the last of them, makes the type there public, and puts the slots in it on
top. Workers take turns in whatever order. What is left to be counted in the forest
and what has been counted are always the same together, so all orders come to what
a module publishes, and none takes longer than there are slots.
-/

namespace Unveil

section Sweep

variable {α : Type} {isPublic : α → Bool} {publish : α → α}

/-- Makes the members public that are not, and counts these. -/
def sweepSlots (isPublic : α → Bool) (publish : α → α) :
    List (Option α) → List (Option α) × Nat
  | [] => ([], 0)
  | none :: slots =>
      let (swept, count) := sweepSlots isPublic publish slots
      (none :: swept, count)
  | some member :: slots =>
      let (swept, count) := sweepSlots isPublic publish slots
      if isPublic member then (some member :: swept, count)
      else (some (publish member) :: swept, count + 1)

theorem sweepSlots_eq (hpublic : ∀ member, isPublic member = true → publish member = member)
    (slots : List (Option α)) :
    sweepSlots isPublic publish slots =
      (slots.map (·.map publish), slots.countP (·.any (!isPublic ·))) := by
  induction slots with
  | nil => rfl
  | cons slot slots ih =>
      cases slot with
      | none => simp [sweepSlots, ih]
      | some member =>
          cases hmember : isPublic member with
          | true => simp [sweepSlots, ih, hmember, hpublic member hmember]
          | false => simp [sweepSlots, ih, hmember]

end Sweep

theorem MethodDecl.unveil_of_public {method : MethodDecl} (h : method.isPublic = true) :
    method.unveil = method := by
  rw [unveil, withAccess, ← flags_unveil, flags_unveil_eq.mpr h]

theorem FieldDecl.unveil_of_public {field : FieldDecl} (h : field.isPublic = true) :
    field.unveil = field := by
  rw [unveil, withAccess, ← flags_unveil, flags_unveil_eq.mpr h]

/-- Makes a type and its members public as far as they are not, and counts what is
changed. -/
def TypeDecl.sweep (type : TypeDecl) : TypeDecl × Tally :=
  let (swept, types) :=
    if type.isPublic then (type, 0)
    else (type.withVisibility (.widest type.isNested), 1)
  let (methods, methodCount) :=
    sweepSlots MethodDecl.isPublic (·.withAccess .isPublic) swept.methods
  let (fields, fieldCount) := sweepSlots FieldDecl.isPublic (·.withAccess .isPublic) swept.fields
  ({ swept with methods, fields }, ⟨types, methodCount, fieldCount⟩)

theorem TypeDecl.sweep_eq (type : TypeDecl) : type.sweep = (type.unveil, type.hidden) := by
  have hword : (if type.isPublic then (type, 0)
      else (type.withVisibility (.widest type.isNested), 1)) =
      (type.withVisibility (.widest type.isNested), if type.isPublic then 0 else 1) := by
    cases hpublic : type.isPublic with
    | false => rfl
    | true =>
        simp only [↓reduceIte, Prod.mk.injEq, and_true]
        rw [withVisibility, ← flags_unveil, flags_unveil_eq.mpr hpublic]
  have hmethods : sweepSlots MethodDecl.isPublic (·.withAccess .isPublic)
      (type.withVisibility (.widest type.isNested)).methods = _ :=
    sweepSlots_eq (fun _ => MethodDecl.unveil_of_public) type.methods
  have hfields : sweepSlots FieldDecl.isPublic (·.withAccess .isPublic)
      (type.withVisibility (.widest type.isNested)).fields = _ :=
    sweepSlots_eq (fun _ => FieldDecl.unveil_of_public) type.fields
  rw [sweep, hword]
  simp only [hmethods, hfields]
  rfl

open Forest (Move)

/-- A worker: the addresses of the slots that it has still to look at, the next one
first, and what it has counted. -/
structure Worker where
  pending : List (List Move)
  tally : Tally

/-- One turn of a worker. It looks at the next of its slots, and if a type is there,
makes it public in its place and puts the slots in it on top, the last one uppermost.
There is no turn without a slot to look at. -/
def Worker.turn (worker : Worker) (forest : Forest) : Option (Forest × Worker) :=
  match worker.pending with
  | [] => none
  | address :: pending =>
      match forest.at? address with
      | none | some .nil => none
      | some (.absent _) => some (forest, ⟨pending, worker.tally⟩)
      | some (.present type nested _) =>
          let inner := nested.slotAddresses.map (address ++ Move.inside :: ·)
          some (forest.changeAt (fun type => type.sweep.1) address,
            ⟨inner.reverse ++ pending, worker.tally.add type.sweep.2⟩)

/-- A pass that is under way. -/
structure Pass where
  forest : Forest
  workers : List Worker

namespace Pass

/-- Every slot of the outermost row has a worker of its own. -/
def start (forest : Forest) : Pass where
  forest := forest
  workers := forest.slotAddresses.map fun address => ⟨[address], .zero⟩

/-- The slots that have still to be looked at. -/
def waiting (pass : Pass) : List (List Move) := pass.workers.flatMap (·.pending)

/-- What all workers have counted. -/
def tallied (pass : Pass) : Tally := .sum (pass.workers.map (·.tally))

/-- Some worker takes its turn. -/
inductive Step : Pass → Pass → Prop
  | turn {forest forest' : Forest} {before behind : List Worker} {worker worker' : Worker}
      (hturn : worker.turn forest = some (forest', worker')) :
      Step ⟨forest, before ++ worker :: behind⟩ ⟨forest', before ++ worker' :: behind⟩

/-- So many turns lead from one pass to another. -/
inductive Runs (first : Pass) : Nat → Pass → Prop
  | refl : Runs first 0 first
  | step {turns : Nat} {pass next : Pass} (hruns : Runs first turns pass)
      (hstep : Step pass next) : Runs first (turns + 1) next

variable {forest : Forest} {pass next : Pass} {turns : Nat}

/-- What a turn does, whatever is in the slot. -/
theorem turn_eq_some {forest' : Forest} {worker worker' : Worker}
    (h : worker.turn forest = some (forest', worker')) :
    ∃ address pending row, worker.pending = address :: pending ∧
      forest.at? address = some row ∧ 0 < row.firstCount ∧
      forest' = forest.changeAt TypeDecl.unveil address ∧
      worker'.pending = (row.innerAddresses.map (address ++ ·)).reverse ++ pending ∧
      worker'.tally = worker.tally.add row.firstHidden := by
  have hsweep : (fun type : TypeDecl => type.sweep.1) = TypeDecl.unveil :=
    funext fun type => congrArg Prod.fst type.sweep_eq
  unfold Worker.turn at h
  cases hpending : worker.pending with
  | nil => simp [hpending] at h
  | cons address pending =>
      simp only [hpending] at h
      cases hrow : forest.at? address with
      | none => simp [hrow] at h
      | some row =>
          simp only [hrow] at h
          refine ⟨address, pending, row, rfl, hrow, ?_⟩
          cases row with
          | nil => cases h
          | absent rest =>
              cases h
              refine ⟨Nat.one_pos, (Forest.changeAt_of_absent hrow).symm, rfl, ?_⟩
              rw [Forest.firstHidden, Tally.add_comm, Tally.zero_add]
          | present type nested rest =>
              cases h
              rw [hsweep, type.sweep_eq]
              refine ⟨Nat.succ_pos _, rfl, ?_, rfl⟩
              rw [Forest.innerAddresses, List.map_map]
              rfl

/-- A worker has a turn as long as slots wait for it. -/
theorem exists_turn {worker : Worker} {address : List Move} {pending : List (List Move)}
    (hpending : worker.pending = address :: pending) (hslot : 0 < forest.countAt address) :
    ∃ forest' worker', worker.turn forest = some (forest', worker') := by
  obtain ⟨row, hrow, hfirst⟩ := Forest.countAt_pos hslot
  unfold Worker.turn
  simp only [hpending, hrow]
  cases row with
  | nil => cases hfirst
  | absent rest => exact ⟨_, _, rfl⟩
  | present type nested rest => exact ⟨_, _, rfl⟩

/-- Some worker looks at the slot at an address, the next of its slots. -/
inductive Looks : Pass → List Move → Pass → Prop
  | turn {forest forest' : Forest} {before behind : List Worker} {worker worker' : Worker}
      {address : List Move} {pending : List (List Move)}
      (hpending : worker.pending = address :: pending)
      (hturn : worker.turn forest = some (forest', worker')) :
      Looks ⟨forest, before ++ worker :: behind⟩ address ⟨forest', before ++ worker' :: behind⟩

theorem Looks.step {address : List Move} (h : Looks pass address next) : Step pass next := by
  obtain ⟨-, hturn⟩ := h
  exact .turn hturn

theorem Step.exists_look (h : Step pass next) : ∃ address, Looks pass address next := by
  obtain ⟨hturn⟩ := h
  obtain ⟨address, pending, row, hpending, -⟩ := turn_eq_some hturn
  exact ⟨address, .turn hpending hturn⟩

/-- What a step does: one slot is looked at, and those in it wait in its place. -/
theorem Looks.cases {address : List Move} (h : Looks pass address next) :
    ∃ before behind row, pass.waiting = before ++ address :: behind ∧
      pass.forest.at? address = some row ∧ 0 < row.firstCount ∧
      next.forest = pass.forest.changeAt TypeDecl.unveil address ∧
      next.waiting = before ++ ((row.innerAddresses.map (address ++ ·)).reverse ++ behind) ∧
      next.tallied = pass.tallied.add row.firstHidden := by
  obtain @⟨forest, changed, before, behind, worker, worker', address, pending, hpending, hturn⟩ := h
  obtain ⟨address, pending, row, hown, hrow, hfirst, rfl, hpending', htally⟩ := turn_eq_some hturn
  obtain ⟨rfl, rfl⟩ := List.cons.inj (hpending.symm.trans hown)
  refine ⟨before.flatMap (·.pending), pending ++ behind.flatMap (·.pending), row, ?_, hrow,
    hfirst, rfl, ?_, ?_⟩
  · simp only [waiting, List.flatMap_append, List.flatMap_cons, hpending, List.cons_append]
  · simp only [waiting, List.flatMap_append, List.flatMap_cons, hpending', List.append_assoc]
  · simp only [tallied, List.map_append, List.map_cons, Tally.sum_append, Tally.sum_cons, htally,
      Tally.add, Tally.mk.injEq]
    omega

/-- What is so of every pass over a forest. Types keep their places, what is counted
and what is left add up, only slots that wait and what lies in them are not public
yet, and so many turns as these are slots are still to be taken. -/
structure Underway (forest : Forest) (turns : Nat) (pass : Pass) : Prop where
  same : pass.forest.mapTypes TypeDecl.unveil = forest.mapTypes TypeDecl.unveil
  counted : pass.tallied.add (.sum (pass.forest.preorder.map TypeDecl.hidden)) =
    .sum (forest.preorder.map TypeDecl.hidden)
  changed : pass.forest.ChangedBut TypeDecl.unveil (· ∈ pass.waiting)
  inside : ∀ address ∈ pass.waiting, 0 < forest.countAt address
  turns_eq : turns + total (pass.waiting.map forest.countAt) = forest.slotCount

theorem waiting_start (forest : Forest) : (start forest).waiting = forest.slotAddresses := by
  rw [waiting, start, List.flatMap_map]
  exact List.flatMap_singleton' _

theorem underway_start (forest : Forest) : Underway forest 0 (start forest) := by
  have hwaiting := waiting_start forest
  have hzero : (start forest).tallied = .zero := by
    apply Tally.sum_eq_zero
    intro tally htally
    rw [start, List.map_map] at htally
    obtain ⟨_, -, rfl⟩ := List.mem_map.mp htally
    rfl
  constructor
  · rfl
  · rw [hzero, Tally.zero_add]
    rfl
  · apply Forest.ChangedBut.of_slots
    rw [hwaiting]
    exact fun _ => id
  · rw [hwaiting]
    exact forest.countAt_slotAddresses
  · rw [hwaiting, Nat.zero_add, Forest.total_slotAddresses]

theorem Underway.step (h : Underway forest turns pass) (hstep : Step pass next) :
    Underway forest (turns + 1) next := by
  obtain ⟨address, hlook⟩ := hstep.exists_look
  obtain ⟨before, behind, row, hwaiting, hrow, hfirst, hforest, hwaiting', htallied⟩ := hlook.cases
  have hcount : pass.forest.countAt = forest.countAt := Forest.countAt_congr h.same
  obtain ⟨hsame, hcounted, hchanged, hinside, hturns⟩ := h
  rw [hwaiting] at hchanged hinside hturns
  constructor
  · rw [hforest, Forest.mapTypes_changeAt TypeDecl.unveil_unveil, hsame]
  · rw [htallied, hforest, Tally.add_assoc, ← Forest.hidden_changeAt hrow, hcounted]
  · rw [hforest, hwaiting']
    apply hchanged.visit TypeDecl.unveil_unveil hrow
    · intro other hother hwaits
      simp only [List.mem_append, List.mem_cons, hother, false_or] at hwaits ⊢
      exact hwaits.imp_right Or.inr
    · intro slot hslot
      simp only [List.mem_append, List.mem_reverse]
      exact Or.inr (Or.inl (List.mem_map_of_mem hslot))
  · rw [hwaiting']
    intro other hother
    simp only [List.mem_append, List.mem_reverse] at hother
    rcases hother with hbefore | hnew | hlater
    · exact hinside other (List.mem_append_left _ hbefore)
    · obtain ⟨slot, hslot, rfl⟩ := List.mem_map.mp hnew
      rw [← hcount]
      exact Forest.countAt_innerAddresses hrow slot hslot
    · exact hinside other (List.mem_append_right _ (List.mem_cons_of_mem _ hlater))
  · have hnew := Forest.total_innerAddresses hrow hfirst
    rw [hcount] at hnew
    rw [hwaiting']
    simp only [List.map_append, List.map_cons, List.map_reverse, total_append, total_cons,
      total_reverse] at hturns ⊢
    omega

theorem underway_of_runs (hruns : Runs (start forest) turns pass) :
    Underway forest turns pass := by
  induction hruns with
  | refl => exact underway_start forest
  | step _ hstep ih => exact ih.step hstep

/-- No worker has a slot to look at any more. -/
def Finished (pass : Pass) : Prop := ∀ worker ∈ pass.workers, worker.pending = []

theorem finished_iff : pass.Finished ↔ pass.waiting = [] := by
  rw [Finished, waiting, List.flatMap_eq_nil_iff]

/-- A pass is finished exactly when as many turns were taken as there are slots. -/
theorem Underway.finished_iff_turns (h : Underway forest turns pass) :
    pass.Finished ↔ turns = forest.slotCount := by
  obtain ⟨-, -, -, hinside, hturns⟩ := h
  rw [finished_iff, ← hturns]
  cases hwaiting : pass.waiting with
  | nil => simp
  | cons address others =>
      have hslot := hinside address (hwaiting ▸ List.mem_cons_self ..)
      simp only [List.map_cons, total_cons, reduceCtorEq, false_iff]
      omega

/-- As long as it is not finished, some worker can take a turn. -/
theorem Underway.exists_step (h : Underway forest turns pass) (hopen : ¬ pass.Finished) :
    ∃ next, Step pass next := by
  obtain ⟨worker, hwaits⟩ := Classical.not_forall.mp hopen
  obtain ⟨hworker, hpending⟩ := Classical.not_imp.mp hwaits
  obtain ⟨address, pending, hpending⟩ := List.exists_cons_of_ne_nil hpending
  obtain ⟨before, behind, hworkers⟩ := List.append_of_mem hworker
  have hwaits : address ∈ pass.waiting :=
    List.mem_flatMap.mpr ⟨worker, hworker, hpending ▸ List.mem_cons_self ..⟩
  have hslot : 0 < pass.forest.countAt address := by
    rw [Forest.countAt_congr h.same]
    exact h.inside address hwaits
  obtain ⟨forest', worker', hturn⟩ := exists_turn hpending hslot
  obtain ⟨current, workers⟩ := pass
  obtain rfl : workers = before ++ worker :: behind := hworkers
  exact ⟨_, .turn hturn⟩

/-- A finished pass has made everything public, and has counted all that was not. -/
theorem Underway.finished (h : Underway forest turns pass) (hfinished : pass.Finished) :
    pass.forest = forest.mapTypes TypeDecl.unveil ∧
      pass.tallied = .sum (forest.preorder.map TypeDecl.hidden) := by
  obtain ⟨hsame, hcounted, hchanged, -, -⟩ := h
  have hall : pass.forest.mapTypes TypeDecl.unveil = pass.forest := by
    apply hchanged.mapTypes_eq
    simp [finished_iff.mp hfinished]
  have hnone : Tally.sum (pass.forest.preorder.map TypeDecl.hidden) = .zero := by
    apply Tally.sum_eq_zero
    intro tally htally
    rw [← hall, Forest.preorder_mapTypes, List.map_map] at htally
    obtain ⟨type, -, rfl⟩ := List.mem_map.mp htally
    exact type.hidden_unveil
  rw [hnone, Tally.add_comm, Tally.zero_add] at hcounted
  exact ⟨hall.symm.trans hsame, hcounted⟩

end Pass

/-- A method with public bits in its word, spelled out. -/
def MethodDecl.laidOpen (method : MethodDecl) : MethodDecl :=
  { method with flags := (method.flags &&& ~~~7) ||| 6 }

def FieldDecl.laidOpen (field : FieldDecl) : FieldDecl :=
  { field with flags := (field.flags &&& ~~~7) ||| 6 }

/-- A type with public bits in its word and in those of its members, and everything
else as it is. -/
def TypeDecl.laidOpen (type : TypeDecl) : TypeDecl :=
  { type with
    flags := (type.flags &&& ~~~7) ||| (if type.isNested then 2 else 1)
    methods := type.methods.map (·.map MethodDecl.laidOpen)
    fields := type.fields.map (·.map FieldDecl.laidOpen) }

theorem TypeDecl.laidOpen_eq (type : TypeDecl) : type.laidOpen = type.unveil := by
  have hbits : (Visibility.widest type.isNested).bits = if type.isNested then 2 else 1 := by
    cases type.isNested <;> rfl
  rw [laidOpen, unveil, withVisibility, Visibility.replaceIn, hbits]
  rfl

namespace Module

/-- A pass over a module replaces the visibility bits of every declaration, at whatever
depth, and changes nothing else. It counts the declarations whose word is no longer
what it was. The same comes of workers that share the forest, one for each slot of the
outermost row: in whatever order they take turns, they can go on until as many turns
are taken as there are slots, and then the forest is the same, and so is what they
have counted, in whatever order and with whatever bracketing it is added up. A second
pass changes and counts nothing. -/
theorem unveil_pointwise (module : Module) (parallel : Bool) (journal : Journal) :
    ∃ published tally after,
      module.unveil parallel journal = .ok (published, tally) after ∧
      published = { module with types := module.types.mapTypes TypeDecl.laidOpen } ∧
      tally = module.types.reflagged published.types ∧
      (∀ turns pass, (Pass.start module.types).Runs turns pass →
        turns ≤ module.types.slotCount ∧
        (pass.Finished ↔ turns = module.types.slotCount) ∧
        (¬ pass.Finished → ∃ next, pass.Step next) ∧
        (pass.Finished → pass.forest = published.types ∧
          ∀ tallying : Tallying, tallying.tallies.Perm (pass.workers.map (·.tally)) →
            tallying.result = tally)) ∧
      ∀ again journal', ∃ after',
        published.unveil again journal' = .ok (published, .zero) after' := by
  have hlaid : TypeDecl.laidOpen = TypeDecl.unveil := funext TypeDecl.laidOpen_eq
  obtain ⟨after, hunveil⟩ := module.unveil_eq parallel journal
  have hpublished : module.published =
      { module with types := module.types.mapTypes TypeDecl.laidOpen } := by
    rw [published, hlaid, Forest.map_eq_mapTypes]
  have htally := module.types.tally_unveil parallel
  refine ⟨module.published, _, after, hunveil, hpublished, ?_, ?_, ?_⟩
  · rw [htally, ← Forest.reflagged_unveil]
    rfl
  · intro turns pass hruns
    have hunderway := Pass.underway_of_runs hruns
    have hturns : turns ≤ module.types.slotCount :=
      hunderway.turns_eq ▸ Nat.le_add_right turns _
    refine ⟨hturns, hunderway.finished_iff_turns, hunderway.exists_step, fun hfinished => ?_⟩
    obtain ⟨hforest, htallied⟩ := hunderway.finished hfinished
    refine ⟨hforest.trans (Forest.map_eq_mapTypes _ _).symm, fun tallying hperm => ?_⟩
    rw [tallying.result_eq_sum, Tally.sum_perm hperm, htally]
    exact htallied
  · intro again journal'
    obtain ⟨after', hagain⟩ := module.published.unveil_eq again journal'
    have hzero := module.types.tally_unveil_again again
    have hsame : module.published.published = module.published := by
      rw [published, published, Forest.unveil_unveil]
    refine ⟨after', ?_⟩
    rw [hagain, hsame]
    exact congrArg (fun tally => EStateM.Result.ok (module.published, tally) after') hzero

/-- The reserved pattern seven is no access right, so a member that has it is counted;
an empty slot and a type that is public already are not. -/
example :
    let run : MethodDecl := ⟨.ofParts .methodDef 1, "Run", 0x0097, 0, 0⟩
    let inner : TypeDecl := ⟨.ofParts .typeDef 3, "Inner", "", 0x00100003, true, [some run], []⟩
    let outer : TypeDecl := ⟨.ofParts .typeDef 2, "Outer", "Demo", 0x00100001, false, [none], []⟩
    let row (inner : TypeDecl) : Forest := .absent (.present outer (.present inner .nil .nil) .nil)
    (row inner).unveil true =
      (row { inner with
        flags := 0x00100002, methods := [some { run with flags := 0x0096 }] }, ⟨1, 1, 0⟩) := by
  decide +kernel

end Module

end Unveil
