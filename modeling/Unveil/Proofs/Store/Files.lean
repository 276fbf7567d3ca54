import Unveil.Proofs.Store.Replacing

/-!
What the steps of a write do to files. Making directories does nothing to them.
A draft is a file at a place where there was nothing, so filling it again and
removing it leave every other file as it was, and giving it another name changes
what is at the place of that name and nothing else. A step that fails does
nothing, so each of these holds for a host that refuses steps at will.
-/

namespace Unveil

namespace Store

variable {store store' : Store}

/-- The files of both stores are the same, and the directories of the first are
directories of the second. -/
structure SameFiles (store store' : Store) : Prop extends Keeps store store' where
  file_iff : ∀ place data,
    store'.node? place = some (.file data) ↔ store.node? place = some (.file data)

theorem Keeps.refl (store : Store) : Keeps store store := ⟨rfl, fun _ h => h⟩

theorem SameFiles.refl (store : Store) : SameFiles store store :=
  ⟨.refl store, fun _ _ => Iff.rfl⟩

theorem SameFiles.trans {store'' : Store} (h : SameFiles store store')
    (h' : SameFiles store' store'') : SameFiles store store'' where
  toKeeps := h.toKeeps.trans h'.toKeeps
  file_iff place data := (h'.file_iff place data).trans (h.file_iff place data)

/-- A place that is neither a file nor a directory of the second store was
empty in the first. -/
theorem SameFiles.node?_eq_none (h : SameFiles store store') {place : Location}
    (hplace : store'.node? place = none) : store.node? place = none := by
  cases hnode : store.node? place with
  | none => rfl
  | some node =>
      cases node with
      | file data =>
          rw [(h.file_iff place data).mpr hnode] at hplace
          cases hplace
      | directory =>
          rw [h.directory place hnode] at hplace
          cases hplace

theorem read?_eq_some {path : Path} {data : Bytes} : store.read? path = some data ↔
    ∃ place, store.walk path = .ok place ∧ store.node? place = some (.file data) := by
  rw [read?, Option.bind_eq_some_iff]
  constructor
  · rintro ⟨⟨place, node⟩, hfound, hdata⟩
    obtain ⟨hwalk, hnode⟩ := find?_eq_some.mp hfound
    cases node with
    | file found =>
        obtain rfl := Option.some.inj hdata
        exact ⟨place, hwalk, hnode⟩
    | directory => cases hdata
  · rintro ⟨place, hwalk, hnode⟩
    exact ⟨_, find?_eq_some.mpr ⟨hwalk, hnode⟩, rfl⟩

theorem SameFiles.read?_eq (h : SameFiles store store') {path : Path} {data : Bytes}
    (hread : store.read? path = some data) : store'.read? path = some data := by
  obtain ⟨place, hwalk, hnode⟩ := read?_eq_some.mp hread
  exact read?_eq_some.mpr ⟨place, h.toKeeps.walk hwalk, (h.file_iff place data).mpr hnode⟩

theorem sameFiles_makeDirectory (store : Store) (path : Path) :
    SameFiles store (store.makeDirectory path).2 := by
  unfold makeDirectory
  split
  · exact .refl store
  · exact .refl store
  · rename_i place hwalk
    split
    · exact .refl store
    · rename_i hnone
      refine ⟨keeps_put (by rw [hnone]; nofun), fun other data => ?_⟩
      by_cases hroot : other = []
      · rw [hroot]
        exact Iff.rfl
      · rw [node?_put _ _ _ _ hroot]
        split
        · rename_i hsame
          rw [hsame, hnone]
          exact ⟨nofun, nofun⟩
        · exact Iff.rfl

/-- The second store is the first with a draft in it: a file at the place that
`path` leads to, where there was nothing before. -/
structure Drafted (store store' : Store) (path : Path) (place : Location) : Prop
    extends Keeps store store' where
  walk_eq : store'.walk path = .ok place
  absent : store.node? place = none
  drafted : ∃ data, store'.node? place = some (.file data)
  others : ∀ other, other ≠ place → ∀ data,
    store'.node? other = some (.file data) ↔ store.node? other = some (.file data)

/-- The second store is the first with a file at the place that `path` leads
to, whatever was there before. -/
structure Replaced (store store' : Store) (path : Path) (data : Bytes) (place : Location) : Prop
    extends Keeps store store' where
  walk_eq : store'.walk path = .ok place
  replaced : store'.node? place = some (.file data)
  others : ∀ other, other ≠ place → ∀ found,
    store'.node? other = some (.file found) ↔ store.node? other = some (.file found)

/-- A file is still there, or it is the one whose place was taken. -/
theorem Replaced.file_kept {path : Path} {data : Bytes} {place : Location}
    (h : Replaced store store' path data place) (other : Location) (found : Bytes)
    (hfound : store.node? other = some (.file found)) :
    ∃ now, store'.node? other = some (.file now) := by
  by_cases hsame : other = place
  · exact ⟨data, hsame ▸ h.replaced⟩
  · exact ⟨found, (h.others other hsame found).mpr hfound⟩

/-- A file is read as before unless its place was taken. -/
theorem Replaced.read?_eq {path other : Path} {data bytes : Bytes} {place : Location}
    (h : Replaced store store' path data place) (hread : store.read? other = some bytes)
    (hapart : ∀ found, store.walk other = .ok found → found ≠ place) :
    store'.read? other = some bytes := by
  obtain ⟨found, hwalk, hnode⟩ := read?_eq_some.mp hread
  refine read?_eq_some.mpr ⟨found, h.toKeeps.walk hwalk, ?_⟩
  exact (h.others found (hapart found hwalk) bytes).mpr hnode

/-- A file that could not be filled is as it was. -/
theorem fill_of_false {path : Path} {data : Bytes} (h : (store.fill path data).1 = false) :
    (store.fill path data).2 = store := by
  unfold fill at h ⊢
  split
  · rfl
  · rename_i place hwalk
    simp only [hwalk] at h
    split
    · rfl
    · rename_i hnode
      split at h
      · exact absurd ‹_› hnode
      · cases h

/-- A file takes over a name that is one, or nothing happens. -/
theorem rename_cases (store : Store) (source target : Path) :
    store.rename source target = (false, store) ∨
      ((store.rename source target).1 = true ∧ ∃ last, target.pieces.getLast? = some last ∧
        Path.isIdle last = false ∧ last ≠ ['.', '.']) := by
  unfold rename
  split
  · split
    · rename_i last hlast
      split
      · exact Or.inl rfl
      · rename_i hallowed
        rw [not_or, not_or] at hallowed
        exact Or.inr ⟨rfl, last, hlast, eq_false_of_ne_true hallowed.1, hallowed.2.1⟩
    · exact Or.inl rfl
  · exact Or.inl rfl

theorem node?_put_self {place : Location} (hroot : place ≠ []) (node : Node) :
    (store.put place node).node? place = some node := by
  rw [node?_put _ _ _ _ hroot, if_pos rfl]

theorem node?_put_other {place other : Location} (hother : other ≠ place) (node : Node) :
    (store.put place node).node? other = store.node? other := by
  by_cases hroot : other = []
  · rw [hroot]
    rfl
  · rw [node?_put _ _ _ _ hroot, if_neg hother]

/-- Where no file had its name, a file that was made is a draft. -/
theorem Drafted.of_fill {between : Store} {path : Path} {data : Bytes}
    (h : SameFiles store between) (hfresh : between.read? path = none)
    (hfill : between.fill path data = (true, store')) :
    ∃ place, Drafted store store' path place := by
  obtain ⟨place, hwalk, hnode, rfl⟩ := fill_eq_true hfill
  have hroot : place ≠ [] := fun hsame => hnode (hsame ▸ rfl)
  have habsent : between.node? place = none := by
    cases hfound : between.node? place with
    | none => rfl
    | some node =>
        cases node with
        | directory => exact absurd hfound hnode
        | file found =>
            rw [read?, find?_eq_some.mpr ⟨hwalk, hfound⟩] at hfresh
            cases hfresh
  refine ⟨place, {
    toKeeps := h.toKeeps.trans (keeps_put hnode)
    walk_eq := (keeps_put hnode).walk hwalk
    absent := h.node?_eq_none habsent
    drafted := ⟨data, node?_put_self hroot _⟩
    others := fun other hother found => ?_ }⟩
  rw [node?_put_other hother]
  exact h.file_iff other found

namespace Drafted

variable {path target : Path} {place : Location} {data : Bytes}

theorem ne_root (h : Drafted store store' path place) : place ≠ [] :=
  fun hroot => nomatch hroot ▸ h.absent

theorem fill_eq (h : Drafted store store' path place) (data : Bytes) :
    store'.fill path data = (true, store'.put place (.file data)) := by
  obtain ⟨found, hfound⟩ := h.drafted
  rw [fill, h.walk_eq]
  simp only [hfound]

/-- A draft stays one when it is filled. -/
theorem fill (h : Drafted store store' path place) (data : Bytes) :
    Drafted store (store'.put place (.file data)) path place := by
  obtain ⟨found, hfound⟩ := h.drafted
  have hkeeps : Keeps store' (store'.put place (.file data)) :=
    keeps_put (by rw [hfound]; nofun)
  exact {
    toKeeps := h.toKeeps.trans hkeeps
    walk_eq := hkeeps.walk h.walk_eq
    absent := h.absent
    drafted := ⟨data, node?_put_self h.ne_root _⟩
    others := fun other hother => by
      rw [node?_put_other hother]
      exact h.others other hother }

/-- Removing a draft leaves the files that there were before it. -/
theorem remove (h : Drafted store store' path place) : SameFiles store (store'.remove path) := by
  obtain ⟨found, hfound⟩ := h.drafted
  have hremove : store'.remove path = store'.erase place := by
    rw [Store.remove, find?_eq_some.mpr ⟨h.walk_eq, hfound⟩]
  rw [hremove]
  refine ⟨h.toKeeps.trans (keeps_erase (by rw [hfound]; nofun)), fun other data => ?_⟩
  by_cases hsame : other = place
  · rw [hsame, node?_erase_self h.ne_root, h.absent]
  · rw [node?_erase _ hsame]
    exact h.others other hsame data

/-- A filled draft takes over the name of another file. -/
theorem rename {store'' : Store} (h : Drafted store store' path place)
    (hdata : store'.node? place = some (.file data))
    (hrename : store'.rename path target = (true, store'')) :
    ∃ new, Replaced store store'' target data new ∧ Keeps store' store'' := by
  obtain ⟨old, new, found, hfound, htarget, hnew, rfl⟩ := rename_eq_true hrename
  obtain ⟨hold, hnode⟩ := find?_eq_some.mp hfound
  obtain rfl := Except.ok.inj (h.walk_eq.symm.trans hold)
  obtain rfl := Node.file.inj (Option.some.inj (hdata.symm.trans hnode))
  have herased : Keeps store' (store'.erase place) := keeps_erase (by rw [hdata]; nofun)
  have hfree : (store'.erase place).node? new ≠ some .directory := by
    by_cases hsame : new = place
    · rw [hsame, node?_erase_self h.ne_root]
      nofun
    · rw [node?_erase _ hsame]
      exact hnew
  have hkeeps : Keeps store' ((store'.erase place).put new (.file data)) :=
    herased.trans (keeps_put hfree)
  have hroot : new ≠ [] := by
    rintro rfl
    exact hnew rfl
  refine ⟨new, {
    toKeeps := h.toKeeps.trans hkeeps
    walk_eq := hkeeps.walk htarget
    replaced := node?_put_self hroot _
    others := fun other hother found => ?_ }, hkeeps⟩
  rw [node?_put_other hother]
  by_cases hsame : other = place
  · rw [hsame, node?_erase_self h.ne_root, h.absent]
  · rw [node?_erase _ hsame]
    exact h.others other hsame found

end Drafted

end Store

end Unveil
