import Unveil.Store.Basic

namespace Unveil

namespace Store

variable {store store' : Store}

/-- Every directory of one store is one of the other, and paths start from the
same place. -/
structure Keeps (store store' : Store) : Prop where
  home_eq : store'.home = store.home
  directory : ∀ place, store.node? place = some .directory → store'.node? place = some .directory

theorem Keeps.trans {store'' : Store} (h : Keeps store store') (h' : Keeps store' store'') :
    Keeps store store'' where
  home_eq := h'.home_eq.trans h.home_eq
  directory place hplace := h'.directory place (h.directory place hplace)

theorem keeps_put {place : Location} {node : Node} (h : store.node? place ≠ some .directory) :
    Keeps store (store.put place node) where
  home_eq := rfl
  directory other hother := by
    by_cases hroot : other = []
    · rw [hroot]
      rfl
    · have hdiffers : other ≠ place := fun hsame => h (hsame ▸ hother)
      rw [node?_put _ _ _ _ hroot, if_neg hdiffers]
      exact hother

theorem keeps_erase {place : Location} (h : store.node? place ≠ some .directory) :
    Keeps store (store.erase place) where
  home_eq := rfl
  directory other hother := by
    have hdiffers : other ≠ place := fun hsame => h (hsame ▸ hother)
    rw [node?_erase _ hdiffers]
    exact hother

theorem node?_erase_self {place : Location} (hroot : place ≠ []) :
    (store.erase place).node? place = none := by
  rw [node?, if_neg hroot, List.lookup_eq_none_iff]
  intro entry hentry
  simp only [erase, List.mem_filter, decide_eq_true_eq] at hentry
  exact bne_iff_ne.mpr (Ne.symm hentry.2)

theorem Keeps.step (h : Keeps store store') {place next : Location} {piece : List Char}
    (hstep : store.step place piece = .ok next) : store'.step place piece = .ok next := by
  unfold Store.step at hstep ⊢
  split at hstep
  · cases hstep
  · cases hstep
  · rename_i hplace
    rw [h.directory place hplace]
    exact hstep

theorem Keeps.steps (h : Keeps store store') {pieces : List (List Char)} {place next : Location}
    (hsteps : pieces.foldlM store.step place = .ok next) :
    pieces.foldlM store'.step place = .ok next := by
  induction pieces generalizing place with
  | nil => exact hsteps
  | cons piece pieces ih =>
      rw [List.foldlM_cons] at hsteps ⊢
      cases hstep : store.step place piece with
      | error block =>
          rw [hstep] at hsteps
          cases hsteps
      | ok between =>
          rw [hstep] at hsteps
          rw [h.step hstep]
          exact ih hsteps

/-- A walk that leads somewhere leads there in every store with these
directories. -/
theorem Keeps.walk (h : Keeps store store') {path : Path} {place : Location}
    (hwalk : store.walk path = .ok place) : store'.walk path = .ok place := by
  unfold Store.walk at hwalk ⊢
  split at hwalk
  · cases hwalk
  · split at hwalk
    · cases hwalk
    · rename_i hempty hlimit
      rw [if_neg hempty, if_neg hlimit, h.home_eq]
      exact h.steps hwalk

theorem fill_eq_true {path : Path} {data : Bytes} (h : store.fill path data = (true, store')) :
    ∃ place, store.walk path = .ok place ∧ store.node? place ≠ some .directory ∧
      store' = store.put place (.file data) := by
  unfold fill at h
  split at h
  · cases h
  · rename_i place hwalk
    split at h
    · cases h
    · rename_i hnode
      cases h
      exact ⟨place, hwalk, hnode, rfl⟩

theorem find?_eq_some {path : Path} {place : Location} {node : Node} :
    store.find? path = some (place, node) ↔
      store.walk path = .ok place ∧ store.node? place = some node := by
  unfold find?
  cases store.walk path with
  | error block => simp
  | ok found =>
      simp only [Option.map_eq_some_iff, Prod.mk.injEq, Except.ok.injEq]
      constructor
      · rintro ⟨_, hnode, rfl, rfl⟩
        exact ⟨rfl, hnode⟩
      · rintro ⟨rfl, hnode⟩
        exact ⟨node, hnode, rfl, rfl⟩

theorem rename_eq_true {source target : Path}
    (h : store.rename source target = (true, store')) :
    ∃ old new data, store.find? source = some (old, .file data) ∧ store.walk target = .ok new ∧
      store.node? new ≠ some .directory ∧ store' = (store.erase old).put new (.file data) := by
  unfold rename at h
  split at h
  · rename_i old data new hfound hwalk
    split at h
    · rename_i last node hlast hnode
      split at h
      · cases h
      · rename_i hallowed
        cases h
        exact ⟨old, new, data, hfound, hwalk, fun hdirectory => hallowed (.inr (.inr hdirectory)),
          rfl⟩
    · cases h
  · cases h

/-- A file filled and then renamed has what it was filled with. -/
theorem read?_of_replaced {between : Store} {source target : Path} {data : Bytes}
    (hfill : store.fill source data = (true, between))
    (hrename : between.rename source target = (true, store')) :
    store'.read? target = some data := by
  obtain ⟨place, hwalk, hplace, rfl⟩ := fill_eq_true hfill
  obtain ⟨old, new, found, hfound, htarget, hnew, rfl⟩ := rename_eq_true hrename
  have hroot : place ≠ [] := fun hsame => hplace (hsame ▸ rfl)
  have hput : (store.put place (.file data)).node? place = some (.file data) := by
    rw [node?_put _ _ _ _ hroot, if_pos rfl]
  obtain ⟨hold, hnode⟩ := find?_eq_some.mp hfound
  rw [(keeps_put hplace).walk hwalk] at hold
  obtain rfl := Except.ok.inj hold
  rw [hput] at hnode
  obtain rfl := Node.file.inj (Option.some.inj hnode)
  have hnewRoot : new ≠ [] := fun hsame => hnew (hsame ▸ rfl)
  have herased : ((store.put place (.file data)).erase place).node? new ≠ some .directory := by
    by_cases hsame : new = place
    · rw [hsame, node?_erase_self hroot]
      nofun
    · rw [node?_erase _ hsame]
      exact hnew
  have hkeeps : Keeps (store.put place (.file data))
      (((store.put place (.file data)).erase place).put new (.file data)) :=
    (keeps_erase (by rw [hput]; nofun)).trans (keeps_put herased)
  have hlast : (((store.put place (.file data)).erase place).put new (.file data)).node? new =
      some (.file data) := by
    rw [node?_put _ _ _ _ hnewRoot, if_pos rfl]
  rw [read?, find?_eq_some.mpr ⟨hkeeps.walk htarget, hlast⟩]
  rfl

end Store

namespace Host

/-- A step that did not fail was taken. -/
theorem attempt_eq_true {act : Store → Bool × Store} {host host' : Host}
    (h : attempt act false host = (true, host')) : act host.store = (true, host'.store) := by
  unfold attempt at h
  split at h
  · cases h
  · obtain ⟨hresult, rfl⟩ := Prod.mk.inj h
    exact Prod.ext hresult rfl

end Host

end Unveil
