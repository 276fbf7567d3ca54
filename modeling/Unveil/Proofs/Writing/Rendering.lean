import Unveil.Proofs.Image.Container
import Unveil.Proofs.Writing.Agreement
import Unveil.Proofs.Writing.Words

namespace Unveil

namespace Module

/-- Does writing bring the checksum up to date? -/
def Restamps (module : Module) (strategy : Strategy) : Prop :=
  strategy = .managed ∧ module.image.checksum ≠ 0

instance (module : Module) (strategy : Strategy) : Decidable (module.Restamps strategy) :=
  inferInstanceAs (Decidable (_ ∧ _))

/-- The checksum that is written. -/
def stamp? (module : Module) (strategy : Strategy) (data : Bytes) : Option UInt32 :=
  if module.Restamps strategy then some (Checksum.compute data module.image.checksumOffset)
  else none

def restamp (module : Module) (strategy : Strategy) (data : Bytes) : Bytes :=
  match module.stamp? strategy data with
  | some checksum => data.overwrite module.image.checksumOffset (Bytes.spell 4 checksum.toNat)
  | none => data

/-- The byte belongs to the checksum field, and that is written. -/
def InChecksum (module : Module) (strategy : Strategy) (i : Nat) : Prop :=
  module.Restamps strategy ∧ module.image.checksumOffset ≤ i ∧ i < module.image.checksumOffset + 4

variable {data : Bytes} {image : Image} {module : Module}

@[simp] theorem size_restamp (strategy : Strategy) :
    (module.restamp strategy data).size = data.size := by
  unfold restamp
  split
  · exact Bytes.size_overwrite ..
  · rfl

theorem restamp_of_not (strategy : Strategy) (h : ¬ module.Restamps strategy) :
    module.restamp strategy data = data := by
  rw [restamp, stamp?, if_neg h]

theorem restamp_of_restamps (strategy : Strategy) (h : module.Restamps strategy) :
    module.restamp strategy data = data.overwrite module.image.checksumOffset
      (Bytes.spell 4 (Checksum.compute data module.image.checksumOffset).toNat) := by
  rw [restamp, stamp?, if_pos h]

theorem getD_restamp {strategy : Strategy} {i : Nat} (h : ¬ module.InChecksum strategy i) :
    (module.restamp strategy data).getD i 0 = data.getD i 0 := by
  unfold restamp stamp?
  split
  · rename_i checksum hstamp
    split at hstamp
    · rename_i hrestamps
      apply Bytes.getD_overwrite_outside
      have hout : ¬ (module.image.checksumOffset ≤ i ∧ i < module.image.checksumOffset + 4) :=
        fun hin => h ⟨hrestamps, hin⟩
      rw [Bytes.length_spell]
      omega
    · cases hstamp
  · rfl

theorem place_of_room {offset : Nat} {part : Bytes} (h : offset + part.size ≤ data.size) :
    data.place offset part = .ok (data.overwrite offset part.toList) := by
  simp only [Bytes.place, demand, h, ↓reduceIte]
  rfl

namespace Loaded

/-- The image with the edits for some words made in its tables stream. -/
def revised (loaded : Loaded image module) (words : AttributeWords) : Bytes :=
  module.image.data.revise
    ((loaded.worded.edits words).map (Edit.shift module.place.tablesOffset))

@[simp] theorem size_revised (loaded : Loaded image module) (words : AttributeWords) :
    (loaded.revised words).size = module.image.data.size := Bytes.size_revise ..

theorem slice_of_size (loaded : Loaded image module) :
    module.image.data.slice module.place.tablesOffset loaded.stream.size = .ok loaded.stream := by
  rw [Bytes.size_slice loaded.slice_stream]
  exact loaded.slice_stream

/-- Every base of a loaded module is valid, since its type rows were read. -/
theorem extendsValid (loaded : Loaded image module) : loaded.tables.ExtendsValid := by
  rcases loaded.accepted.types_cases with ⟨hvalid, -⟩ | ⟨-, hfault⟩
  · exact hvalid
  · rw [loaded.accepted.rows_eq_ok.mpr loaded.shows_types] at hfault
    cases hfault

/-- A loaded module can be rendered with any words. -/
theorem render_eq [Container.LawfulReader] (loaded : Loaded image module) (opened : Image.Opened data image)
    (strategy : Strategy) (words : AttributeWords) :
    module.render strategy loaded.tables words = .ok {
      data := module.restamp strategy (loaded.revised words)
      changed := (loaded.worded.edits words).length
      checksum := module.stamp? strategy (loaded.revised words) } := by
  have h := loaded.accepted
  have hroom := (Bytes.slice_eq_ok.mp loaded.slice_of_size).1
  cases strategy with
  | nativeAware =>
      have hstamp : module.stamp? .nativeAware (loaded.revised words) = none :=
        if_neg fun hrestamps => nomatch hrestamps.1
      rcases patch_cases h words 0 hroom with ⟨-, hpatch⟩ | ⟨hinvalid, -⟩
      · obtain ⟨stop, hpatch⟩ := hpatch loaded.worded
        simp only [render, renderNativeAware, Emit.fill, hpatch, restamp, hstamp]
        rfl
      · exact absurd loaded.extendsValid hinvalid
  | managed =>
      have hemit := Emission.emit_of_worded h loaded.worded words
      have hplace : module.image.data.place module.place.tablesOffset
          (loaded.stream.revise (loaded.worded.edits words)) = .ok (loaded.revised words) :=
        place_revise h loaded.worded words loaded.slice_of_size
      by_cases hzero : module.image.checksum = 0
      · have hstamp : module.stamp? .managed (loaded.revised words) = none :=
          if_neg fun hrestamps => hrestamps.2 hzero
        simp only [render, renderManaged, hemit, bind, Except.bind, hplace, hzero, ↓reduceIte,
          restamp, hstamp]
        rfl
      · have hstamp : module.stamp? .managed (loaded.revised words) =
            some (Checksum.compute (loaded.revised words) module.image.checksumOffset) :=
          if_pos ⟨rfl, hzero⟩
        have hfield : module.image.checksumOffset +
            (Bytes.spell 4 (Checksum.compute (loaded.revised words)
              module.image.checksumOffset).toNat).toArray.size ≤ (loaded.revised words).size := by
          have hchecksum := opened.checksum_room
          rw [List.size_toArray, Bytes.length_spell, size_revised, loaded.image_eq, opened.data_eq]
          exact hchecksum
        simp only [render, renderManaged, hemit, bind, Except.bind, hplace, hzero, ↓reduceIte,
          place_of_room hfield, restamp, hstamp]
        rfl

/-- In its tables stream the revised image has the bytes of the edited
stream. -/
theorem getD_revised_inside (loaded : Loaded image module) (words : AttributeWords) {k : Nat}
    (hk : k < loaded.stream.size) :
    (loaded.revised words).getD (module.place.tablesOffset + k) 0 =
      (loaded.stream.revise (loaded.worded.edits words)).getD k 0 := by
  have hroom := (Bytes.slice_eq_ok.mp loaded.slice_of_size).1
  refine Bytes.getD_revise_shift (fun j hj => ?_) (fun edit hmem => ?_) hroom hk
  · exact (Bytes.getD_slice loaded.slice_of_size hj).symm
  · obtain ⟨table, extent, hextent, -, hstop⟩ :=
      loaded.worded.edit_bounds words loaded.accepted hmem
    exact Nat.le_trans hstop (loaded.accepted.extent_bounds hextent).2.1

/-- Bytes of the length of the image that have the edited stream in its place,
byte by byte, have it there as a whole. -/
theorem slice_of_inside (loaded : Loaded image module) {words : AttributeWords} {output : Bytes}
    (hsize : output.size = module.image.data.size)
    (hinside : ∀ k, k < loaded.stream.size → output.getD (module.place.tablesOffset + k) 0 =
      (loaded.stream.revise (loaded.worded.edits words)).getD k 0) :
    output.slice module.place.tablesOffset module.place.tablesSize =
      .ok (loaded.stream.revise (loaded.worded.edits words)) := by
  have hroom := (Bytes.slice_eq_ok.mp loaded.slice_stream).1
  have hstream := Bytes.size_slice loaded.slice_stream
  rw [← hsize] at hroom
  refine Bytes.slice_eq_ok.mpr ⟨hroom, ?_⟩
  have hlength : (output.extract module.place.tablesOffset
      (module.place.tablesOffset + module.place.tablesSize)).size =
        (loaded.stream.revise (loaded.worded.edits words)).size := by
    rw [Array.size_extract, Bytes.size_revise]
    omega
  refine Bytes.ext_getD hlength fun k hk => ?_
  rw [hlength, Bytes.size_revise] at hk
  rw [Bytes.getD_extract hroom (by omega), hinside k hk]

theorem slice_revised (loaded : Loaded image module) (words : AttributeWords) :
    (loaded.revised words).slice module.place.tablesOffset module.place.tablesSize =
      .ok (loaded.stream.revise (loaded.worded.edits words)) :=
  loaded.slice_of_inside (loaded.size_revised words) fun _ => loaded.getD_revised_inside words

theorem getD_revised_outside (loaded : Loaded image module) (words : AttributeWords) {i : Nat}
    (hi : i < module.place.tablesOffset ∨ module.place.tablesOffset + loaded.stream.size ≤ i) :
    (loaded.revised words).getD i 0 = module.image.data.getD i 0 := by
  apply Bytes.getD_revise_outside
  intro edit hmem
  obtain ⟨inner, hinner, rfl⟩ := List.mem_map.mp hmem
  obtain ⟨table, extent, hextent, -, hstop⟩ :=
    loaded.worded.edit_bounds words loaded.accepted hinner
  have hinside := (loaded.accepted.extent_bounds hextent).2.1
  rw [Edit.stop_shift]
  simp only [Edit.shift]
  omega

theorem getD_stream (loaded : Loaded image module) {k : Nat} (hk : k < loaded.stream.size) :
    loaded.stream.getD k 0 = module.image.data.getD (module.place.tablesOffset + k) 0 :=
  Bytes.getD_slice loaded.slice_of_size hk

variable {words : AttributeWords} {published : TableId → Nat → UInt8 → Prop}

/-- An exposed byte of the image gets new low bits. -/
theorem getD_revised_of_exposes (loaded : Loaded image module)
    (hwidened : loaded.worded.Widened words published) {place : Nat} {v : UInt8}
    (hexposes : loaded.tables.Exposes published place v) :
    (loaded.revised words).getD (module.place.tablesOffset + place) 0 =
      (module.image.data.getD (module.place.tablesOffset + place) 0 &&& ~~~7) ||| v := by
  have hlt := TablesStream.Worded.lt_of_exposes loaded.accepted hexposes
  rw [loaded.getD_revised_inside words hlt, ← loaded.getD_stream hlt]
  exact TablesStream.Worded.getD_of_exposes loaded.accepted hwidened hexposes

theorem getD_revised_of_not_exposes (loaded : Loaded image module)
    (hwidened : loaded.worded.Widened words published) {i : Nat}
    (hhidden : ∀ place v, loaded.tables.Exposes published place v →
      i ≠ module.place.tablesOffset + place) :
    (loaded.revised words).getD i 0 = module.image.data.getD i 0 := by
  by_cases hin : module.place.tablesOffset ≤ i ∧
      i < module.place.tablesOffset + loaded.stream.size
  · obtain ⟨k, rfl⟩ := Nat.exists_eq_add_of_le hin.1
    have hlt : k < loaded.stream.size := by omega
    rw [loaded.getD_revised_inside words hlt, ← loaded.getD_stream hlt]
    exact TablesStream.Worded.getD_of_not_exposes loaded.accepted hwidened
      fun v hexposes => hhidden k v hexposes rfl
  · exact loaded.getD_revised_outside words (by omega)

end Loaded

end Module

end Unveil
