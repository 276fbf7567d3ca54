import Unveil.Proofs.Bytes.Spelling

/-!
Several places of a byte sequence written over at once. Where the places are
apart, their order does not matter: every byte is the old one or belongs to the
single edit that covers it. An edited part put back into the whole is the same
as the whole edited at places further on.
-/

namespace Unveil

/-- Bytes to be put in the place of others. -/
structure Edit where
  offset : Nat
  part : List UInt8
  deriving DecidableEq, Repr

namespace Edit

def stop (edit : Edit) : Nat := edit.offset + edit.part.length

/-- The same edit of data that has `base` more bytes in front. -/
def shift (base : Nat) (edit : Edit) : Edit := { edit with offset := base + edit.offset }

@[simp] theorem stop_shift (base : Nat) (edit : Edit) :
    (edit.shift base).stop = base + edit.stop := by
  simp only [stop, shift, Nat.add_assoc]

/-- No byte belongs to both edits. -/
def Apart (a b : Edit) : Prop := a.stop ≤ b.offset ∨ b.stop ≤ a.offset

theorem Apart.symm {a b : Edit} (h : Apart a b) : Apart b a := Or.symm h

end Edit

namespace Bytes

/-- `data` with every edit made, one after the other. -/
def revise (data : Bytes) (edits : List Edit) : Bytes :=
  edits.foldl (fun revised edit => revised.overwrite edit.offset edit.part) data

@[simp] theorem revise_nil (data : Bytes) : data.revise [] = data := rfl

@[simp] theorem revise_cons (data : Bytes) (edit : Edit) (edits : List Edit) :
    data.revise (edit :: edits) = (data.overwrite edit.offset edit.part).revise edits := rfl

theorem revise_append (data : Bytes) (first second : List Edit) :
    data.revise (first ++ second) = (data.revise first).revise second := by
  simp only [revise, List.foldl_append]

@[simp] theorem size_revise (data : Bytes) (edits : List Edit) :
    (data.revise edits).size = data.size := by
  induction edits generalizing data with
  | nil => rfl
  | cons edit edits ih => rw [revise_cons, ih, size_overwrite]

theorem getD_revise_outside {data : Bytes} {edits : List Edit} {i : Nat}
    (h : ∀ edit ∈ edits, i < edit.offset ∨ edit.stop ≤ i) :
    (data.revise edits).getD i 0 = data.getD i 0 := by
  induction edits generalizing data with
  | nil => rfl
  | cons edit edits ih =>
      have hfirst : i < edit.offset ∨ edit.stop ≤ i := h edit (by simp)
      rw [revise_cons, ih fun other hother => h other (by simp [hother])]
      exact getD_overwrite_outside hfirst

theorem getD_revise_inside {data : Bytes} {edits : List Edit} {edit : Edit} {k : Nat}
    (hapart : edits.Pairwise Edit.Apart) (hmem : edit ∈ edits)
    (hroom : edit.stop ≤ data.size) (hk : k < edit.part.length) :
    (data.revise edits).getD (edit.offset + k) 0 = edit.part[k] := by
  induction edits generalizing data with
  | nil => cases hmem
  | cons first others ih =>
      obtain ⟨hfirst, hothers⟩ := List.pairwise_cons.mp hapart
      rw [revise_cons]
      rcases List.mem_cons.mp hmem with rfl | hlater
      · rw [getD_revise_outside, getD_overwrite_inside hroom hk]
        intro other hother
        have := hfirst other hother
        simp only [Edit.Apart, Edit.stop] at this ⊢
        omega
      · exact ih hothers hlater (by simpa using hroom)

theorem agree_revise {data : Bytes} {edits : List Edit} {start stop : Nat}
    (h : ∀ edit ∈ edits, stop ≤ edit.offset ∨ edit.stop ≤ start) :
    Agree (data.revise edits) data start stop := by
  intro i hstart hstop
  apply getD_revise_outside
  intro edit hmem
  have := h edit hmem
  omega

/-- The number put down by an edit is read at the place of the edit. -/
theorem number_revise {data : Bytes} {edits : List Edit} {offset width value : Nat}
    (hapart : edits.Pairwise Edit.Apart) (hmem : ⟨offset, spell width value⟩ ∈ edits)
    (hroom : offset + width ≤ data.size) :
    (data.revise edits).number offset width = value % 256 ^ width := by
  rw [← number_overwrite_spell hroom]
  apply number_congr
  intro i hstart hstop
  obtain ⟨k, rfl⟩ := Nat.exists_eq_add_of_le hstart
  have hk : k < (spell width value).length := by simpa using (by omega)
  rw [getD_overwrite_inside (by simpa using hroom) hk]
  exact getD_revise_inside hapart hmem (by simpa [Edit.stop] using hroom) hk

theorem getD_overwrite_shift {image data : Bytes} {base offset k : Nat} {part : List UInt8}
    (hsame : image.getD (base + k) 0 = data.getD k 0)
    (hroom : offset + part.length ≤ data.size) (hinside : base + data.size ≤ image.size) :
    (image.overwrite (base + offset) part).getD (base + k) 0 =
      (data.overwrite offset part).getD k 0 := by
  by_cases hin : offset ≤ k ∧ k < offset + part.length
  · obtain ⟨j, rfl⟩ := Nat.exists_eq_add_of_le hin.1
    have hj : j < part.length := by omega
    rw [← Nat.add_assoc, getD_overwrite_inside (by omega) hj, getD_overwrite_inside hroom hj]
  · rw [getD_overwrite_outside (by omega), getD_overwrite_outside (by omega), hsame]

/-- Edits of a part, made further on in the whole. -/
theorem getD_revise_shift {image data : Bytes} {base k : Nat} {edits : List Edit}
    (hsame : ∀ j, j < data.size → image.getD (base + j) 0 = data.getD j 0)
    (hroom : ∀ edit ∈ edits, edit.stop ≤ data.size)
    (hinside : base + data.size ≤ image.size) (hk : k < data.size) :
    (image.revise (edits.map (Edit.shift base))).getD (base + k) 0 =
      (data.revise edits).getD k 0 := by
  induction edits generalizing image data with
  | nil => exact hsame k hk
  | cons edit edits ih =>
      have hfits : edit.offset + edit.part.length ≤ data.size := hroom edit (by simp)
      simp only [List.map_cons, revise_cons]
      apply ih
      · intro j hj
        exact getD_overwrite_shift (hsame j (by simpa using hj)) hfits hinside
      · intro other hother
        simpa using hroom other (by simp [hother])
      · simpa using hinside
      · simpa using hk

/-- A part of the data, edited and put back, is the data edited. -/
theorem overwrite_revise {image data : Bytes} {base : Nat} {edits : List Edit}
    (hsame : ∀ j, j < data.size → image.getD (base + j) 0 = data.getD j 0)
    (hroom : ∀ edit ∈ edits, edit.stop ≤ data.size)
    (hinside : base + data.size ≤ image.size) :
    image.overwrite base (data.revise edits).toList =
      image.revise (edits.map (Edit.shift base)) := by
  apply ext_getD (by simp)
  intro i hi
  by_cases hin : base ≤ i ∧ i < base + data.size
  · obtain ⟨k, rfl⟩ := Nat.exists_eq_add_of_le hin.1
    have hk : k < data.size := by omega
    rw [getD_overwrite_inside (by simpa using hinside) (by simpa using hk),
      getD_revise_shift hsame hroom hinside hk]
    simp [Array.getD_eq_getD_getElem?, hk]
  · rw [getD_overwrite_outside (by simpa using (by omega)), getD_revise_outside]
    intro edit hmem
    obtain ⟨inner, hinner, rfl⟩ := List.mem_map.mp hmem
    have hfits := hroom inner hinner
    rw [Edit.stop_shift]
    simp only [Edit.shift]
    omega

end Bytes

end Unveil
