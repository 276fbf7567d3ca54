import Mathlib.Data.List.Pairwise
import Unveil.Proofs.Safety.Steps
import Unveil.Image.Basic

/-!
Translating addresses by a table of sections. The search stops at the first
section that claims the address, and may fail there or on the way. Where the
sections end inside the address space and claim different addresses, it comes to
what the one section says that claims the address, so the table is a mapping and
its order makes no difference.
-/

namespace Unveil

namespace Section

/-- The address is one of those that the section has when loaded. -/
def Claims (area : Section) (address : Nat) : Prop :=
  area.virtualAddress.toNat ≤ address ∧
    address < area.virtualAddress.toNat + (Image.span area).toNat

instance (area : Section) (address : Nat) : Decidable (area.Claims address) :=
  inferInstanceAs (Decidable (_ ∧ _))

/-- The file offset is one of those at which the section is stored. -/
def Stores (area : Section) (offset : Nat) : Prop :=
  area.rawPointer.toNat ≤ offset ∧ offset < area.rawPointer.toNat + area.rawSize.toNat

/-- The section has the address, and the byte at it is stored at the offset. -/
structure Maps (area : Section) (address offset : Nat) : Prop where
  claims : area.Claims address
  distance_lt : address - area.virtualAddress.toNat < area.rawSize.toNat
  offset_eq : offset = area.rawPointer.toNat + (address - area.virtualAddress.toNat)

/-- No address belongs to both sections. -/
def Apart (area other : Section) : Prop :=
  ∀ address, ¬ (area.Claims address ∧ other.Claims address)

/-- No byte of the file belongs to both sections. -/
def StoredApart (area other : Section) : Prop :=
  ∀ offset, ¬ (area.Stores offset ∧ other.Stores offset)

variable {area other : Section} {address offset : Nat}

theorem Apart.symm (h : area.Apart other) : other.Apart area :=
  fun address hboth => h address hboth.symm

instance : Std.Symm StoredApart where
  symm _ _ h := fun offset hboth => h offset hboth.symm

/-- What is mapped is stored. -/
theorem Maps.stores (h : area.Maps address offset) : area.Stores offset := by
  obtain ⟨-, hdistance, rfl⟩ := h
  constructor
  · exact Nat.le_add_right ..
  · exact Nat.add_lt_add_left hdistance _

/-- A section has one address for each of its offsets. -/
theorem Maps.address_unique {address' : Nat} (h : area.Maps address offset)
    (h' : area.Maps address' offset) : address = address' := by
  obtain ⟨⟨hfirst, -⟩, -, hoffset⟩ := h
  obtain ⟨⟨hfirst', -⟩, -, hoffset'⟩ := h'
  omega

/-- What a section says about an address of its own. -/
def translate (area : Section) (address : Nat) : Except Fault Nat :=
  if address - area.virtualAddress.toNat < area.rawSize.toNat then
    .ok (area.rawPointer.toNat + (address - area.virtualAddress.toNat))
  else
    .error (.malformed (.uninitializedAddress address))

theorem translate_eq_ok (hclaims : area.Claims address) :
    area.translate address = .ok offset ↔ area.Maps address offset := by
  unfold translate
  constructor
  · intro h
    split at h
    · rename_i hdistance
      cases h
      exact ⟨hclaims, hdistance, rfl⟩
    · cases h
  · rintro ⟨-, hdistance, rfl⟩
    exact if_pos hdistance

end Section

namespace Image

/-- A table of sections that is a mapping: each section ends inside the 32-bit
address space, and no two claim the same address. -/
structure Mapping (sections : List Section) : Prop where
  ends : ∀ area ∈ sections, area.virtualAddress.toNat + (span area).toNat ≤ 0xFFFFFFFF
  apart : sections.Pairwise Section.Apart

theorem Mapping.perm {sections sections' : List Section} (h : Mapping sections)
    (hperm : sections.Perm sections') : Mapping sections' where
  ends area harea := h.ends area (hperm.mem_iff.mpr harea)
  apart := h.apart.perm hperm Section.Apart.symm

section Search

variable {area : Section} {sections : List Section} {address : Nat}

/-- A section that claims the address decides. -/
theorem locate_of_claims (hends : area.virtualAddress.toNat + (span area).toNat ≤ 0xFFFFFFFF)
    (hclaims : area.Claims address) :
    locate address (area :: sections) = area.translate address := by
  obtain ⟨hfirst, hstop⟩ := hclaims
  have hsum : Size.add area.rawPointer.toNat (address - area.virtualAddress.toNat) =
      .ok (area.rawPointer.toNat + (address - area.virtualAddress.toNat)) := by
    have hpointer := area.rawPointer.toNat_lt
    exact Size.add_of_lt (by unfold Size.limit; omega)
  rw [locate, demand_bind (by omega), if_pos ⟨hfirst, hstop⟩]
  simp only [hsum, Section.translate]
  by_cases hstored : address - area.virtualAddress.toNat < area.rawSize.toNat
  · rw [demand_bind hstored, if_pos hstored]
  · rw [demand_bind_of_not hstored, if_neg hstored]

/-- A section that does not claim the address is passed over. -/
theorem locate_of_not_claims (hends : area.virtualAddress.toNat + (span area).toNat ≤ 0xFFFFFFFF)
    (hclaims : ¬ area.Claims address) :
    locate address (area :: sections) = locate address sections := by
  unfold Section.Claims at hclaims
  rw [locate, demand_bind (by omega), if_neg hclaims]

/-- Of a mapping the section that claims the address decides, wherever it
stands. -/
theorem Mapping.locate_of_mem (h : Mapping sections) (harea : area ∈ sections)
    (hclaims : area.Claims address) : locate address sections = area.translate address := by
  induction sections with
  | nil => cases harea
  | cons first others ih =>
      obtain ⟨hfirst, hothers⟩ := List.pairwise_cons.mp h.apart
      have hend := h.ends first (List.mem_cons_self ..)
      rcases List.mem_cons.mp harea with rfl | hmem
      · exact locate_of_claims hend hclaims
      · have hpassed : ¬ first.Claims address :=
          fun hboth => hfirst area hmem address ⟨hboth, hclaims⟩
        have hrest : Mapping others :=
          ⟨fun other hother => h.ends other (List.mem_cons_of_mem _ hother), hothers⟩
        rw [locate_of_not_claims hend hpassed]
        exact ih hrest hmem

/-- An address that no section claims is not found. -/
theorem Mapping.locate_of_unclaimed (h : Mapping sections)
    (hnone : ∀ area ∈ sections, ¬ area.Claims address) :
    locate address sections = .error (.malformed (.unmappedAddress address)) := by
  obtain ⟨hends, -⟩ := h
  induction sections with
  | nil => rfl
  | cons first others ih =>
      rw [locate_of_not_claims (hends first (List.mem_cons_self ..))
        (hnone first (List.mem_cons_self ..))]
      exact ih (fun area harea => hnone area (List.mem_cons_of_mem _ harea))
        fun area harea => hends area (List.mem_cons_of_mem _ harea)

theorem Mapping.locate_eq_ok (h : Mapping sections) {offset : Nat} :
    locate address sections = .ok offset ↔ ∃ area ∈ sections, area.Maps address offset := by
  by_cases hclaimed : ∃ area ∈ sections, area.Claims address
  · obtain ⟨area, harea, hclaims⟩ := hclaimed
    rw [h.locate_of_mem harea hclaims, Section.translate_eq_ok hclaims]
    constructor
    · intro hmaps
      exact ⟨area, harea, hmaps⟩
    · rintro ⟨other, hother, hmaps⟩
      have hsame := h.locate_of_mem hother hmaps.claims
      rw [h.locate_of_mem harea hclaims, (Section.translate_eq_ok hmaps.claims).mpr hmaps] at hsame
      exact (Section.translate_eq_ok hclaims).mp hsame
  · have hnone : ∀ area ∈ sections, ¬ area.Claims address :=
      fun area harea hclaims => hclaimed ⟨area, harea, hclaims⟩
    rw [h.locate_of_unclaimed hnone]
    constructor
    · intro hok
      cases hok
    · rintro ⟨area, harea, hmaps⟩
      exact absurd hmaps.claims (hnone area harea)

/-- The order of the sections makes no difference, to a fault as little as to an
offset. -/
theorem Mapping.locate_perm (h : Mapping sections) {sections' : List Section}
    (hperm : sections.Perm sections') : locate address sections' = locate address sections := by
  have h' := h.perm hperm
  by_cases hclaimed : ∃ area ∈ sections, area.Claims address
  · obtain ⟨area, harea, hclaims⟩ := hclaimed
    rw [h.locate_of_mem harea hclaims, h'.locate_of_mem (hperm.mem_iff.mp harea) hclaims]
  · have hnone : ∀ area ∈ sections, ¬ area.Claims address :=
      fun area harea hclaims => hclaimed ⟨area, harea, hclaims⟩
    rw [h.locate_of_unclaimed hnone, h'.locate_of_unclaimed fun area harea =>
      hnone area (hperm.mem_iff.mpr harea)]

end Search

/-- Every address that a section of a mapping claims is one of 32 bits. -/
theorem Mapping.offsetOf_eq_ok {image : Image} (h : Mapping image.sections)
    {address offset : Nat} :
    image.offsetOf address = .ok offset ↔ ∃ area ∈ image.sections, area.Maps address offset := by
  unfold offsetOf
  simp only [Except.bind_eq_ok, demand_eq_ok, h.locate_eq_ok]
  constructor
  · rintro ⟨-, -, hmaps⟩
    exact hmaps
  · rintro ⟨area, harea, hmaps⟩
    have hend := h.ends area harea
    have hbelow := hmaps.claims.2
    exact ⟨(), by omega, area, harea, hmaps⟩

/-- Translating addresses by a mapping. What an address comes to does not depend
on the order of the sections. It has an offset exactly if some section claims it
at a distance that is stored, and the offset is that far into what is stored of
the section. If the file keeps the sections apart as well, no two addresses have
the same offset. -/
theorem translation_of_mapping (image : Image) (h : Mapping image.sections) :
    (∀ sections, image.sections.Perm sections → ∀ address,
      { image with sections }.offsetOf address = image.offsetOf address) ∧
    (∀ address offset, image.offsetOf address = .ok offset ↔
      ∃ area ∈ image.sections, area.Maps address offset) ∧
    (∀ address offset, ∀ area ∈ image.sections, area.Maps address offset →
      area.Stores offset) ∧
    (image.sections.Pairwise Section.StoredApart → ∀ address address' offset,
      image.offsetOf address = .ok offset → image.offsetOf address' = .ok offset →
        address = address') := by
  refine ⟨?_, fun address offset => h.offsetOf_eq_ok, fun address offset area _ hmaps =>
    hmaps.stores, ?_⟩
  · intro sections hperm address
    simp only [offsetOf, h.locate_perm hperm]
  · intro hstored address address' offset haddress haddress'
    obtain ⟨area, harea, hmaps⟩ := h.offsetOf_eq_ok.mp haddress
    obtain ⟨other, hother, hmaps'⟩ := h.offsetOf_eq_ok.mp haddress'
    by_cases hsame : area = other
    · subst hsame
      exact hmaps.address_unique hmaps'
    · have hapart := hstored.forall harea hother hsame
      exact absurd ⟨hmaps.stores, hmaps'.stores⟩ (hapart offset)

/-- A section that is longer when loaded than it is stored. -/
def roomy : Section := ⟨.replicate 8 0, 0x1000, 0x2000, 0x200, 0x400⟩

/-- A section that does not say how long it is when loaded. -/
def terse : Section := ⟨.replicate 8 0, 0, 0x4000, 0x100, 0x200⟩

def twoSections : Image where
  data := #[]
  start := 0
  checksum := 0
  runtime := ⟨0x2008, 72⟩
  certificates := none
  sections := [roomy, terse]

/-- Two sections in either order: the first address that is stored has its
offset and no other address has the same, and the first that is not stored has
none. -/
theorem translation_of_mapping_sample :
    Mapping twoSections.sections ∧ twoSections.sections.Pairwise Section.StoredApart ∧
      { twoSections with sections := [terse, roomy] }.offsetOf 0x2000 = .ok 0x400 ∧
      (∀ address, twoSections.offsetOf address = .ok 0x400 → address = 0x2000) ∧
      ¬ ∃ offset, { twoSections with sections := [terse, roomy] }.offsetOf 0x2200 =
        .ok offset := by
  have hmapping : Mapping twoSections.sections := by
    refine ⟨by decide, List.pairwise_pair.mpr ?_⟩
    rintro address ⟨⟨-, hstop⟩, hfirst, -⟩
    have hend : roomy.virtualAddress.toNat + (span roomy).toNat = 0x3000 := rfl
    have hstart : terse.virtualAddress.toNat = 0x4000 := rfl
    omega
  have hstored : twoSections.sections.Pairwise Section.StoredApart := by
    refine List.pairwise_pair.mpr ?_
    rintro offset ⟨⟨hfirst, -⟩, -, hstop⟩
    have hend : terse.rawPointer.toNat + terse.rawSize.toNat = 0x300 := rfl
    have hstart : roomy.rawPointer.toNat = 0x400 := rfl
    omega
  obtain ⟨hperm, hok, -, hunique⟩ := translation_of_mapping twoSections hmapping
  have horder := hperm [terse, roomy] (.swap _ _ _)
  have hfirst : twoSections.offsetOf 0x2000 = .ok 0x400 :=
    (hok _ _).mpr ⟨roomy, List.mem_cons_self .., by decide, by decide, rfl⟩
  refine ⟨hmapping, hstored, (horder 0x2000).trans hfirst, ?_, ?_⟩
  · intro address haddress
    exact hunique hstored address 0x2000 0x400 haddress hfirst
  · rintro ⟨offset, hoffset⟩
    rw [horder] at hoffset
    obtain ⟨area, harea, hclaims, hdistance, -⟩ := (hok _ _).mp hoffset
    have hcases : area = roomy ∨ area = terse := by simpa [twoSections] using harea
    rcases hcases with rfl | rfl
    · exact absurd hdistance (by decide)
    · exact absurd hclaims.1 (by decide)

end Image

end Unveil
