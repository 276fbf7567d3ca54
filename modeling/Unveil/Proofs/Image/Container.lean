import Unveil.Image.Container
import Unveil.Proofs.Outcome

namespace Unveil

namespace Container

variable {data : Bytes}

theorem check_eq_ok {condition : Prop} [Decidable condition] {u : Unit} :
    check condition = .ok u ↔ condition := demand_eq_ok

theorem number_eq_ok {offset width value : Nat} :
    number data offset width = .ok value ↔
      offset + width ≤ data.size ∧ data.number offset width = value := by
  simp only [number, Except.bind_eq_ok, check_eq_ok, Except.pure_eq_ok]
  exact ⟨fun ⟨_, hroom, hvalue⟩ => ⟨hroom, hvalue⟩, fun ⟨hroom, hvalue⟩ => ⟨(), hroom, hvalue⟩⟩

theorem u32_eq_ok {offset : Nat} {value : UInt32} :
    u32 data offset = .ok value ↔
      offset + 4 ≤ data.size ∧ UInt32.ofNat (data.number offset 4) = value := by
  simp only [u32, Except.map_eq_ok, number_eq_ok]
  exact ⟨fun ⟨_, ⟨hroom, rfl⟩, hvalue⟩ => ⟨hroom, hvalue⟩,
    fun ⟨hroom, hvalue⟩ => ⟨_, ⟨hroom, rfl⟩, hvalue⟩⟩

/-- Where an optional header counts its directories. -/
def countAt (data : Bytes) (start : Nat) : Nat :=
  start + (if data.number start 2 = 0x10B then 92 else 108)

/-- Reads the directory with a given number, of those behind a count. -/
def readDirectory (data : Bytes) (countAt index : Nat) : Except Fault Region := do
  let address ← u32 data (countAt + 4 + index * 8)
  let size ← u32 data (countAt + 8 + index * 8)
  pure (Region.mk address size)

def optionalOf (data : Bytes) (start size : Nat) : Except Fault (Option OptionalHeader) :=
  if size = 0 then .ok none else some <$> readOptional data start

/-- Follows the runtime directory, if there is one. -/
def followRuntime (data : Bytes) (sections : List Section) :
    Option OptionalHeader → Except Fault Unit
  | none => pure ()
  | some header =>
      match header.directory? runtimeIndex with
      | none => pure ()
      | some runtime => checkRuntime data header.fileAlignment.toNat sections runtime

def followCertificates (data : Bytes) : Option OptionalHeader → Except Fault Unit
  | none => pure ()
  | some header =>
      match header.directory? certificateIndex with
      | none => pure ()
      | some certificates => do
          check (certificates.address.toNat + certificates.size.toNat ≤ data.size)
          checkCertificates data certificates.address.toNat
            (certificates.address.toNat + certificates.size.toNat)

section Followed

variable {data : Bytes} {sections : List Section} {header : OptionalHeader} {region : Region}

theorem followRuntime_of_none (h : header.directory? runtimeIndex = none) :
    followRuntime data sections (some header) = .ok () := by
  simp only [followRuntime, h]
  rfl

theorem followRuntime_of_some (h : header.directory? runtimeIndex = some region) :
    followRuntime data sections (some header) =
      checkRuntime data header.fileAlignment.toNat sections region := by
  simp only [followRuntime, h]

theorem followCertificates_of_none (h : header.directory? certificateIndex = none) :
    followCertificates data (some header) = .ok () := by
  simp only [followCertificates, h]
  rfl

theorem followCertificates_of_some (h : header.directory? certificateIndex = some region) :
    followCertificates data (some header) = (do
      check (region.address.toNat + region.size.toNat ≤ data.size)
      checkCertificates data region.address.toNat
        (region.address.toNat + region.size.toNat)) := by
  simp only [followCertificates, h]

end Followed

end Container

open Container

/-- What is read of an optional header that starts at `start`. -/
structure OptionalHeader.Accepted (data : Bytes) (start : Nat) (header : OptionalHeader) :
    Prop where
  magic_room : start + 2 ≤ data.size
  magic_eq : data.number start 2 = 0x10B ∨ data.number start 2 = 0x20B
  count_room : countAt data start + 4 ≤ data.size
  count_le : data.number (countAt data start) 4 ≤ 16
  directories_eq : (List.range (data.number (countAt data start) 4)).mapM
    (readDirectory data (countAt data start)) = .ok header.directories
  alignment_room : start + 36 + 4 ≤ data.size
  alignment_eq : UInt32.ofNat (data.number (start + 36) 4) = header.fileAlignment
  checksum_room : start + checksumDistance + 4 ≤ data.size
  checksum_eq : UInt32.ofNat (data.number (start + checksumDistance) 4) = header.checksum

theorem Container.readOptional_eq_ok {data : Bytes} {start : Nat} {header : OptionalHeader} :
    readOptional data start = .ok header ↔ header.Accepted data start := by
  simp only [readOptional, Except.bind_eq_ok, check_eq_ok, number_eq_ok, u32_eq_ok,
    Except.pure_eq_ok]
  constructor
  · rintro ⟨_, ⟨hmagicRoom, rfl⟩, _, hmagic, _, ⟨hcountRoom, rfl⟩, _, hcount, directories,
      hdirectories, _, ⟨halignmentRoom, rfl⟩, _, ⟨hchecksumRoom, rfl⟩, rfl⟩
    exact ⟨hmagicRoom, hmagic, hcountRoom, hcount, hdirectories, halignmentRoom, rfl,
      hchecksumRoom, rfl⟩
  · intro h
    refine ⟨_, ⟨h.magic_room, rfl⟩, (), h.magic_eq, _, ⟨h.count_room, rfl⟩, (), h.count_le, _,
      h.directories_eq, _, ⟨h.alignment_room, h.alignment_eq⟩, _,
      ⟨h.checksum_room, h.checksum_eq⟩, rfl⟩

/-- What is read and checked of a container. -/
structure Container.Accepted (data : Bytes) (container : Container) : Prop where
  room : 0x40 ≤ data.size
  magic_eq : data.number 0 2 = 0x5A4D
  start_eq : data.number 0x3C 4 = container.start
  signature_eq : data.number container.start 4 = 0x00004550
  start_ge : 0x40 ≤ container.start
  start_room : container.start + 24 ≤ data.size
  optional_eq : optionalOf data (container.start + 24) (data.number (container.start + 20) 2) =
    .ok container.optional
  section_count : data.number (container.start + 6) 2 ≤ data.size / 40
  sections_eq : ((List.range (data.number (container.start + 6) 2)).mapM fun index =>
    readSection data (container.start + 24 + data.number (container.start + 20) 2 + index * 40)) =
      .ok container.sections
  runtime_eq : followRuntime data container.sections container.optional = .ok ()
  certificates_eq : followCertificates data container.optional = .ok ()

theorem Container.ofData_eq (data : Bytes) : Container.ofData data = (do
    check ((← number data 0 2) = 0x5A4D)
    check (0x40 ≤ data.size)
    let start ← number data 0x3C 4
    check ((← number data start 4) = 0x00004550)
    check (0x40 ≤ start)
    check (start + 24 ≤ data.size)
    let sectionCount ← number data (start + 6) 2
    let optionalSize ← number data (start + 20) 2
    let optional ← optionalOf data (start + 24) optionalSize
    check (sectionCount ≤ data.size / 40)
    let sections ← (List.range sectionCount).mapM fun index =>
      readSection data (start + 24 + optionalSize + index * 40)
    followRuntime data sections optional
    followCertificates data optional
    pure { start, optional, sections }) := by
  simp only [Container.ofData]
  refine bind_congr fun magic => bind_congr fun _ => bind_congr fun _ => bind_congr fun start => ?_
  refine bind_congr fun signature => bind_congr fun _ => bind_congr fun _ => bind_congr fun _ => ?_
  refine bind_congr fun sectionCount => bind_congr fun optionalSize => ?_
  have hoptional (next : Option OptionalHeader → Except Fault Container) :
      (optionalOf data (start + 24) optionalSize >>= next) =
        if optionalSize = 0 then pure none >>= next
        else some <$> readOptional data (start + 24) >>= next := by
    unfold optionalOf
    split
    · rfl
    · rfl
  rw [hoptional]
  congr 1
  all_goals
    refine bind_congr fun optional => bind_congr fun _ => bind_congr fun sections => ?_
    cases optional with
    | none => rfl
    | some header =>
        simp only [followRuntime, followCertificates]
        cases header.directory? runtimeIndex with
        | none =>
            cases header.directory? certificateIndex with
            | none => rfl
            | some certificates => simp only [pure_bind, bind_assoc]
        | some runtime =>
            cases header.directory? certificateIndex with
            | none => rfl
            | some certificates => simp only [bind_assoc]

theorem Container.ofData_eq_ok {data : Bytes} {container : Container} :
    Container.ofData data = .ok container ↔ container.Accepted data := by
  rw [ofData_eq]
  simp only [Except.bind_eq_ok, check_eq_ok, number_eq_ok, Except.pure_eq_ok]
  constructor
  · rintro ⟨_, ⟨-, rfl⟩, _, hmagic, _, hroom, start, ⟨-, rfl⟩, _, ⟨-, rfl⟩, _, hsignature, _,
      hstart, _, hstartRoom, _, ⟨-, rfl⟩, _, ⟨-, rfl⟩, optional, hoptional, _, hcount, sections,
      hsections, _, hruntime, _, hcertificates, rfl⟩
    exact ⟨hroom, hmagic, rfl, hsignature, hstart, hstartRoom, hoptional, hcount, hsections,
      hruntime, hcertificates⟩
  · intro h
    have hroom := h.room
    have hstartRoom := h.start_room
    exact ⟨_, ⟨by omega, rfl⟩, (), h.magic_eq, (), h.room, container.start, ⟨by omega, h.start_eq⟩,
      _, ⟨by omega, rfl⟩, (), h.signature_eq, (), h.start_ge, (), h.start_room, _,
      ⟨by omega, rfl⟩, _, ⟨by omega, rfl⟩, container.optional, h.optional_eq, (), h.section_count,
      container.sections, h.sections_eq, (), h.runtime_eq, (), h.certificates_eq, rfl⟩

end Unveil
