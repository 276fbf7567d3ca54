import Unveil.Proofs.Bytes.Spelling
import Unveil.Proofs.Image.Reader
import Unveil.Proofs.Safety.Container

namespace Unveil

namespace Bytes

variable {data data' : Bytes} {start stop : Nat}

theorem extract_congr (hsize : data'.size = data.size) (hstop : stop ≤ data.size)
    (hagree : Agree data' data start stop) : data'.extract start stop = data.extract start stop := by
  have hsizes : (data'.extract start stop).size = (data.extract start stop).size := by
    simp only [Array.size_extract, hsize]
  refine ext_getD hsizes fun k hk => ?_
  rw [Array.size_extract] at hk
  rw [getD_extract (hsize ▸ hstop) (by omega), getD_extract hstop (by omega)]
  exact hagree _ (by omega) (by omega)

theorem cut_congr (hsize : data'.size = data.size) (hagree : Agree data' data start stop) :
    data'.cut start stop = data.cut start stop := by
  unfold cut
  rw [hsize]
  split
  · rename_i hinside
    rw [extract_congr hsize hinside.2 hagree]
  · rfl

theorem slice_congr {length : Nat} (hsize : data'.size = data.size)
    (hagree : Agree data' data start (start + length)) :
    data'.slice start length = data.slice start length := by
  unfold slice
  rw [hsize]
  split
  · rename_i hinside
    rw [extract_congr hsize hinside hagree]
  · rfl

end Bytes

namespace Container

/-- The certificates that a search from `offset` up to `stop` comes across. -/
inductive Certificate (data : Bytes) (stop : Nat) : (offset entry : Nat) → Prop
  | here {offset : Nat} (hinside : offset < stop) : Certificate data stop offset offset
  | later {offset entry : Nat} (hinside : offset < stop)
      (hentry : Certificate data stop (roundUp (offset + 8 + (data.number offset 4 - 8)) 8) entry) :
      Certificate data stop offset entry

def sectionsAt (data : Bytes) (start : Nat) : Nat := start + 24 + data.number (start + 20) 2

/-- The bytes whose values matter when a container with an optional header is
read: the fields of its headers apart from the checksum, the section headers, the
certificates, and what stands on the way to the version text. -/
inductive Interprets (data : Bytes) (container : Container) (header : OptionalHeader) :
    Nat → Prop
  | magic {i : Nat} (hi : i < 2) : Interprets data container header i
  | start {i : Nat} (hi : 0x3C ≤ i ∧ i < 0x40) : Interprets data container header i
  | signature {i : Nat} (hi : container.start ≤ i ∧ i < container.start + 4) :
      Interprets data container header i
  | sectionCount {i : Nat} (hi : container.start + 6 ≤ i ∧ i < container.start + 8) :
      Interprets data container header i
  | optionalSize {i : Nat} (hi : container.start + 20 ≤ i ∧ i < container.start + 22) :
      Interprets data container header i
  | form {i : Nat} (hi : container.start + 24 ≤ i ∧ i < container.start + 26) :
      Interprets data container header i
  | alignment {i : Nat} (hi : container.start + 60 ≤ i ∧ i < container.start + 64) :
      Interprets data container header i
  | directories {i : Nat} (hi : countAt data (container.start + 24) ≤ i ∧
        i < countAt data (container.start + 24) + 4 +
          8 * data.number (countAt data (container.start + 24)) 4) :
      Interprets data container header i
  | sectionHeader {i index : Nat} (hindex : index < data.number (container.start + 6) 2)
      (hi : sectionsAt data container.start + index * 40 ≤ i ∧
        i < sectionsAt data container.start + index * 40 + 24) :
      Interprets data container header i
  | metadataRegion {i offset : Nat} {runtime : Region}
      (hruntime : header.directory? runtimeIndex = some runtime)
      (hoffset : find header.fileAlignment.toNat container.sections runtime.address.toNat =
        .ok offset)
      (hi : offset + 8 ≤ i ∧ i < offset + 16) : Interprets data container header i
  | version {i offset metadata : Nat} {runtime : Region}
      (hruntime : header.directory? runtimeIndex = some runtime)
      (hoffset : find header.fileAlignment.toNat container.sections runtime.address.toNat =
        .ok offset)
      (hmetadata : find header.fileAlignment.toNat container.sections
        (data.number (offset + 8) 4) = .ok metadata)
      (hi : metadata + 12 ≤ i ∧ i < metadata + 16 + data.number (metadata + 12) 4) :
      Interprets data container header i
  | certificate {i entry : Nat} {certificates : Region}
      (hcertificates : header.directory? certificateIndex = some certificates)
      (hentry : Certificate data (certificates.address.toNat + certificates.size.toNat)
        certificates.address.toNat entry)
      (hi : entry ≤ i ∧ i < entry + 8) : Interprets data container header i

variable {data data' : Bytes} {container : Container} {header : OptionalHeader}

theorem readDirectory_congr {countAt index : Nat} (hsize : data'.size = data.size)
    (hagree : Bytes.Agree data' data (countAt + 4 + index * 8) (countAt + 12 + index * 8)) :
    readDirectory data' countAt index = readDirectory data countAt index := by
  have haddress : data'.number (countAt + 4 + index * 8) 4 =
      data.number (countAt + 4 + index * 8) 4 :=
    Bytes.number_congr (hagree.mono (by omega) (by omega))
  have hlength : data'.number (countAt + 8 + index * 8) 4 =
      data.number (countAt + 8 + index * 8) 4 :=
    Bytes.number_congr (hagree.mono (by omega) (by omega))
  simp only [readDirectory, u32, number, hsize, haddress, hlength]

theorem readSection_congr {offset : Nat} (hsize : data'.size = data.size)
    (hagree : Bytes.Agree data' data offset (offset + 24)) :
    readSection data' offset = readSection data offset := by
  have hname : data'.cut offset (offset + 8) = data.cut offset (offset + 8) :=
    Bytes.cut_congr hsize (hagree.mono (Nat.le_refl _) (by omega))
  have hnumber (distance : Nat) (hroom : distance + 4 ≤ 24) :
      data'.number (offset + distance) 4 = data.number (offset + distance) 4 :=
    Bytes.number_congr (hagree.mono (by omega) (by omega))
  simp only [readSection, u32, number, hsize, hname, hnumber 8 (by omega), hnumber 12 (by omega),
    hnumber 16 (by omega), hnumber 20 (by omega)]

theorem checkCertificates_congr {offset stop : Nat} (hsize : data'.size = data.size)
    (hagree : ∀ entry, Certificate data stop offset entry →
      Bytes.Agree data' data entry (entry + 8)) :
    checkCertificates data' offset stop = checkCertificates data offset stop := by
  induction offset using checkCertificates.induct stop with
  | case1 offset hinside ih =>
      have hhere := hagree offset (.here hinside)
      have hlength : data'.number offset 4 = data.number offset 4 :=
        Bytes.number_congr (hhere.mono (Nat.le_refl _) (by omega))
      have hrevision : data'.number (offset + 4) 2 = data.number (offset + 4) 2 :=
        Bytes.number_congr (hhere.mono (by omega) (by omega))
      have hkind : data'.number (offset + 6) 2 = data.number (offset + 6) 2 :=
        Bytes.number_congr (hhere.mono (by omega) (by omega))
      have hothers := ih (data.number offset 4)
        fun entry hentry => hagree entry (.later hinside hentry)
      rw [checkCertificates, checkCertificates]
      simp only [hinside, ↓reduceIte, number, hsize, hlength, hrevision, hkind, bind_assoc,
        pure_bind, hothers]
  | case2 offset houtside =>
      rw [checkCertificates, checkCertificates, if_neg houtside, if_neg houtside]

/-- The runtime directory can be followed again where what stands on the way is
the same. -/
theorem checkRuntime_of_agree {alignment : Nat} {sections : List Section} {runtime : Region}
    (h : checkRuntime data alignment sections runtime = .ok ()) (hsize : data'.size = data.size)
    (hregion : ∀ offset, find alignment sections runtime.address.toNat = .ok offset →
      Bytes.Agree data' data (offset + 8) (offset + 16))
    (hversion : ∀ offset metadata, find alignment sections runtime.address.toNat = .ok offset →
      find alignment sections (data.number (offset + 8) 4) = .ok metadata →
      Bytes.Agree data' data (metadata + 12) (metadata + 16 + data.number (metadata + 12) 4)) :
    checkRuntime data' alignment sections runtime = .ok () := by
  simp only [checkRuntime, Except.bind_eq_ok, check_eq_ok, number_eq_ok] at h ⊢
  obtain ⟨offset, hoffset, _, hheader, _, ⟨haddressRoom, rfl⟩, _, ⟨hlimitRoom, rfl⟩, metadata,
    hmetadata, _, hroot, _, hlimit, _, ⟨hlengthRoom, rfl⟩, _, hlength, version, hcut, _, hvalid,
    hend⟩ := h
  have haddress : data'.number (offset + 8) 4 = data.number (offset + 8) 4 :=
    Bytes.number_congr ((hregion offset hoffset).mono (Nat.le_refl _) (by omega))
  have hlimitSame : data'.number (offset + 12) 4 = data.number (offset + 12) 4 :=
    Bytes.number_congr ((hregion offset hoffset).mono (by omega) (by omega))
  have htext := hversion offset metadata hoffset hmetadata
  have hlengthSame : data'.number (metadata + 12) 4 = data.number (metadata + 12) 4 :=
    Bytes.number_congr (htext.mono (Nat.le_refl _) (by omega))
  rw [hsize]
  refine ⟨offset, hoffset, (), hheader, _, ⟨haddressRoom, haddress⟩, _, ⟨hlimitRoom, hlimitSame⟩,
    metadata, hmetadata, (), hroot, (), hlimit, _, ⟨hlengthRoom, hlengthSame⟩, (), hlength,
    version, ?_, (), hvalid, hend⟩
  rw [Bytes.cut_congr hsize (htext.mono (by omega) (Nat.le_refl _))]
  exact hcut

end Container

open Container

variable {data data' : Bytes} {container : Container} {header : OptionalHeader}

/-- The optional header that is read of other bytes: only the checksum may
differ. -/
theorem OptionalHeader.Accepted.congr {start : Nat} (h : header.Accepted data start)
    (hsize : data'.size = data.size) (hform : Bytes.Agree data' data start (start + 2))
    (halignment : Bytes.Agree data' data (start + 36) (start + 40))
    (hdirectories : Bytes.Agree data' data (countAt data start)
      (countAt data start + 4 + 8 * data.number (countAt data start) 4)) :
    OptionalHeader.Accepted data' start
      { header with checksum := .ofNat (data'.number (start + checksumDistance) 4) } := by
  have hmagic : data'.number start 2 = data.number start 2 := Bytes.number_congr hform
  have hcountAt : countAt data' start = countAt data start := by rw [countAt, hmagic]; rfl
  have hcount : data'.number (countAt data start) 4 = data.number (countAt data start) 4 :=
    Bytes.number_congr (hdirectories.mono (Nat.le_refl _) (by omega))
  have hread : (List.range (data.number (countAt data start) 4)).mapM
      (readDirectory data' (countAt data start)) =
        (List.range (data.number (countAt data start) 4)).mapM
          (readDirectory data (countAt data start)) := by
    refine Except.mapM_congr fun index hindex => ?_
    rw [List.mem_range] at hindex
    exact readDirectory_congr hsize (hdirectories.mono (by omega) (by omega))
  exact {
    magic_room := hsize ▸ h.magic_room
    magic_eq := by rw [hmagic]; exact h.magic_eq
    count_room := by rw [hcountAt, hsize]; exact h.count_room
    count_le := by rw [hcountAt, hcount]; exact h.count_le
    directories_eq := by rw [hcountAt, hcount, hread]; exact h.directories_eq
    alignment_room := hsize ▸ h.alignment_room
    alignment_eq := by rw [Bytes.number_congr halignment]; exact h.alignment_eq
    checksum_room := hsize ▸ h.checksum_room
    checksum_eq := rfl }

theorem followRuntime_of_agree (h : followRuntime data container.sections (some header) = .ok ())
    (hsize : data'.size = data.size)
    (hagree : ∀ i, Interprets data container header i → data'.getD i 0 = data.getD i 0)
    (checksum : UInt32) :
    followRuntime data' container.sections (some { header with checksum }) = .ok () := by
  cases hdirectory : header.directory? runtimeIndex with
  | none => exact followRuntime_of_none hdirectory
  | some runtime =>
      rw [followRuntime_of_some hdirectory] at h
      refine (followRuntime_of_some hdirectory).trans (checkRuntime_of_agree h hsize ?_ ?_)
      · intro offset hoffset i hlow hhigh
        exact hagree i (.metadataRegion hdirectory hoffset ⟨hlow, hhigh⟩)
      · intro offset metadata hoffset hmetadata i hlow hhigh
        exact hagree i (.version hdirectory hoffset hmetadata ⟨hlow, hhigh⟩)

theorem followCertificates_of_agree (h : followCertificates data (some header) = .ok ())
    (hsize : data'.size = data.size)
    (hagree : ∀ i, Interprets data container header i → data'.getD i 0 = data.getD i 0)
    (checksum : UInt32) : followCertificates data' (some { header with checksum }) = .ok () := by
  cases hdirectory : header.directory? certificateIndex with
  | none => exact followCertificates_of_none hdirectory
  | some certificates =>
      rw [followCertificates_of_some hdirectory] at h
      refine (followCertificates_of_some hdirectory).trans ?_
      rw [hsize, checkCertificates_congr hsize fun entry hentry i hlow hhigh =>
        hagree i (.certificate hdirectory hentry ⟨hlow, hhigh⟩)]
      exact h

/-- A container whose interpreted bytes stay is read of other bytes too, with the
checksum that is found there. -/
theorem Container.Accepted.congr (h : container.Accepted data)
    (hoptional : container.optional = some header)
    (hheader : header.Accepted data (container.start + 24)) (hsize : data'.size = data.size)
    (hagree : ∀ i, Interprets data container header i → data'.getD i 0 = data.getD i 0) :
    Container.Accepted data' { container with optional := some { header with
      checksum := .ofNat (data'.number (container.start + 24 + checksumDistance) 4) } } := by
  have hmagic : data'.number 0 2 = data.number 0 2 :=
    Bytes.number_congr fun i _ hi => hagree i (.magic hi)
  have hstart : data'.number 0x3C 4 = data.number 0x3C 4 :=
    Bytes.number_congr fun i hlow hhigh => hagree i (.start ⟨hlow, hhigh⟩)
  have hsignature : data'.number container.start 4 = data.number container.start 4 :=
    Bytes.number_congr fun i hlow hhigh => hagree i (.signature ⟨hlow, hhigh⟩)
  have hcount : data'.number (container.start + 6) 2 = data.number (container.start + 6) 2 :=
    Bytes.number_congr fun i hlow hhigh => hagree i (.sectionCount ⟨hlow, hhigh⟩)
  have hoptionalSize : data'.number (container.start + 20) 2 =
      data.number (container.start + 20) 2 :=
    Bytes.number_congr fun i hlow hhigh => hagree i (.optionalSize ⟨hlow, hhigh⟩)
  have hgiven : data.number (container.start + 20) 2 ≠ 0 := by
    intro hzero
    have hread := h.optional_eq
    rw [optionalOf, if_pos hzero, hoptional] at hread
    cases hread
  have hsections : ((List.range (data.number (container.start + 6) 2)).mapM fun index =>
      readSection data' (container.start + 24 + data.number (container.start + 20) 2 +
        index * 40)) = (List.range (data.number (container.start + 6) 2)).mapM fun index =>
      readSection data (container.start + 24 + data.number (container.start + 20) 2 +
        index * 40) :=
    Except.mapM_congr fun index hindex => readSection_congr hsize fun i hlow hhigh =>
      hagree i (.sectionHeader (List.mem_range.mp hindex) ⟨hlow, hhigh⟩)
  exact {
    room := hsize ▸ h.room
    magic_eq := hmagic ▸ h.magic_eq
    start_eq := hstart ▸ h.start_eq
    signature_eq := by rw [hsignature]; exact h.signature_eq
    start_ge := h.start_ge
    start_room := hsize ▸ h.start_room
    optional_eq := by
      rw [optionalOf, hoptionalSize, if_neg hgiven, Except.map_eq_ok]
      refine ⟨_, readOptional_eq_ok.mpr (hheader.congr hsize ?_ ?_ ?_), rfl⟩
      · exact fun i hlow hhigh => hagree i (.form ⟨hlow, hhigh⟩)
      · exact fun i hlow hhigh => hagree i (.alignment ⟨hlow, hhigh⟩)
      · exact fun i hlow hhigh => hagree i (.directories ⟨hlow, hhigh⟩)
    section_count := by rw [hcount, hsize]; exact h.section_count
    sections_eq := by rw [hcount, hoptionalSize, hsections]; exact h.sections_eq
    runtime_eq := followRuntime_of_agree (hoptional ▸ h.runtime_eq) hsize hagree _
    certificates_eq := followCertificates_of_agree (hoptional ▸ h.certificates_eq) hsize hagree _ }

namespace Container

theorem Accepted.header_accepted (h : container.Accepted data)
    (hoptional : container.optional = some header) :
    header.Accepted data (container.start + 24) := by
  have hread := h.optional_eq
  rw [hoptional, optionalOf] at hread
  split at hread
  · cases hread
  · obtain ⟨_, hheader, hsome⟩ := Except.map_eq_ok.mp hread
    obtain rfl := Option.some.inj hsome
    exact readOptional_eq_ok.mp hheader

/-- Portable executables are read as the laws say. -/
instance lawfulPortable : LawfulReader where
  toReader := portable
  Interprets := Interprets
  checksum_room h hoptional := ((ofData_eq_ok.mp h).header_accepted hoptional).checksum_room
  checksum_eq h hoptional := ((ofData_eq_ok.mp h).header_accepted hoptional).checksum_eq.symm
  read_of_agree h hoptional hsize hagree :=
    ofData_eq_ok.mpr ((ofData_eq_ok.mp h).congr hoptional
      ((ofData_eq_ok.mp h).header_accepted hoptional) hsize hagree)
  ne_trap data := (safe_ofData data).ne_trap

end Container

end Unveil
