import Mathlib.Data.List.Nodup
import Mathlib.Data.List.Perm.Subperm
import Unveil.Proofs.Metadata.Names

/-!
The directory of streams laid out and read. A root that is laid out is read as
what it was laid out from, whatever comes behind it. And a root is only read
where its stream headers stand one behind the other, each as it would be laid
out; the bytes that fill a name up are the only ones that are not looked at.
-/

namespace Unveil

namespace StreamHeader

/-- Where the stream ends. -/
def stop (header : StreamHeader) : Nat := header.offset.toNat + header.size.toNat

end StreamHeader

namespace MetadataRoot

/-- The bytes of stream headers, one behind the other. -/
def directory (streams : List StreamHeader) : List UInt8 := streams.flatMap StreamHeader.layout

/-- There are only so many names. -/
theorem length_le_of_nodup {streams : List StreamHeader} (h : (streams.map (·.name)).Nodup) :
    streams.length ≤ 6 := by
  have hall : streams.map (·.name) ⊆ StreamName.all := by
    intro name _
    cases name <;> decide
  have hlength := (h.subperm hall).length_le
  rwa [List.length_map] at hlength

/-- What a root is laid out from. -/
structure Layout where
  major : UInt16
  minor : UInt16
  reserved : UInt32
  version : List UInt8
  flags : UInt16
  streams : List StreamHeader
  version_lt : version.length < 2 ^ 32
  streams_ne : streams ≠ []
  names_nodup : (streams.map (·.name)).Nodup

namespace Layout

/-- The root as it is laid out. -/
def bytes (layout : Layout) : List UInt8 :=
  Bytes.spell 4 magic.toNat ++ (Bytes.spell 2 layout.major.toNat ++
    (Bytes.spell 2 layout.minor.toNat ++ (Bytes.spell 4 layout.reserved.toNat ++
    (Bytes.spell 4 layout.version.length ++ (layout.version ++
    (Bytes.spell 2 layout.flags.toNat ++ (Bytes.spell 2 layout.streams.length ++
    directory layout.streams)))))))

/-- What is to be read of it. -/
def root (layout : Layout) : MetadataRoot where
  signature := magic
  major := layout.major
  minor := layout.minor
  reserved := layout.reserved
  versionLength := .ofNat layout.version.length
  version := versionText layout.version.toArray
  flags := layout.flags
  streamCount := .ofNat layout.streams.length
  streams := layout.streams

theorem length_bytes (layout : Layout) :
    layout.bytes.length = 20 + layout.version.length + (directory layout.streams).length := by
  simp only [bytes, List.length_append, Bytes.length_spell]
  omega

theorem length_streams_le (layout : Layout) : layout.streams.length ≤ 6 :=
  length_le_of_nodup layout.names_nodup

end Layout

variable {data : Bytes} {offset left : Nat} {header : StreamHeader}
  {streams seen : List StreamHeader} {rest : List UInt8}

theorem directory_cons (header : StreamHeader) (streams : List StreamHeader) :
    directory (header :: streams) = header.layout ++ directory streams :=
  List.flatMap_cons

theorem demandInside_eq_ok {size : Nat} {u : Unit} :
    demandInside header size = .ok u ↔ header.stop < 2 ^ 32 ∧ header.stop ≤ size := by
  rw [demandInside, Except.bind_eq_ok]
  simp only [demand_eq_ok]
  constructor
  · rintro ⟨-, hroom⟩
    exact hroom
  · intro hroom
    exact ⟨(), hroom⟩

theorem demandInside_of_le (size : Nat) (h : 2 ^ 32 ≤ header.stop) :
    demandInside header size =
      .error (.malformed (.streamOverflow header.offset header.size)) :=
  demand_bind_of_not (Nat.not_lt.mpr h)

/-- Reading the header that stands at an offset, and those behind it. -/
theorem readStreams_succ (h : header.core <+: data.toList.drop offset) :
    readStreams data data.size (left + 1) offset seen = (do
      demandInside header data.size
      demand (seen.all (·.name ≠ header.name))
        (.malformed (.duplicateStream header.name.text))
      readStreams data data.size left (offset + header.headerSize) (header :: seen)) := by
  have hinside : offset ≤ data.size := by
    have hlength := h.length_le
    have hsize : data.toList.length = data.size := Array.length_toList
    rw [StreamHeader.length_core, List.length_drop] at hlength
    omega
  have hheader : StreamHeader.ofData (data.extract offset data.size) = .ok header :=
    StreamHeader.ofData_eq_ok.mpr (Bytes.toList_extract_size data offset ▸ h)
  rw [readStreams, demand_bind hinside, Bytes.rest_of_le hinside, Except.ok_bind, hheader,
    Except.ok_bind]

/-- Headers that stand one behind the other are read in order, up to the first
whose stream does not end at a word. -/
theorem readStreams_laid (hplace : data.toList.drop offset = directory streams ++ rest)
    (hinside : ∀ header ∈ streams, header.stop ≤ data.size)
    (hnodup : (streams.map (·.name)).Nodup)
    (hfresh : ∀ header ∈ streams, ∀ before ∈ seen, before.name ≠ header.name) :
    readStreams data data.size streams.length offset seen =
      match streams.find? (2 ^ 32 ≤ ·.stop) with
      | none => .ok (seen.reverse ++ streams)
      | some header => .error (.malformed (.streamOverflow header.offset header.size)) := by
  induction streams generalizing offset seen with
  | nil => rw [List.append_nil]; rfl
  | cons header streams ih =>
      rw [directory_cons, List.append_assoc] at hplace
      rw [List.map_cons, List.nodup_cons] at hnodup
      obtain ⟨hnew, hothers⟩ := hnodup
      have hcore : header.core <+: data.toList.drop offset :=
        hplace ▸ header.core_prefix_layout.trans (List.prefix_append ..)
      have hnext : data.toList.drop (offset + header.headerSize) = directory streams ++ rest := by
        rw [← List.drop_drop, hplace, List.drop_left' header.length_layout]
      rw [List.length_cons, readStreams_succ hcore, List.find?_cons]
      by_cases hstop : 2 ^ 32 ≤ header.stop
      · -- The walk ends here, before the name is compared with those seen.
        rw [demandInside_of_le _ hstop, decide_eq_true hstop]
        rfl
      · have hunseen : seen.all (·.name ≠ header.name) = true := by
          rw [List.all_eq_true]
          intro before hbefore
          exact decide_eq_true (hfresh header (List.mem_cons_self ..) before hbefore)
        have hfreshNext : ∀ other ∈ streams, ∀ before ∈ header :: seen,
            before.name ≠ other.name := by
          intro other hother before hbefore
          rcases List.mem_cons.mp hbefore with rfl | hbefore
          · intro hname
            exact hnew (hname ▸ List.mem_map_of_mem hother)
          · exact hfresh other (List.mem_cons_of_mem _ hother) before hbefore
        have hread := ih hnext
          (fun other hother => hinside other (List.mem_cons_of_mem _ hother)) hothers hfreshNext
        have hroom : demandInside header data.size = .ok () :=
          demandInside_eq_ok.mpr ⟨Nat.not_le.mp hstop, hinside header (List.mem_cons_self ..)⟩
        rw [hroom, Except.ok_bind, demand_bind hunseen, hread, decide_eq_false hstop,
          List.reverse_cons, List.append_assoc, List.singleton_append]

/-- What is known of a directory that has been read. -/
structure Listed (data : Bytes) (seen : List StreamHeader) (left offset : Nat)
    (streams : List StreamHeader) : Prop where
  length_eq : streams.length = left
  nodup : (streams.map (·.name)).Nodup
  fresh : ∀ header ∈ streams, ∀ before ∈ seen, before.name ≠ header.name
  inside : ∀ header ∈ streams, header.stop ≤ data.size
  placed : ∀ before header behind, streams = before ++ header :: behind →
    header.core <+: data.toList.drop (offset + (directory before).length)

theorem listed_nil : Listed data seen 0 offset [] where
  length_eq := rfl
  nodup := List.nodup_nil
  fresh := nofun
  inside := nofun
  placed before header behind h := absurd h (by simp)

theorem listed_cons (hcore : header.core <+: data.toList.drop offset)
    (hinside : header.stop ≤ data.size) (hfresh : ∀ before ∈ seen, before.name ≠ header.name)
    (h : Listed data (header :: seen) left (offset + header.headerSize) streams) :
    Listed data seen (left + 1) offset (header :: streams) where
  length_eq := congrArg (· + 1) h.length_eq
  nodup := by
    rw [List.map_cons, List.nodup_cons]
    refine ⟨fun hmem => ?_, h.nodup⟩
    obtain ⟨other, hother, hname⟩ := List.mem_map.mp hmem
    exact h.fresh other hother header (List.mem_cons_self ..) hname.symm
  fresh other hother before hbefore := by
    rcases List.mem_cons.mp hother with rfl | hother
    · exact hfresh before hbefore
    · exact h.fresh other hother before (List.mem_cons_of_mem _ hbefore)
  inside := List.forall_mem_cons.mpr ⟨hinside, h.inside⟩
  placed before other behind hsplit := by
    cases before with
    | nil =>
        obtain ⟨rfl, -⟩ := List.cons.inj hsplit
        exact hcore
    | cons first before =>
        obtain ⟨rfl, hothers⟩ := List.cons.inj hsplit
        rw [directory_cons, List.length_append, StreamHeader.length_layout, ← Nat.add_assoc]
        exact h.placed before other behind hothers

/-- Only headers that stand one behind the other are read. -/
theorem listed_of_readStreams {result : List StreamHeader}
    (h : readStreams data data.size left offset seen = .ok result) :
    ∃ streams, result = seen.reverse ++ streams ∧ Listed data seen left offset streams := by
  induction left generalizing offset seen with
  | zero =>
      cases h
      exact ⟨[], (List.append_nil _).symm, listed_nil⟩
  | succ left ih =>
      simp only [readStreams, Except.bind_eq_ok, demand_eq_ok, Bytes.rest_eq_ok] at h
      obtain ⟨_, _, _, ⟨_, rfl⟩, header, hheader, _, hroom, _, hunseen, hothers⟩ := h
      have hcore : header.core <+: data.toList.drop offset :=
        Bytes.toList_extract_size data offset ▸ StreamHeader.ofData_eq_ok.mp hheader
      obtain ⟨-, hinside⟩ := demandInside_eq_ok.mp hroom
      have hfresh : ∀ before ∈ seen, before.name ≠ header.name := fun before hbefore =>
        of_decide_eq_true (List.all_eq_true.mp hunseen before hbefore)
      obtain ⟨streams, rfl, hlisted⟩ := ih hothers
      refine ⟨header :: streams, ?_, listed_cons hcore hinside hfresh hlisted⟩
      rw [List.reverse_cons, List.append_assoc, List.singleton_append]

/-- Every header takes more bytes than the least that one can take. -/
theorem le_length_directory (streams : List StreamHeader) :
    streams.length * shortestHeader ≤ (directory streams).length := by
  induction streams with
  | nil => exact Nat.zero_le _
  | cons header streams ih =>
      have hfirst : shortestHeader ≤ header.layout.length := by
        rw [StreamHeader.length_layout, StreamHeader.headerSize, shortestHeader]
        omega
      rw [directory_cons, List.length_append, List.length_cons, Nat.succ_mul]
      omega

/-- What stands in front of the directory, and that it stands there. -/
structure Front (data : Bytes) (layout : Layout) (rest : List UInt8) : Prop where
  long : 20 + layout.version.length + (directory layout.streams).length ≤ data.size
  signature : data.number 0 4 = magic.toNat
  major : data.number 4 2 = layout.major.toNat
  minor : data.number 6 2 = layout.minor.toNat
  reserved : data.number 8 4 = layout.reserved.toNat
  versionLength : data.number 12 4 = layout.version.length
  version : (data.extract 16 (16 + layout.version.length)).toList = layout.version
  flags : data.number (16 + layout.version.length) 2 = layout.flags.toNat
  streamCount : data.number (16 + layout.version.length + 2) 2 = layout.streams.length
  behind : data.toList.drop (16 + layout.version.length + 2 + 2) = directory layout.streams ++ rest

theorem front_of_laid {layout : Layout} (h : data.toList = layout.bytes ++ rest) :
    Front data layout rest := by
  have hcount := layout.length_streams_le
  have hstart : data.toList.drop 0 = layout.bytes ++ rest := h
  simp only [Layout.bytes, List.append_assoc] at hstart
  obtain ⟨signature, hbehind⟩ := Bytes.number_of_drop magic.toNat_lt hstart
  obtain ⟨major, hbehind⟩ := Bytes.number_of_drop layout.major.toNat_lt hbehind
  obtain ⟨minor, hbehind⟩ := Bytes.number_of_drop layout.minor.toNat_lt hbehind
  obtain ⟨reserved, hbehind⟩ := Bytes.number_of_drop layout.reserved.toNat_lt hbehind
  obtain ⟨versionLength, hbehind⟩ := Bytes.number_of_drop layout.version_lt hbehind
  have version : (data.extract 16 (16 + layout.version.length)).toList = layout.version := by
    rw [Array.toList_extract, List.extract_eq_take_drop, Nat.add_sub_cancel_left]
    exact (congrArg _ hbehind).trans (List.take_left' rfl)
  have hbehind : data.toList.drop (16 + layout.version.length) = _ :=
    (List.drop_drop ..).symm.trans ((congrArg _ hbehind).trans (List.drop_left' rfl))
  obtain ⟨flags, hbehind⟩ := Bytes.number_of_drop layout.flags.toNat_lt hbehind
  obtain ⟨streamCount, behind⟩ :=
    Bytes.number_of_drop (show layout.streams.length < 256 ^ 2 by omega) hbehind
  have long : 20 + layout.version.length + (directory layout.streams).length ≤ data.size := by
    have hlength := congrArg List.length h
    rw [List.length_append, layout.length_bytes, Array.length_toList] at hlength
    omega
  exact ⟨long, signature, major, minor, reserved, versionLength, version, flags, streamCount, behind⟩

/-- The front is read as what it states, and then the directory is read. -/
theorem Front.ofData_eq {layout : Layout} (h : Front data layout rest) (hlong : 36 ≤ data.size) :
    ofData data = ({ layout.root with streams := · }) <$>
      readStreams data data.size layout.streams.length (16 + layout.version.length + 2 + 2) [] := by
  have hcount := layout.length_streams_le
  have hlength := layout.version_lt
  have hroom := h.long
  have hleast := le_length_directory layout.streams
  have hsignature : (Scan.u32 data).valueAt 0 = .ok magic :=
    Scan.valueAt_number.mpr ⟨by omega, h.signature ▸ UInt32.ofNat_toNat⟩
  have hversionLength : (Scan.u32 data).valueAt 12 = .ok (.ofNat layout.version.length) :=
    Scan.valueAt_number.mpr ⟨by omega, congrArg _ h.versionLength⟩
  have hflags : (Scan.u16 data).valueAt (16 + layout.version.length) = .ok layout.flags :=
    Scan.valueAt_number.mpr ⟨by omega, h.flags ▸ UInt16.ofNat_toNat⟩
  have hstreamCount : (Scan.u16 data).valueAt (16 + layout.version.length + 2) =
      .ok (.ofNat layout.streams.length) :=
    Scan.valueAt_number.mpr ⟨by omega, congrArg _ h.streamCount⟩
  have hmajor : (Scan.u16 data).valueInside data 4 = .ok layout.major :=
    Scan.valueInside_number.mpr ⟨by omega, h.major ▸ UInt16.ofNat_toNat⟩
  have hminor : (Scan.u16 data).valueInside data 6 = .ok layout.minor :=
    Scan.valueInside_number.mpr ⟨by omega, h.minor ▸ UInt16.ofNat_toNat⟩
  have hreserved : (Scan.u32 data).valueInside data 8 = .ok layout.reserved :=
    Scan.valueInside_number.mpr ⟨by omega, h.reserved ▸ UInt32.ofNat_toNat⟩
  have hversion : versionText (data.extract 16 (16 + layout.version.length)) =
      layout.root.version := by
    rw [versionText, h.version]
    rfl
  have hlengthNat : (UInt32.ofNat layout.version.length).toNat = layout.version.length :=
    UInt32.toNat_ofNat_of_lt' hlength
  have hcountNat : (UInt16.ofNat layout.streams.length).toNat = layout.streams.length :=
    UInt16.toNat_ofNat_of_lt' (show layout.streams.length < 2 ^ 16 by omega)
  have hsome : UInt16.ofNat layout.streams.length ≠ 0 := by
    intro hzero
    rw [hzero] at hcountNat
    exact layout.streams_ne (List.length_eq_zero_iff.mp hcountNat.symm)
  rw [ofData, ofFront, demand_bind hlong, hsignature, Except.ok_bind, demand_bind rfl, hversionLength,
    Except.ok_bind]
  dsimp only
  rw [hlengthNat, demand_bind (by omega), Bytes.cut_of_le (by omega) (by omega), Except.ok_bind,
    hflags, Except.ok_bind, hstreamCount, Except.ok_bind,
    demand_bind ⟨hsome, by rw [hcountNat]; omega⟩,
    hcountNat, hversion]
  cases readStreams data data.size layout.streams.length (16 + layout.version.length + 4) [] with
  | error fault => rfl
  | ok streams =>
      rw [Except.ok_bind, hmajor, Except.ok_bind, hminor, Except.ok_bind, hreserved]
      rfl

/-- What comes of reading a root that is laid out: all of it, unless a stream does
not end at a word. -/
theorem ofData_laid {layout : Layout} (hdata : data.toList = layout.bytes ++ rest)
    (hlong : 36 ≤ data.size) (hinside : ∀ header ∈ layout.streams, header.stop ≤ data.size) :
    ofData data =
      match layout.streams.find? (2 ^ 32 ≤ ·.stop) with
      | none => .ok layout.root
      | some header => .error (.malformed (.streamOverflow header.offset header.size)) := by
  have hfront := front_of_laid hdata
  rw [hfront.ofData_eq hlong,
    readStreams_laid hfront.behind hinside layout.names_nodup
      fun _ _ _ hnone => absurd hnone List.not_mem_nil]
  cases layout.streams.find? (2 ^ 32 ≤ ·.stop) with
  | none => rfl
  | some header => rfl

/-- The text has one character for every byte in front of the first zero byte. -/
theorem toNat_version (layout : Layout) :
    layout.root.version.toList.map Char.toNat =
      (layout.version.takeWhile (· ≠ 0)).map UInt8.toNat := by
  rw [Layout.root, versionText, String.toList_ofList, List.map_map]
  apply List.map_congr_left
  intro byte _
  exact Utf8.toNat_ofNat (Nat.lt_trans byte.toNat_lt (by decide))

/-- With names that differ, each finds its own header. -/
theorem find?_name (hnodup : (streams.map (·.name)).Nodup) (h : header ∈ streams) :
    streams.find? (·.name == header.name) = some header := by
  induction streams with
  | nil => cases h
  | cons first streams ih =>
      rw [List.map_cons, List.nodup_cons] at hnodup
      obtain ⟨hnew, hothers⟩ := hnodup
      rcases List.mem_cons.mp h with rfl | hmem
      · exact List.find?_cons_of_pos (beq_self_eq_true _)
      · have hdiffers : (first.name == header.name) = false := by
          rw [beq_eq_false_iff_ne]
          intro hname
          exact hnew (hname ▸ List.mem_map_of_mem hmem)
        rw [List.find?_cons, hdiffers]
        exact ih hothers hmem

/-- Of a root that has been read, the directory has been. -/
theorem listed_of_ofData {root : MetadataRoot} (h : ofData data = .ok root) :
    Listed data [] root.streamCount.toNat (20 + root.versionLength.toNat) root.streams := by
  simp only [ofData, ofFront, Except.bind_eq_ok, Except.pure_eq_ok] at h
  obtain ⟨_, _, _, _, _, _, versionLength, _, _, _, _, _, _, _, streamCount, _, _, _, streams,
    hstreams, _, _, _, _, _, _, rfl⟩ := h
  obtain ⟨listed, rfl, hlisted⟩ := listed_of_readStreams hstreams
  have hplace : 16 + versionLength.toNat + 4 = 20 + versionLength.toNat := by omega
  exact hplace ▸ hlisted

/-- The directory is recovered, and only a sound one. However a root is laid out,
and whatever follows it: with every stream inside metadata of at least 36 bytes,
it is read as what was laid out, its version up to the first zero byte, and every
name finds its stream. Only a stream that does not end at a word is refused, for
which the metadata would have to be longer than a word can say. And whenever a
root is read, there are as many streams as counted, with known names of which no
two are the same, each inside the metadata; and each header stands where laying
out those before it leads to, up to the bytes that fill its name up. -/
theorem directory_recovered :
    (∀ (layout : Layout) (rest : List UInt8), 36 ≤ (layout.bytes ++ rest).length →
      (∀ header ∈ layout.streams, header.stop ≤ (layout.bytes ++ rest).length) →
      ((∀ header ∈ layout.streams, header.stop < 2 ^ 32) →
        ofData (layout.bytes ++ rest).toArray = .ok layout.root) ∧
      (∀ header, layout.streams.find? (2 ^ 32 ≤ ·.stop) = some header →
        ofData (layout.bytes ++ rest).toArray =
          .error (.malformed (.streamOverflow header.offset header.size))) ∧
      layout.root.version.toList.map Char.toNat =
        (layout.version.takeWhile (· ≠ 0)).map UInt8.toNat ∧
      ∀ header ∈ layout.streams, layout.root.stream? header.name = some header) ∧
    ∀ (data : Bytes) (root : MetadataRoot), ofData data = .ok root →
      root.streams.length = root.streamCount.toNat ∧
      (root.streams.map (·.name.text)).Nodup ∧
      (∀ header ∈ root.streams,
        header.name.text ∈ ["#Strings", "#US", "#Blob", "#GUID", "#~", "#-"] ∧
        header.stop ≤ data.size) ∧
      ∀ before header behind, root.streams = before ++ header :: behind →
        header.core <+:
          data.toList.drop (20 + root.versionLength.toNat + (directory before).length) := by
  constructor
  · intro layout rest hlong hinside
    have hdata : (layout.bytes ++ rest).toArray.toList = layout.bytes ++ rest := rfl
    have hread := ofData_laid hdata hlong hinside
    refine ⟨fun hwords => ?_, fun header hfound => ?_, toNat_version layout, fun header hmem => ?_⟩
    · have hnone : layout.streams.find? (2 ^ 32 ≤ ·.stop) = none := by
        rw [List.find?_eq_none]
        intro header hmem
        exact mt of_decide_eq_true (Nat.not_le.mpr (hwords header hmem))
      rw [hread, hnone]
    · rw [hread, hfound]
    · exact find?_name layout.names_nodup hmem
  · intro data root hroot
    have hlisted := listed_of_ofData hroot
    refine ⟨hlisted.length_eq, ?_, fun header hmem => ⟨?_, hlisted.inside header hmem⟩,
      hlisted.placed⟩
    · have htexts := List.Nodup.map (fun _ _ => StreamName.text_injective) hlisted.nodup
      rwa [List.map_map] at htexts
    · cases header.name <;> decide

/-- A stream of one byte at the last offset that a word can say. -/
def Layout.farStream : Layout where
  major := 1
  minor := 1
  reserved := 0
  version := [0x76, 0x34, 0x2E, 0x30]
  flags := 0
  streams := [⟨0xFFFFFFFF, 1, .tables⟩]
  version_lt := by decide
  streams_ne := by decide
  names_nodup := by decide

/-- In metadata of 2 ^ 32 bytes the stream lies inside, and still the root is not
read as it was laid out. -/
theorem far_stream_refused :
    (Layout.farStream.bytes ++ List.replicate (2 ^ 32 - 36) 0).length = 2 ^ 32 ∧
      (∀ header ∈ Layout.farStream.streams, header.stop ≤ 2 ^ 32) ∧
      ofData (Layout.farStream.bytes ++ List.replicate (2 ^ 32 - 36) 0).toArray =
        .error (.malformed (.streamOverflow 0xFFFFFFFF 1)) ∧
      ofData (Layout.farStream.bytes ++ List.replicate (2 ^ 32 - 36) 0).toArray ≠
        .ok Layout.farStream.root := by
  have hlength : (Layout.farStream.bytes ++ List.replicate (2 ^ 32 - 36) 0).length = 2 ^ 32 := by
    have hlaid : Layout.farStream.bytes.length = 36 := by decide
    rw [List.length_append, hlaid, List.length_replicate]
    rfl
  generalize List.replicate (2 ^ 32 - 36) (0 : UInt8) = rest at hlength ⊢
  have hsize : (Layout.farStream.bytes ++ rest).toArray.size = 2 ^ 32 := hlength
  have hinside : ∀ header ∈ Layout.farStream.streams, header.stop ≤ 2 ^ 32 := by decide
  have hlong : 36 ≤ (Layout.farStream.bytes ++ rest).toArray.size := by
    rw [hsize]
    decide
  have hread : ofData (Layout.farStream.bytes ++ rest).toArray =
      .error (.malformed (.streamOverflow 0xFFFFFFFF 1)) :=
    (ofData_laid rfl hlong (hsize ▸ hinside)).trans rfl
  refine ⟨hlength, hinside, hread, ?_⟩
  rw [hread]
  nofun

/-- A version of four characters in a field of eight bytes, and two streams. -/
def Layout.twoStreams : Layout where
  major := 1
  minor := 1
  reserved := 0
  version := [0x76, 0x34, 0x2E, 0x30, 0, 0, 0, 0]
  flags := 0
  streams := [⟨0x30, 4, .tables⟩, ⟨0x34, 0x10, .guids⟩]
  version_lt := by decide
  streams_ne := by decide
  names_nodup := by decide

/-- These streams, in twenty bytes behind their directory, are read and found; and
the second header stands behind the twelve bytes of the first. -/
theorem directory_recovered_twoStreams :
    ofData (Layout.twoStreams.bytes ++ List.replicate 20 0).toArray = .ok Layout.twoStreams.root ∧
      Layout.twoStreams.root.version.toList.map Char.toNat = [0x76, 0x34, 0x2E, 0x30] ∧
      Layout.twoStreams.root.stream? .guids = some ⟨0x34, 0x10, .guids⟩ ∧
      StreamHeader.core ⟨0x34, 0x10, .guids⟩ <+:
        (Layout.twoStreams.bytes ++ List.replicate 20 0).drop (20 + 8 + 12) := by
  obtain ⟨hlaid, hsound⟩ := directory_recovered
  obtain ⟨hread, -, hversion, hfound⟩ :=
    hlaid Layout.twoStreams (List.replicate 20 0) (by decide) (by decide)
  have hroot := hread (by decide)
  obtain ⟨-, -, -, hplaced⟩ := hsound _ _ hroot
  exact ⟨hroot, hversion, hfound ⟨0x34, 0x10, .guids⟩ (by decide),
    hplaced [⟨0x30, 4, .tables⟩] ⟨0x34, 0x10, .guids⟩ [] rfl⟩

end MetadataRoot

end Unveil
