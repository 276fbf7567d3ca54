import Unveil.Heaps
import Unveil.Metadata.Root
import Unveil.Metadata.RuntimeHeader
import Unveil.Proofs.Safety.Steps
import Unveil.Proofs.Table.Header

/-!
Reading without traps. Every reader takes its numbers from the data by
`Scan.number`, which looks whether they are there; what else a reader takes, or
calculates, it has made sure of before. Of the data only one thing is asked: that
its size is a size.
-/

namespace Unveil

namespace Scan

/-- Takes the bytes of a number, if they are there, and reads it from them. -/
def numberStrictly (data : Bytes) (width : Nat) : Scan Nat := fun offset =>
  if offset + width < Size.limit ∧ offset + width ≤ data.size then
    match data.cut offset (offset + width) with
    | .ok part => .ok (part.number 0 width) (offset + width)
    | .error fault => .error fault offset
  else
    .error .outOfBounds offset

def u8Strictly (data : Bytes) : Scan UInt8 := UInt8.ofNat <$> numberStrictly data 1

def u16Strictly (data : Bytes) : Scan UInt16 := UInt16.ofNat <$> numberStrictly data 2

def u32Strictly (data : Bytes) : Scan UInt32 := UInt32.ofNat <$> numberStrictly data 4

def u64Strictly (data : Bytes) : Scan UInt64 := UInt64.ofNat <$> numberStrictly data 8

def columnStrictly (data : Bytes) (wide : Bool) : Scan UInt32 :=
  UInt32.ofNat <$> numberStrictly data (if wide then 4 else 2)

variable {data : Bytes}

theorem safe_number (hsize : data.size < Size.limit) (width : Nat) :
    SafeScan (numberStrictly data width) (number data width) where
  eq := by
    funext offset
    by_cases hroom : offset + width ≤ data.size
    · have hcut : data.cut offset (offset + width) = .ok (data.extract offset (offset + width)) :=
        Bytes.cut_of_le (Nat.le_add_right ..) hroom
      have hnumber : Bytes.number (data.extract offset (offset + width)) 0 width =
          data.number offset width := Bytes.number_extract hroom (by omega)
      rw [numberStrictly, if_pos ⟨by omega, hroom⟩, hcut, number, if_pos hroom]
      simp only [hnumber]
    · rw [numberStrictly, if_neg fun h => hroom h.2, number, if_neg hroom]
  ne_trap offset stop htrap := by
    unfold number at htrap
    split at htrap
    · cases htrap
    · cases htrap

theorem safe_u8 (hsize : data.size < Size.limit) : SafeScan (u8Strictly data) (u8 data) :=
  (safe_number hsize 1).map _

theorem safe_u16 (hsize : data.size < Size.limit) : SafeScan (u16Strictly data) (u16 data) :=
  (safe_number hsize 2).map _

theorem safe_u32 (hsize : data.size < Size.limit) : SafeScan (u32Strictly data) (u32 data) :=
  (safe_number hsize 4).map _

theorem safe_u64 (hsize : data.size < Size.limit) : SafeScan (u64Strictly data) (u64 data) :=
  (safe_number hsize 8).map _

theorem safe_column (hsize : data.size < Size.limit) (wide : Bool) :
    SafeScan (columnStrictly data wide) (column data wide) :=
  (safe_number hsize _).map _

end Scan

namespace Region

def scanStrictly (data : Bytes) : Scan Region := do
  let address ← Scan.u32Strictly data
  let size ← Scan.u32Strictly data
  pure { address, size }

theorem safe_scan {data : Bytes} (hsize : data.size < Size.limit) :
    SafeScan (scanStrictly data) (scan data) :=
  (Scan.safe_u32 hsize).bind fun _ => (Scan.safe_u32 hsize).bind fun _ => SafeScan.pure _

end Region

namespace RuntimeHeader

def scanStrictly (data : Bytes) : Scan RuntimeHeader := do
  let headerSize ← Scan.u32Strictly data
  refuseIf (headerSize.toNat != byteSize) (.runtimeHeaderSize headerSize)
  let major ← Scan.u16Strictly data
  let minor ← Scan.u16Strictly data
  refuseIf (major == 0 || 10 < major.toNat) (.runtimeVersion major)
  let address ← Scan.u32Strictly data
  refuseIf (address == 0) .noMetadataAddress
  let size ← Scan.u32Strictly data
  refuseIf (size == 0) .noMetadataSize
  refuseIf (metadataLimit < size.toNat) (.metadataTooLarge size)
  let flags ← Scan.u32Strictly data
  let entryPoint ← Scan.u32Strictly data
  let resources ← Region.scanStrictly data
  refuseIf resources.isHalfGiven .resources
  let strongName ← Region.scanStrictly data
  refuseIf strongName.isHalfGiven .strongName
  let codeManager ← Region.scanStrictly data
  let vtableFixups ← Region.scanStrictly data
  refuseIf vtableFixups.isHalfGiven .vtableFixups
  let exportJumps ← Region.scanStrictly data
  let nativeHeader ← Region.scanStrictly data
  pure { headerSize, major, minor, metadata := { address, size }, flags, entryPoint,
         resources, strongName, codeManager, vtableFixups, exportJumps, nativeHeader }

def ofDataStrictly (data : Bytes) : Except Fault RuntimeHeader := do
  demand (byteSize ≤ data.size) .outOfBounds
  (scanStrictly data).valueAt 0

variable {data : Bytes}

theorem safe_refuseIf (condition : Bool) (defect : Defect) :
    SafeScan (refuseIf condition defect) (refuseIf condition defect) := by
  unfold refuseIf
  split
  · exact SafeScan.throw (Fault.ne_trap rfl)
  · exact SafeScan.pure ()

theorem safe_scan (hsize : data.size < Size.limit) : SafeScan (scanStrictly data) (scan data) := by
  have hword := Scan.safe_u32 hsize
  have hregion := Region.safe_scan hsize
  exact hword.bind fun _ => (safe_refuseIf _ _).bind fun _ =>
    (Scan.safe_u16 hsize).bind fun _ => (Scan.safe_u16 hsize).bind fun _ =>
    (safe_refuseIf _ _).bind fun _ => hword.bind fun _ => (safe_refuseIf _ _).bind fun _ =>
    hword.bind fun _ => (safe_refuseIf _ _).bind fun _ => (safe_refuseIf _ _).bind fun _ =>
    hword.bind fun _ => hword.bind fun _ =>
    hregion.bind fun _ => (safe_refuseIf _ _).bind fun _ =>
    hregion.bind fun _ => (safe_refuseIf _ _).bind fun _ => hregion.bind fun _ =>
    hregion.bind fun _ => (safe_refuseIf _ _).bind fun _ =>
    hregion.bind fun _ => hregion.bind fun _ => SafeScan.pure _

theorem safe_ofData (hsize : data.size < Size.limit) : Safe (ofDataStrictly data) (ofData data) :=
  Safe.demand_bind rfl fun _ => (safe_scan hsize).valueAt

end RuntimeHeader

namespace StreamHeader

def ofDataStrictly (data : Bytes) : Except Fault StreamHeader := do
  demand (9 ≤ data.size) .outOfBounds
  let name ← data.cut 8 (min data.size (8 + nameReach))
  match name.toList.idxOf? 0 with
  | none => .error (.malformed .unterminatedStreamName)
  | some length => do
    let field ← name.cut 0 length
    let text := Utf8.decodeLossy field.toList
    match StreamName.ofText? text with
    | none => .error (.malformed (.unknownStream text))
    | some name => do
        let offset ← (Scan.u32Strictly data).valueAt 0
        let size ← (Scan.u32Strictly data).valueInside data 4
        pure { offset, size, name }

def headerSizeStrictly (header : StreamHeader) : Except Fault Nat := do
  let ended ← Size.add header.name.text.utf8ByteSize 1
  let filled ← Size.add ended 3
  Size.add 8 (filled / 4 * 4)

variable {data : Bytes}

theorem safe_ofData (hsize : data.size < Size.limit) :
    Safe (ofDataStrictly data) (ofData data) := by
  refine Safe.demand_bind rfl fun hlong => ?_
  have hcut : data.cut 8 (min data.size (8 + nameReach)) =
      .ok (data.extract 8 (min data.size (8 + nameReach))) :=
    Bytes.cut_of_le (by unfold nameReach; omega) (Nat.min_le_left ..)
  rw [hcut, Except.ok_bind, Except.ok_bind]
  generalize data.extract 8 (min data.size (8 + nameReach)) = name
  cases hzero : name.toList.idxOf? 0 with
  | none => exact Safe.error rfl
  | some length =>
      have hinside : length ≤ name.size := by
        obtain ⟨hlength, -⟩ := List.idxOf?_eq_some_iff.mp hzero
        exact Nat.le_of_lt hlength
      refine Safe.step (Bytes.cut_of_le (Nat.zero_le _) hinside) ?_
      have hfield : (name.extract 0 length).toList = name.toList.take length := by
        simp
      simp only [hfield]
      cases StreamName.ofText? (Utf8.decodeLossy (name.toList.take length)) with
      | none => exact Safe.error rfl
      | some found =>
          exact (Scan.safe_u32 hsize).valueAt.bind fun _ _ =>
            ((Scan.safe_u32 hsize).valueInside (by omega)).bind fun _ _ => Safe.pure _

theorem byteSize_text_le (name : StreamName) : name.text.utf8ByteSize ≤ 8 := by
  cases name <;> decide

theorem headerSize_le (header : StreamHeader) : header.headerSize ≤ 20 := by
  have hname := byteSize_text_le header.name
  unfold headerSize
  omega

theorem headerSizeStrictly_eq (header : StreamHeader) :
    header.headerSizeStrictly = .ok header.headerSize := by
  have hname := byteSize_text_le header.name
  rw [headerSizeStrictly, Size.add_of_lt (by unfold Size.limit; omega), Except.ok_bind,
    Size.add_of_lt (by unfold Size.limit; omega), Except.ok_bind,
    Size.add_of_lt (by unfold Size.limit; omega)]
  rfl

end StreamHeader

namespace MetadataRoot

def readStreamsStrictly (data : Bytes) :
    (left offset : Nat) → (seen : List StreamHeader) → Except Fault (List StreamHeader)
  | 0, _, seen => .ok seen.reverse
  | left + 1, offset, seen => do
      demand (offset ≤ data.size) .outOfBounds
      let header ← StreamHeader.ofDataStrictly (← data.rest offset)
      demandInside header data.size
      demand (seen.all (·.name ≠ header.name))
        (.malformed (.duplicateStream header.name.text))
      let size ← header.headerSizeStrictly
      let next ← Size.add offset size
      readStreamsStrictly data left next (header :: seen)

def ofDataStrictly (data : Bytes) : Except Fault MetadataRoot := do
  demand (36 ≤ data.size) .outOfBounds
  let signature ← (Scan.u32Strictly data).valueAt 0
  demand (signature = magic) (.malformed (.metadataSignature signature))
  let versionLength ← (Scan.u32Strictly data).valueAt 12
  let versionEnd ← Size.add 16 versionLength.toNat
  let streamsStart ← Size.add versionEnd 4
  demand (streamsStart ≤ data.size) .outOfBounds
  let version := versionText (← data.cut 16 versionEnd)
  let flags ← (Scan.u16Strictly data).valueAt versionEnd
  let streamCount ← (Scan.u16Strictly data).valueAt (versionEnd + 2)
  let least ← Size.mul streamCount.toNat shortestHeader
  demand (streamCount ≠ 0 ∧ least ≤ data.size) (.malformed (.streamCount streamCount.toNat))
  let streams ← readStreamsStrictly data streamCount.toNat streamsStart []
  let major ← (Scan.u16Strictly data).valueInside data 4
  let minor ← (Scan.u16Strictly data).valueInside data 6
  let reserved ← (Scan.u32Strictly data).valueInside data 8
  pure { signature, major, minor, reserved, versionLength, version, flags, streamCount, streams }

variable {data : Bytes}

theorem safe_demandInside (header : StreamHeader) (size : Nat) :
    Safe (demandInside header size) (demandInside header size) :=
  Safe.demand_bind rfl fun _ => Safe.demand rfl

theorem safe_readStreams (hsize : data.size + 20 < Size.limit) (left offset : Nat)
    (seen : List StreamHeader) :
    Safe (readStreamsStrictly data left offset seen)
      (readStreams data data.size left offset seen) := by
  induction left generalizing offset seen with
  | zero => exact Safe.ok _
  | succ left ih =>
      refine Safe.demand_bind rfl fun hinside => ?_
      have hrest := Bytes.rest_of_le hinside
      rw [hrest, Except.ok_bind, Except.ok_bind]
      have hpart : (data.extract offset data.size).size < Size.limit := by
        rw [Array.size_extract]
        omega
      refine (StreamHeader.safe_ofData hpart).bind fun header _ => ?_
      refine (safe_demandInside header _).bind fun _ _ => ?_
      refine Safe.demand_bind rfl fun _ => ?_
      refine Safe.step header.headerSizeStrictly_eq ?_
      have hstep := header.headerSize_le
      refine Safe.step (Size.add_of_lt ?_) (ih _ _)
      omega

theorem safe_ofData (hsize : data.size + 20 < Size.limit) :
    Safe (ofDataStrictly data) (ofData data) := by
  have hbytes : data.size < Size.limit := by omega
  have hword := Scan.safe_u32 hbytes
  have hhalf := Scan.safe_u16 hbytes
  refine Safe.demand_bind rfl fun hlong => hword.valueAt.bind fun signature _ => ?_
  refine Safe.demand_bind rfl fun _ => hword.valueAt.bind fun versionLength _ => ?_
  have hlength := versionLength.toNat_lt
  refine Safe.step (Size.add_of_lt (by unfold Size.limit; omega)) ?_
  refine Safe.step (Size.add_of_lt (by unfold Size.limit; omega)) ?_
  refine Safe.demand_bind rfl fun hroom => ?_
  rw [Bytes.cut_of_le (by omega) (by omega), Except.ok_bind, Except.ok_bind]
  refine hhalf.valueAt.bind fun flags _ => hhalf.valueAt.bind fun streamCount _ => ?_
  have hcount := streamCount.toNat_lt
  refine Safe.step (Size.mul_of_lt (by unfold shortestHeader Size.limit; omega)) ?_
  refine Safe.demand_bind rfl fun _ => ?_
  exact (safe_readStreams hsize _ _ _).bind fun _ _ =>
    (hhalf.valueInside (by omega)).bind fun _ _ =>
    (hhalf.valueInside (by omega)).bind fun _ _ =>
    (hword.valueInside (by omega)).bind fun _ _ => Safe.pure _

end MetadataRoot

namespace StringHeap

def ofDataStrictly (data : Bytes) : Except Fault StringHeap :=
  if data.size = 0 then
    .error (.malformed .stringHeap)
  else do
    let first ← itemAt data 0
    if first = 0 then pure ⟨data⟩ else .error (.malformed .stringHeap)

def getStrictly (heap : StringHeap) (index : Nat) : Except Fault String :=
  if index < heap.data.size then do
    let rest ← heap.data.rest index
    match (untilZero rest 0 []).bind Utf8.decode? with
    | some text => .ok text
    | none => .error (.malformed (.stringAt index))
  else
    .error .outOfBounds

theorem safe_ofData (data : Bytes) : Safe (ofDataStrictly data) (ofData data) := by
  unfold ofDataStrictly ofData
  by_cases hempty : data.size = 0
  · have hnone : (data[0]? : Option UInt8) = none := by simp [hempty]
    rw [if_pos hempty, hnone, if_neg nofun]
    exact Safe.error rfl
  · have hfirst : 0 < data.size := Nat.pos_of_ne_zero hempty
    rw [if_neg hempty, Array.getElem?_eq_getElem hfirst]
    refine Safe.step (itemAt_of_lt hfirst) ?_
    simp only [Option.some.injEq]
    exact Safe.ite (fun _ => Safe.ok _) fun _ => Safe.error rfl

/-- What follows up to the next zero byte is the same from the part of the data
that starts there. -/
theorem untilZero_extract {data : Bytes} {start offset : Nat} (seen : List UInt8)
    (hstart : start ≤ data.size) :
    untilZero (data.extract start data.size) offset seen = untilZero data (start + offset) seen := by
  fun_induction untilZero (data.extract start data.size) offset seen with
  | case1 offset seen inside hzero =>
      rw [Array.size_extract] at inside
      rw [Array.getElem_extract] at hzero
      rw [untilZero, dif_pos (by omega), if_pos hzero]
  | case2 offset seen inside hother ih =>
      rw [Array.size_extract] at inside
      rw [ih, Array.getElem_extract]
      rw [Array.getElem_extract] at hother
      rw [untilZero.eq_def data (start + offset), dif_pos (by omega), if_neg hother,
        Nat.add_assoc]
  | case3 offset seen outside =>
      rw [Array.size_extract] at outside
      rw [untilZero, dif_neg (by omega)]

theorem safe_get (heap : StringHeap) (index : Nat) :
    Safe (heap.getStrictly index) (heap.get index) := by
  refine Safe.ite (fun hinside => ?_) fun _ => Safe.error rfl
  refine Safe.step (Bytes.rest_of_le (Nat.le_of_lt hinside)) ?_
  rw [untilZero_extract [] (Nat.le_of_lt hinside)]
  cases (untilZero heap.data index []).bind Utf8.decode? with
  | none => exact Safe.error rfl
  | some text => exact Safe.ok text

end StringHeap

namespace GuidHeap

def getStrictly (heap : GuidHeap) (index : Nat) : Except Fault Guid := do
  demand (1 ≤ index) .outOfBounds
  let stop ← Size.mul index 16
  demand (stop ≤ heap.data.size) .outOfBounds
  let before ← Size.sub index 1
  let start ← Size.mul before 16
  let stop ← Size.add start 16
  pure ⟨← heap.data.cut start stop⟩

theorem safe_ofData (data : Bytes) : Safe (ofData data) (ofData data) := by
  unfold ofData
  exact Safe.ite (fun _ => Safe.error rfl) fun _ => Safe.ok _

/-- Every index that a column holds is small enough for the product. -/
theorem safe_get (heap : GuidHeap) {index : Nat} (hindex : index < wordLimit) :
    Safe (heap.getStrictly index) (heap.get index) := by
  unfold wordLimit at hindex
  refine Safe.demand_bind rfl fun hfirst => ?_
  have hstop : Size.mul index 16 = .ok (index * 16) :=
    Size.mul_of_lt (by unfold Size.limit; omega)
  rw [hstop, Except.ok_bind, Except.ok_bind]
  refine Safe.demand_bind rfl fun hroom => ?_
  refine Safe.step (Size.sub_of_le hfirst) ?_
  refine Safe.step (Size.mul_of_lt (by unfold Size.limit; omega)) ?_
  refine Safe.step (Size.add_of_lt (by unfold Size.limit; omega)) ?_
  rw [Bytes.cut_of_le (by omega) (by omega)]
  exact Safe.ok _

end GuidHeap

end Unveil
