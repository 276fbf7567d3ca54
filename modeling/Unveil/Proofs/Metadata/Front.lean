import Unveil.Proofs.Metadata.Directory

/-!
How much of the metadata its root takes. The names of streams are known and no
two are the same, so only so many headers are looked at, and the root is read
from the bytes in front of the streams once the size of the metadata is known.
-/

namespace Unveil

namespace Bytes

variable {data : Bytes} {n start width stop : Nat}

/-- The first bytes. -/
def front (data : Bytes) (n : Nat) : Bytes := data.extract 0 n

theorem size_front : (data.front n).size = min n data.size := by
  rw [front, Array.size_extract, Nat.sub_zero]

theorem getD_front {i : Nat} (hi : i < n) : (data.front n).getD i 0 = data.getD i 0 := by
  rw [front, Array.getD_eq_getD_getElem?, Array.getD_eq_getD_getElem?, Array.getElem?_extract,
    Nat.zero_add]
  by_cases hinside : i < data.size
  · rw [if_pos (by omega)]
  · rw [if_neg (by omega), Array.getElem?_eq_none (by omega)]

theorem number_front (hroom : start + width ≤ n) :
    (data.front n).number start width = data.number start width :=
  number_congr fun _ _ hi => getD_front (Nat.lt_of_lt_of_le hi hroom)

theorem cut_front (hstop : stop ≤ n) (hinside : stop ≤ data.size) (hstart : start ≤ stop) :
    (data.front n).cut start stop = data.cut start stop := by
  have hroom : stop ≤ (data.front n).size := by rw [size_front]; omega
  rw [cut_of_le hstart hroom, cut_of_le hstart hinside, front, Array.extract_extract, Nat.zero_add,
    Nat.zero_add, Nat.min_eq_left hstop]

/-- What is left of the first bytes are the first of what is left. -/
theorem rest_front (hstart : start ≤ n) (hinside : start ≤ data.size) :
    (data.front n).rest start = .ok (front (data.extract start data.size) (n - start)) := by
  have hroom : start ≤ (data.front n).size := by rw [size_front]; omega
  rw [rest_of_le hroom, size_front, front, front, Array.extract_extract, Array.extract_extract]
  congr 2
  · omega
  · omega

end Bytes

namespace Scan

variable {α : Type} {data : Bytes} {n start width : Nat}

theorem valueAt_front (f : Nat → α) (hroom : start + width ≤ n) (hinside : n ≤ data.size) :
    (f <$> number (data.front n) width).valueAt start = (f <$> number data width).valueAt start := by
  have hsize : (data.front n).size = n := by rw [Bytes.size_front]; omega
  rw [valueAt_number.mpr ⟨by omega, rfl⟩, valueAt_number.mpr ⟨by omega, rfl⟩,
    Bytes.number_front hroom]

theorem valueInside_front (f : Nat → α) (hroom : start + width ≤ n) (hinside : n ≤ data.size) :
    (f <$> number (data.front n) width).valueInside (data.front n) start =
      (f <$> number data width).valueInside data start := by
  have hsize : (data.front n).size = n := by rw [Bytes.size_front]; omega
  rw [valueInside_number.mpr ⟨by omega, rfl⟩, valueInside_number.mpr ⟨by omega, rfl⟩,
    Bytes.number_front hroom]

end Scan

namespace StreamHeader

/-- A header is read from the bytes that a name may reach. -/
theorem ofData_front {data : Bytes} {n : Nat} (h : 8 + nameReach ≤ n) :
    ofData (data.front n) = ofData data := by
  have hreach : nameReach = 32 := rfl
  have hsize : (data.front n).size = min n data.size := Bytes.size_front
  by_cases hroom : 9 ≤ data.size
  · have hname : nameField (data.front n) = nameField data := by
      apply List.ext_getElem?
      intro j
      rw [getElem?_nameField, getElem?_nameField, hsize]
      by_cases hj : 8 + j < min data.size (8 + nameReach)
      · rw [if_pos hj, if_pos (by omega), Bytes.getD_front (by omega)]
      · rw [if_neg hj, if_neg (by omega)]
    rw [ofData_of_room hroom, ofData_of_room (by omega), hname, Bytes.number_front (by omega),
      Bytes.number_front (by omega)]
  · rw [ofData, ofData, demand_bind_of_not hroom, demand_bind_of_not (by omega)]

end StreamHeader

namespace MetadataRoot

theorem nodup_of_unseen {header : StreamHeader} {seen : List StreamHeader}
    (hseen : (seen.map (·.name)).Nodup) (hnew : seen.all (·.name ≠ header.name) = true) :
    ((header :: seen).map (·.name)).Nodup := by
  rw [List.map_cons, List.nodup_cons]
  refine ⟨fun hmem => ?_, hseen⟩
  obtain ⟨before, hbefore, hname⟩ := List.mem_map.mp hmem
  exact of_decide_eq_true (List.all_eq_true.mp hnew before hbefore) hname

/-- A directory is read from its front. Names that were seen are not met again, so
there are six headers to pass and one to read. -/
theorem readStreams_front {data : Bytes} {left offset n : Nat} {seen : List StreamHeader}
    (hseen : (seen.map (·.name)).Nodup)
    (hreach : offset + 20 * (6 - seen.length) + (8 + StreamHeader.nameReach) ≤ n) :
    readStreams (data.front n) data.size left offset seen =
      readStreams data data.size left offset seen := by
  induction left generalizing offset seen with
  | zero => rfl
  | succ left ih =>
      by_cases hinside : offset ≤ data.size
      · have hheader : StreamHeader.ofData
            (Bytes.front (data.extract offset data.size) (n - offset)) =
              StreamHeader.ofData (data.extract offset data.size) :=
          StreamHeader.ofData_front (by omega)
        rw [readStreams, readStreams, demand_bind hinside, demand_bind hinside,
          Bytes.rest_front (by omega) hinside, Bytes.rest_of_le hinside, Except.ok_bind,
          Except.ok_bind, hheader]
        refine bind_congr fun header => bind_congr fun _ => ?_
        by_cases hnew : seen.all (·.name ≠ header.name) = true
        · have hnodup := nodup_of_unseen hseen hnew
          have hcount := length_le_of_nodup hnodup
          have hstep := header.headerSize_le
          rw [demand_bind hnew, demand_bind hnew]
          apply ih hnodup
          rw [List.length_cons] at hcount ⊢
          omega
        · rw [demand_bind_of_not hnew, demand_bind_of_not hnew]
      · rw [readStreams, readStreams, demand_bind_of_not hinside, demand_bind_of_not hinside]

/-- How many bytes of a directory are looked at. -/
def directoryReach : Nat := 20 * 6 + (8 + StreamHeader.nameReach)

/-- The root is read from the bytes in front of the streams, whatever the size of
the metadata. -/
theorem ofFront_front {data : Bytes} {n : Nat} (h : directoryAt data + directoryReach ≤ n) :
    ofFront (data.front n) data.size = ofData data := by
  have hend : directoryAt data = 16 + (UInt32.ofNat (data.number 12 4)).toNat + 4 := rfl
  by_cases hshort : data.size ≤ n
  · rw [ofData, Bytes.front, Array.extract_eq_self_of_le hshort]
  · have hinside : n ≤ data.size := by omega
    have hlength : (Scan.u32 data).valueAt 12 = .ok (UInt32.ofNat (data.number 12 4)) :=
      Scan.valueAt_number.mpr ⟨by omega, rfl⟩
    have hstreams (left : Nat) : readStreams (data.front n) data.size left (directoryAt data) [] =
        readStreams data data.size left (directoryAt data) [] :=
      readStreams_front List.nodup_nil h
    have hword {start : Nat} (hroom : start + 4 ≤ n) :
        (Scan.u32 (data.front n)).valueAt start = (Scan.u32 data).valueAt start :=
      Scan.valueAt_front UInt32.ofNat hroom hinside
    have hhalf {start : Nat} (hroom : start + 2 ≤ n) :
        (Scan.u16 (data.front n)).valueAt start = (Scan.u16 data).valueAt start :=
      Scan.valueAt_front UInt16.ofNat hroom hinside
    have hmajor := Scan.valueInside_front UInt16.ofNat (show 4 + 2 ≤ n by omega) hinside
    have hminor := Scan.valueInside_front UInt16.ofNat (show 6 + 2 ≤ n by omega) hinside
    have hreserved := Scan.valueInside_front UInt32.ofNat (show 8 + 4 ≤ n by omega) hinside
    rw [ofData, ofFront, ofFront, hword (show 0 + 4 ≤ n by omega), hword (show 12 + 4 ≤ n by omega),
      hlength]
    simp only [Except.ok_bind]
    rw [Bytes.cut_front (by omega) (by omega) (by omega), hhalf (by omega), hhalf (by omega)]
    simp only [hend] at hstreams
    simp only [Scan.u16, Scan.u32, hstreams, hmajor, hminor, hreserved]

end MetadataRoot

end Unveil
