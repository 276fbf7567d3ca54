import Unveil.Metadata.Root
import Unveil.Proofs.Image.Interpretation
import Unveil.Proofs.Table.Header

namespace Unveil

variable {data data' : Bytes}

theorem Scan.valueAt_number {α : Type} {f : Nat → α} {start width : Nat} {value : α} :
    (f <$> number data width).valueAt start = .ok value ↔
      start + width ≤ data.size ∧ f (data.number start width) = value := by
  simp only [valueAt_eq_ok, EStateM.map_eq_ok, number_eq_ok]
  constructor
  · rintro ⟨_, _, ⟨hroom, rfl, -⟩, hvalue⟩
    exact ⟨hroom, hvalue⟩
  · rintro ⟨hroom, hvalue⟩
    exact ⟨_, _, ⟨hroom, rfl, rfl⟩, hvalue⟩

namespace StreamHeader

/-- The bytes of a stream header: two words, and a name up to its zero byte. -/
def Interprets (data : Bytes) (i : Nat) : Prop :=
  ∀ j, 8 ≤ j → j < i → data.getD j 0 ≠ 0

/-- A text is found up to its first zero byte, whatever stands behind that. -/
theorem idxOf?_congr {name name' : List UInt8}
    (h : ∀ j : Nat, (∀ k : Nat, k < j → name[k]? ≠ some 0) → name'[j]? = name[j]?) :
    name'.idxOf? 0 = name.idxOf? 0 ∧
      ∀ length, name.idxOf? 0 = some length → name'.take length = name.take length := by
  induction name generalizing name' with
  | nil =>
      have hfirst := h 0 (by simp)
      obtain rfl : name' = [] := by simpa using hfirst
      exact ⟨rfl, fun _ _ => rfl⟩
  | cons byte name ih =>
      obtain ⟨others, rfl⟩ : ∃ others, name' = byte :: others := by
        have hfirst := h 0 (by simp)
        cases name' with
        | nil => simp at hfirst
        | cons first others =>
            obtain rfl : first = byte := by simpa using hfirst
            exact ⟨others, rfl⟩
      by_cases hzero : byte = 0
      · subst hzero
        refine ⟨by simp [List.idxOf?_cons], fun length hlength => ?_⟩
        obtain rfl : 0 = length := by simpa [List.idxOf?_cons] using hlength
        rfl
      · have hbehind (j : Nat) (hj : ∀ k, k < j → name[k]? ≠ some 0) :
            others[j]? = name[j]? := by
          refine h (j + 1) fun k hk => ?_
          cases k with
          | zero => simpa using hzero
          | succ k => simpa using hj k (by omega)
        obtain ⟨hindex, htake⟩ := ih hbehind
        have hskip (rest : List UInt8) :
            (byte :: rest).idxOf? 0 = (rest.idxOf? 0).map (· + 1) := by
          rw [List.idxOf?_cons, if_neg (by simpa using hzero)]
        refine ⟨by rw [hskip, hskip, hindex], fun length hlength => ?_⟩
        rw [hskip, Option.map_eq_some_iff] at hlength
        obtain ⟨rest, hrest, rfl⟩ := hlength
        rw [List.take_succ_cons, List.take_succ_cons, htake rest hrest]

/-- The bytes in which a name is looked for. -/
def nameField (data : Bytes) : List UInt8 :=
  (data.extract 8 (min data.size (8 + nameReach))).toList

theorem getElem?_nameField (j : Nat) :
    (nameField data)[j]? =
      if 8 + j < min data.size (8 + nameReach) then some (data.getD (8 + j) 0) else none := by
  rw [nameField, Array.getElem?_toList, Array.getElem?_extract, Array.getD_eq_getD_getElem?]
  split
  · rw [if_pos (by omega), Array.getElem?_eq_getElem (by omega), Option.getD_some]
  · rw [if_neg (by omega)]

/-- With room for two words and a name, only the name can be at fault. -/
theorem ofData_of_room (hroom : 9 ≤ data.size) :
    ofData data =
      match (nameField data).idxOf? 0 with
      | none => .error (.malformed .unterminatedStreamName)
      | some length =>
        match StreamName.ofText? (Utf8.decodeLossy ((nameField data).take length)) with
        | none => .error (.malformed (.unknownStream
            (Utf8.decodeLossy ((nameField data).take length))))
        | some name => .ok ⟨.ofNat (data.number 0 4), .ofNat (data.number 4 4), name⟩ := by
  have hcut : data.cut 8 (min data.size (8 + nameReach)) =
      .ok (data.extract 8 (min data.size (8 + nameReach))) := by
    rw [Bytes.cut, if_pos (by omega)]
  have hoffset : (Scan.u32 data).valueAt 0 = .ok (.ofNat (data.number 0 4)) :=
    Scan.valueAt_eq_ok.mpr ⟨4, Scan.u32_eq_ok.mpr ⟨by omega, rfl, rfl⟩⟩
  have hlength : (Scan.u32 data).valueInside data 4 = .ok (.ofNat (data.number 4 4)) :=
    Scan.valueInside_number.mpr ⟨by omega, rfl⟩
  have hname : (data.extract 8 (min data.size (8 + nameReach))).toList = nameField data := rfl
  rw [ofData, demand, if_pos hroom, Except.ok_bind, hcut, Except.ok_bind, hname, hoffset, hlength]
  cases (nameField data).idxOf? 0 with
  | none => rfl
  | some length =>
      cases StreamName.ofText? (Utf8.decodeLossy ((nameField data).take length)) with
      | none => rfl
      | some name => rfl

theorem ofData_congr (hsize : data'.size = data.size)
    (hagree : ∀ i, Interprets data i → data'.getD i 0 = data.getD i 0) :
    ofData data' = ofData data := by
  by_cases hroom : 9 ≤ data.size
  · have hword (start : Nat) (hstart : start + 4 ≤ 8) :
        data'.number start 4 = data.number start 4 :=
      Bytes.number_congr fun i _ hi => hagree i fun j hlow hhigh => by omega
    have hname (j : Nat) (hj : ∀ k : Nat, k < j → (nameField data)[k]? ≠ some 0) :
        (nameField data')[j]? = (nameField data)[j]? := by
      rw [getElem?_nameField, getElem?_nameField, hsize]
      split
      · refine congrArg some (hagree _ fun i hlow hhigh => ?_)
        obtain ⟨k, rfl⟩ := Nat.exists_eq_add_of_le hlow
        have hopen := hj k (by omega)
        rw [getElem?_nameField, if_pos (by omega)] at hopen
        exact fun hzero => hopen (congrArg some hzero)
      · rfl
    obtain ⟨hindex, htake⟩ := idxOf?_congr hname
    rw [ofData_of_room hroom, ofData_of_room (hsize ▸ hroom), hindex, hword 0 (by omega),
      hword 4 (by omega)]
    cases hlength : (nameField data).idxOf? 0 with
    | none => rfl
    | some length => simp only [htake length hlength]
  · simp only [ofData, demand, hsize, hroom, ↓reduceIte]
    rfl

end StreamHeader

namespace MetadataRoot

/-- The stream headers that a directory lists: where each starts. -/
inductive HeaderAt (data : Bytes) : (left offset entry : Nat) → Prop
  | here {left offset : Nat} : HeaderAt data (left + 1) offset offset
  | later {left offset entry : Nat} {header : StreamHeader}
      (hheader : StreamHeader.ofData (data.extract offset data.size) = .ok header)
      (hentry : HeaderAt data left (offset + header.headerSize) entry) :
      HeaderAt data (left + 1) offset entry

/-- Where the fixed part in front of the directory ends. -/
def directoryAt (data : Bytes) : Nat := 16 + (UInt32.ofNat (data.number 12 4)).toNat + 4

/-- How many streams there are. -/
def countOf (data : Bytes) : Nat :=
  (UInt16.ofNat (data.number (directoryAt data - 2) 2)).toNat

/-- The bytes whose values matter when a metadata root is read. -/
inductive Interprets (data : Bytes) : Nat → Prop
  | front {i : Nat} (hi : i < directoryAt data) : Interprets data i
  | header {entry k : Nat} (hentry : HeaderAt data (countOf data) (directoryAt data) entry)
      (hk : StreamHeader.Interprets (data.extract entry data.size) k) :
      Interprets data (entry + k)

theorem readStreams_congr {left offset : Nat} {seen : List StreamHeader}
    (hsize : data'.size = data.size)
    (hagree : ∀ entry k, HeaderAt data left offset entry →
      StreamHeader.Interprets (data.extract entry data.size) k →
      data'.getD (entry + k) 0 = data.getD (entry + k) 0) :
    readStreams data' data.size left offset seen = readStreams data data.size left offset seen := by
  induction left generalizing offset seen with
  | zero => rfl
  | succ left ih =>
      by_cases hroom : offset ≤ data.size
      · have hrest (bytes : Bytes) (h : bytes.size = data.size) :
            bytes.rest offset = .ok (bytes.extract offset data.size) :=
          Bytes.rest_eq_ok.mpr ⟨h ▸ hroom, by rw [h]⟩
        have hheader : StreamHeader.ofData (data'.extract offset data.size) =
            StreamHeader.ofData (data.extract offset data.size) := by
          refine StreamHeader.ofData_congr (by simp only [Array.size_extract, hsize]) ?_
          intro k hk
          by_cases hinside : k < data.size - offset
          · rw [Bytes.getD_extract (by omega) hinside, Bytes.getD_extract (Nat.le_refl _) hinside]
            exact hagree offset k .here hk
          · rw [Bytes.getD_of_size_le (by rw [Array.size_extract]; omega),
              Bytes.getD_of_size_le (by rw [Array.size_extract]; omega)]
        simp only [readStreams, hrest data' hsize, hrest data rfl]
        refine bind_congr fun _ => ?_
        simp only [bind, Except.bind, hheader]
        cases hfound : StreamHeader.ofData (data.extract offset data.size) with
        | error fault => rfl
        | ok header =>
            have hothers (seen : List StreamHeader) :
                readStreams data' data.size left (offset + header.headerSize) seen =
                  readStreams data data.size left (offset + header.headerSize) seen :=
              ih fun entry k hentry => hagree entry k (.later hfound hentry)
            simp only [hothers]
      · simp only [readStreams, demand, hroom, ↓reduceIte]
        rfl

/-- The root is read of other bytes as long as those that matter stay. -/
theorem ofData_of_agree {root : MetadataRoot} (h : ofData data = .ok root)
    (hsize : data'.size = data.size)
    (hagree : ∀ i, Interprets data i → data'.getD i 0 = data.getD i 0) :
    ofData data' = .ok root := by
  have hfront : Bytes.Agree data' data 0 (directoryAt data) := fun i _ hi => hagree i (.front hi)
  have hnumber {start width : Nat} (hroom : start + width ≤ directoryAt data) :
      data'.number start width = data.number start width :=
    Bytes.number_congr (hfront.mono (Nat.zero_le _) hroom)
  have hend : directoryAt data = 16 + (UInt32.ofNat (data.number 12 4)).toNat + 4 := rfl
  simp only [ofData, ofFront, Except.bind_eq_ok, demand_eq_ok, Scan.u32, Scan.u16, Scan.exists_valueInside,
    Except.pure_eq_ok] at h ⊢
  simp only [Scan.valueAt_number] at h ⊢
  obtain ⟨_, hroom, _, ⟨hsignatureRoom, rfl⟩, _, hmagic, _, ⟨hlengthRoom, rfl⟩, _, hversionRoom,
    version, hversion, _, ⟨hflagsRoom, rfl⟩, _, ⟨hcountRoom, rfl⟩, _, hcount, streams, hstreams,
    hmajorRoom, hminorRoom, hreservedRoom, rfl⟩ := h
  have hcut : data'.cut 16 (16 + (UInt32.ofNat (data.number 12 4)).toNat) = .ok version := by
    rw [Bytes.cut_congr hsize (hfront.mono (Nat.zero_le _) (by omega))]
    exact hversion
  have hread : readStreams data' data.size (countOf data) (directoryAt data) [] =
      .ok streams := by
    rw [readStreams_congr hsize fun entry k hentry hk => hagree _ (.header hentry hk)]
    exact hstreams
  rw [hsize, hnumber (by omega), hnumber (by omega), hnumber (by omega), hnumber (by omega),
    hnumber (by omega)]
  refine ⟨(), hroom, _, ⟨hsignatureRoom, rfl⟩, (), hmagic, _, ⟨hlengthRoom, rfl⟩, (),
    hversionRoom, version, hcut, _, ⟨hflagsRoom, ?_⟩, _, ⟨hcountRoom, ?_⟩, (), hcount,
    streams, hread, hmajorRoom, hminorRoom, hreservedRoom, rfl⟩
  · rw [hnumber (by omega)]
  · rw [hnumber (by omega)]

end MetadataRoot

end Unveil
