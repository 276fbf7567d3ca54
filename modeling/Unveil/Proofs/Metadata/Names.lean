import Mathlib.Tactic.SplitIfs
import Unveil.Proofs.Metadata.Root
import Unveil.Proofs.Safety.Reading

namespace Unveil

namespace Utf8

theorem toNat_ofNat {code : Nat} (h : code < 0xD800) : (Char.ofNat code).toNat = code := by
  have hvalid : code.isValidChar := Or.inl h
  rw [Char.ofNat, dif_pos hvalid]
  rfl

/-- A code point that is none counts as zero. -/
theorem toNat_ofNat_of_le {code : Nat} (h : 0x80 ≤ code) :
    (Char.ofNat code).toNat = 0 ∨ 0x80 ≤ (Char.ofNat code).toNat := by
  by_cases hvalid : code.isValidChar
  · right
    rw [Char.ofNat, dif_pos hvalid]
    exact h
  · left
    rw [Char.ofNat, dif_neg hvalid]
    rfl

theorem next_of_lt {lead : UInt8} {rest : List UInt8} (h : lead.toNat < 0x80) :
    next lead rest = (some (Char.ofNat lead.toNat), rest) := by
  simp only [next, continuations?, leadBits, h, ↓reduceIte, follow]

/-- Every byte behind the first one adds six bits. -/
theorem follow_eq_some {value : Nat} {ranges : List (Nat × Nat)} {bytes : List UInt8} {char : Char}
    (h : (follow value ranges bytes).1 = some char) :
    ∃ code, char = Char.ofNat code ∧ value * 64 ^ ranges.length ≤ code := by
  induction ranges generalizing value bytes with
  | nil => exact ⟨value, (Option.some.inj h).symm, by rw [List.length_nil]; omega⟩
  | cons range ranges ih =>
      cases bytes with
      | nil => cases h
      | cons byte rest =>
          obtain ⟨low, high⟩ := range
          rw [follow] at h
          split at h
          · obtain ⟨code, hchar, hcode⟩ := ih h
            refine ⟨code, hchar, Nat.le_trans ?_ hcode⟩
            rw [List.length_cons, Nat.pow_succ, ← Nat.mul_assoc, Nat.mul_right_comm]
            exact Nat.mul_le_mul_right _ (Nat.le_add_right ..)
          · cases h

/-- The bits of the first two bytes of a sequence alone make a code point past the
first 128: where the leading byte has none, the range behind it is narrower. -/
theorem continuations?_eq_some {lead : Nat} {ranges : List (Nat × Nat)} (hlead : 0x80 ≤ lead)
    (h : continuations? lead = some ranges) :
    ∃ low high others, ranges = (low, high) :: others ∧ 0x80 ≤ low ∧ high ≤ 0xBF ∧
      0x80 ≤ (leadBits lead * 64 + (low - 0x80)) * 64 ^ others.length := by
  unfold continuations? at h
  rw [if_neg (by omega)] at h
  split_ifs at h with _ _ hE0 hED _ hF0 _ hF4
  all_goals
    obtain rfl := Option.some.inj h
    refine ⟨_, _, _, rfl, by decide, by decide, ?_⟩
    unfold leadBits
    simp only [List.length_cons, List.length_nil]
    split_ifs <;> omega

/-- A byte past the first 128 begins no character of theirs. -/
theorem next_of_le {lead : UInt8} {rest : List UInt8} {char : Char} (hlead : 0x80 ≤ lead.toNat)
    (h : (next lead rest).1 = some char) : char.toNat = 0 ∨ 0x80 ≤ char.toNat := by
  unfold next at h
  split at h
  · rename_i ranges hranges
    obtain ⟨low, high, others, rfl, hlow, hhigh, hbits⟩ := continuations?_eq_some hlead hranges
    cases rest with
    | nil => cases h
    | cons byte rest =>
        rw [follow] at h
        split at h
        · obtain ⟨code, rfl, hcode⟩ := follow_eq_some h
          apply toNat_ofNat_of_le
          refine Nat.le_trans hbits (Nat.le_trans (Nat.mul_le_mul_right _ ?_) hcode)
          omega
        · cases h
  · cases h

/-- Nor is it replaced by one where nothing can be read. -/
theorem replaced_of_le {lead : UInt8} (rest : List UInt8) (hlead : 0x80 ≤ lead.toNat) :
    ((next lead rest).1.getD '\uFFFD').toNat = 0 ∨
      0x80 ≤ ((next lead rest).1.getD '\uFFFD').toNat := by
  cases hnext : (next lead rest).1 with
  | none => exact Or.inr (by decide)
  | some char => exact next_of_le hlead hnext

/-- Bytes that are read as characters of the first 128 are those characters. -/
theorem characters_eq_map {bytes : List UInt8} {chars : List Char}
    (hplain : ∀ char ∈ chars, 0 < char.toNat ∧ char.toNat < 0x80) :
    (characters bytes).map (·.getD '\uFFFD') = chars ↔
      bytes = chars.map fun char => UInt8.ofNat char.toNat := by
  induction chars generalizing bytes with
  | nil =>
      rw [List.map_eq_nil_iff, List.map_nil]
      cases bytes with
      | nil => simp [characters]
      | cons lead rest => simp [characters]
  | cons char chars ih =>
      obtain ⟨hpositive, hsmall⟩ := hplain char (List.mem_cons_self ..)
      have hothers (rest : List UInt8) :
          (characters rest).map (·.getD '\uFFFD') = chars ↔
            rest = chars.map fun other => UInt8.ofNat other.toNat :=
        ih fun other hother => hplain other (List.mem_cons_of_mem _ hother)
      cases bytes with
      | nil => simp [characters]
      | cons lead rest =>
          rw [characters, List.map_cons, List.map_cons, List.cons.injEq, List.cons.injEq]
          by_cases hlead : lead.toNat < 0x80
          · have hfirst : Char.ofNat lead.toNat = char ↔ lead = UInt8.ofNat char.toNat := by
              rw [← Char.toNat_inj, ← UInt8.toNat_inj, toNat_ofNat (by omega),
                UInt8.toNat_ofNat', Nat.mod_eq_of_lt (by omega)]
            rw [next_of_lt hlead, Option.getD_some, hfirst, hothers]
          · -- Such a byte is neither read as the character nor what spells it.
            have hwide := replaced_of_le rest (Nat.le_of_not_lt hlead)
            have hnever : ¬ ((next lead rest).1.getD '\uFFFD' = char) := by
              intro hchar
              rw [hchar] at hwide
              omega
            have hlarge : ¬ (lead = UInt8.ofNat char.toNat) := by
              rintro rfl
              rw [UInt8.toNat_ofNat', Nat.mod_eq_of_lt (by omega)] at hlead
              omega
            simp only [hnever, hlarge, false_and]

end Utf8

namespace StreamName

/-- The bytes of a name, one for each character. -/
def bytes (name : StreamName) : List UInt8 :=
  name.text.toList.map fun char => UInt8.ofNat char.toNat

theorem length_bytes (name : StreamName) : name.bytes.length = name.text.utf8ByteSize := by
  cases name <;> decide

theorem plain_text (name : StreamName) :
    ∀ char ∈ name.text.toList, 0 < char.toNat ∧ char.toNat < 0x80 := by
  cases name <;> simp [text]

theorem zero_notMem_bytes (name : StreamName) : 0 ∉ name.bytes := by
  intro hmem
  obtain ⟨char, hchar, hzero⟩ := List.mem_map.mp hmem
  obtain ⟨hpositive, hsmall⟩ := name.plain_text char hchar
  have hnumber := congrArg UInt8.toNat hzero
  rw [UInt8.toNat_ofNat', Nat.mod_eq_of_lt (by omega)] at hnumber
  exact absurd hnumber (Nat.ne_of_gt hpositive)

theorem ofText?_eq_some {text : String} {name : StreamName} :
    ofText? text = some name ↔ text = name.text := by
  constructor
  · intro h
    unfold ofText? at h
    have hfound := List.find?_some h
    exact (beq_iff_eq.mp hfound).symm
  · rintro rfl
    cases name <;> decide

theorem text_injective {name other : StreamName} (h : name.text = other.text) : name = other :=
  Option.some.inj ((ofText?_eq_some.mpr rfl).symm.trans (ofText?_eq_some.mpr h))

/-- The bytes that are read as a name are its own. -/
theorem ofText?_decodeLossy {part : List UInt8} {name : StreamName} :
    ofText? (Utf8.decodeLossy part) = some name ↔ part = name.bytes := by
  rw [ofText?_eq_some, Utf8.decodeLossy, bytes, ← Utf8.characters_eq_map name.plain_text,
    ← String.toList_inj, String.toList_ofList]

end StreamName

namespace StreamHeader

/-- A header as it is laid out: where the stream starts, how long it is, and its
name with a zero byte. -/
def core (header : StreamHeader) : List UInt8 :=
  Bytes.spell 4 header.offset.toNat ++ (Bytes.spell 4 header.size.toNat ++
    (header.name.bytes ++ [0]))

/-- A header with the zero bytes that fill its name up to a multiple of four. -/
def layout (header : StreamHeader) : List UInt8 :=
  header.core ++ List.replicate ((4 - (header.name.bytes.length + 1) % 4) % 4) 0

variable {data : Bytes} {header : StreamHeader}

theorem length_core (header : StreamHeader) :
    header.core.length = 8 + header.name.bytes.length + 1 := by
  simp only [core, List.length_append, Bytes.length_spell, List.length_singleton]
  omega

theorem length_layout (header : StreamHeader) : header.layout.length = header.headerSize := by
  rw [layout, List.length_append, List.length_replicate, length_core, headerSize,
    ← StreamName.length_bytes]
  omega

theorem core_prefix_layout (header : StreamHeader) : header.core <+: header.layout :=
  List.prefix_append ..

/-- What stands in front of the first zero byte. -/
theorem idxOf?_zero {bytes part : List UInt8} :
    (∃ length, bytes.idxOf? 0 = some length ∧ bytes.take length = part) ↔
      0 ∉ part ∧ part ++ [0] <+: bytes := by
  constructor
  · rintro ⟨length, hindex, rfl⟩
    obtain ⟨hlength, hzero, hbefore⟩ := List.idxOf?_eq_some_iff.mp hindex
    constructor
    · intro hmem
      obtain ⟨place, hplace, hbyte⟩ := List.mem_iff_getElem.mp hmem
      rw [List.length_take] at hplace
      rw [List.getElem_take] at hbyte
      exact hbefore place (by omega) hbyte
    · rw [← hzero, List.take_append_getElem hlength]
      exact List.take_prefix ..
  · rintro ⟨hpart, rest, rfl⟩
    refine ⟨part.length, ?_, by rw [List.append_assoc, List.take_left' rfl]⟩
    rw [List.idxOf?_eq_some_iff]
    refine ⟨by simp, by simp, fun place hplace hbyte => hpart ?_⟩
    rw [List.getElem_append_left (by rw [List.length_append]; omega),
      List.getElem_append_left hplace] at hbyte
    exact hbyte ▸ List.getElem_mem hplace

/-- The bytes in which a name is looked for are those behind the two words. -/
theorem nameField_eq (data : Bytes) : nameField data = (data.toList.drop 8).take nameReach := by
  rw [nameField, Array.toList_extract, List.extract_eq_take_drop, ← Array.length_toList,
    List.take_eq_take_iff, List.length_drop]
  omega

theorem core_prefix_iff :
    header.core <+: data.toList ↔
      8 ≤ data.size ∧ data.number 0 4 = header.offset.toNat ∧
        data.number 4 4 = header.size.toNat ∧ header.name.bytes ++ [0] <+: data.toList.drop 8 := by
  constructor
  · rintro ⟨rest, hdata⟩
    have hstart : data.toList.drop 0 = Bytes.spell 4 header.offset.toNat ++
        (Bytes.spell 4 header.size.toNat ++ (header.name.bytes ++ [0] ++ rest)) := by
      rw [List.drop_zero, ← hdata, core, List.append_assoc, List.append_assoc]
    have hlong : 8 ≤ data.size := by
      have hlength := congrArg List.length hdata
      have hsize : data.toList.length = data.size := Array.length_toList
      rw [List.length_append, length_core] at hlength
      omega
    obtain ⟨hoffset, hbehind⟩ := Bytes.number_of_drop header.offset.toNat_lt hstart
    obtain ⟨hsize, hname⟩ := Bytes.number_of_drop header.size.toNat_lt hbehind
    exact ⟨hlong, hoffset, hsize, rest, hname.symm⟩
  · rintro ⟨hlong, hoffset, hsize, rest, hname⟩
    have hfirst := Bytes.drop_eq_spell (show 0 + 4 ≤ data.size by omega)
    have hsecond := Bytes.drop_eq_spell (show 0 + 4 + 4 ≤ data.size by omega)
    refine ⟨rest, ?_⟩
    rw [core, List.append_assoc, List.append_assoc, hname, ← hoffset, ← hsize]
    exact (hfirst.trans (congrArg _ hsecond)).symm

/-- A header is read exactly where it stands. -/
theorem ofData_eq_ok : ofData data = .ok header ↔ header.core <+: data.toList := by
  have hreach : (header.name.bytes ++ [0]).length ≤ nameReach := by
    have hname := byteSize_text_le header.name
    rw [List.length_append, List.length_singleton, StreamName.length_bytes, nameReach]
    omega
  by_cases hroom : 9 ≤ data.size
  · have hname : header.name.bytes ++ [0] <+: data.toList.drop 8 ↔
        ∃ length, (nameField data).idxOf? 0 = some length ∧
          (nameField data).take length = header.name.bytes := by
      rw [idxOf?_zero, nameField_eq, List.prefix_take_iff]
      exact ⟨fun h => ⟨header.name.zero_notMem_bytes, h, hreach⟩, fun h => h.2.1⟩
    rw [ofData_of_room hroom, core_prefix_iff, hname]
    cases (nameField data).idxOf? 0 with
    | none => simp only [reduceCtorEq, false_and, exists_false, and_false]
    | some length =>
        simp only [Option.some.injEq, exists_eq_left', ← StreamName.ofText?_decodeLossy]
        cases StreamName.ofText? (Utf8.decodeLossy ((nameField data).take length)) with
        | none => simp only [reduceCtorEq, and_false]
        | some name =>
            constructor
            · rintro ⟨rfl⟩
              exact ⟨by omega, (Bytes.toNat_ofNat_number data 0 (Nat.le_refl 4)).symm,
                (Bytes.toNat_ofNat_number data 4 (Nat.le_refl 4)).symm, rfl⟩
            · rintro ⟨-, hoffset, hsize, ⟨rfl⟩⟩
              simp only [hoffset, hsize, UInt32.ofNat_toNat]
  · have hshort : ¬ header.core <+: data.toList := by
      intro hprefix
      have hlength := hprefix.length_le
      have hsize : data.toList.length = data.size := Array.length_toList
      rw [length_core] at hlength
      omega
    rw [ofData, demand_bind_of_not hroom]
    constructor
    · intro h
      cases h
    · intro h
      exact absurd h hshort

end StreamHeader

end Unveil
