import Mathlib.Algebra.Group.Nat.Defs
import Unveil.Bytes.Basic

/-!
Numbers and the bytes that spell them. `Bytes.number` and `Bytes.spell` undo
each other, and a number depends on nothing but the bytes it is read from.
Bytes are looked up with `getD`, as `Bytes.number` does, so that a statement
about a byte needs no proof that there is one.
-/

namespace Unveil.Bytes

/-- Two byte sequences hold the same bytes from `start` up to `stop`. -/
def Agree (a b : Bytes) (start stop : Nat) : Prop :=
  ∀ i, start ≤ i → i < stop → a.getD i 0 = b.getD i 0

theorem Agree.refl (a : Bytes) (start stop : Nat) : Agree a a start stop :=
  fun _ _ _ => rfl

theorem Agree.symm {a b : Bytes} {start stop : Nat} (h : Agree a b start stop) :
    Agree b a start stop :=
  fun i hstart hstop => (h i hstart hstop).symm

theorem Agree.trans {a b c : Bytes} {start stop : Nat} (hab : Agree a b start stop)
    (hbc : Agree b c start stop) : Agree a c start stop :=
  fun i hstart hstop => (hab i hstart hstop).trans (hbc i hstart hstop)

theorem Agree.mono {a b : Bytes} {start stop start' stop' : Nat} (h : Agree a b start stop)
    (hstart : start ≤ start') (hstop : stop' ≤ stop) : Agree a b start' stop' :=
  fun i hi hi' => h i (Nat.le_trans hstart hi) (Nat.lt_of_lt_of_le hi' hstop)

theorem ext_getD {a b : Bytes} (hsize : a.size = b.size)
    (h : ∀ i, i < a.size → a.getD i 0 = b.getD i 0) : a = b := by
  apply Array.ext hsize
  intro i hi hi'
  have hbyte := h i hi
  simpa only [Array.getD_eq_getD_getElem?, Array.getElem?_eq_getElem, hi, hi',
    Option.getD_some] using hbyte

theorem getD_of_size_le {data : Bytes} {i : Nat} (h : data.size ≤ i) : data.getD i 0 = 0 := by
  simp [Array.getD_eq_getD_getElem?, Array.getElem?_eq_none h]

theorem number_lt (data : Bytes) (start width : Nat) :
    data.number start width < 256 ^ width := by
  induction width generalizing start with
  | zero => simp [number]
  | succ width ih =>
      have hbyte : (data.getD start 0).toNat < 256 := (data.getD start 0).toNat_lt
      have hrest := ih (start + 1)
      simp only [number, Nat.pow_succ]
      omega

/-- A number of at most four bytes fits a word. -/
theorem toNat_ofNat_number (data : Bytes) (start : Nat) {width : Nat} (hwidth : width ≤ 4) :
    (UInt32.ofNat (data.number start width)).toNat = data.number start width := by
  have hsmall : 256 ^ width ≤ 256 ^ 4 := Nat.pow_le_pow_right (by omega) hwidth
  rw [UInt32.toNat_ofNat']
  exact Nat.mod_eq_of_lt (Nat.lt_of_lt_of_le (number_lt data start width) hsmall)

theorem number_congr {a b : Bytes} {start width : Nat} (h : Agree a b start (start + width)) :
    a.number start width = b.number start width := by
  induction width generalizing start with
  | zero => rfl
  | succ width ih =>
      have hfirst : a.getD start 0 = b.getD start 0 := h start (by omega) (by omega)
      have hrest : a.number (start + 1) width = b.number (start + 1) width :=
        ih (h.mono (by omega) (by omega))
      simp only [number, hfirst, hrest]

/-- The first byte of a number is its lowest. -/
theorem ofNat_number (data : Bytes) (start width : Nat) :
    UInt8.ofNat (data.number start (width + 1)) = data.getD start 0 := by
  have hbyte : (data.getD start 0).toNat < 256 := (data.getD start 0).toNat_lt
  rw [← UInt8.toNat_inj, UInt8.toNat_ofNat', number]
  omega

/-- The other bytes are those of the number above it. -/
theorem number_div (data : Bytes) (start width : Nat) :
    data.number start (width + 1) / 256 = data.number (start + 1) width := by
  have hbyte : (data.getD start 0).toNat < 256 := (data.getD start 0).toNat_lt
  rw [number]
  omega

/-- The bytes of a number are those that it was read from. -/
theorem spell_number (data : Bytes) (start width : Nat) :
    spell width (data.number start width) =
      (List.range' start width).map fun i => data.getD i 0 := by
  induction width generalizing start with
  | zero => rfl
  | succ width ih =>
      simp only [spell, ofNat_number, number_div, ih, List.range'_succ, List.map_cons]

theorem getD_overwrite_outside {data : Bytes} {start i : Nat} {part : List UInt8}
    (h : i < start ∨ start + part.length ≤ i) :
    (data.overwrite start part).getD i 0 = data.getD i 0 := by
  induction part generalizing data start with
  | nil => rfl
  | cons byte rest ih =>
      simp only [List.length_cons] at h
      rw [overwrite, ih (by omega)]
      simp only [Array.getD_eq_getD_getElem?]
      rw [Array.getElem?_setIfInBounds_ne (by omega)]

theorem getD_overwrite_inside {data : Bytes} {start k : Nat} {part : List UInt8}
    (hroom : start + part.length ≤ data.size) (hk : k < part.length) :
    (data.overwrite start part).getD (start + k) 0 = part[k] := by
  induction part generalizing data start k with
  | nil => simp at hk
  | cons byte rest ih =>
      simp only [List.length_cons] at hroom hk
      cases k with
      | zero =>
          rw [overwrite, getD_overwrite_outside (Or.inl (by omega))]
          simp only [Array.getD_eq_getD_getElem?, List.getElem_cons_zero, Nat.add_zero]
          rw [Array.getElem?_setIfInBounds_self_of_lt (by omega), Option.getD_some]
      | succ k =>
          have hplace : start + (k + 1) = start + 1 + k := by omega
          rw [overwrite, hplace, ih (by simpa using (by omega)) (by omega),
            List.getElem_cons_succ]

/-- Bytes that are already there may be written again. -/
theorem overwrite_eq_self {data : Bytes} {start : Nat} {part : List UInt8}
    (h : part = (List.range' start part.length).map fun i => data.getD i 0)
    (hroom : start + part.length ≤ data.size) : data.overwrite start part = data := by
  apply ext_getD (size_overwrite ..)
  intro i hi
  by_cases hin : start ≤ i ∧ i < start + part.length
  · obtain ⟨k, rfl⟩ := Nat.exists_eq_add_of_le hin.1
    have hk : k < part.length := by omega
    rw [getD_overwrite_inside hroom hk]
    have hbyte : part[k]? = some (data.getD (start + k) 0) := by
      rw [h, List.getElem?_map, List.getElem?_range' (by simpa using hk)]
      simp
    simpa [List.getElem?_eq_getElem hk] using hbyte
  · exact getD_overwrite_outside (by omega)

/-- The number just written is read back, as far as it fits its width. -/
theorem number_overwrite_spell {data : Bytes} {start width value : Nat}
    (hroom : start + width ≤ data.size) :
    (data.overwrite start (spell width value)).number start width = value % 256 ^ width := by
  induction width generalizing data start value with
  | zero => simp [number, Nat.mod_one]
  | succ width ih =>
      have hlength : 0 < (spell (width + 1) value).length := by simp
      have hfirst : (data.overwrite start (spell (width + 1) value)).getD (start + 0) 0 =
          (spell (width + 1) value)[0] :=
        getD_overwrite_inside (by simpa using hroom) hlength
      simp only [Nat.add_zero, spell, List.getElem_cons_zero] at hfirst
      rw [number, spell, hfirst, overwrite, ih (by simpa using (by omega)), UInt8.toNat_ofNat',
        Nat.pow_succ 256, Nat.mul_comm (256 ^ width), Nat.mod_mul]

theorem getD_extract {data : Bytes} {start stop i : Nat} (hstop : stop ≤ data.size)
    (h : i < stop - start) : (data.extract start stop).getD i 0 = data.getD (start + i) 0 := by
  simp only [Array.getD_eq_getD_getElem?]
  rw [Array.getElem?_extract_of_lt (by omega), Array.getElem?_eq_getElem (by omega)]

theorem number_extract {data : Bytes} {start stop offset width : Nat} (hstop : stop ≤ data.size)
    (h : offset + width ≤ stop - start) :
    number (data.extract start stop) offset width = data.number (start + offset) width := by
  induction width generalizing offset with
  | zero => rfl
  | succ width ih =>
      have hrest : number (data.extract start stop) (offset + 1) width =
          data.number (start + (offset + 1)) width := ih (by omega)
      simp only [number, getD_extract hstop (show offset < stop - start by omega), hrest,
        Nat.add_assoc]

theorem toList_getElem {data : Bytes} {i : Nat} (h : i < data.toList.length) :
    data.toList[i] = data.getD i 0 := by
  rw [Array.length_toList] at h
  rw [Array.getElem_toList, Array.getD_eq_getD_getElem?, Array.getElem?_eq_getElem h,
    Option.getD_some]

/-- The part of the data from an offset on. -/
theorem toList_extract_size (data : Bytes) (offset : Nat) :
    (data.extract offset data.size).toList = data.toList.drop offset := by
  rw [Array.toList_extract, List.extract_eq_take_drop]
  exact List.take_of_length_le (by simp)

/-- The bytes from an offset on are those of the data, and then there are none. -/
theorem drop_eq_cons {data : Bytes} {offset : Nat} {byte : UInt8} {rest : List UInt8}
    (h : data.toList.drop offset = byte :: rest) :
    offset < data.size ∧ data.getD offset 0 = byte ∧ data.toList.drop (offset + 1) = rest := by
  have hinside : offset < data.toList.length := by
    have hlength := congrArg List.length h
    rw [List.length_drop, List.length_cons] at hlength
    omega
  rw [List.drop_eq_getElem_cons hinside, List.cons.injEq] at h
  obtain ⟨hbyte, hrest⟩ := h
  exact ⟨by simpa using hinside, toList_getElem hinside ▸ hbyte, hrest⟩

theorem drop_eq_nil {data : Bytes} {offset : Nat} (h : data.toList.drop offset = []) :
    data.size ≤ offset := by
  simpa using h

/-- A number is read where it is spelled, and behind it comes the rest. -/
theorem number_of_drop {data : Bytes} {start width value : Nat} {rest : List UInt8}
    (hvalue : value < 256 ^ width) (h : data.toList.drop start = spell width value ++ rest) :
    data.number start width = value ∧ data.toList.drop (start + width) = rest := by
  induction width generalizing start value with
  | zero =>
      rw [Nat.pow_zero] at hvalue
      exact ⟨by rw [number]; omega, h⟩
  | succ width ih =>
      rw [Nat.pow_succ] at hvalue
      obtain ⟨-, hbyte, hothers⟩ := drop_eq_cons h
      obtain ⟨hnumber, hrest⟩ := ih (by omega) hothers
      constructor
      · rw [number, hbyte, hnumber, UInt8.toNat_ofNat']
        omega
      · rw [← hrest, Nat.add_assoc, Nat.add_comm 1]

/-- From an offset on stand the bytes of the number that is read there. -/
theorem drop_eq_spell {data : Bytes} {start width : Nat} (hroom : start + width ≤ data.size) :
    data.toList.drop start =
      spell width (data.number start width) ++ data.toList.drop (start + width) := by
  induction width generalizing start with
  | zero => rfl
  | succ width ih =>
      have hinside : start < data.toList.length := by
        rw [Array.length_toList]
        omega
      rw [List.drop_eq_getElem_cons hinside, toList_getElem, ih (by omega), spell, ofNat_number,
        number_div, List.cons_append, Nat.add_assoc, Nat.add_comm 1]

end Unveil.Bytes
