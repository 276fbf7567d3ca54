import Unveil.Image.Basic
import Unveil.Pieces
import Unveil.Proofs.Bytes.Spelling
import Unveil.Proofs.Safety.Steps

/-!
The checksum in closed form, and what it depends on. Words are taken at even offsets, so
the words that are passed over are those that start inside the field; only where the
field itself starts at an even offset are these the bytes of the field.

Bringing a carry around is counting modulo 65535, but with 65535 for every multiple of it
other than zero. So the running sum is known from the exact sum of the words, never needs
more than 16 bits between two words, and is the same in whichever order the words come.
-/

namespace Unveil.Checksum

variable {data data' : Bytes} {field : Nat}

/-- The byte belongs to a word that is passed over. -/
def Skipped (field i : Nat) : Prop := field ≤ i / 2 * 2 ∧ i / 2 * 2 < field + 4

theorem sumFrom_congr {offset : Nat} (hsize : data'.size = data.size) (heven : offset % 2 = 0)
    (hagree : ∀ i, ¬ Skipped field i → data'.getD i 0 = data.getD i 0) (sum : Nat) :
    sumFrom data' field offset sum = sumFrom data field offset sum := by
  fun_induction sumFrom data field offset sum with
  | case1 offset sum hinside hskip ih =>
      rw [sumFrom, hsize, if_pos hinside, if_pos hskip]
      exact ih (by omega)
  | case2 offset sum hinside hcount ih =>
      have hword : data'.number offset 2 = data.number offset 2 := by
        refine Bytes.number_congr fun i hstart hstop => hagree i fun hskipped => hcount ?_
        obtain ⟨hlow, hhigh⟩ := hskipped
        have hplace : i / 2 * 2 = offset := by omega
        rw [← hplace]
        exact ⟨hlow, hhigh⟩
      rw [sumFrom, hsize, if_pos hinside, if_neg hcount, hword]
      exact ih (by omega)
  | case3 offset sum houtside => rw [sumFrom, hsize, if_neg houtside]

/-- The checksum depends on nothing but the length and the words that are
counted. -/
theorem compute_congr (hsize : data'.size = data.size)
    (hagree : ∀ i, ¬ Skipped field i → data'.getD i 0 = data.getD i 0) :
    compute data' field = compute data field := by
  rw [compute, compute, sumFrom_congr hsize rfl hagree, hsize]

/-- A field at an even offset is exactly what is passed over. -/
theorem skipped_iff (heven : field % 2 = 0) {i : Nat} :
    Skipped field i ↔ field ≤ i ∧ i < field + 4 := by
  unfold Skipped
  omega

/-- A field at an odd offset is not: its first byte is counted, and the byte
behind it is not. -/
theorem skipped_iff_of_odd (hodd : field % 2 = 1) {i : Nat} :
    Skipped field i ↔ field + 1 ≤ i ∧ i < field + 5 := by
  unfold Skipped
  omega

/-- What is stored in the field makes no difference to the checksum. -/
theorem compute_overwrite (heven : field % 2 = 0) (data : Bytes) (value : Nat) :
    compute (data.overwrite field (Bytes.spell 4 value)) field = compute data field := by
  refine compute_congr (Bytes.size_overwrite ..) fun i hcounted => ?_
  rw [skipped_iff heven] at hcounted
  apply Bytes.getD_overwrite_outside
  rw [Bytes.length_spell]
  omega

/-- The word at an offset. Past the end of the file there are zero bytes, so the
last byte of a file of odd length has nothing above it. -/
def wordAt (data : Bytes) (offset : Nat) : Nat :=
  (data.getD offset 0).toNat + 256 * (data.getD (offset + 1) 0).toNat

/-- The words from an offset on that are counted: all but the two that start at
the field and two bytes behind it. -/
def wordsFrom (data : Bytes) (field offset : Nat) : List Nat :=
  ((List.range' offset ((data.size - offset + 1) / 2) 2).filter fun place =>
    place ≠ field ∧ place ≠ field + 2).map (wordAt data)

/-- The words that are counted. -/
def words (data : Bytes) (field : Nat) : List Nat := wordsFrom data field 0

/-- What an exact sum comes to in 16 bits. -/
def folded (sum : Nat) : Nat := if sum = 0 then 0 else (sum - 1) % 65535 + 1

theorem folded_le (sum : Nat) : folded sum ≤ 0xFFFF := by
  unfold folded
  split
  · exact Nat.zero_le _
  · omega

theorem folded_of_le {sum : Nat} (h : sum ≤ 0xFFFF) : folded sum = sum := by
  unfold folded
  split
  · omega
  · rw [Nat.mod_eq_of_lt (by omega)]
    omega

/-- Part of a sum may be folded before the rest is added. -/
theorem folded_add (sum rest : Nat) : folded (folded sum + rest) = folded (sum + rest) := by
  by_cases hzero : sum = 0
  · subst hzero
    rfl
  · have hpart : folded sum = (sum - 1) % 65535 + 1 := if_neg hzero
    have hwhole : folded (sum + rest) = (sum - 1 + rest) % 65535 + 1 := by
      rw [folded, if_neg (by omega)]
      congr 2
      omega
    have hboth : folded ((sum - 1) % 65535 + 1 + rest) = ((sum - 1) % 65535 + rest) % 65535 + 1 := by
      rw [folded, if_neg (by omega)]
      congr 2
      omega
    rw [hpart, hboth, hwhole, Nat.mod_add_mod]

theorem addWord_eq {sum word : Nat} (hsum : sum ≤ 0xFFFF) (hword : word ≤ 0xFFFF) :
    addWord sum word = folded (sum + word) := by
  unfold addWord folded
  dsimp only
  split
  · rw [if_neg (by omega)]
    omega
  · split
    · omega
    · omega

section Words

variable {words : List Nat} {sum : Nat}

/-- An exact sum is the same in any order. -/
theorem total_perm {order : List Nat} (h : words.Perm order) : total words = total order := by
  induction h with
  | nil => rfl
  | cons word _ ih => rw [total_cons, total_cons, ih]
  | swap first second others => simp only [total_cons, Nat.add_left_comm]
  | trans _ _ ih ih' => exact ih.trans ih'

/-- Adding words one after the other is folding their exact sum. -/
theorem foldl_addWord (hsum : sum ≤ 0xFFFF) (hwords : ∀ word ∈ words, word ≤ 0xFFFF) :
    words.foldl addWord sum = folded (sum + total words) := by
  induction words generalizing sum with
  | nil => exact (folded_of_le hsum).symm
  | cons word words ih =>
      have hstep := addWord_eq hsum (hwords word (List.mem_cons_self ..))
      have hsmall : addWord sum word ≤ 0xFFFF := hstep ▸ folded_le _
      rw [List.foldl_cons, ih hsmall fun other hother => hwords other (List.mem_cons_of_mem _ hother),
        hstep, folded_add, total_cons, Nat.add_assoc]

/-- Between two words the sum has 16 bits. -/
theorem le_of_mem_scanl (hsum : sum ≤ 0xFFFF) (hwords : ∀ word ∈ words, word ≤ 0xFFFF) :
    ∀ running ∈ words.scanl addWord sum, running ≤ 0xFFFF := by
  induction words generalizing sum with
  | nil =>
      intro running hrunning
      rw [List.scanl_nil, List.mem_singleton] at hrunning
      exact hrunning ▸ hsum
  | cons word words ih =>
      intro running hrunning
      rw [List.scanl_cons, List.mem_cons] at hrunning
      rcases hrunning with rfl | hlater
      · exact hsum
      · have hsmall : addWord sum word ≤ 0xFFFF :=
          addWord_eq hsum (hwords word (List.mem_cons_self ..)) ▸ folded_le _
        exact ih hsmall (fun other hother => hwords other (List.mem_cons_of_mem _ hother))
          running hlater

end Words

variable {data : Bytes} {field : Nat}

theorem wordAt_le (data : Bytes) (offset : Nat) : wordAt data offset ≤ 0xFFFF := by
  have hlow := (data.getD offset 0).toNat_lt
  have hhigh := (data.getD (offset + 1) 0).toNat_lt
  unfold wordAt
  omega

theorem le_of_mem_wordsFrom {offset word : Nat} (h : word ∈ wordsFrom data field offset) :
    word ≤ 0xFFFF := by
  obtain ⟨place, -, rfl⟩ := List.mem_map.mp h
  exact wordAt_le data place

theorem number_eq_wordAt (data : Bytes) (offset : Nat) :
    data.number offset 2 = wordAt data offset := rfl

theorem wordsFrom_of_size_le {offset : Nat} (h : data.size ≤ offset) :
    wordsFrom data field offset = [] := by
  have hnone : (data.size - offset + 1) / 2 = 0 := by omega
  rw [wordsFrom, hnone]
  rfl

/-- A word is counted or passed over, and then come those behind it. -/
theorem wordsFrom_of_lt {offset : Nat} (h : offset < data.size) :
    wordsFrom data field offset =
      if offset ≠ field ∧ offset ≠ field + 2 then
        wordAt data offset :: wordsFrom data field (offset + 2)
      else
        wordsFrom data field (offset + 2) := by
  have hcount : (data.size - offset + 1) / 2 = (data.size - (offset + 2) + 1) / 2 + 1 := by omega
  rw [wordsFrom, hcount, List.range'_succ, List.filter_cons]
  by_cases hcounted : offset ≠ field ∧ offset ≠ field + 2
  · rw [if_pos (decide_eq_true hcounted), if_pos hcounted, List.map_cons]
    rfl
  · rw [if_neg (mt of_decide_eq_true hcounted), if_neg hcounted]
    rfl

/-- The sum goes through the words that are counted. Where the field starts at an
even offset, the words that start inside it are those two. -/
theorem sumFrom_eq_foldl {offset sum : Nat} (hfield : field % 2 = 0) (heven : offset % 2 = 0) :
    sumFrom data field offset sum = (wordsFrom data field offset).foldl addWord sum := by
  fun_induction sumFrom data field offset sum with
  | case1 offset sum hinside hskip ih =>
      rw [wordsFrom_of_lt hinside, if_neg (by omega)]
      exact ih (by omega)
  | case2 offset sum hinside hcount ih =>
      rw [wordsFrom_of_lt hinside, if_pos (by omega), List.foldl_cons, ← number_eq_wordAt]
      exact ih (by omega)
  | case3 offset sum houtside =>
      rw [wordsFrom_of_size_le (Nat.le_of_not_lt houtside), List.foldl_nil]

theorem sumFrom_eq_folded (heven : field % 2 = 0) :
    sumFrom data field 0 0 = folded (total (words data field)) := by
  rw [sumFrom_eq_foldl heven rfl, foldl_addWord (Nat.zero_le _) fun _ => le_of_mem_wordsFrom,
    Nat.zero_add]
  rfl

section Strict

/-- Adds a word to a sum of 64 bits and brings a carry around. -/
def addStrictly (sum word : Nat) : Except Fault Nat := do
  let sum ← Size.add sum word
  if 0xFFFF < sum then Size.add (sum % 0x10000) (sum / 0x10000) else pure sum

/-- Adds the word of a piece, unless the piece starts inside the field, which
reaches up to `stop`. -/
def countStrictly (field stop index sum word : Nat) : Except Fault Nat := do
  let offset ← Size.mul index 2
  if field ≤ offset ∧ offset < stop then pure sum else addStrictly sum word

/-- Goes through numbered pieces of two bytes, of which the last may have only
one. -/
def sumStrictly (field stop : Nat) : List UInt8 → (index sum : Nat) → Except Fault Nat
  | [], _, sum => .ok sum
  | [low], index, sum => countStrictly field stop index sum low.toNat
  | low :: high :: rest, index, sum => do
      let sum ← countStrictly field stop index sum (low.toNat + 256 * high.toNat)
      sumStrictly field stop rest (index + 1) sum

/-- Brings carries around until there are none. -/
def settle (sum : Nat) : Nat :=
  if 0xFFFF < sum then settle (sum % 0x10000 + sum / 0x10000) else sum
termination_by sum

def computeStrictly (data : Bytes) (field : Nat) : Except Fault UInt32 := do
  let stop ← Size.add field 4
  let sum ← sumStrictly field stop data.toList 0 0
  pure (UInt32.ofNat (settle sum) + UInt32.ofNat data.size)

theorem addStrictly_eq {sum word : Nat} (hsum : sum ≤ 0xFFFF) (hword : word ≤ 0xFFFF) :
    addStrictly sum word = .ok (addWord sum word) := by
  rw [addStrictly, Size.add_of_lt (by unfold Size.limit; omega), Except.ok_bind]
  unfold addWord
  dsimp only
  split
  · rw [Size.add_of_lt (by unfold Size.limit; omega)]
  · rfl

/-- What the sum is behind a word. -/
def countWord (data : Bytes) (field offset sum : Nat) : Nat :=
  if field ≤ offset ∧ offset < field + 4 then sum else addWord sum (wordAt data offset)

theorem countWord_le {offset sum : Nat} (hsum : sum ≤ 0xFFFF) :
    countWord data field offset sum ≤ 0xFFFF := by
  unfold countWord
  split
  · exact hsum
  · rw [addWord_eq hsum (wordAt_le data offset)]
    exact folded_le _

theorem sumFrom_of_lt {offset sum : Nat} (h : offset < data.size) :
    sumFrom data field offset sum =
      sumFrom data field (offset + 2) (countWord data field offset sum) := by
  rw [sumFrom, if_pos h, countWord, ← number_eq_wordAt]
  split
  · rfl
  · rfl

theorem sumFrom_of_size_le {offset sum : Nat} (h : data.size ≤ offset) :
    sumFrom data field offset sum = sum := by
  rw [sumFrom, if_neg (Nat.not_lt.mpr h)]

theorem countStrictly_eq {index sum : Nat} (hindex : 2 * index < Size.limit)
    (hsum : sum ≤ 0xFFFF) :
    countStrictly field (field + 4) index sum (wordAt data (2 * index)) =
      .ok (countWord data field (2 * index) sum) := by
  rw [countStrictly, Size.mul_of_lt (by omega), Except.ok_bind, Nat.mul_comm, countWord]
  split
  · rfl
  · exact addStrictly_eq hsum (wordAt_le data _)

theorem sumStrictly_eq {bytes : List UInt8} {index sum : Nat} (hsize : data.size < Size.limit)
    (hsum : sum ≤ 0xFFFF) (hbytes : data.toList.drop (2 * index) = bytes) :
    sumStrictly field (field + 4) bytes index sum = .ok (sumFrom data field (2 * index) sum) := by
  fun_induction sumStrictly field (field + 4) bytes index sum with
  | case1 index sum => rw [sumFrom_of_size_le (Bytes.drop_eq_nil hbytes)]
  | case2 low index sum =>
      obtain ⟨hinside, hlow, hrest⟩ := Bytes.drop_eq_cons hbytes
      have hword : low.toNat = wordAt data (2 * index) := by
        rw [wordAt, hlow, Bytes.getD_of_size_le (Bytes.drop_eq_nil hrest)]
        rfl
      rw [hword, countStrictly_eq (by omega) hsum, sumFrom_of_lt hinside,
        sumFrom_of_size_le (Nat.le_succ_of_le (Bytes.drop_eq_nil hrest))]
  | case3 low high rest index sum ih =>
      obtain ⟨hinside, hlow, hbehind⟩ := Bytes.drop_eq_cons hbytes
      obtain ⟨-, hhigh, hrest⟩ := Bytes.drop_eq_cons hbehind
      have hword : low.toNat + 256 * high.toNat = wordAt data (2 * index) := by
        rw [wordAt, hlow, hhigh]
      rw [hword, countStrictly_eq (by omega) hsum, Except.ok_bind, sumFrom_of_lt hinside]
      exact ih _ (countWord_le hsum) hrest

theorem settle_of_le {sum : Nat} (h : sum ≤ 0xFFFF) : settle sum = sum := by
  rw [settle, if_neg (Nat.not_lt.mpr h)]

theorem computeStrictly_eq (heven : field % 2 = 0) (hfield : field + 4 < Size.limit)
    (hsize : data.size < Size.limit) :
    computeStrictly data field = .ok (compute data field) := by
  have hsum : sumFrom data field 0 0 ≤ 0xFFFF := sumFrom_eq_folded heven ▸ folded_le _
  have hstrict : sumStrictly field (field + 4) data.toList 0 0 = .ok (sumFrom data field 0 0) :=
    sumStrictly_eq hsize (Nat.zero_le _) (show data.toList.drop (2 * 0) = data.toList from rfl)
  rw [computeStrictly, Size.add_of_lt hfield, Except.ok_bind, hstrict, Except.ok_bind,
    settle_of_le hsum, ← UInt32.ofNat_add]
  rfl

/-- The end of the field is counted first, so nothing is summed up at the two even
offsets, of those that sizes can hold, behind which there is no room for the field. -/
theorem computeStrictly_traps (heven : field % 2 = 0) (hsize : data.size < Size.limit) :
    computeStrictly data field = .error .trap ↔ Size.limit ≤ field + 4 := by
  refine ⟨fun htrap => Nat.le_of_not_lt fun hroom => ?_, fun hpast => ?_⟩
  · rw [computeStrictly_eq heven hroom hsize] at htrap
    cases htrap
  · rw [computeStrictly, Size.add, if_neg (Nat.not_lt.mpr hpast)]
    rfl

end Strict

/-- The checksum is the exact sum of the words outside the field, folded to 16
bits, and the length of the file, in 32 bits. The sum never has more than 16
bits between two words, so no addition leaves the 64 bits that it is done in and
no carry is left at the end; and it is the same in any order of the words. -/
theorem closed_form (data : Bytes) {field : Nat} (heven : field % 2 = 0) :
    (compute data field).toNat = (folded (total (words data field)) + data.size) % 2 ^ 32 ∧
    sumFrom data field 0 0 = (words data field).foldl addWord 0 ∧
    (∀ running ∈ (words data field).scanl addWord 0, running ≤ 0xFFFF) ∧
    (∀ order, (words data field).Perm order → order.foldl addWord 0 = sumFrom data field 0 0) ∧
    (field + 4 < Size.limit → data.size < Size.limit →
      computeStrictly data field = .ok (compute data field)) := by
  have hwords : ∀ word ∈ words data field, word ≤ 0xFFFF := fun _ => le_of_mem_wordsFrom
  refine ⟨?_, sumFrom_eq_foldl heven rfl, le_of_mem_scanl (Nat.zero_le _) hwords, ?_,
    computeStrictly_eq heven⟩
  · rw [compute, sumFrom_eq_folded heven, UInt32.toNat_ofNat']
  · intro order hperm
    have horder : ∀ word ∈ order, word ≤ 0xFFFF :=
      fun word hword => hwords word (hperm.mem_iff.mpr hword)
    rw [foldl_addWord (Nat.zero_le _) horder, Nat.zero_add, ← total_perm hperm,
      sumFrom_eq_folded heven]

/-- Nine bytes with a field of zeros at offset four: a carry is brought around,
and the last byte counts as a word. -/
theorem closed_form_odd :
    (compute #[0xFF, 0xFF, 2, 0, 0, 0, 0, 0, 5] 4).toNat = 2 + 5 + 9 ∧
      computeStrictly #[0xFF, 0xFF, 2, 0, 0, 0, 0, 0, 5] 4 =
        .ok (compute #[0xFF, 0xFF, 2, 0, 0, 0, 0, 0, 5] 4) := by
  obtain ⟨hvalue, -, -, -, hstrict⟩ :=
    closed_form #[0xFF, 0xFF, 2, 0, 0, 0, 0, 0, 5] (show 4 % 2 = 0 from rfl)
  have hwords : words #[0xFF, 0xFF, 2, 0, 0, 0, 0, 0, 5] 4 = [0xFFFF, 2, 5] := by decide
  rw [hwords] at hvalue
  exact ⟨hvalue, hstrict (by decide) (by decide)⟩

end Unveil.Checksum
