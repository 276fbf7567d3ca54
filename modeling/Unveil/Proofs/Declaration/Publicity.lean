import Mathlib.Algebra.Group.Nat.Defs
import Unveil.Proofs.Bytes.Spelling
import Unveil.Proofs.Declaration.Forest

namespace Unveil

/-- Clearing the three low bits of a number and setting others. -/
theorem Nat.and_or_low {n x v : Nat} (hx : x < 2 ^ (n + 3)) (hv : v < 8) :
    x &&& (2 ^ (n + 3) - 8) ||| v = x / 8 * 8 + v := by
  have hmask : 2 ^ (n + 3) - 8 = (2 ^ n - 1) <<< 3 := by
    rw [Nat.shiftLeft_eq, Nat.sub_mul, Nat.pow_add]
  have hcleared : x / 8 * 8 = (x >>> 3) <<< 3 := by
    rw [Nat.shiftLeft_eq, Nat.shiftRight_eq_div_pow]
  have hand : x &&& (2 ^ (n + 3) - 8) = (x >>> 3) <<< 3 := by
    rw [hmask]
    apply Nat.eq_of_testBit_eq
    intro i
    simp only [Nat.testBit_and, Nat.testBit_shiftLeft, Nat.testBit_two_pow_sub_one,
      Nat.testBit_shiftRight]
    by_cases hlow : 3 ≤ i
    · rw [Nat.add_sub_cancel' hlow]
      by_cases hinside : i - 3 < n
      · simp [hlow, hinside]
      · have hhigh : x < 2 ^ i :=
          Nat.lt_of_lt_of_le hx (Nat.pow_le_pow_right (by omega) (by omega))
        simp [Nat.testBit_lt_two_pow hhigh]
    · simp [hlow]
  rw [hand, hcleared, ← Nat.shiftLeft_add_eq_or_of_lt hv]

namespace Visibility

theorem bits_lt (visibility : Visibility) : visibility.bits.toNat < 8 := by
  cases visibility <;> decide

theorem toNat_replaceIn (visibility : Visibility) (flags : UInt32) :
    (visibility.replaceIn flags).toNat = flags.toNat / 8 * 8 + visibility.bits.toNat := by
  have hmask : (~~~(7 : UInt32)).toNat = 2 ^ (29 + 3) - 8 := by decide
  rw [replaceIn, UInt32.toNat_or, UInt32.toNat_and, hmask]
  exact Nat.and_or_low flags.toNat_lt visibility.bits_lt

/-- The visibility is read from the three low bits. -/
theorem ofFlags_replaceIn (visibility : Visibility) (flags : UInt32) :
    ofFlags (visibility.replaceIn flags) = visibility := by
  have hlow : (visibility.replaceIn flags &&& 7).toNat = visibility.bits.toNat := by
    have hseven : (7 : UInt32).toNat = 2 ^ 3 - 1 := by decide
    have hbits := visibility.bits_lt
    rw [UInt32.toNat_and, hseven, Nat.and_two_pow_sub_one_eq_mod, toNat_replaceIn]
    omega
  rw [ofFlags, hlow]
  cases visibility <;> rfl

theorem replaceIn_replaceIn (visibility : Visibility) (flags : UInt32) :
    visibility.replaceIn (visibility.replaceIn flags) = visibility.replaceIn flags := by
  have hbits := visibility.bits_lt
  rw [← UInt32.toNat_inj]
  simp only [toNat_replaceIn]
  omega

/-- A word stays as it is exactly if it has the visibility already. -/
theorem replaceIn_eq_self {visibility : Visibility} {flags : UInt32} :
    visibility.replaceIn flags = flags ↔ ofFlags flags = visibility := by
  constructor
  · intro h
    rw [← h, ofFlags_replaceIn]
  · rintro rfl
    have hseven : (7 : UInt32).toNat = 2 ^ 3 - 1 := by decide
    have hlow : (flags &&& 7).toNat = flags.toNat % 8 := by
      rw [UInt32.toNat_and, hseven, Nat.and_two_pow_sub_one_eq_mod]
    have hbits : (ofFlags flags).bits.toNat = flags.toNat % 8 := by
      unfold ofFlags
      rw [hlow]
      have hlt : flags.toNat % 8 < 8 := Nat.mod_lt _ (by decide)
      generalize flags.toNat % 8 = low at hlt ⊢
      decide +revert
    rw [← UInt32.toNat_inj, toNat_replaceIn, hbits]
    omega

end Visibility

namespace Access

theorem bits_lt (access : Access) : access.bits.toNat < 8 := by
  cases access <;> decide

theorem toNat_replaceIn (access : Access) (flags : UInt16) :
    (access.replaceIn flags).toNat = flags.toNat / 8 * 8 + access.bits.toNat := by
  have hmask : (~~~(7 : UInt16)).toNat = 2 ^ (13 + 3) - 8 := by decide
  rw [replaceIn, UInt16.toNat_or, UInt16.toNat_and, hmask]
  exact Nat.and_or_low flags.toNat_lt access.bits_lt

theorem ofFlags_replaceIn (access : Access) (flags : UInt16) :
    ofFlags (access.replaceIn flags) = access := by
  have hlow : (access.replaceIn flags &&& 7).toNat = access.bits.toNat := by
    have hseven : (7 : UInt16).toNat = 2 ^ 3 - 1 := by decide
    have hbits := access.bits_lt
    rw [UInt16.toNat_and, hseven, Nat.and_two_pow_sub_one_eq_mod, toNat_replaceIn]
    omega
  rw [ofFlags, hlow]
  cases access <;> rfl

theorem replaceIn_replaceIn (access : Access) (flags : UInt16) :
    access.replaceIn (access.replaceIn flags) = access.replaceIn flags := by
  have hbits := access.bits_lt
  rw [← UInt16.toNat_inj]
  simp only [toNat_replaceIn]
  omega

/-- A word stays as it is exactly if it grants everyone access. Of the other
rights this does not hold: the reserved pattern seven counts as compiler
controlled, but does not have its bits. -/
theorem replaceIn_eq_self {flags : UInt16} :
    isPublic.replaceIn flags = flags ↔ ofFlags flags = isPublic := by
  constructor
  · intro h
    rw [← h, ofFlags_replaceIn]
  · intro h
    have hseven : (7 : UInt16).toNat = 2 ^ 3 - 1 := by decide
    have hlow : (flags &&& 7).toNat = flags.toNat % 8 := by
      rw [UInt16.toNat_and, hseven, Nat.and_two_pow_sub_one_eq_mod]
    have hbits : flags.toNat % 8 = 6 := by
      unfold ofFlags at h
      rw [hlow] at h
      have hlt : flags.toNat % 8 < 8 := Nat.mod_lt _ (by decide)
      generalize flags.toNat % 8 = low at hlt h ⊢
      decide +revert
    have hpublic : isPublic.bits.toNat = 6 := rfl
    rw [← UInt16.toNat_inj, toNat_replaceIn, hpublic]
    omega

end Access

namespace Bytes

/-- A byte with other low bits in it. -/
theorem ofNat_lowBits (byte v : UInt8) (hv : v.toNat < 8) :
    UInt8.ofNat (byte.toNat / 8 * 8 + v.toNat) = (byte &&& ~~~7) ||| v := by
  have hmask : (~~~(7 : UInt8)).toNat = 2 ^ (5 + 3) - 8 := by decide
  have hbyte : byte.toNat < 256 := byte.toNat_lt
  rw [← UInt8.toNat_inj, UInt8.toNat_ofNat', UInt8.toNat_or, UInt8.toNat_and, hmask,
    Nat.and_or_low hbyte hv]
  omega

/-- Of a word whose low bits are replaced only the lowest byte changes. -/
theorem spell_lowBits (data : Bytes) (start width : Nat) {v : UInt8} (hv : v.toNat < 8) :
    spell (width + 1) (data.number start (width + 1) / 8 * 8 + v.toNat) =
      ((data.getD start 0 &&& ~~~7) ||| v) ::
        (List.range' (start + 1) width).map fun i => data.getD i 0 := by
  have hbyte : (data.getD start 0).toNat < 256 := (data.getD start 0).toNat_lt
  have hlow : UInt8.ofNat (data.number start (width + 1) / 8 * 8 + v.toNat) =
      UInt8.ofNat ((data.getD start 0).toNat / 8 * 8 + v.toNat) := by
    rw [← UInt8.toNat_inj, UInt8.toNat_ofNat', UInt8.toNat_ofNat', number]
    omega
  have hhigh : (data.number start (width + 1) / 8 * 8 + v.toNat) / 256 =
      data.number (start + 1) width := by
    simp only [number]
    omega
  rw [spell, hlow, ofNat_lowBits _ _ hv, hhigh, spell_number]

end Bytes

@[simp] theorem MethodDecl.token_unveil (method : MethodDecl) :
    method.unveil.token = method.token := rfl

theorem MethodDecl.flags_unveil (method : MethodDecl) :
    method.unveil.flags = Access.isPublic.replaceIn method.flags := rfl

@[simp] theorem FieldDecl.token_unveil (field : FieldDecl) : field.unveil.token = field.token := rfl

theorem FieldDecl.flags_unveil (field : FieldDecl) :
    field.unveil.flags = Access.isPublic.replaceIn field.flags := rfl

theorem MethodDecl.isPublic_unveil (method : MethodDecl) : method.unveil.isPublic = true := by
  rw [isPublic, access, flags_unveil, Access.ofFlags_replaceIn]
  rfl

theorem FieldDecl.isPublic_unveil (field : FieldDecl) : field.unveil.isPublic = true := by
  rw [isPublic, access, flags_unveil, Access.ofFlags_replaceIn]
  rfl

theorem MethodDecl.flags_unveil_eq {method : MethodDecl} :
    method.unveil.flags = method.flags ↔ method.isPublic = true := by
  rw [flags_unveil, Access.replaceIn_eq_self, isPublic, access, beq_iff_eq]

theorem FieldDecl.flags_unveil_eq {field : FieldDecl} :
    field.unveil.flags = field.flags ↔ field.isPublic = true := by
  rw [flags_unveil, Access.replaceIn_eq_self, isPublic, access, beq_iff_eq]

theorem MethodDecl.unveil_unveil (method : MethodDecl) : method.unveil.unveil = method.unveil := by
  simp only [unveil, withAccess, Access.replaceIn_replaceIn]

theorem FieldDecl.unveil_unveil (field : FieldDecl) : field.unveil.unveil = field.unveil := by
  simp only [unveil, withAccess, Access.replaceIn_replaceIn]

namespace TypeDecl

@[simp] theorem token_unveil (type : TypeDecl) : type.unveil.token = type.token := rfl

@[simp] theorem isNested_unveil (type : TypeDecl) : type.unveil.isNested = type.isNested := rfl

theorem flags_unveil (type : TypeDecl) :
    type.unveil.flags = (Visibility.widest type.isNested).replaceIn type.flags := rfl

theorem mem_methods_unveil {type : TypeDecl} {method : MethodDecl} :
    some method ∈ type.unveil.methods ↔ ∃ own, some own ∈ type.methods ∧ own.unveil = method := by
  have hmethods : type.unveil.methods = type.methods.map (·.map MethodDecl.unveil) := rfl
  rw [hmethods, List.mem_map]
  constructor
  · rintro ⟨slot, hslot, hmethod⟩
    obtain ⟨own, rfl, rfl⟩ := Option.map_eq_some_iff.mp hmethod
    exact ⟨own, hslot, rfl⟩
  · rintro ⟨own, hown, rfl⟩
    exact ⟨some own, hown, rfl⟩

theorem mem_fields_unveil {type : TypeDecl} {field : FieldDecl} :
    some field ∈ type.unveil.fields ↔ ∃ own, some own ∈ type.fields ∧ own.unveil = field := by
  have hfields : type.unveil.fields = type.fields.map (·.map FieldDecl.unveil) := rfl
  rw [hfields, List.mem_map]
  constructor
  · rintro ⟨slot, hslot, hfield⟩
    obtain ⟨own, rfl, rfl⟩ := Option.map_eq_some_iff.mp hfield
    exact ⟨own, hslot, rfl⟩
  · rintro ⟨own, hown, rfl⟩
    exact ⟨some own, hown, rfl⟩

theorem isPublic_unveil (type : TypeDecl) : type.unveil.isPublic = true := by
  rw [isPublic, visibility, flags_unveil, Visibility.ofFlags_replaceIn, isNested_unveil,
    beq_self_eq_true]

theorem unveil_unveil (type : TypeDecl) : type.unveil.unveil = type.unveil := by
  have hmethods : MethodDecl.unveil ∘ MethodDecl.unveil = MethodDecl.unveil :=
    funext MethodDecl.unveil_unveil
  have hfields : FieldDecl.unveil ∘ FieldDecl.unveil = FieldDecl.unveil :=
    funext FieldDecl.unveil_unveil
  simp only [unveil, withVisibility, Visibility.replaceIn_replaceIn, List.map_map, Function.comp_def,
    Option.map_map] at hmethods hfields ⊢
  simp only [hmethods, hfields]

/-- A type keeps its word exactly if it is public. -/
theorem flags_unveil_eq {type : TypeDecl} :
    type.unveil.flags = type.flags ↔ type.isPublic = true := by
  rw [flags_unveil, Visibility.replaceIn_eq_self, isPublic, visibility, beq_iff_eq]

/-- Nothing is left to be made public. -/
theorem hidden_unveil (type : TypeDecl) : type.unveil.hidden = .zero := by
  have hmethods : type.unveil.methods.countP (·.any (!·.isPublic)) = 0 := by
    rw [List.countP_eq_zero]
    intro slot hslot
    cases slot with
    | none => exact Bool.false_ne_true
    | some method =>
        obtain ⟨own, -, rfl⟩ := mem_methods_unveil.mp hslot
        simp [own.isPublic_unveil]
  have hfields : type.unveil.fields.countP (·.any (!·.isPublic)) = 0 := by
    rw [List.countP_eq_zero]
    intro slot hslot
    cases slot with
    | none => exact Bool.false_ne_true
    | some field =>
        obtain ⟨own, -, rfl⟩ := mem_fields_unveil.mp hslot
        simp [own.isPublic_unveil]
  rw [hidden, type.isPublic_unveil, hmethods, hfields]
  rfl

end TypeDecl

theorem Forest.unveil_unveil (forest : Forest) :
    (forest.map TypeDecl.unveil).map TypeDecl.unveil = forest.map TypeDecl.unveil := by
  simp only [map_eq_mapTypes]
  induction forest with
  | nil => rfl
  | absent rest ih => simp only [mapTypes, ih]
  | present type nested rest ihNested ihRest =>
      simp only [mapTypes, type.unveil_unveil, ihNested, ihRest]

/-- Every declaration of the forest is public. -/
def Forest.IsPublic (forest : Forest) : Prop :=
  ∀ type ∈ forest.preorder, type.isPublic = true ∧
    (∀ method, some method ∈ type.methods → method.isPublic = true) ∧
    ∀ field, some field ∈ type.fields → field.isPublic = true

theorem Forest.isPublic_unveil (forest : Forest) : (forest.map TypeDecl.unveil).IsPublic := by
  intro type htype
  rw [map_eq_mapTypes, preorder_mapTypes] at htype
  obtain ⟨own, -, rfl⟩ := List.mem_map.mp htype
  refine ⟨own.isPublic_unveil, ?_, ?_⟩
  · intro method hmethod
    obtain ⟨source, -, rfl⟩ := TypeDecl.mem_methods_unveil.mp hmethod
    exact source.isPublic_unveil
  · intro field hfield
    obtain ⟨source, -, rfl⟩ := TypeDecl.mem_fields_unveil.mp hfield
    exact source.isPublic_unveil

end Unveil
