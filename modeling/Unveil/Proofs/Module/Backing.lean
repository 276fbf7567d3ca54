import Unveil.Proofs.Module.Assembly
import Unveil.Proofs.Module.Declarations

namespace Unveil

/-- A row number that fits a token is found in it again. -/
theorem Token.row_ofParts {table : TableId} {row : Nat} (hrow : row ≤ 0xFFFFFF) :
    (Token.ofParts table row).row = row := by
  have htable := table.number_lt
  simp only [TableId.count] at htable
  simp only [Token.row, Token.ofParts, Token.rowSpan, UInt32.toNat_ofNat']
  omega

section Tokens

variable {ρ : Type} [TypedRow ρ] [Schema ρ] {tables : TablesStream} {entries : List (Entry ρ)}
  {token : Token}

/-- The token of a row that was read leads back to it. -/
theorem TablesStream.Shows.row_of_token (h : tables.Shows entries)
    (hrows : tables.rowCount (TypedRow.table ρ) ≤ 0xFFFFFF) {k : Nat} {entry : Entry ρ}
    (hk : entries[k]? = some entry) (htoken : token = .ofParts (TypedRow.table ρ) entry.rid) :
    token.row = k + 1 := by
  have hlt := (List.getElem?_eq_some_iff.mp hk).1
  rw [h.length_eq] at hlt
  rw [htoken, (h.row_eq k entry hk).1, Token.row_ofParts (by omega)]

theorem TablesStream.Shows.eq_of_token (h : tables.Shows entries)
    (hrows : tables.rowCount (TypedRow.table ρ) ≤ 0xFFFFFF) {j k : Nat} {own entry : Entry ρ}
    (hj : entries[j]? = some own) (htoken : token = .ofParts (TypedRow.table ρ) own.rid)
    (hk : entries[k]? = some entry) (hrow : token.row = k + 1) : j = k ∧ own = entry := by
  rw [h.row_of_token hrows hj htoken, Nat.add_right_cancel_iff] at hrow
  subst hrow
  exact ⟨rfl, Option.some.inj (hj.symm.trans hk)⟩

end Tokens

namespace Module.Loaded

variable {image : Image} {module : Module}

theorem linked (loaded : Loaded image module) :
    Nesting.Linked loaded.declarations loaded.nestingRows loaded.links :=
  Nesting.linked_of_foldlM loaded.links_eq

theorem preorder_perm (loaded : Loaded image module) :
    module.types.preorder.Perm loaded.links.types.toList :=
  loaded.linked.preorder_perm loaded.types_eq

/-- Is the type of this row named as nested by some nesting row? -/
def isNamed (loaded : Loaded image module) (index : Nat) : Bool :=
  Nesting.names loaded.typeRows.length loaded.nestingRows index

theorem link_eq (loaded : Loaded image module) {k : Nat} {type : TypeDecl}
    (hk : loaded.links.types[k]? = some type) :
    ∃ entry, loaded.typeRows[k]? = some entry ∧ TypeCarries loaded.strings entry type ∧
      type.isNested = loaded.isNamed k ∧ loaded.fieldSlots[k]? = some type.fields ∧
      loaded.methodSlots[k]? = some type.methods := by
  rw [loaded.linked.types_eq k, Option.map_eq_some_iff] at hk
  obtain ⟨declaration, hdeclaration, rfl⟩ := hk
  obtain ⟨entry, hentry, ⟨htoken, hname, hspace, hflags⟩, hnested, hfields, hmethods⟩ :=
    loaded.declaration_eq hdeclaration
  refine ⟨entry, hentry, ⟨htoken, hname, hspace, hflags⟩, ?_, hfields, hmethods⟩
  simp only [Nesting.marked, hnested, Bool.false_or, loaded.length_declarations, isNamed]

/-- Every type in the forest stands for a type row. -/
theorem type_eq (loaded : Loaded image module) {type : TypeDecl}
    (htype : type ∈ module.types.preorder) :
    ∃ (k : Nat) (entry : Entry TypeRow), loaded.typeRows[k]? = some entry ∧
      TypeCarries loaded.strings entry type ∧ type.isNested = loaded.isNamed k ∧
      loaded.fieldSlots[k]? = some type.fields ∧ loaded.methodSlots[k]? = some type.methods := by
  have hmem := loaded.preorder_perm.mem_iff.mp htype
  obtain ⟨k, hk⟩ := List.mem_iff_getElem?.mp hmem
  rw [Array.getElem?_toList] at hk
  exact ⟨k, loaded.link_eq hk⟩

theorem field_eq (loaded : Loaded image module) {type : TypeDecl} {field : FieldDecl}
    (htype : type ∈ module.types.preorder) (hfield : some field ∈ type.fields) :
    ∃ (k : Nat) (entry : Entry FieldRow), loaded.fieldRows[k]? = some entry ∧
      FieldCarries loaded.strings entry field := by
  obtain ⟨_, _, _, _, _, hslots, _⟩ := loaded.type_eq htype
  have hmem : field ∈ loaded.fields :=
    MemberPool.mem_of_mem_slotsFrom (List.mem_of_getElem? hslots) hfield
  obtain ⟨k, hk⟩ := List.mem_iff_getElem?.mp hmem
  obtain ⟨entry, hentry, hof⟩ := (Except.getElem?_mapM loaded.fields_eq).2 k field hk
  exact ⟨k, entry, hentry, fieldOf_carries hof⟩

theorem method_eq (loaded : Loaded image module) {type : TypeDecl} {method : MethodDecl}
    (htype : type ∈ module.types.preorder) (hmethod : some method ∈ type.methods) :
    ∃ (k : Nat) (entry : Entry MethodRow), loaded.methodRows[k]? = some entry ∧
      MethodCarries loaded.strings entry method := by
  obtain ⟨_, _, _, _, _, _, hslots⟩ := loaded.type_eq htype
  have hmem : method ∈ loaded.methods :=
    MemberPool.mem_of_mem_slotsFrom (List.mem_of_getElem? hslots) hmethod
  obtain ⟨k, hk⟩ := List.mem_iff_getElem?.mp hmem
  obtain ⟨entry, hentry, hof⟩ := (Except.getElem?_mapM loaded.methods_eq).2 k method hk
  exact ⟨k, entry, hentry, methodOf_carries hof⟩

end Module.Loaded

end Unveil
