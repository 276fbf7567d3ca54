import Unveil.Proofs.Module.Loaded
import Unveil.Proofs.Module.Members

namespace Unveil

namespace Module

open MemberPool

theorem spans_cons (stop start : Nat) (starts : List Nat) :
    spans stop (start :: starts) = (start, starts.head?.getD stop) :: spans stop starts := by
  cases starts with
  | nil => rfl
  | cons next starts => rfl

/-- A declaration with given slots. -/
def describeType (strings : StringHeap) (entry : Entry TypeRow) (fields : List (Option FieldDecl))
    (methods : List (Option MethodDecl)) : Except Fault TypeDecl := do
  let name ← strings.get entry.row.name.toNat
  let space ← strings.get entry.row.space.toNat
  pure {
    token := entry.token, name, space
    flags := entry.row.flags
    isNested := false
    methods, fields }

def describe (strings : StringHeap) : List (Entry TypeRow) → List (List (Option FieldDecl)) →
    List (List (Option MethodDecl)) → Except Fault (List TypeDecl)
  | entry :: entries, fields :: fieldLists, methods :: methodLists => do
      let type ← describeType strings entry fields methods
      let types ← describe strings entries fieldLists methodLists
      pure (type :: types)
  | _, _, _ => .ok []

/-- Where the field lists of some types run. -/
def fieldSpans (stop : Nat) (entries : List (Entry TypeRow)) : List (Nat × Nat) :=
  spans stop (entries.map (·.row.fieldList.toNat))

def methodSpans (stop : Nat) (entries : List (Entry TypeRow)) : List (Nat × Nat) :=
  spans stop (entries.map (·.row.methodList.toNat))

/-- The slots of each type's fields. -/
def fieldSlots (fields : List FieldDecl) (pointers? : Option (Array UInt32)) (named : List Nat)
    (entries : List (Entry TypeRow)) : List (List (Option FieldDecl)) :=
  slotsFrom fields pointers? (reachVia fields pointers? + 1) named
    (fieldSpans (reachVia fields pointers? + 1) entries)

def methodSlots (methods : List MethodDecl) (pointers? : Option (Array UInt32))
    (named : List Nat) (entries : List (Entry TypeRow)) : List (List (Option MethodDecl)) :=
  slotsFrom methods pointers? (reachVia methods pointers? + 1) named
    (methodSpans (reachVia methods pointers? + 1) entries)

theorem declareType_eq (strings : StringHeap) (entry : Entry TypeRow)
    (next? : Option (Entry TypeRow)) (pools : Pools) :
    declareType strings entry next? pools =
      let fields := pools.fields.takeSlots entry.row.fieldList.toNat
        ((next?.map (·.row.fieldList.toNat)).getD (pools.fields.reach + 1))
      let methods := pools.methods.takeSlots entry.row.methodList.toNat
        ((next?.map (·.row.methodList.toNat)).getD (pools.methods.reach + 1))
      describeType strings entry fields.1 methods.1 >>= fun type =>
        pure (type, ⟨fields.2, methods.2⟩) := by
  cases next? with
  | none => simp only [declareType, describeType, bind_assoc, pure_bind]; rfl
  | some next => simp only [declareType, describeType, bind_assoc, pure_bind]; rfl

/-- The declarations are those with the slots that all lists together give. -/
theorem declare_eq (strings : StringHeap) {fields : List FieldDecl} {methods : List MethodDecl}
    {fieldPointers? methodPointers? : Option (Array UInt32)} {fieldsNamed methodsNamed : List Nat}
    {entries : List (Entry TypeRow)} {pools : Pools}
    (hfields : Left fields fieldPointers? fieldsNamed pools.fields)
    (hmethods : Left methods methodPointers? methodsNamed pools.methods) :
    (declare strings entries pools >>= fun result => pure result.1) =
      describe strings entries (fieldSlots fields fieldPointers? fieldsNamed entries)
        (methodSlots methods methodPointers? methodsNamed entries) := by
  induction entries generalizing pools fieldsNamed methodsNamed with
  | nil => rfl
  | cons entry entries ih =>
      have hfieldStop : (entries.head?.map (·.row.fieldList.toNat)).getD (pools.fields.reach + 1) =
          (entries.map (·.row.fieldList.toNat)).head?.getD
            (reachVia fields fieldPointers? + 1) := by
        rw [List.head?_map, hfields.reach_eq]
      have hmethodStop : (entries.head?.map (·.row.methodList.toNat)).getD (pools.methods.reach + 1) =
          (entries.map (·.row.methodList.toNat)).head?.getD
            (reachVia methods methodPointers? + 1) := by
        rw [List.head?_map, hmethods.reach_eq]
      obtain ⟨hfieldSlots, hfieldsLeft⟩ := hfields.takeSlots entry.row.fieldList.toNat
        ((entries.map (·.row.fieldList.toNat)).head?.getD (reachVia fields fieldPointers? + 1))
      obtain ⟨hmethodSlots, hmethodsLeft⟩ := hmethods.takeSlots entry.row.methodList.toNat
        ((entries.map (·.row.methodList.toNat)).head?.getD
          (reachVia methods methodPointers? + 1))
      have hothers := @ih _ _ ⟨_, _⟩ hfieldsLeft hmethodsLeft
      simp only [fieldSlots, methodSlots, fieldSpans, methodSpans] at hothers
      simp only [fieldSlots, methodSlots, fieldSpans, methodSpans, List.map_cons, spans_cons,
        slotsFrom, describe, declare, declareType_eq, hfieldStop, hmethodStop, hfieldSlots,
        hmethodSlots, bind_assoc, pure_bind, ← hothers]

/-- A declaration stands at the place of its row, with the slots at that
place. -/
theorem getElem?_describe {strings : StringHeap} {entries : List (Entry TypeRow)}
    {fieldLists : List (List (Option FieldDecl))} {methodLists : List (List (Option MethodDecl))}
    {types : List TypeDecl} (hfields : fieldLists.length = entries.length)
    (hmethods : methodLists.length = entries.length)
    (h : describe strings entries fieldLists methodLists = .ok types) :
    types.length = entries.length ∧ ∀ (k : Nat) (type : TypeDecl), types[k]? = some type →
      ∃ entry fields methods, entries[k]? = some entry ∧ fieldLists[k]? = some fields ∧
        methodLists[k]? = some methods ∧ describeType strings entry fields methods = .ok type := by
  induction entries generalizing fieldLists methodLists types with
  | nil =>
      cases h
      simp
  | cons entry entries ih =>
      match fieldLists, methodLists, hfields, hmethods with
      | fields :: fieldLists, methods :: methodLists, hfields, hmethods =>
          simp only [describe, Except.bind_eq_ok, Except.pure_eq_ok] at h
          obtain ⟨first, hfirst, others, hothers, rfl⟩ := h
          obtain ⟨hlength, hplaces⟩ := ih (by simpa using hfields) (by simpa using hmethods) hothers
          refine ⟨by simp [hlength], ?_⟩
          intro k type hk
          cases k with
          | zero =>
              cases hk
              exact ⟨entry, fields, methods, rfl, rfl, rfl, hfirst⟩
          | succ k => exact hplaces k type (by simpa using hk)

/-- A type says what its row says. -/
structure TypeCarries (strings : StringHeap) (entry : Entry TypeRow) (type : TypeDecl) : Prop where
  token_eq : type.token = .ofParts .typeDef entry.rid
  name_eq : strings.get entry.row.name.toNat = .ok type.name
  space_eq : strings.get entry.row.space.toNat = .ok type.space
  flags_eq : type.flags = entry.row.flags

structure MethodCarries (strings : StringHeap) (entry : Entry MethodRow) (method : MethodDecl) :
    Prop where
  token_eq : method.token = .ofParts .methodDef entry.rid
  name_eq : strings.get entry.row.name.toNat = .ok method.name
  flags_eq : method.flags = entry.row.flags.toUInt16
  implFlags_eq : method.implFlags = entry.row.implFlags.toUInt16
  address_eq : method.address = entry.row.address

structure FieldCarries (strings : StringHeap) (entry : Entry FieldRow) (field : FieldDecl) :
    Prop where
  token_eq : field.token = .ofParts .field entry.rid
  name_eq : strings.get entry.row.name.toNat = .ok field.name
  flags_eq : field.flags = entry.row.flags.toUInt16

theorem attributeWord_eq_ok {token : Token} {value : UInt32} {word : UInt16} :
    attributeWord token value = .ok word ↔ value.toNat < 0x10000 ∧ value.toUInt16 = word := by
  simp only [attributeWord, Except.bind_eq_ok, demand_eq_ok, Except.pure_eq_ok, exists_const]

theorem methodOf_carries {strings : StringHeap} {entry : Entry MethodRow} {method : MethodDecl}
    (h : methodOf strings entry = .ok method) : MethodCarries strings entry method := by
  simp only [methodOf, Except.bind_eq_ok, attributeWord_eq_ok, Except.pure_eq_ok] at h
  obtain ⟨name, hname, flags, ⟨-, hflags⟩, implFlags, ⟨-, himplFlags⟩, rfl⟩ := h
  exact ⟨rfl, hname, hflags.symm, himplFlags.symm, rfl⟩

theorem fieldOf_carries {strings : StringHeap} {entry : Entry FieldRow} {field : FieldDecl}
    (h : fieldOf strings entry = .ok field) : FieldCarries strings entry field := by
  simp only [fieldOf, Except.bind_eq_ok, attributeWord_eq_ok, Except.pure_eq_ok] at h
  obtain ⟨name, hname, flags, ⟨-, hflags⟩, rfl⟩ := h
  exact ⟨rfl, hname, hflags.symm⟩

section Shown

variable {tables : TablesStream} {strings : StringHeap}

theorem flags_lt {entries : List (Entry FieldRow)} (h : tables.Shows entries)
    {entry : Entry FieldRow} (hmem : entry ∈ entries) : entry.row.flags.toNat < 0x10000 := by
  obtain ⟨k, hk⟩ := List.mem_iff_getElem?.mp hmem
  obtain ⟨-, -, place, -, hrow⟩ := h.row_eq k entry hk
  have hflags : UInt32.ofNat (tables.data.number place 2) = entry.row.flags :=
    congrArg FieldRow.flags (Except.ok.inj hrow)
  rw [← hflags, Bytes.toNat_ofNat_number _ _ (by decide)]
  exact Bytes.number_lt ..

theorem methodWords_lt {entries : List (Entry MethodRow)} (h : tables.Shows entries)
    {entry : Entry MethodRow} (hmem : entry ∈ entries) :
    entry.row.flags.toNat < 0x10000 ∧ entry.row.implFlags.toNat < 0x10000 := by
  obtain ⟨k, hk⟩ := List.mem_iff_getElem?.mp hmem
  obtain ⟨-, -, place, -, hrow⟩ := h.row_eq k entry hk
  have hflags : UInt32.ofNat (tables.data.number (place + 4 + 2) 2) = entry.row.flags :=
    congrArg MethodRow.flags (Except.ok.inj hrow)
  have himplFlags : UInt32.ofNat (tables.data.number (place + 4) 2) = entry.row.implFlags :=
    congrArg MethodRow.implFlags (Except.ok.inj hrow)
  rw [← hflags, ← himplFlags, Bytes.toNat_ofNat_number _ _ (by decide),
    Bytes.toNat_ofNat_number _ _ (by decide)]
  exact ⟨Bytes.number_lt .., Bytes.number_lt ..⟩

/-- No attribute word of a field is refused, since its column has two bytes. -/
theorem fieldOf_eq {entries : List (Entry FieldRow)} (h : tables.Shows entries)
    {entry : Entry FieldRow} (hmem : entry ∈ entries) :
    fieldOf strings entry = (fun name =>
      { token := entry.token, name, flags := entry.row.flags.toUInt16 }) <$>
        strings.get entry.row.name.toNat := by
  rw [fieldOf, attributeWord_eq_ok.mpr ⟨flags_lt h hmem, rfl⟩]
  cases strings.get entry.row.name.toNat with
  | error fault => rfl
  | ok name => rfl

theorem methodOf_eq {entries : List (Entry MethodRow)} (h : tables.Shows entries)
    {entry : Entry MethodRow} (hmem : entry ∈ entries) :
    methodOf strings entry = (fun name => {
      token := entry.token, name
      flags := entry.row.flags.toUInt16
      implFlags := entry.row.implFlags.toUInt16
      address := entry.row.address }) <$> strings.get entry.row.name.toNat := by
  obtain ⟨hflags, himplFlags⟩ := methodWords_lt h hmem
  rw [methodOf, attributeWord_eq_ok.mpr ⟨hflags, rfl⟩, attributeWord_eq_ok.mpr ⟨himplFlags, rfl⟩]
  cases strings.get entry.row.name.toNat with
  | error fault => rfl
  | ok name => rfl

end Shown

/-- What a declaration takes over from its row, and what it is given. -/
theorem describeType_eq_ok {strings : StringHeap} {entry : Entry TypeRow}
    {fields : List (Option FieldDecl)} {methods : List (Option MethodDecl)} {type : TypeDecl}
    (h : describeType strings entry fields methods = .ok type) :
    TypeCarries strings entry type ∧ type.isNested = false ∧ type.fields = fields ∧
      type.methods = methods := by
  simp only [describeType, Except.bind_eq_ok, Except.pure_eq_ok] at h
  obtain ⟨name, hname, space, hspace, rfl⟩ := h
  exact ⟨⟨rfl, hname, hspace, rfl⟩, rfl, rfl, rfl⟩

namespace Loaded

variable {image : Image} {module : Module}

/-- The slots of each type's fields, as the lists of all types give them. -/
def fieldSlots (loaded : Loaded image module) : List (List (Option FieldDecl)) :=
  Module.fieldSlots loaded.fields loaded.fieldPointers? [] loaded.typeRows

def methodSlots (loaded : Loaded image module) : List (List (Option MethodDecl)) :=
  Module.methodSlots loaded.methods loaded.methodPointers? [] loaded.typeRows

theorem length_fieldSlots (loaded : Loaded image module) :
    loaded.fieldSlots.length = loaded.typeRows.length := by
  simp [fieldSlots, Module.fieldSlots, fieldSpans]

theorem length_methodSlots (loaded : Loaded image module) :
    loaded.methodSlots.length = loaded.typeRows.length := by
  simp [methodSlots, Module.methodSlots, methodSpans]

theorem describe_eq (loaded : Loaded image module) :
    describe loaded.strings loaded.typeRows loaded.fieldSlots loaded.methodSlots =
      .ok loaded.declarations := by
  have h : (declare loaded.strings loaded.typeRows
      ⟨.ofList loaded.fields loaded.fieldPointers?, .ofList loaded.methods loaded.methodPointers?⟩
      >>= fun result => pure result.1) = _ :=
    Module.declare_eq loaded.strings (left_ofList _ _) (left_ofList _ _)
  rw [loaded.declare_eq] at h
  exact h.symm

theorem length_declarations (loaded : Loaded image module) :
    loaded.declarations.length = loaded.typeRows.length :=
  (getElem?_describe loaded.length_fieldSlots loaded.length_methodSlots loaded.describe_eq).1

/-- A declaration before it is known whether it is nested. -/
theorem declaration_eq (loaded : Loaded image module) {k : Nat} {type : TypeDecl}
    (hk : loaded.declarations[k]? = some type) :
    ∃ entry, loaded.typeRows[k]? = some entry ∧ TypeCarries loaded.strings entry type ∧
      type.isNested = false ∧ loaded.fieldSlots[k]? = some type.fields ∧
      loaded.methodSlots[k]? = some type.methods := by
  obtain ⟨entry, fields, methods, hentry, hfields, hmethods, htype⟩ :=
    (getElem?_describe loaded.length_fieldSlots loaded.length_methodSlots loaded.describe_eq).2
      k type hk
  obtain ⟨hcarries, hnested, rfl, rfl⟩ := describeType_eq_ok htype
  exact ⟨entry, hentry, hcarries, hnested, hfields, hmethods⟩

end Loaded

end Module

end Unveil
