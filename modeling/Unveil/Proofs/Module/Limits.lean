import Unveil.Proofs.Metadata.RuntimeHeader
import Unveil.Proofs.Module.Members
import Unveil.Proofs.Module.Taking
import Unveil.Proofs.Table.Rows

/-!
What a load can meet at most. Metadata is never large, and a table has no more rows than
the metadata has bytes, so positions stay below the greatest word and no count of them is
held there. A load therefore yields what is loaded with counts of any size.
-/

namespace Unveil

open Logged

namespace Module

section Bounds

variable {α : Type} {metadata stream data : Bytes} {tables : TablesStream} {bound : Nat}

/-- A stream is no longer than the metadata that it lies in. -/
theorem size_streamData {header : StreamHeader} (h : streamData metadata header = .ok stream) :
    stream.size ≤ metadata.size := by
  have hsize := Bytes.size_slice h
  obtain ⟨hroom, -⟩ := Bytes.slice_eq_ok.mp h
  omega

/-- A table that redirects has no more rows than there are bytes. -/
theorem size_pointers {ρ : Type} [TypedRow ρ] [Schema ρ] (h : TablesStream.Accepted data tables)
    {present : Bool} {column : Entry ρ → UInt32} {pointers? : Option (Array UInt32)}
    (hpointers : (if present then do
        let rows ← tables.rows ρ
        pure (some (rows.map column).toArray)
      else .ok none) = (.ok pointers? : Except Fault (Option (Array UInt32)))) :
    ∀ pointers, pointers? = some pointers → pointers.size ≤ data.size := by
  rintro pointers rfl
  split at hpointers
  · obtain ⟨rows, hrows, hsome⟩ := Except.bind_eq_ok.mp hpointers
    cases hsome
    rw [List.size_toArray, List.length_map]
    exact h.length_rows hrows
  · cases hpointers

/-- Lists can name no more positions than there are members or pointers. -/
theorem reachVia_le {members : List α} {pointers? : Option (Array UInt32)}
    (hmembers : members.length ≤ bound)
    (hpointers : ∀ pointers, pointers? = some pointers → pointers.size ≤ bound) :
    MemberPool.reachVia members pointers? ≤ bound := by
  cases pointers? with
  | none => exact hmembers
  | some pointers => exact hpointers pointers rfl

/-- A declaration for each row. -/
theorem length_declared {ρ : Type} [TypedRow ρ] [Schema ρ] {step : Entry ρ → Except Fault α}
    {declared : List α} (h : TablesStream.Accepted data tables)
    (hdeclared : (tables.rows ρ >>= List.mapM step) = .ok declared) :
    declared.length ≤ data.size := by
  obtain ⟨rows, hrows, hmapped⟩ := Except.bind_eq_ok.mp hdeclared
  rw [(Except.getElem?_mapM hmapped).1]
  exact h.length_rows hrows

/-- The members of a file of bounded size are named by words. -/
theorem narrow_ofList {fields : List FieldDecl} {methods : List MethodDecl}
    {fieldPointers? methodPointers? : Option (Array UInt32)} {strings : StringHeap}
    (h : TablesStream.Accepted data tables) (hsize : data.size < MemberPool.wordMax)
    (hfields : (tables.rows FieldRow >>= List.mapM (fieldOf strings)) = .ok fields)
    (hmethods : (tables.rows MethodRow >>= List.mapM (methodOf strings)) = .ok methods)
    (hfieldPointers : fieldPointers tables = .ok fieldPointers?)
    (hmethodPointers : methodPointers tables = .ok methodPointers?) :
    Pools.Narrow ⟨.ofList fields fieldPointers?, .ofList methods methodPointers?⟩ := by
  have hfieldReach := reachVia_le (length_declared h hfields) (size_pointers h hfieldPointers)
  have hmethodReach := reachVia_le (length_declared h hmethods) (size_pointers h hmethodPointers)
  constructor
  · rw [(MemberPool.left_ofList fields fieldPointers?).reach_eq]
    omega
  · rw [(MemberPool.left_ofList methods methodPointers?).reach_eq]
    omega

/-- The tables of a module lie in metadata of bounded size. -/
theorem size_stream_le {headerData : Bytes} {header : RuntimeHeader} {offset : Nat}
    {tablesHeader : StreamHeader} (hheader : RuntimeHeader.ofData headerData = .ok header)
    (hmetadata : data.slice offset header.metadata.size.toNat = .ok metadata)
    (hstream : streamData metadata tablesHeader = .ok stream) :
    stream.size ≤ RuntimeHeader.metadataLimit := by
  have hlimit := RuntimeHeader.metadataSize_le hheader
  rw [← Bytes.size_slice hmetadata] at hlimit
  exact Nat.le_trans (size_streamData hstream) hlimit

end Bounds

theorem yields_load (image : Image) : Yields (load image) (loadSilently image) := by
  unfold load loadSilently
  refine (yields_lift _).bind fun headerOffset _ => (yields_lift _).bind fun headerData _ =>
    (yields_lift _).bind fun header hheader => (yields_lift _).bind fun offset _ =>
    (yields_lift _).bind fun metadata hmetadata => (yields_lift _).bind fun root _ =>
    (yields_lift _).bind fun tablesHeader _ => ?_
  cases hstrings : root.stream? .strings with
  | none =>
      simp only [readStrings, hstrings]
      exact yields_throw_bind
  | some stringsHeader =>
      simp only [readStrings, hstrings, pure_bind]
      refine (yields_lift _).bind fun strings _ => ?_
      cases hguids : root.stream? .guids
      all_goals simp only [readGuids, hguids, pure_bind]
      case' some => refine ((yields_lift _).map some).bind fun guids? _ => ?_
      all_goals
        refine (yields_lift _).bind fun tables htables => (yields_debug _ _).after ?_
        obtain ⟨stream, hstream, hread⟩ := Except.bind_eq_ok.mp htables
        have haccepted := TablesStream.ofData_eq_ok.mp hread
        have hsize := size_stream_le hheader hmetadata hstream
        refine (yields_lift _).bind fun moduleRows _ => ?_
        cases moduleRows
      case none.nil => exact yields_throw_bind
      case some.nil => exact yields_throw_bind
      all_goals
        simp only [firstRow, pure_bind]
        refine (yields_lift _).bind fun name _ => (yields_lift _).bind fun mvid _ =>
          (yields_lift _).bind fun fields hfields => (yields_lift _).bind fun methods hmethods =>
          (yields_forM fun part _ => yields_debug _ _).after <|
          (yields_lift _).bind fun fieldPointers? hfieldPointers =>
          (yields_lift _).bind fun methodPointers? hmethodPointers => ?_
        have hnarrow := narrow_ofList haccepted (Nat.lt_of_le_of_lt hsize (by decide)) hfields
          hmethods hfieldPointers hmethodPointers
        exact (yields_lift _).bind fun typeRows _ =>
          (yields_declare hnarrow strings typeRows).bind fun declared _ =>
          (MemberPool.yields_report _ _).after <| (MemberPool.yields_report _ _).after <|
          (yields_lift _).bind fun nestingRows _ => (Nesting.yields_build _ _).bind fun types _ =>
          (yields_debug _ _).after <| (yields_lift _).bind fun tablesOffset _ => yields_pure _

theorem yields_ofData [Container.Reader] (data : Bytes) :
    Yields (ofData data) (ofDataSilently data) :=
  (yields_lift _).bind fun image _ => yields_load image

/-- A module is loaded, with whatever journal, exactly if it is loaded without
one. -/
theorem ofData_eq_ok [Container.Reader] {data : Bytes} {journal : Journal} {module : Module} :
    (∃ after, ofData data journal = .ok module after) ↔ ofDataSilently data = .ok module :=
  (yields_ofData data).ok_iff

end Module

end Unveil
