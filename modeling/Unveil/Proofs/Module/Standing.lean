import Unveil.Proofs.Module.Taking

namespace Unveil

namespace Nesting

variable {types : List TypeDecl} {rows : List (Entry NestingRow)} {links : Links}

/-- A declaration as the forest has it: nested exactly if some row names it so. -/
def declared (types : List TypeDecl) (rows : List (Entry NestingRow)) (index : Nat) :
    Option TypeDecl :=
  types[index]?.map fun type => { type with isNested := names types.length rows index }

theorem Linked.types_eq_declared (h : Linked types rows links)
    (hfresh : ∀ type ∈ types, type.isNested = false) :
    (links.types[·]?) = declared types rows := by
  funext index
  rw [h.types_eq index, declared]
  refine Option.map_congr fun type hmem => ?_
  rw [marked, hfresh type (List.mem_of_getElem? hmem), Bool.false_or]

/-- The forest is the one that the rows describe. The outermost slots are the types
without a parent, in the order of their rows; the slots of a type are those of its
children, in the order of the rows that name it as enclosing, an empty one for each
row whose nested type does not exist. Every type is met once, and it differs from its
declaration only in being marked as nested if some row names it so. -/
theorem build_stands {journal after : Journal} {forest : Forest}
    (hfresh : ∀ type ∈ types, type.isNested = false)
    (hbuild : build types rows journal = .ok forest after) :
    ∃ met, Stands (declared types rows) (childSlots types.length rows)
        (rootSlots types.length rows) forest met ∧
      met.map (declared types rows) = forest.preorder.map some ∧
      met.Perm (List.range types.length) := by
  have hsilent := (yields_build types rows).ok_iff.mp ⟨after, hbuild⟩
  obtain ⟨links, hlinks, hassemble⟩ := Except.bind_eq_ok.mp hsilent
  have hlinked := linked_of_foldlM hlinks
  obtain ⟨met, hstands, hperm⟩ := hlinked.stands hassemble
  rw [hlinked.types_eq_declared hfresh] at hstands
  exact ⟨met, hstands, hstands.map_declared, hperm⟩

def sampleType (rid : Nat) (nested : Bool) : TypeDecl where
  token := .ofParts .typeDef rid
  name := ""
  space := ""
  flags := 0
  isNested := nested
  methods := []
  fields := []

def sampleTypes : List TypeDecl := (List.range' 1 5).map (sampleType · false)

/-- Rows that make three levels of five types. One names a type that does not exist, one
comes too late for its type, and one puts a type into none that exists. -/
def sampleRows : List (Entry NestingRow) :=
  [⟨1, 0, ⟨1, 3⟩⟩, ⟨2, 0, ⟨2, 1⟩⟩, ⟨3, 0, ⟨9, 3⟩⟩, ⟨4, 0, ⟨2, 3⟩⟩, ⟨5, 0, ⟨4, 9⟩⟩]

def sampleForest : Forest :=
  .present (sampleType 3 false)
    (.present (sampleType 1 true) (.present (sampleType 2 true) .nil .nil) (.absent .nil))
    (.present (sampleType 4 true) .nil (.present (sampleType 5 false) .nil .nil))

theorem sample_stands : Stands (declared sampleTypes sampleRows) (childSlots 5 sampleRows)
    (rootSlots 5 sampleRows) sampleForest [2, 0, 1, 3, 4] := by
  let Here := Stands (declared sampleTypes sampleRows) (childSlots 5 sampleRows)
  have hnone : ∀ index ∈ [1, 3, 4], childSlots 5 sampleRows index = [] := by decide
  have hleaf (index : Nat) (hmem : index ∈ [1, 3, 4]) :
      Here (childSlots 5 sampleRows index) .nil [] := hnone index hmem ▸ .nil
  have hlater : Here [some 3, some 4]
      (.present (sampleType 4 true) .nil (.present (sampleType 5 false) .nil .nil)) [3, 4] :=
    .present (by decide) (hleaf 3 (by decide)) (.present (by decide) (hleaf 4 (by decide)) .nil)
  have hmiddle : Here (childSlots 5 sampleRows 0) (.present (sampleType 2 true) .nil .nil) [1] := by
    rw [show childSlots 5 sampleRows 0 = [some 1] by decide]
    exact .present (by decide) (hleaf 1 (by decide)) .nil
  have houter : Here (childSlots 5 sampleRows 2)
      (.present (sampleType 1 true) (.present (sampleType 2 true) .nil .nil) (.absent .nil))
      [0, 1] := by
    rw [show childSlots 5 sampleRows 2 = [some 0, none] by decide]
    exact .present (by decide) hmiddle (.absent .nil)
  rw [show rootSlots 5 sampleRows = [some 2, some 3, some 4] by decide]
  exact .present (by decide) houter hlater

theorem build_sample : ∃ after, build sampleTypes sampleRows #[] = .ok sampleForest after := by
  have hdepths : (do
      let links ← sampleRows.foldlM linkSilently (Links.ofTypes sampleTypes)
      depths links.types links.parents) = Except.ok #[1, 2, 0, 0, 0] :=
    eq_ok_of_toOption (by decide +kernel)
  obtain ⟨links, hlinks, hfound⟩ := Except.bind_eq_ok.mp hdepths
  have hlinked := linked_of_foldlM hlinks
  obtain ⟨forest, met, hforest, hstands, -⟩ := hlinked.exists_forest hfound
  rw [hlinked.types_eq_declared (by decide)] at hstands
  obtain ⟨rfl, -⟩ := sample_stands.unique hstands
  have hsilent : buildSilently sampleTypes sampleRows = .ok sampleForest :=
    Except.bind_eq_ok.mpr ⟨links, hlinks, hforest⟩
  exact (yields_build sampleTypes sampleRows).ok_iff.mpr hsilent

theorem build_stands_sample :
    (∀ type ∈ sampleTypes, type.isNested = false) ∧
      ∃ after, build sampleTypes sampleRows #[] = .ok sampleForest after ∧
        rootSlots 5 sampleRows = [some 2, some 3, some 4] ∧
        childSlots 5 sampleRows 2 = [some 0, none] ∧
        ∃ met, Stands (declared sampleTypes sampleRows) (childSlots 5 sampleRows)
            (rootSlots 5 sampleRows) sampleForest met ∧
          met.map (declared sampleTypes sampleRows) = sampleForest.preorder.map some ∧
          met.Perm (List.range 5) := by
  have hfresh : ∀ type ∈ sampleTypes, type.isNested = false := by decide
  obtain ⟨after, hbuild⟩ := build_sample
  exact ⟨hfresh, after, hbuild, by decide, by decide, build_stands hfresh hbuild⟩

end Nesting

end Unveil
