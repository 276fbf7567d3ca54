import Unveil.Declaration.Forest
import Unveil.Table.Stream
import Std.Data.HashMap

/-!
Attribute words by row. Declarations have been changed in the forest; what is
written are rows. Between the two stands a lookup from the number of a row to
the word that its declaration has now.

Three tables hold attribute words. `WordedRow` says for each of them where in a
row the word stands and how it is looked up, so that whoever writes words need
not tell the three apart.
-/

namespace Unveil

abbrev WordMap (α : Type) := Std.HashMap Nat α

/-- The attribute words to be written. A row without an entry keeps its
word. -/
structure AttributeWords where
  types : WordMap UInt32
  methods : WordMap UInt16
  fields : WordMap UInt16

namespace AttributeWords

/-- The methods of some types, empty slots left out. -/
def methodsOf (types : List TypeDecl) : List MethodDecl :=
  types.flatMap fun type => type.methods.filterMap id

def fieldsOf (types : List TypeDecl) : List FieldDecl :=
  types.flatMap fun type => type.fields.filterMap id

/-- The words of every declaration in a forest, under the number of the row
that the declaration's token names. Of several for one row the last counts. -/
def ofForest (forest : Forest) : AttributeWords :=
  let types := forest.types
  { types := .ofList (types.map fun type => (type.token.row, type.flags))
    methods := .ofList ((methodsOf types).map fun method => (method.token.row, method.flags))
    fields := .ofList ((fieldsOf types).map fun field => (field.token.row, field.flags)) }

end AttributeWords

/-- The rows that carry an attribute word. -/
class WordedRow (ρ : Type) extends TypedRow ρ where
  /-- The distance of the word from the start of its row. -/
  wordOffset : Nat
  /-- How many bytes the word has. -/
  wordWidth : Nat
  word : ρ → UInt32
  withWord : ρ → UInt32 → ρ
  /-- The word to be written into the row of this number. -/
  newWord? : AttributeWords → Nat → Option UInt32

instance : WordedRow TypeRow where
  wordOffset := 0
  wordWidth := 4
  word row := row.flags
  withWord row flags := { row with flags }
  newWord? words rid := words.types[rid]?

instance : WordedRow MethodRow where
  wordOffset := MethodRow.flagsOffset
  wordWidth := 2
  word row := row.flags
  withWord row flags := { row with flags }
  newWord? words rid := words.methods[rid]?.map UInt16.toUInt32

instance : WordedRow FieldRow where
  wordOffset := 0
  wordWidth := 2
  word row := row.flags
  withWord row flags := { row with flags }
  newWord? words rid := words.fields[rid]?.map UInt16.toUInt32

/-- The word to be written into a row, if it differs from the one there. -/
def Entry.changedWord? {ρ : Type} [WordedRow ρ] (words : AttributeWords)
    (entry : Entry ρ) : Option UInt32 :=
  (WordedRow.newWord? ρ words entry.rid).filter (· ≠ WordedRow.word entry.row)

end Unveil
