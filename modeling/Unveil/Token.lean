import Unveil.Table.Id

/-!
Tokens. A token names one row of one table in a single 32-bit word: the table
number is the top byte and the row number the three bytes below. It is written in
base sixteen, as addresses and attribute words are.
-/

namespace Unveil

namespace Hexadecimal

/-- The digits of `n` in base sixteen with letters in lower case and no
leading zeros, `0` being one digit. -/
def lower (n : Nat) : String :=
  String.ofList (Nat.toDigits 16 n)

def upper (n : Nat) : String :=
  String.ofList ((Nat.toDigits 16 n).map Char.toUpper)

/-- `text` with zeros in front until it has `width` characters. Longer text
is left as it is. -/
def padded (width : Nat) (text : String) : String :=
  String.ofList (text.toList.leftpad width '0')

end Hexadecimal

structure Token where
  value : UInt32
  deriving DecidableEq, Repr

namespace Token

/-- A token has room for row numbers below this bound only. -/
def rowSpan : Nat := 0x1000000

/-- The token of a row. A row number keeps its low 24 bits. -/
def ofParts (table : TableId) (row : Nat) : Token :=
  ⟨UInt32.ofNat (table.number * rowSpan + row % rowSpan)⟩

/-- The number in the top byte, which need not belong to a table. -/
def tableNumber (token : Token) : Nat := token.value.toNat / rowSpan

def row (token : Token) : Nat := token.value.toNat % rowSpan

/-- Row numbers start at one, so row zero refers to nothing. -/
def isNull (token : Token) : Bool := token.row == 0

def table? (token : Token) : Option TableId := TableId.ofNumber? token.tableNumber

/-- Eight lower-case digits, the way diagnostics name a declaration. -/
def text (token : Token) : String :=
  "0x" ++ Hexadecimal.padded 8 (Hexadecimal.lower token.value.toNat)

def description (token : Token) : String :=
  "Token(" ++ token.text ++ ", table: 0x" ++
    Hexadecimal.padded 2 (Hexadecimal.lower token.tableNumber) ++
    ", row: " ++ toString token.row ++ ")"

end Token

end Unveil
