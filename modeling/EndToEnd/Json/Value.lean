/-
  JSON values and their compact written form.

  A value keeps no more than a reader of records can ask for: of numbers only the whole ones, and
  of strings that stand for no text (half a surrogate pair, octets that are not UTF-8) only that
  they are there.
-/
import EndToEnd.Text.Decimal
import EndToEnd.Text.Hex

namespace EndToEnd

/-- A JSON value. -/
inductive Json where
  | null
  | bool (b : Bool)
  /-- A number written without fraction and exponent; negative zero is not among them. -/
  | int (n : Int)
  /-- Any other number. -/
  | real
  | text (s : String)
  /-- A string that stands for no text. -/
  | garbled
  | list (items : List Json)
  /-- Members in the order they are written; a name may be garbled. -/
  | record (members : List (Option String × Json))
deriving Inhabited

namespace Json

/-- One character inside a written string. -/
def escape (c : Char) : List Char :=
  if c = '"' then ['\\', '"']
  else if c = '\\' then ['\\', '\\']
  else if c.toNat = 8 then ['\\', 'b']
  else if c.toNat = 12 then ['\\', 'f']
  else if c = '\n' then ['\\', 'n']
  else if c = '\r' then ['\\', 'r']
  else if c = '\t' then ['\\', 't']
  else if c.toNat < 32 then
    ['\\', 'u', '0', '0', Hex.digit (c.toNat / 16), Hex.digit (c.toNat % 16)]
  else [c]

/-- The written form of a string. -/
def quote (s : String) : List Char := '"' :: (s.toList.flatMap escape ++ ['"'])

/-- The parts with a comma between any two of them. -/
def separate : List (List Char) → List Char
  | [] => []
  | [p] => p
  | p :: ps => p ++ ',' :: separate ps

mutual

/-- The written form of a value, without any space. What stands for no text is written empty. -/
def write : Json → List Char
  | null => "null".toList
  | bool true => "true".toList
  | bool false => "false".toList
  | int n => Decimal.signed n
  | real => "0.0".toList
  | text s => quote s
  | garbled => quote ""
  | list items => '[' :: (separate (writeItems items) ++ [']'])
  | record members => '\x7b' :: (separate (writeMembers members) ++ ['\x7d'])

/-- The written forms of values. -/
def writeItems : List Json → List (List Char)
  | [] => []
  | v :: vs => write v :: writeItems vs

/-- The written forms of members. -/
def writeMembers : List (Option String × Json) → List (List Char)
  | [] => []
  | (name, v) :: ms => (quote (name.getD "") ++ ':' :: write v) :: writeMembers ms

end

/-- The text of a value. -/
def render (v : Json) : String := String.ofList v.write

end Json

end EndToEnd
