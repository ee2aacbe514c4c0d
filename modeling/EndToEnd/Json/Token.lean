/-
  The tokens of JSON, read from octets.

  Strings are taken apart here: escapes are resolved, and a string that stands for no text is a
  token of its own, because it may stand where nobody looks at it.
-/
import EndToEnd.Json.Value
import EndToEnd.Text.Utf8

namespace EndToEnd.Json

/-- A token. -/
inductive Token where
  | openList | closeList | openRecord | closeRecord | comma | colon
  | null
  | bool (b : Bool)
  | int (n : Int)
  | real
  | text (s : String)
  | garbled
deriving DecidableEq

/-- Space between tokens. -/
def isSpace (b : UInt8) : Bool := b == 32 || b == 9 || b == 10 || b == 13

/-- Whether an octet is a decimal digit. -/
def isDigit (b : UInt8) : Bool := 48 ≤ b && b ≤ 57

/-- The value of four hexadecimal digits. -/
def unit? (a b c d : UInt8) : Option Nat :=
  let v := fun (x : UInt8) => Hex.value? (Char.ofNat x.toNat)
  match v a, v b, v c, v d with
  | some a, some b, some c, some d => some (4096 * a + 256 * b + 16 * c + d)
  | _, _, _, _ => none

/-- The octets of the character with a number. -/
def charOctets (n : Nat) : Octets := Utf8.encode (String.singleton (Char.ofNat n))

/-- The octet that a one-letter escape stands for. -/
def escaped? (b : UInt8) : Option UInt8 :=
  if b == 34 || b == 92 || b == 47 then some b
  else if b == 98 then some 8
  else if b == 102 then some 12
  else if b == 110 then some 10
  else if b == 114 then some 13
  else if b == 116 then some 9
  else none

/-- What a string is made of: octets, and 16-bit units written with four digits. -/
inductive Atom where
  | octet (b : UInt8)
  | unit (n : Nat)

/-- The atoms of a string up to its closing quote, and what follows it. `acc` holds the atoms read
so far, last one first. -/
def atoms : Octets → (acc : List Atom) → Option (List Atom × Octets)
  | [], _ => none
  | b :: rest, acc =>
    if b == 34 then some (acc.reverse, rest)
    else if b == 92 then
      match rest with
      | 117 :: a :: b :: c :: d :: rest =>
        match unit? a b c d with
        | none => none
        | some n => atoms rest (.unit n :: acc)
      | e :: rest =>
        match escaped? e with
        | none => none
        | some c => atoms rest (.octet c :: acc)
      | [] => none
    else if b < 32 then none
    else atoms rest (.octet b :: acc)

/-- Whether a unit is the first half of a pair. -/
def isHigh (n : Nat) : Bool := 0xd800 ≤ n && n ≤ 0xdbff

/-- Whether a unit is the second half of a pair. -/
def isLow (n : Nat) : Bool := 0xdc00 ≤ n && n ≤ 0xdfff

/-- The octets that atoms stand for, if every half of a pair has its other half. `acc` holds the
octets so far, last one first. -/
def content? : List Atom → (acc : Octets) → Option Octets
  | [], acc => some acc.reverse
  | .octet b :: rest, acc => content? rest (b :: acc)
  | .unit n :: .unit m :: rest, acc =>
    if isHigh n then
      if isLow m then
        content? rest ((charOctets (0x10000 + (n - 0xd800) * 0x400 + (m - 0xdc00))).reverse ++ acc)
      else none
    else if isLow n then none
    else content? (.unit m :: rest) ((charOctets n).reverse ++ acc)
  | .unit n :: rest, acc =>
    if isHigh n || isLow n then none
    else content? rest ((charOctets n).reverse ++ acc)

/-- The token of a string. -/
def stringToken (as : List Atom) : Token :=
  match (content? as []).bind Utf8.decode? with
  | some s => .text s
  | none => .garbled

/-- The number of decimal digits. -/
def digitsValue (ds : Octets) : Nat := ds.foldl (fun v b => 10 * v + (b.toNat - 48)) 0

/-- The digits at the front, and what follows them. -/
def takeDigits (o : Octets) : Octets × Octets := (o.takeWhile isDigit, o.dropWhile isDigit)

/-- What follows the exponent of a number, if there is a well-formed one. -/
def exponentRest (o : Octets) : Option Octets :=
  let o := match o with
    | b :: rest => if b == 43 || b == 45 then rest else o
    | [] => o
  let (ds, rest) := takeDigits o
  if ds.isEmpty then none else some rest

/-- Whether a fraction or an exponent follows, and what comes after it. -/
def fractionRest (o : Octets) : Option (Bool × Octets) :=
  let exponent := fun (seen : Bool) (o : Octets) =>
    match o with
    | b :: rest =>
      if b == 101 || b == 69 then (exponentRest rest).map (true, ·) else some (seen, o)
    | [] => some (seen, o)
  match o with
  | b :: rest =>
    if b == 46 then
      let (ds, rest) := takeDigits rest
      if ds.isEmpty then none else exponent true rest
    else exponent false o
  | [] => some (false, [])

/-- The number at the front, after its sign. A zero in front stands alone. -/
def numberToken (negative : Bool) (o : Octets) : Option (Token × Octets) :=
  let (ds, rest) := match o with
    | 48 :: rest => ([48], rest)
    | _ => takeDigits o
  if ds.isEmpty then none
  else
    match fractionRest rest with
    | none => none
    | some (true, rest) => some (.real, rest)
    | some (false, rest) =>
      let v := digitsValue ds
      if negative then
        if v = 0 then some (.real, rest) else some (.int (-v), rest)
      else some (.int v, rest)

/-- The token at the front, and what follows it. -/
def token? : Octets → Option (Token × Octets)
  | [] => none
  | b :: rest =>
    if b == 91 then some (.openList, rest)
    else if b == 93 then some (.closeList, rest)
    else if b == 123 then some (.openRecord, rest)
    else if b == 125 then some (.closeRecord, rest)
    else if b == 44 then some (.comma, rest)
    else if b == 58 then some (.colon, rest)
    else if b == 34 then
      match atoms rest [] with
      | none => none
      | some (as, rest) => some (stringToken as, rest)
    else if b == 45 then numberToken true rest
    else if isDigit b then numberToken false (b :: rest)
    else if b == 110 then
      match rest with
      | 117 :: 108 :: 108 :: rest => some (.null, rest)
      | _ => none
    else if b == 116 then
      match rest with
      | 114 :: 117 :: 101 :: rest => some (.bool true, rest)
      | _ => none
    else if b == 102 then
      match rest with
      | 97 :: 108 :: 115 :: 101 :: rest => some (.bool false, rest)
      | _ => none
    else none

/-- At most `n` tokens in front of the end of the octets; `acc` holds those already read, last one
first. -/
def tokensFrom : Nat → Octets → List Token → Option (List Token)
  | 0, o, acc => if o.all isSpace then some acc.reverse else none
  | n + 1, o, acc =>
    match o.dropWhile isSpace with
    | [] => some acc.reverse
    | b :: rest =>
      match token? (b :: rest) with
      | none => none
      | some (t, rest) => tokensFrom n rest (t :: acc)

/-- The tokens of octets. No octet belongs to two of them, so there are no more than octets. -/
def tokens (o : Octets) : Option (List Token) := tokensFrom o.length o []

end EndToEnd.Json
