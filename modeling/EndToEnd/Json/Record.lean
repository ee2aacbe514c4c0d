/-
  How a record of the domain is taken from a JSON value.

  The fields of a record stand under their names in any order, or in a list in the record's own
  order. A field may be left out where the record says so; names that the record does not have are
  passed over; a field given twice is refused.
-/
import EndToEnd.Json.Reader

namespace EndToEnd.Json

/-- The value of a name that occurs exactly once, `none` inside where it does not occur. -/
def member? (name : String) (members : List (Option String × Json)) : Option (Option Json) :=
  match members.filter (fun m => m.1 == some name) with
  | [] => some none
  | [m] => some (some m.2)
  | _ => none

/-- The fields with the given names, in their order; a field that is left out is `none`. -/
def fields? (names : List String) : Json → Option (List (Option Json))
  | .record members =>
    if members.all (fun m => m.1.isSome) then names.mapM (member? · members) else none
  | .list items =>
    if items.length ≤ names.length then
      some (items.map some ++ List.replicate (names.length - items.length) none)
    else none
  | _ => none

/-- The text that a value is. -/
def text? : Json → Option String
  | .text s => some s
  | _ => none

/-- The text that a value is, or none for null. -/
def optionalText? : Json → Option (Option String)
  | .null => some none
  | .text s => some (some s)
  | _ => none

/-- The number below `bound` that a value is. -/
def natBelow? (bound : Nat) : Json → Option Nat
  | .int n => if 0 ≤ n ∧ n < bound then some n.toNat else none
  | _ => none

/-- The 64-bit number with sign that a value is. -/
def int64? : Json → Option Int64
  | .int n => if -2 ^ 63 ≤ n ∧ n < 2 ^ 63 then some (Int64.ofInt n) else none
  | _ => none

/-- A field that may be left out. -/
def orDefault {α : Type} (v : Option Json) (read : Json → Option α) (default : α) : Option α :=
  match v with
  | none => some default
  | some v => read v

/-- A field that must be there. -/
def required {α : Type} (v : Option Json) (read : Json → Option α) : Option α := v.bind read

/-- The value of a text. -/
def ofText? (s : String) : Option Json := read? (Utf8.encode s)

end EndToEnd.Json
