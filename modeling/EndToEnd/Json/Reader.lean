/-
  JSON values read from tokens, with an explicit stack of the lists and records that are still open,
  so that values may be nested to any depth.
-/
import EndToEnd.Json.Token

namespace EndToEnd.Json

/-- A list or a record that is still open; its parts so far, last one first. -/
inductive Frame where
  | list (items : List Json)
  | record (members : List (Option String × Json)) (name : Option String)

/-- What may come next. -/
inductive Expected where
  /-- A value. -/
  | value
  /-- A value, or the end of the list that has just been opened. -/
  | firstItem
  /-- A name, or the end of the record that has just been opened. -/
  | firstName
  /-- A name. -/
  | name
  /-- The colon after a name. -/
  | colon
  /-- A comma, or the end of what is open. -/
  | more
  /-- Nothing: the value is complete. -/
  | nothing (v : Json)

/-- The state after a complete value. -/
def deliver (v : Json) : List Frame → Expected × List Frame
  | [] => (.nothing v, [])
  | .list items :: fs => (.more, .list (v :: items) :: fs)
  | .record members name :: fs => (.more, .record ((name, v) :: members) none :: fs)

/-- The value that a token is by itself. -/
def Token.scalar? : Token → Option Json
  | .null => some .null
  | .bool b => some (.bool b)
  | .int n => some (.int n)
  | .real => some .real
  | .text s => some (.text s)
  | .garbled => some .garbled
  | _ => none

/-- The name that a token is. -/
def Token.name? : Token → Option (Option String)
  | .text s => some (some s)
  | .garbled => some none
  | _ => none

/-- The state after the first token of a value. -/
def startValue (t : Token) (fs : List Frame) : Option (Expected × List Frame) :=
  match t with
  | .openList => some (.firstItem, .list [] :: fs)
  | .openRecord => some (.firstName, .record [] none :: fs)
  | t => t.scalar?.map (deliver · fs)

/-- The state after a name. -/
def startMember (t : Token) : List Frame → Option (Expected × List Frame)
  | .record members _ :: fs => t.name?.map fun name => (.colon, .record members name :: fs)
  | _ => none

/-- The state after one more token. -/
def step (t : Token) (e : Expected) (fs : List Frame) : Option (Expected × List Frame) :=
  match e with
  | .value => startValue t fs
  | .firstItem =>
    match t, fs with
    | .closeList, .list _ :: fs => some (deliver (.list []) fs)
    | t, fs => startValue t fs
  | .firstName =>
    match t, fs with
    | .closeRecord, .record _ _ :: fs => some (deliver (.record []) fs)
    | t, fs => startMember t fs
  | .name => startMember t fs
  | .colon => if t = .colon then some (.value, fs) else none
  | .more =>
    match t, fs with
    | .comma, .list items :: fs => some (.value, .list items :: fs)
    | .comma, .record members name :: fs => some (.name, .record members name :: fs)
    | .closeList, .list items :: fs => some (deliver (.list items.reverse) fs)
    | .closeRecord, .record members _ :: fs => some (deliver (.record members.reverse) fs)
    | _, _ => none
  | .nothing _ => none

/-- The state after tokens. -/
def steps : List Token → Expected → List Frame → Option (Expected × List Frame)
  | [], e, fs => some (e, fs)
  | t :: ts, e, fs =>
    match step t e fs with
    | none => none
    | some (e, fs) => steps ts e fs

/-- The value that tokens stand for. -/
def ofTokens? (ts : List Token) : Option Json :=
  match steps ts .value [] with
  | some (.nothing v, _) => some v
  | _ => none

/-- The value that octets stand for. -/
def read? (o : Octets) : Option Json :=
  match tokens o with
  | none => none
  | some ts => ofTokens? ts

end EndToEnd.Json
