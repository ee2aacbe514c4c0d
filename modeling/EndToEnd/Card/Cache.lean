/-
  The card cache: a table of cards that knows which of them are current.

  A card that is stored marks its predecessor as replaced, before it is written itself; a card whose
  successor is there already is stored as replaced; and the mark is never taken back. Reading walks
  from a card back over its predecessors, as far as they are there, belong to the same identity and
  get older.
-/
import EndToEnd.Action
import EndToEnd.Card.Basic
import EndToEnd.Settings
import EndToEnd.Table

namespace EndToEnd

/-- What is kept of a card. -/
structure CardRow where
  id : String
  identity : String
  outdated : Bool
  previousId : Option String
  createdAt : Timestamp
  /-- The JSON text of the raw card. -/
  raw : String
deriving DecidableEq, Inhabited

namespace CardRow

/-- The row of a card. -/
def ofCard (c : Card) : CardRow :=
  ⟨c.id, c.identity, c.outdated, c.previousId, c.createdAt, c.raw.toJson.render⟩

/-- The card of a row. Only the mark is taken from the row itself; all else is what was signed. -/
def toCard (S : CipherSuite) (r : CardRow) : Except Error Card :=
  match (RawCard.ofJsonText r.raw).bind (Card.ofRaw S) with
  | .error e => .error (.storageCorrupted s!"Cached card {r.id}: {e.message}")
  | .ok c =>
    if c.id = r.id then .ok { c with outdated := r.outdated }
    else .error (.storageCorrupted s!"Cached card {r.id} hashes to {c.id}")

end CardRow

/-- The rows of a card cache. -/
abbrev CardRows := Table CardRow.id

namespace CardRows

/-- The rows of an identity, oldest first. -/
def ofIdentity (identity : String) (t : CardRows) : List CardRow :=
  Timestamp.inOrder (·.createdAt) (t.rows.filter fun r => r.identity = identity)

/-- The ids of the rows that are not marked as replaced, in order. -/
def currentIds (t : CardRows) : List String :=
  ((t.rows.filter fun r => !r.outdated).map (·.id)).mergeSort fun a b => decide (a ≤ b)

end CardRows

/-- The one to take of several current cards of an identity. -/
def DuplicatePolicy.choose {α : Type} (policy : DuplicatePolicy) (time : α → Timestamp)
    (identity : String) (current : List α) : Except Error α :=
  match current with
  | [] => .error (.cardNotFound identity)
  | [c] => .ok c
  | c :: cs =>
    match policy, Timestamp.latest? time (c :: cs) with
    | .preferNewest, some newest => .ok newest
    | _, _ => .error (.ambiguousCards identity (c :: cs).length)

/-- A card cache: its rows, what to do with duplicates, and which calls to the table will fail. -/
structure CardCache where
  rows : CardRows
  policy : DuplicatePolicy
  inserts : Schedule Error
  queries : Schedule Error

namespace CardCache

/-- A cache without cards whose table never fails. -/
def empty (policy : DuplicatePolicy) : CardCache := ⟨.empty, policy, .clear, .clear⟩

/-- Writes a row. -/
def insert (r : CardRow) : Action CardCache Unit := fun c =>
  match c.inserts.next with
  | (some e, inserts) => (.error e, { c with inserts })
  | (none, inserts) => (.ok (), { c with inserts, rows := c.rows.insert r })

/-- Reads from the table. -/
def query {α : Type} (read : CardRows → α) : Action CardCache α := fun c =>
  match c.queries.next with
  | (some e, queries) => (.error e, { c with queries })
  | (none, queries) => (.ok (read c.rows), { c with queries })

/-- The predecessors of a card, newest first, from the one with the given id on. The walk ends at an
id that was met before, that is not cached, or whose card does not precede. -/
def ancestors (S : CipherSuite) (identity : String) (visited : List String) (newer : Timestamp) :
    Option String → Action CardCache (List Card)
  | none => pure []
  | some id =>
    if id ∈ visited then pure []
    else do
      match ← query (·.find? id) with
      | none => pure []
      | some row =>
        let previous ← Action.lift (row.toCard S)
        if _h : previous.identity = identity ∧ previous.createdAt < newer then
          let older ← ancestors S identity (id :: visited) previous.createdAt previous.previousId
          pure (previous :: older)
        else pure []
termination_by newer.rank
decreasing_by exact Timestamp.rank_lt _h.2

/-- The card of a row with its predecessors. -/
def resolve (S : CipherSuite) (row : CardRow) : Action CardCache CardChain := do
  let card ← Action.lift (row.toCard S)
  let older ← ancestors S card.identity [card.id] card.createdAt card.previousId
  pure ⟨card, older⟩

/-- The card with an id. -/
def get (S : CipherSuite) (id : String) : Action CardCache (Option CardChain) := do
  match ← query (·.find? id) with
  | none => pure none
  | some row => some <$> resolve S row

/-- The current card of an identity; none if it has none. -/
def current (S : CipherSuite) (identity : String) : Action CardCache (Option CardChain) := do
  match (← query (CardRows.ofIdentity identity)).filter fun r => !r.outdated with
  | [] => pure none
  | rows =>
    let policy := (← getThe CardCache).policy
    let row ← Action.lift (policy.choose (·.createdAt) identity rows)
    some <$> resolve S row

/-- The current cards of identities, each looked up once. Identities without one are left out. -/
def searchFrom (S : CipherSuite) (seen : List String) :
    List String → Action CardCache (List CardChain)
  | [] => pure []
  | identity :: identities =>
    if identity ∈ seen then searchFrom S seen identities
    else do
      let found ← current S identity
      let others ← searchFrom S (identity :: seen) identities
      pure (found.toList ++ others)

/-- The current cards of identities, each looked up once. -/
def search (S : CipherSuite) (identities : List String) : Action CardCache (List CardChain) :=
  searchFrom S [] identities

/-- The ids of all current cards, in order. -/
def currentIds : Action CardCache (List String) := query CardRows.currentIds

/-- Marks the predecessor of a card as replaced and gives its row as it was, if it was current. A
predecessor of another identity, or one that is not older, is refused. -/
def replacePredecessor (c : Card) : Action CardCache (Option CardRow) :=
  match c.previousId with
  | none => pure none
  | some previousId => do
    match ← query (·.find? previousId) with
    | none => pure none
    | some previous =>
      if previous.identity ≠ c.identity then
        throw (.invalidCardChain s!"Card {c.id} names a predecessor owned by another identity")
      else if c.createdAt ≤ previous.createdAt then
        throw (.invalidCardChain s!"Card {c.id} is not newer than its predecessor {previous.id}")
      else if previous.outdated then pure none
      else
        insert { previous with outdated := true }
        pure (some previous)

/-- Writes a row; where that fails, another row is put back as it was. -/
def insertOrRestore (row : CardRow) (replaced : Option CardRow) : Action CardCache Unit := fun c =>
  match insert row c, replaced with
  | (.error e, c), some previous => (.error e, (insert previous c).2)
  | result, _ => result

/-- Stores a card. -/
def store (c : Card) : Action CardCache Unit := do
  let known ← query (·.find? c.id)
  let replaced ← replacePredecessor c
  let siblings ← query (CardRows.ofIdentity c.identity)
  let superseded := siblings.any fun s => s.id ≠ c.id && s.previousId = some c.id
  let outdated := c.outdated || known.any (·.outdated) || superseded
  insertOrRestore (CardRow.ofCard { c with outdated }) replaced

/-- Stores a card and its predecessors, oldest first. -/
def storeChain (c : CardChain) : Action CardCache Unit := Action.each store c.cards.reverse

/-- Forgets all cards. -/
def reset : Action CardCache Unit := modify fun c => { c with rows := .empty }

end CardCache

end EndToEnd
