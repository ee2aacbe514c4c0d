/-
  The card directory, where identities publish their cards.

  A card that names a predecessor is taken only if that is a current, older card of the same
  identity, and replaces it. A card that was revoked is no longer served. A device reaches the
  directory over a link, on which single calls may fail.
-/
import EndToEnd.Action
import EndToEnd.Card.Basic
import EndToEnd.Table

namespace EndToEnd

/-- A published card. -/
structure Listing where
  card : Card
  revoked : Bool
deriving DecidableEq

/-- The id of the card. -/
def Listing.id (l : Listing) : String := l.card.id

/-- Whether a card is still served as current. -/
def Listing.isCurrent (l : Listing) : Bool := !l.revoked && !l.card.outdated

/-- The published cards. -/
abbrev Listings := Table Listing.id

namespace Listings

/-- The predecessors of a card, newest first, from the one with the given id on, and at most `n`. The
walk ends at an id that is not listed, or whose card belongs to another identity. -/
def ancestors (t : Listings) (identity : String) : (n : Nat) → Option String → List Card
  | n + 1, some id =>
    match t.find? id with
    | none => []
    | some l =>
      if l.card.identity = identity then l.card :: ancestors t identity n l.card.previousId else []
  | _, _ => []

/-- A card with its predecessors. -/
def resolve (t : Listings) (c : Card) : CardChain :=
  ⟨c, t.ancestors c.identity t.rows.length c.previousId⟩

/-- The current cards of an identity, oldest first. -/
def current (identity : String) (t : Listings) : List CardChain :=
  Timestamp.inOrder (·.head.createdAt)
    ((t.rows.filter fun l => l.isCurrent && l.card.identity = identity).map fun l =>
      t.resolve l.card)

/-- Those of some ids whose cards are listed and no longer current. -/
def outdated (ids : List String) (t : Listings) : List String :=
  ids.filter fun id => (t.find? id).any fun l => !l.isCurrent

/-- Marks the predecessor that a new card names as replaced, if the card may replace it. -/
def replacePredecessor (t : Listings) (c : Card) : Except Error Listings :=
  match c.previousId with
  | none => .ok t
  | some id =>
    match t.find? id with
    | none => .error (.directory s!"Predecessor {id} not found")
    | some l =>
      if l.card.identity ≠ c.identity then
        .error (.directory "Predecessor belongs to another identity")
      else if l.card.outdated then
        .error (.directory s!"Predecessor {id} is already outdated")
      else if c.createdAt ≤ l.card.createdAt then
        .error (.directory "Card must be newer than its predecessor")
      else .ok (t.insert { l with card := { l.card with outdated := true } })

/-- Lists a new card. -/
def publish (t : Listings) (c : Card) : Except Error Listings :=
  if t.has c.id then .error (.directory s!"Card {c.id} already published")
  else (t.replacePredecessor c).map fun t => t.insert ⟨c, false⟩

/-- Withdraws a card. -/
def revoke (t : Listings) (id : String) : Except Error Listings :=
  match t.find? id with
  | none => .error (.directory s!"Card {id} not found")
  | some l => .ok (t.insert ⟨{ l.card with outdated := true }, true⟩)

end Listings

/-- A directory: the cards, whether it can be reached, and how often it was searched. -/
structure Directory where
  listings : Listings
  available : Bool
  searches : Nat

namespace Directory

/-- A directory without cards. -/
def empty : Directory := ⟨.empty, true, 0⟩

/-- Fails where the directory cannot be reached. -/
def reach : Action Directory Unit := fun d =>
  (if d.available then .ok () else .error (.directory "Card directory unavailable"), d)

/-- Changes the listings. -/
def change (f : Listings → Except Error Listings) : Action Directory Unit := fun d =>
  match f d.listings with
  | .error e => (.error e, d)
  | .ok listings => (.ok (), { d with listings })

/-- Publishes a card. -/
def publish (S : CipherSuite) (raw : RawCard) : Action Directory Card := do
  reach
  let card ← Action.lift (Card.ofRaw S raw)
  change (·.publish card)
  pure card

/-- Lists a card whatever it replaces. -/
def insertUnchecked (S : CipherSuite) (raw : RawCard) : Action Directory Card := do
  let card ← Action.lift (Card.ofRaw S raw)
  change fun t => .ok (t.insert ⟨card, false⟩)
  pure card

/-- The current cards of an identity, oldest first. -/
def search (identity : String) : Action Directory (List CardChain) := do
  reach
  fun d => (.ok (d.listings.current identity), { d with searches := d.searches + 1 })

/-- Those of some ids whose cards were replaced or revoked. -/
def outdated (ids : List String) : Action Directory (List String) := do
  reach
  fun d => (.ok (d.listings.outdated ids), d)

/-- Withdraws a card. -/
def revoke (id : String) : Action Directory Unit := do
  reach
  change (·.revoke id)

end Directory

/-- A link to a directory, and which calls over it will fail before they arrive. -/
structure DirectoryLink where
  directory : Directory
  searchFaults : Schedule Error
  outdatedFaults : Schedule Error

namespace DirectoryLink

/-- A link on which nothing fails. -/
def reliable (directory : Directory) : DirectoryLink := ⟨directory, .clear, .clear⟩

/-- A call that arrives. -/
def call {α : Type} (x : Action Directory α) : Action DirectoryLink α :=
  Action.on DirectoryLink.directory (fun l directory => { l with directory }) x

/-- Publishes a card. -/
def publish (S : CipherSuite) (raw : RawCard) : Action DirectoryLink Card :=
  call (Directory.publish S raw)

/-- The current cards of an identity, oldest first. -/
def search (identity : String) : Action DirectoryLink (List CardChain) := fun l =>
  match l.searchFaults.next with
  | (some e, searchFaults) => (.error e, { l with searchFaults })
  | (none, searchFaults) => call (Directory.search identity) { l with searchFaults }

/-- Those of some ids whose cards were replaced or revoked. -/
def outdated (ids : List String) : Action DirectoryLink (List String) := fun l =>
  match l.outdatedFaults.next with
  | (some e, outdatedFaults) => (.error e, { l with outdatedFaults })
  | (none, outdatedFaults) => call (Directory.outdated ids) { l with outdatedFaults }

/-- Withdraws a card. -/
def revoke (id : String) : Action DirectoryLink Unit := call (Directory.revoke id)

end DirectoryLink

end EndToEnd
