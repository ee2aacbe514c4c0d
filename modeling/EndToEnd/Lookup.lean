/-
  Finding the cards of other identities: in the cache first, then in the directory.

  What the directory serves is kept with all its predecessors. An update asks the directory which
  cached cards were replaced or revoked, and fetches the new ones; a card stays current in the cache
  until the answer for its identity has come.
-/
import EndToEnd.Card.Cache
import EndToEnd.Directory

namespace EndToEnd

/-- The current one of the cards that a directory serves for an identity. -/
def DuplicatePolicy.select (policy : DuplicatePolicy) (identity : String) (cards : List CardChain) :
    Except Error CardChain :=
  policy.choose (·.head.createdAt) identity cards

/-- Cards that were found, one for each identity. -/
abbrev FoundCards := Table (fun c : CardChain => c.head.identity)

/-- The cards in a list; of several cards of one identity, the last one. -/
def FoundCards.ofList (cards : List CardChain) : FoundCards :=
  cards.foldl (fun t c => t.insert c) .empty

/-- What lookups work on: the cache, the link to the directory, and the identities whose keys were
reported as changed. -/
structure LookupDesk where
  cache : CardCache
  link : DirectoryLink
  reported : List String

namespace Lookup

/-- Distinct texts from the first to the last. -/
def inOrder (texts : List String) : List String :=
  texts.eraseDups.mergeSort fun a b => decide (a ≤ b)

/-- What makes identities unfit to be looked up together: there are none, one is blank, or some are
repeated. -/
def validate (identities : List String) : Except Error Unit :=
  if identities.isEmpty then .error (.emptyArgument "identities")
  else if identities.any Text.isBlank then .error (.emptyArgument "identity")
  else
    match inOrder (identities.filter fun i => 1 < identities.count i) with
    | [] => .ok ()
    | repeated => .error (.duplicateInput repeated)

/-- An action on the cache. -/
def inCache {α : Type} (x : Action CardCache α) : Action LookupDesk α :=
  Action.on LookupDesk.cache (fun d cache => { d with cache }) x

/-- A call to the directory. -/
def call {α : Type} (x : Action DirectoryLink α) : Action LookupDesk α :=
  Action.on LookupDesk.link (fun d link => { d with link }) x

/-- The current card of an identity in the directory, which is then cached. -/
def fetch (identity : String) : Action LookupDesk CardChain := do
  let cards ← call (DirectoryLink.search identity)
  let policy := (← get).cache.policy
  let card ← Action.lift (policy.select identity cards)
  inCache (CardCache.storeChain card)
  pure card

/-- The cached current cards of identities. -/
def cached (S : CipherSuite) (identities : List String) : Action LookupDesk (List CardChain) :=
  inCache (CardCache.search S identities)

/-- Adds the cards of those identities that have none among the found ones. -/
def fetchMissing : List String → FoundCards → Action LookupDesk FoundCards
  | [], found => pure found
  | identity :: identities, found =>
    if found.has identity then fetchMissing identities found
    else do
      let card ← fetch identity
      fetchMissing identities (found.insert card)

/-- The current cards of identities; `reload` passes over the cache. -/
def findUsers (S : CipherSuite) (identities : List String) (reload : Bool) :
    Action LookupDesk FoundCards := do
  Action.lift (validate identities)
  let found ← if reload then pure [] else cached S identities
  fetchMissing identities (FoundCards.ofList found)

/-- The current card of an identity; `reload` passes over the cache. -/
def findUser (S : CipherSuite) (identity : String) (reload : Bool) : Action LookupDesk CardChain := do
  match (← findUsers S [identity] reload).find? identity with
  | some card => pure card
  | none => throw (.cardNotFound identity)

/-- The cached current cards of identities. -/
def findCachedUsers (S : CipherSuite) (identities : List String) :
    Action LookupDesk FoundCards := do
  Action.lift (validate identities)
  FoundCards.ofList <$> cached S identities

/-- The cached current card of an identity, if there is one. -/
def findCachedUser (S : CipherSuite) (identity : String) : Action LookupDesk (Option CardChain) :=
  if Text.isBlank identity then throw (.emptyArgument "identity")
  else List.head? <$> cached S [identity]

/-- The current keys of identities. -/
def publicKeys (S : CipherSuite) (identities : List String) :
    Action LookupDesk (List (String × PublicKey)) := do
  let found ← findUsers S identities false
  pure (found.rows.map fun c => (c.head.identity, c.head.publicKey))

/-- The cached cards with the given ids, on their own. -/
def cachedHeads (S : CipherSuite) : List String → Action LookupDesk (List Card)
  | [] => pure []
  | id :: ids => do
    let found ← inCache (CardCache.get S id)
    let others ← cachedHeads S ids
    pure ((found.map (·.head)).toList ++ others)

/-- Takes the directory's answer for an identity whose cached cards are stale, and says whether there
is a new card. -/
def refresh (listening : Bool) (identity : String) (stale : List Card) :
    Action LookupDesk Bool := do
  let cards ← call (DirectoryLink.search identity)
  let policy := (← get).cache.policy
  let current ←
    if cards.isEmpty then pure none else some <$> Action.lift (policy.select identity cards)
  inCache (Action.each (fun c => CardCache.store { c with outdated := true }) stale)
  match current with
  | none => pure false
  | some card =>
    inCache (CardCache.storeChain card)
    if listening then modify fun d => { d with reported := d.reported ++ [identity] }
    pure true

/-- Refreshes identities in order and gives those that have a new card. -/
def refreshAll (listening : Bool) (stale : List Card) : List String → Action LookupDesk (List String)
  | [] => pure []
  | identity :: identities => do
    let changed ← refresh listening identity (stale.filter fun c => c.identity = identity)
    let others ← refreshAll listening stale identities
    pure (if changed then identity :: others else others)

/-- Brings the cache up to date with the directory and gives the identities that have a new card, in
order. They are also reported one by one, if somebody is listening. -/
def update (S : CipherSuite) (listening : Bool) : Action LookupDesk (List String) := do
  match ← inCache CardCache.currentIds with
  | [] => pure []
  | ids =>
    let outdated ← call (DirectoryLink.outdated ids)
    let stale ← cachedHeads S outdated
    refreshAll listening stale (inOrder (stale.map (·.identity)))

end Lookup

end EndToEnd
