/-
  Cards: signed statements that an identity has a key since some point in time, in place of the key
  on an earlier card.

  A raw card is the exact octets that were signed, with their signature. A card is what they say,
  addressed by their digest. A chain is a card with the earlier cards that it leads to.
-/
import EndToEnd.Clock
import EndToEnd.Key
import EndToEnd.Text.Base64
import EndToEnd.Text.Blank
import EndToEnd.Version

namespace EndToEnd

/-- What a card says. -/
structure CardContent where
  version : String
  identity : String
  publicKey : PublicKey
  createdAt : Timestamp
  /-- The card that this one replaces. -/
  previousId : Option String
deriving DecidableEq

namespace CardContent

/-- The JSON form of a content. The replaced card is left out where there is none. -/
def toJson (c : CardContent) : Json :=
  .record ([(some "version", .text c.version), (some "identity", .text c.identity),
    (some "public_key", c.publicKey.toJson), (some "created_at", .int c.createdAt.toInt)] ++
    match c.previousId with
    | none => []
    | some id => [(some "previous_card_id", .text id)])

/-- The names of the fields, in order. -/
def fieldNames : List String :=
  ["version", "identity", "public_key", "created_at", "previous_card_id"]

/-- A content from its JSON form. -/
def ofJson? (v : Json) : Option CardContent :=
  match v.fields? fieldNames with
  | some [version, identity, key, created, previous] => do
    let version ← Json.required version Json.text?
    let identity ← Json.required identity Json.text?
    let key ← Json.required key PublicKey.ofJson?
    let created ← Json.required created Json.int64?
    let previous ← Json.orDefault previous Json.optionalText? none
    some ⟨version, identity, key, created, previous⟩
  | _ => none

end CardContent

/-- The octets of a card's content as they were signed, and the signature. -/
structure RawCard where
  snapshot : Octets
  signature : Signature
deriving DecidableEq

namespace RawCard

/-- The JSON form of a raw card. -/
def toJson (r : RawCard) : Json :=
  .record [(some "content_snapshot", .text (Base64.text r.snapshot)),
    (some "signature", r.signature.toJson)]

/-- A raw card from its JSON form. -/
def ofJson? (v : Json) : Option RawCard :=
  match v.fields? ["content_snapshot", "signature"] with
  | some [snapshot, signature] => do
    let snapshot ← Json.required snapshot Json.text?
    let signature ← Json.required signature Signature.ofJson?
    some ⟨← Base64.decode? snapshot.toList, signature⟩
  | _ => none

/-- The raw card in a JSON text. -/
def ofJsonText (s : String) : Except Error RawCard :=
  match (Json.ofText? s).bind ofJson? with
  | some r => .ok r
  | none => .error (.deserialization "Invalid raw card: not a signed snapshot")

/-- A content signed with the key that it names. -/
def sign (S : CipherSuite) (key : KeyPair) (content : Octets) : RawCard :=
  ⟨content, key.sign S content⟩

/-- A new raw card for a key. -/
def generate (S : CipherSuite) (key : KeyPair) (identity : String) (previousId : Option String)
    (createdAt : Timestamp) : Except Error RawCard :=
  if Text.isBlank identity then .error (.emptyArgument "identity")
  else
    let content : CardContent :=
      ⟨CardContent.currentVersion, identity, key.publicKey S, createdAt, previousId⟩
    .ok (sign S key (Utf8.encode content.toJson.render))

end RawCard

/-- A card whose signature was checked. -/
structure Card where
  /-- The digest of what was signed. -/
  id : String
  identity : String
  publicKey : PublicKey
  createdAt : Timestamp
  /-- Whether the card was replaced or withdrawn. -/
  outdated : Bool
  previousId : Option String
  raw : RawCard
deriving DecidableEq

namespace Card

/-- The id of the card with a snapshot. -/
def idOf (S : CipherSuite) (snapshot : Octets) : String :=
  Hex.text ((S.sha512 snapshot).octets.take 32)

/-- The card that a raw card is, if it is signed with the key that it names. -/
def ofRaw (S : CipherSuite) (raw : RawCard) : Except Error Card :=
  match (Json.read? raw.snapshot).bind CardContent.ofJson? with
  | none => .error (.cardVerification "Malformed card content: not the content of a card")
  | some c =>
    match c.publicKey.verify S raw.snapshot raw.signature with
    | .error _ => .error (.cardVerification ("Bad self-signature on card for " ++ c.identity))
    | .ok () =>
      .ok ⟨idOf S raw.snapshot, c.identity, c.publicKey, c.createdAt, false, c.previousId, raw⟩

/-- Whether a card is older than another one of the same identity. -/
def Precedes (a b : Card) : Prop := a.identity = b.identity ∧ a.createdAt < b.createdAt

instance (a b : Card) : Decidable (a.Precedes b) := inferInstanceAs (Decidable (_ ∧ _))

end Card

/-- A card and the earlier cards that it leads to, newest first. -/
structure CardChain where
  head : Card
  ancestors : List Card
deriving DecidableEq

namespace CardChain

/-- A card on its own. -/
def single (c : Card) : CardChain := ⟨c, []⟩

/-- All cards of a chain, newest first. -/
def cards (c : CardChain) : List Card := c.head :: c.ancestors

/-- The chain without what leads back from its head. -/
def detached (c : CardChain) : CardChain := single c.head

/-- Puts a card in front of a chain. -/
def extend (c : Card) (previous : CardChain) : CardChain := ⟨c, previous.cards⟩

/-- Walks back from a card, over earlier ones, to the first that existed at a time. -/
def walkTo (asOf : Timestamp) (c : Card) : List Card → Card
  | [] => c
  | p :: ps => if c.createdAt ≤ asOf then c else walkTo asOf p ps

/-- The card whose key was current at a time: the newest one created by then, or the oldest one. -/
def cardAt (c : CardChain) (asOf : Timestamp) : Card := walkTo asOf c.head c.ancestors

/-- The chain with its head marked as replaced. -/
def outdate (c : CardChain) : CardChain := { c with head := { c.head with outdated := true } }

end CardChain

end EndToEnd
