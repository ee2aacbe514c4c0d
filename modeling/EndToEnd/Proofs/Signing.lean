/-
  What a key signs, and what its signatures are taken for.

  A key signs three kinds of octets: the digest of a header and the data sealed behind it, data that
  is signed before it is sealed, and the snapshots of its cards. Nothing in front of what is signed
  says which of them it is. A snapshot is told apart from a digest by its length, and a digest from
  another one by the header, which says itself where it ends. Data that is signed as it is given may
  be the one or the other.

  Proved:
  * `Signing.answer_withSign`: `Call.signed` is all that a call signs.
  * `Signing.of_mem_signed_digest`, `Signing.of_mem_signed_snapshot`: why a digest and why a snapshot
    can have been signed.
  * `Signing.sealed_or_signed`: what opens as authenticated was sealed, and what is read as a card was
    generated, unless the digest or the snapshot was given as data to be signed.
-/
import EndToEnd.Proofs.Authenticated
import EndToEnd.Proofs.Card.Parse
import EndToEnd.Proofs.CipherSuite.Transparent
import EndToEnd.Proofs.Envelope.Canonical
import EndToEnd.Proofs.Envelope.Size
import EndToEnd.Proofs.Json.Length
import EndToEnd.Proofs.Text.Hex

namespace EndToEnd

/-! ## Snapshots are longer than digests -/

theorem length_of_hexBlock? {n : Nat} {s : String} {b : Block n} (h : hexBlock? n s = some b) :
    s.toList.length = 2 * n := by
  unfold hexBlock? at h
  split at h
  · rename_i o ho
    obtain rfl := Block.ofOctets?_eq_some.1 h
    have hlength := congrArg List.length (Hex.encode_of_decode ho)
    rw [Hex.length_encode, Block.length_octets, List.length_map] at hlength
    exact hlength.symm
  · cases h

/-- A key is read off a text of 64 digits. -/
theorem PublicKey.exists_digits {P : String → Prop} {v : Json} {k : PublicKey}
    (hv : v.AllTexts P) (h : PublicKey.ofJson? v = some k) : ∃ s, P s ∧ s.toList.length = 64 := by
  unfold PublicKey.ofJson? at h
  split at h
  · rename_i signing encryption hfields
    obtain ⟨s, hs, h⟩ := Option.bind_eq_some_iff.1 h
    obtain ⟨e, he, h⟩ := Option.bind_eq_some_iff.1 h
    obtain ⟨b, hb, h⟩ := Option.bind_eq_some_iff.1 h
    obtain ⟨w, rfl, hw⟩ := Option.bind_eq_some_iff.1 hs
    have hall := Json.fields?_texts hv hfields (w := w) List.mem_cons_self
    exact ⟨s, Json.text?_texts hall hw, length_of_hexBlock? hb⟩
  · cases h

theorem CardContent.exists_digits {P : String → Prop} {v : Json} {c : CardContent}
    (hv : v.AllTexts P) (h : CardContent.ofJson? v = some c) :
    ∃ s, P s ∧ s.toList.length = 64 := by
  unfold CardContent.ofJson? at h
  split at h
  · rename_i version identity key created previous hfields
    obtain ⟨v₁, -, h⟩ := Option.bind_eq_some_iff.1 h
    obtain ⟨v₂, -, h⟩ := Option.bind_eq_some_iff.1 h
    obtain ⟨k, hk, h⟩ := Option.bind_eq_some_iff.1 h
    obtain ⟨w, rfl, hw⟩ := Option.bind_eq_some_iff.1 hk
    have hall := Json.fields?_texts hv hfields (w := w) (by simp)
    exact PublicKey.exists_digits hall hw
  · cases h

/-- What is read as the content of a card is longer than a digest: the key in it is. -/
theorem Card.length_snapshot {o : Octets} {c : CardContent}
    (h : (Json.read? o).bind CardContent.ofJson? = some c) : 66 ≤ o.length := by
  obtain ⟨v, hv, hc⟩ := Option.bind_eq_some_iff.1 h
  obtain ⟨s, hle, hs⟩ := CardContent.exists_digits (Json.read?_texts hv) hc
  omega

namespace Signing

open Envelope (Header authEncrypt authDecrypt signThenEncrypt authenticatedDigest prepare)

/-- What a key pair is asked to sign for. -/
inductive Call where
  | authEncrypt (data : Octets) (recipients : List PublicKey)
  | signThenEncrypt (data : Octets) (recipients : List PublicKey)
  | generate (identity : String) (previousId : Option String) (createdAt : Timestamp)

/-- What a call answers. -/
inductive Answer where
  | envelope (result : Except CryptoError Octets) (tape : Tape)
  | card (result : Except Error RawCard)

variable {S : CipherSuite} {key : KeyPair} {tape tape' : Tape}

/-- The answer to a call. -/
def Call.answer (S : CipherSuite) (key : KeyPair) (tape : Tape) : Call → Answer
  | authEncrypt data recipients =>
    let (result, tape) := Envelope.authEncrypt S data key recipients tape
    .envelope result tape
  | signThenEncrypt data recipients =>
    let (result, tape) := Envelope.signThenEncrypt S data key recipients tape
    .envelope result tape
  | generate identity previousId createdAt =>
    .card (RawCard.generate S key identity previousId createdAt)

/-- The header that is signed together with the data of an authenticated envelope, if it comes to
that. -/
def headerFor (S : CipherSuite) (recipients : List PublicKey) (tape : Tape) : Option Header :=
  if recipients.isEmpty then none
  else (prepare S .authenticated recipients tape).1.toOption.map (·.2)

/-- The octets that a call signs, if it comes to that. -/
def Call.signed (S : CipherSuite) (key : KeyPair) (tape : Tape) : Call → Option Octets
  | authEncrypt data recipients =>
    (headerFor S recipients tape).map fun header => authenticatedDigest S header data
  | signThenEncrypt data recipients => if recipients.isEmpty then none else some data
  | generate identity previousId createdAt =>
    if Text.isBlank identity then none
    else
      some (Utf8.encode (CardContent.toJson
        ⟨CardContent.currentVersion, identity, key.publicKey S, createdAt, previousId⟩).render)

/-- Calls, each with the random octets that it draws. -/
abbrev Run := List (Call × Tape)

/-- The octets that were signed in a run. -/
def Run.signed (S : CipherSuite) (key : KeyPair) (run : Run) : List Octets :=
  run.filterMap fun call => call.1.signed S key call.2

/-! ## Nothing else is signed -/

/-- The suite with other signatures. -/
def withSign (S : CipherSuite) (f : Block 32 → Octets → Block 64) : CipherSuite :=
  { S with sign := f }

variable {f : Block 32 → Octets → Block 64} {recipients : List PublicKey}

theorem distinctFrom_withSign (seen : List KeyId) (keys : List PublicKey) :
    Envelope.distinctFrom (withSign S f) seen keys = Envelope.distinctFrom S seen keys := by
  induction keys generalizing seen with
  | nil => rfl
  | cons k keys ih =>
    have hid : k.keyId (withSign S f) = k.keyId S := rfl
    rw [Envelope.distinctFrom, Envelope.distinctFrom, hid, ih, ih]

theorem wrapAll_withSign (content secret : Block 32) (rs : List (KeyId × PublicKey)) :
    Envelope.wrapAll (withSign S f) content secret rs = Envelope.wrapAll S content secret rs := by
  induction rs with
  | nil => rfl
  | cons r rs ih =>
    rw [Envelope.wrapAll, Envelope.wrapAll, ih]
    rfl

theorem prepare_withSign (mode : Envelope.Mode) :
    prepare (withSign S f) mode recipients = prepare S mode recipients := by
  unfold prepare Envelope.distinct
  rw [distinctFrom_withSign]
  simp only [wrapAll_withSign]
  rfl

theorem authEncrypt_withSign {data : Octets}
    (h : ∀ m ∈ (Call.authEncrypt data recipients).signed S key tape,
      f key.signing m = S.sign key.signing m) :
    authEncrypt (withSign S f) data key recipients tape = authEncrypt S data key recipients tape := by
  unfold authEncrypt
  split
  · rfl
  · rename_i hsome
    rw [prepare_withSign, Action.bind_run, Action.bind_run]
    cases hprepare : prepare S .authenticated recipients tape with
    | mk result tape₁ =>
      cases result with
      | error e => rfl
      | ok prepared =>
        have hsign := h (authenticatedDigest S prepared.2 data) (by
          rewrite [Call.signed, headerFor, if_neg hsome, hprepare]
          rfl)
        show Envelope.enclose S prepared.2 prepared.1 (Envelope.encodeBody data
          (f key.signing (authenticatedDigest S prepared.2 data))) tape₁ = _
        rewrite [hsign]
        rfl

theorem signThenEncrypt_withSign {data : Octets}
    (h : ∀ m ∈ (Call.signThenEncrypt data recipients).signed S key tape,
      f key.signing m = S.sign key.signing m) :
    signThenEncrypt (withSign S f) data key recipients tape =
      signThenEncrypt S data key recipients tape := by
  unfold signThenEncrypt
  split
  · rfl
  · rename_i hsome
    have hsign := h data (by
      rewrite [Call.signed, if_neg hsome]
      rfl)
    rw [prepare_withSign]
    show (prepare S .signThenEncrypt recipients >>= fun prepared =>
      Envelope.enclose S
        { prepared.2 with
          signerId := some (key.keyId S), signature := some (f key.signing data) }
        prepared.1 data) tape = _
    rewrite [hsign]
    rfl

theorem generate_withSign {identity : String} {previousId : Option String} {createdAt : Timestamp}
    (h : ∀ m ∈ (Call.generate identity previousId createdAt).signed S key tape,
      f key.signing m = S.sign key.signing m) :
    RawCard.generate (withSign S f) key identity previousId createdAt =
      RawCard.generate S key identity previousId createdAt := by
  unfold RawCard.generate
  split
  · rfl
  · rename_i hsome
    have hsign := h _ (by
      rewrite [Call.signed, if_neg hsome]
      rfl)
    exact congrArg (fun signature => Except.ok (RawCard.mk _ signature)) hsign

/-- What a call answers depends on the signing secret only through the signature of the octets that
it signs. -/
theorem answer_withSign {c : Call}
    (h : ∀ m ∈ c.signed S key tape, f key.signing m = S.sign key.signing m) :
    c.answer (withSign S f) key tape = c.answer S key tape := by
  cases c with
  | authEncrypt data recipients =>
    unfold Call.answer
    dsimp only
    rw [authEncrypt_withSign h]
  | signThenEncrypt data recipients =>
    unfold Call.answer
    dsimp only
    rw [signThenEncrypt_withSign h]
  | generate identity previousId createdAt =>
    unfold Call.answer
    dsimp only
    rw [generate_withSign h]

/-! ## What a signature is taken for -/

/-- The octets open for the reader to an authenticated envelope of data with a signature. -/
structure Presents (S : CipherSuite) (sealed : Octets) (reader : KeyPair) (data : Octets)
    (e : Envelope) (signature : Signature) : Prop where
  decode : Envelope.decode sealed = .ok e
  disclose : ∃ body, Envelope.disclose S e .authenticated reader = .ok body ∧
    Envelope.decodeBody body = .ok (data, signature)

/-- The signature of the message is accepted only if the message was signed in the run. -/
def Unforged (S : CipherSuite) (key : KeyPair) (run : Run) (message : Octets)
    (signature : Signature) : Prop :=
  (key.publicKey S).verify S message signature = .ok () → message ∈ run.signed S key

/-- No header with data that was sealed in the run has the digest of the input, except the input. -/
def Apart (S : CipherSuite) (run : Run) (input : Octets) : Prop :=
  ∀ data recipients tape header, (Call.authEncrypt data recipients, tape) ∈ run →
    headerFor S recipients tape = some header →
      S.sha512 (header.encode ++ data) = S.sha512 input → header.encode ++ data = input

/-- What is opened was presented with a signature that was accepted. -/
theorem presents_of_authDecrypt {sealed data : Octets} {reader : KeyPair} {signer : PublicKey}
    (h : authDecrypt S sealed reader signer = .ok data) :
    ∃ e signature, Presents S sealed reader data e signature ∧
      signer.verify S (authenticatedDigest S e.header data) signature = .ok () := by
  unfold authDecrypt at h
  obtain ⟨e, he, h⟩ := Action.of_except_bind_ok h
  obtain ⟨body, hbody, h⟩ := Action.of_except_bind_ok h
  obtain ⟨parts, hparts, h⟩ := Action.of_except_bind_ok h
  obtain ⟨_, hverify, h⟩ := Action.of_except_bind_ok h
  cases h
  exact ⟨e, parts.2, ⟨he, body, hbody, hparts⟩, hverify⟩

theorem prepare_of_headerFor {header : Header} (h : headerFor S recipients tape = some header) :
    ∃ content tape', prepare S .authenticated recipients tape = (.ok (content, header), tape') := by
  unfold headerFor at h
  split at h
  · cases h
  · cases hprepare : prepare S .authenticated recipients tape with
    | mk result tape' =>
      rw [hprepare] at h
      cases result with
      | error e => cases h
      | ok prepared =>
        cases h
        exact ⟨prepared.1, tape', rfl⟩

/-- The header is the one of the envelope that is sealed. -/
theorem headerFor_of_authEncrypt {data sealed : Octets}
    (h : authEncrypt S data key recipients tape = (.ok sealed, tape')) :
    ∃ e, sealed = Envelope.encode e ∧ headerFor S recipients tape = some e.header ∧
      e.header.version = Envelope.currentVersion := by
  unfold authEncrypt at h
  split at h
  · cases h
  · rename_i hsome
    obtain ⟨⟨content, header⟩, t, hprepare, h⟩ := Action.of_bind_ok h
    obtain ⟨e, hsealed, rfl, -⟩ := Envelope.enclose_ok h
    obtain ⟨secret, hprepared⟩ := Envelope.prepare_ok hprepare
    refine ⟨e, hsealed, ?_, ?_⟩
    · rewrite [headerFor, if_neg hsome, hprepare]
      rfl
    · rewrite [hprepared.unsigned]
      rfl

/-- An `authEncrypt` of the run signed the data under the header, and whatever it sealed has it. -/
def SealedIn (S : CipherSuite) (key : KeyPair) (run : Run) (header : Header) (data : Octets) : Prop :=
  ∃ recipients tape, (Call.authEncrypt data recipients, tape) ∈ run ∧
    headerFor S recipients tape = some header ∧
    ∀ sealed tape', authEncrypt S data key recipients tape = (.ok sealed, tape') →
      ∃ e, sealed = Envelope.encode e ∧ e.header = header

/-- A `generate` of the run gave the card with the snapshot. -/
def GeneratedIn (S : CipherSuite) (key : KeyPair) (run : Run) (snapshot : Octets) : Prop :=
  ∃ identity previousId createdAt tape raw,
    (Call.generate identity previousId createdAt, tape) ∈ run ∧
      RawCard.generate S key identity previousId createdAt = .ok raw ∧ raw.snapshot = snapshot

/-- A `signThenEncrypt` of the run signed the data for some recipients. -/
def SignedIn (run : Run) (data : Octets) : Prop :=
  ∃ recipients tape, recipients ≠ [] ∧ (Call.signThenEncrypt data recipients, tape) ∈ run

/-- What was signed in a run was signed for one of three reasons. -/
theorem of_mem_signed {run : Run} {message : Octets} (h : message ∈ run.signed S key) :
    (∃ data recipients tape header, (Call.authEncrypt data recipients, tape) ∈ run ∧
      headerFor S recipients tape = some header ∧ message = authenticatedDigest S header data) ∨
    SignedIn run message ∨ GeneratedIn S key run message := by
  obtain ⟨⟨call, tape⟩, hcall, hsigned⟩ := List.mem_filterMap.1 h
  cases call with
  | authEncrypt data recipients =>
    obtain ⟨header, hheader, rfl⟩ := Option.map_eq_some_iff.1 hsigned
    exact .inl ⟨data, recipients, tape, header, hcall, hheader, rfl⟩
  | signThenEncrypt data recipients =>
    dsimp only [Call.signed] at hsigned
    split at hsigned
    · cases hsigned
    · rename_i hsome
      cases hsigned
      exact .inr (.inl ⟨recipients, tape, by simpa using hsome, hcall⟩)
  | generate identity previousId createdAt =>
    dsimp only [Call.signed] at hsigned
    split at hsigned
    · cases hsigned
    · rename_i hblank
      refine .inr (.inr ⟨identity, previousId, createdAt, tape, _, hcall, if_neg hblank, ?_⟩)
      exact Option.some.inj hsigned

theorem length_authenticatedDigest (header : Header) (data : Octets) :
    (authenticatedDigest S header data).length = 64 := Block.length_octets _

/-- What `generate` signs is the content of a card. -/
theorem length_of_generatedIn {run : Run} {snapshot : Octets}
    (h : GeneratedIn S key run snapshot) : 66 ≤ snapshot.length := by
  obtain ⟨identity, previousId, createdAt, tape, raw, -, hraw, rfl⟩ := h
  rw [(Card.generate_ok hraw).2.1]
  exact Card.length_snapshot (Card.read_snapshot _)

/-- A digest that was signed is the one of an envelope of the run, or it was data to be signed. -/
theorem of_mem_signed_digest (hT : S.Tags) {run : Run}
    (hfew : ∀ data recipients tape, (Call.authEncrypt data recipients, tape) ∈ run →
      recipients.length < 256 ^ 8) {header : Header} {data : Octets} (hfits : header.Fits)
    (hapart : Apart S run (header.encode ++ data))
    (h : authenticatedDigest S header data ∈ run.signed S key) :
    SealedIn S key run header data ∨ SignedIn run (authenticatedDigest S header data) := by
  rcases of_mem_signed h with
    ⟨data', recipients, tape, header', hcall, hheader, hdigest⟩ | hsigned | hcard
  · obtain ⟨content, tape', hprepare⟩ := prepare_of_headerFor hheader
    have hfits' := Envelope.fits_of_prepare hT hprepare (hfew _ _ _ hcall)
    have hinput := hapart _ _ _ _ hcall hheader (Block.ext_octets hdigest.symm)
    obtain ⟨rfl, rfl⟩ := Header.encode_append_inj hfits' hfits hinput
    refine .inl ⟨recipients, tape, hcall, hheader, fun sealed tape'' hrun => ?_⟩
    obtain ⟨e, he, hsame, -⟩ := headerFor_of_authEncrypt hrun
    exact ⟨e, he, Option.some.inj (hsame.symm.trans hheader)⟩
  · exact .inr hsigned
  · -- the content of a card is longer than a digest
    have hlength := length_of_generatedIn hcard
    rw [length_authenticatedDigest] at hlength
    omega

/-- A snapshot that was signed is the one of a card of the run, or it was data to be signed. -/
theorem of_mem_signed_snapshot {run : Run} {snapshot : Octets} (hlong : 66 ≤ snapshot.length)
    (h : snapshot ∈ run.signed S key) : GeneratedIn S key run snapshot ∨ SignedIn run snapshot := by
  rcases of_mem_signed h with ⟨data, recipients, tape, header, -, -, rfl⟩ | hsigned | hcard
  · rw [length_authenticatedDigest] at hlong
    omega
  · exact .inr hsigned
  · exact .inl hcard

/-- An envelope that opens as authenticated was sealed in the run, under its own header and with the
data that it opens to, unless the digest of the two was data to be signed; and a card with the key was
generated in the run, unless its snapshot was data to be signed. -/
theorem sealed_or_signed (hT : S.Tags) {run : Run}
    (hfew : ∀ data recipients tape, (Call.authEncrypt data recipients, tape) ∈ run →
      recipients.length < 256 ^ 8) :
    (∀ sealed reader data, authDecrypt S sealed reader (key.publicKey S) = .ok data →
      ∃ e signature, Presents S sealed reader data e signature ∧
        (Unforged S key run (authenticatedDigest S e.header data) signature →
          Apart S run (e.header.encode ++ data) →
            SealedIn S key run e.header data ∨
              SignedIn run (authenticatedDigest S e.header data))) ∧
    ∀ raw c, Card.ofRaw S raw = .ok c → c.publicKey = key.publicKey S →
      Unforged S key run raw.snapshot raw.signature →
        GeneratedIn S key run raw.snapshot ∨ SignedIn run raw.snapshot := by
  constructor
  · intro sealed reader data hopen
    obtain ⟨e, signature, hpresents, hverify⟩ := presents_of_authDecrypt hopen
    refine ⟨e, signature, hpresents, fun hunforged hapart => ?_⟩
    obtain ⟨-, hfits, -⟩ := Envelope.decode_eq_ok_iff.1 hpresents.decode
    exact of_mem_signed_digest hT hfew hfits.header hapart (hunforged hverify)
  · intro raw c hc hkey hunforged
    obtain ⟨content, hcontent, hverify, rfl⟩ := Card.ofRaw_eq_ok hc
    have hkey' : content.publicKey = key.publicKey S := hkey
    rw [hkey'] at hverify
    exact of_mem_signed_snapshot (Card.length_snapshot hcontent) (hunforged hverify)

section Examples

/-- A key pair that signs. -/
def owner : KeyPair := ⟨.littleEndian 32 5, .littleEndian 32 6⟩

/-- A key pair that envelopes are sealed for. -/
def reader : KeyPair := ⟨.littleEndian 32 7, .littleEndian 32 8⟩

/-- Octets that the reader opens, with the header that is prepared for it. -/
theorem exists_sealed : ∃ sealed e,
    authDecrypt .transparent sealed reader (owner.publicKey .transparent) = .ok [1, 2, 3] ∧
    Envelope.decode sealed = .ok e ∧
    headerFor .transparent [reader.publicKey .transparent] (.ofSeed 1) = some e.header := by
  have hlocks : CipherSuite.transparent.LocksUpTo 1000 :=
    fun associated length _ _ => CipherSuite.transparent_locks associated length
  obtain ⟨sealed, tape', hrun⟩ : ∃ sealed tape', authEncrypt .transparent [1, 2, 3] owner
      [reader.publicKey .transparent] (.ofSeed 1) = (.ok sealed, tape') :=
    Envelope.authEncrypt_runs CipherSuite.transparent_tags hlocks (List.cons_ne_nil _ _)
      (by decide +kernel) (by decide) owner (.ofSeed 1)
  have hshort : Addressable sealed := by
    have hone : ([reader.publicKey .transparent].map (·.keyId .transparent)).eraseDups.length = 1 :=
      rfl
    unfold Addressable
    rw [Envelope.length_of_authEncrypt CipherSuite.transparent_tags hrun, hone]
    decide
  have hopen := Envelope.authDecrypt_of_mem CipherSuite.transparent_agrees
    CipherSuite.transparent_opens CipherSuite.transparent_accepts (by decide +kernel) hrun
    (by decide) hshort List.mem_cons_self
  obtain ⟨e, rfl, hheader, hversion⟩ := headerFor_of_authEncrypt hrun
  obtain ⟨hheaderFits, hbodyFits⟩ := Envelope.fits_of_length hshort
  have hdecode := @Envelope.decode_encode [] e hversion hheaderFits hbodyFits
  rw [List.append_nil] at hdecode
  exact ⟨_, e, hopen, hdecode, hheader⟩

/-- A card of the owner. -/
theorem exists_card : ∃ raw c, RawCard.generate .transparent owner "ada" none 1000 = .ok raw ∧
    Card.ofRaw .transparent raw = .ok c ∧ c.publicKey = owner.publicKey .transparent := by
  let content : CardContent :=
    ⟨CardContent.currentVersion, "ada", owner.publicKey .transparent, 1000, none⟩
  have hkey : content.publicKey = owner.publicKey .transparent := rfl
  exact ⟨_, _, rfl, Card.genuine_signed CipherSuite.transparent_accepts hkey, hkey⟩

/-- In a run that seals data for the reader and makes a card, both are found. -/
theorem sealed_and_generated :
    let run : Run := [(.authEncrypt [1, 2, 3] [reader.publicKey .transparent], .ofSeed 1),
      (.generate "ada" none 1000, .ofSeed 2)]
    (∃ sealed e,
      authDecrypt .transparent sealed reader (owner.publicKey .transparent) = .ok [1, 2, 3] ∧
      Envelope.decode sealed = .ok e ∧ SealedIn .transparent owner run e.header [1, 2, 3]) ∧
    ∃ raw c, Card.ofRaw .transparent raw = .ok c ∧ c.publicKey = owner.publicKey .transparent ∧
      GeneratedIn .transparent owner run raw.snapshot := by
  intro run
  have hfew : ∀ data recipients tape, (Call.authEncrypt data recipients, tape) ∈ run →
      recipients.length < 256 ^ 8 := by
    intro data recipients tape hcall
    simp [run] at hcall
    obtain ⟨⟨rfl, rfl⟩, rfl⟩ := hcall
    decide
  have hunsigned : ∀ message, ¬ SignedIn run message := by
    rintro message ⟨recipients, tape, -, hcall⟩
    simp [run] at hcall
  obtain ⟨hseals, hcards⟩ :=
    @sealed_or_signed .transparent owner CipherSuite.transparent_tags run hfew
  constructor
  · obtain ⟨sealed, e, hopen, hdecode, hheader⟩ := exists_sealed
    obtain ⟨e', signature, hpresents, htaken⟩ := hseals sealed reader [1, 2, 3] hopen
    obtain rfl : e' = e := Except.ok.inj (hpresents.decode.symm.trans hdecode)
    refine ⟨sealed, e', hopen, hdecode, (htaken ?_ ?_).resolve_right (hunsigned _)⟩
    · intro _
      refine List.mem_filterMap.2 ⟨_, List.mem_cons_self, ?_⟩
      rewrite [Call.signed, hheader]
      rfl
    · intro data recipients tape header hcall hheader' _
      simp [run] at hcall
      obtain ⟨⟨rfl, rfl⟩, rfl⟩ := hcall
      rw [Option.some.inj (hheader'.symm.trans hheader)]
  · obtain ⟨raw, c, hraw, hc, hkey⟩ := exists_card
    refine ⟨raw, c, hc, hkey, (hcards raw c hc hkey fun _ => ?_).resolve_right (hunsigned _)⟩
    refine List.mem_filterMap.2 ⟨_, List.mem_cons_of_mem _ List.mem_cons_self, ?_⟩
    obtain ⟨hblank, hsnapshot, -⟩ := Card.generate_ok hraw
    rewrite [Call.signed, hblank, hsnapshot]
    rfl

/-- A run that only signs data before it is sealed leaves an envelope that opens as authenticated and a
card: the data were the digest of the one and the snapshot of the other. -/
theorem taken_for_another : ∃ (run : Run) (sealed : Octets) (e : Envelope) (signature : Signature)
      (raw : RawCard) (c : Card),
    (∀ call ∈ run, ∃ data recipients, call.1 = .signThenEncrypt data recipients) ∧
    authDecrypt .transparent sealed reader (owner.publicKey .transparent) = .ok [1, 2, 3] ∧
    Presents .transparent sealed reader [1, 2, 3] e signature ∧
    Unforged .transparent owner run (authenticatedDigest .transparent e.header [1, 2, 3])
      signature ∧
    Apart .transparent run (e.header.encode ++ [1, 2, 3]) ∧
    Card.ofRaw .transparent raw = .ok c ∧ c.publicKey = owner.publicKey .transparent ∧
    Unforged .transparent owner run raw.snapshot raw.signature := by
  obtain ⟨sealed, e, hopen, hdecode, -⟩ := exists_sealed
  obtain ⟨e', signature, hpresents, -⟩ := presents_of_authDecrypt hopen
  obtain rfl : e' = e := Except.ok.inj (hpresents.decode.symm.trans hdecode)
  obtain ⟨raw, c, -, hc, hkey⟩ := exists_card
  let digest := authenticatedDigest .transparent e'.header [1, 2, 3]
  refine ⟨[(.signThenEncrypt digest [reader.publicKey .transparent], .ofSeed 2),
    (.signThenEncrypt raw.snapshot [reader.publicKey .transparent], .ofSeed 3)], sealed, e',
    signature, raw, c, ?_, hopen, hpresents, ?_, ?_, hc, hkey, ?_⟩
  · intro call hcall
    rcases List.mem_cons.1 hcall with rfl | hcall
    · exact ⟨_, _, rfl⟩
    · obtain rfl := List.mem_singleton.1 hcall
      exact ⟨_, _, rfl⟩
  · intro _
    exact List.mem_cons_self
  · intro data recipients tape header hcall
    simp at hcall
  · intro _
    exact List.mem_cons_of_mem _ List.mem_cons_self

end Examples

end Signing

end EndToEnd
