/-
  What is authenticated together with data says where its parts end.

  Nothing is written between a header and the data behind it, nor in front of the number of a chunk. A
  header is read off the front whatever follows it, and the number and the flag of a chunk have fixed
  widths and stand last; so the octets that are digested, and those that a chunk is locked with, come
  from one header and data, and from one header, number and flag. Lengths in a header are written with
  eight octets, which is why it has to be one that `Fits`.

  Proved:
  * `Header.encode_append_inj`: a header with data is told apart from every other one.
  * `Stream.chunkContext_inj`: so is what a chunk is locked with.
  * `Envelope.authenticated_parts`: both, and what equal digests to be signed say.
-/
import EndToEnd.Proofs.Envelope.Codec
import EndToEnd.Stream.Seal

namespace EndToEnd

/-- A header with data is told apart from every other one: headers say themselves where they end. -/
theorem Envelope.Header.encode_append_inj {g h : Header} {a b : Octets} (hg : g.Fits) (hh : h.Fits)
    (heq : g.encode ++ a = h.encode ++ b) : g = h ∧ a = b := by
  have hread : takeHeader (g.encode ++ a) = some (g, a) := takeHeader_encode hg
  rw [heq, takeHeader_encode hh] at hread
  obtain ⟨rfl, rfl⟩ := Prod.mk.inj (Option.some.inj hread)
  exact ⟨rfl, rfl⟩

theorem Stream.flag_inj {f g : Bool} (h : flag f = flag g) : f = g := by
  cases f <;> cases g <;> first | rfl | cases h

/-- Chunks are locked with different octets if their headers, their numbers or their flags differ. -/
theorem Stream.chunkContext_inj {o p : Octets} {i j : Nat} {f g : Bool} (hi : i < 2 ^ 64)
    (hj : j < 2 ^ 64) (h : chunkContext o i f = chunkContext p j g) : o = p ∧ i = j ∧ f = g := by
  unfold chunkContext at h
  -- the number and the flag are nine octets, wherever they stand
  obtain ⟨rfl, hend⟩ := List.append_inj' h (by simp)
  obtain ⟨hnumber, hflag⟩ := List.append_inj hend (by simp)
  exact ⟨rfl, bigEndian_inj (by omega) (by omega) hnumber, flag_inj (List.singleton_inj.1 hflag)⟩

namespace Envelope

variable {S : CipherSuite} {g h : Header} {a b : Octets}

/-- Two different strings of octets with one digest. -/
def Collides (S : CipherSuite) (x y : Octets) : Prop := x ≠ y ∧ S.sha512 x = S.sha512 y

/-- Where digests do not collide, one that is signed stands for one header and one string of data. -/
theorem authenticatedDigest_inj (hg : g.Fits) (hh : h.Fits)
    (heq : authenticatedDigest S g a = authenticatedDigest S h b) :
    (g = h ∧ a = b) ∨ Collides S (g.encode ++ a) (h.encode ++ b) := by
  by_cases hsame : g.encode ++ a = h.encode ++ b
  · exact .inl (Header.encode_append_inj hg hh hsame)
  · exact .inr ⟨hsame, Block.ext_octets heq⟩

/-- The octets that are digested for a header and its data are those of no other header and no other
data, so a digest that is signed is shared with others only by a collision. The octets that a chunk is
locked with are those of no other header, number or flag. -/
theorem authenticated_parts :
    (∀ g h : Header, g.Fits → h.Fits → ∀ a b : Octets,
      (g.encode ++ a = h.encode ++ b ↔ g = h ∧ a = b) ∧
      ∀ S : CipherSuite, authenticatedDigest S g a = authenticatedDigest S h b ↔
        (g = h ∧ a = b) ∨ Collides S (g.encode ++ a) (h.encode ++ b)) ∧
    ∀ (o p : Octets) (i j : UInt64) (f g : Bool),
      Stream.chunkContext o i.toNat f = Stream.chunkContext p j.toNat g ↔ o = p ∧ i = j ∧ f = g := by
  refine ⟨fun g h hg hh a b => ⟨⟨Header.encode_append_inj hg hh, ?_⟩, fun S =>
    ⟨authenticatedDigest_inj hg hh, ?_⟩⟩, fun o p i j f g => ⟨fun hsame => ?_, ?_⟩⟩
  · rintro ⟨rfl, rfl⟩
    rfl
  · rintro (⟨rfl, rfl⟩ | ⟨-, hdigest⟩)
    · rfl
    · exact congrArg Block.octets hdigest
  · obtain ⟨ho, hi, hf⟩ := Stream.chunkContext_inj i.toNat_lt j.toNat_lt hsame
    exact ⟨ho, UInt64.toNat_inj.1 hi, hf⟩
  · rintro ⟨rfl, rfl, rfl⟩
    rfl

/-- A header without slots that names no signer. -/
def plainHeader : Header := ⟨currentVersion, .signThenEncrypt, .zero 32, [], none, none⟩

/-- The data behind a header can start with what a signer would be written with. -/
theorem authenticated_parts_of_signer :
    let named : Header := { plainHeader with signerId := some ⟨List.replicate 8 1, rfl⟩ }
    (plainHeader.Fits ∧ named.Fits) ∧
      (plainHeader.encode ++ 1 :: List.replicate 8 0).length = (named.encode ++ [0]).length ∧
      plainHeader.encode ++ 1 :: List.replicate 8 0 ≠ named.encode ++ [0] := by
  intro named
  have hplain : plainHeader.Fits := ⟨by decide, nofun⟩
  have hnamed : named.Fits := ⟨by decide, nofun⟩
  refine ⟨⟨hplain, hnamed⟩, by decide, fun hsame => ?_⟩
  have hequal := ((authenticated_parts.1 plainHeader named hplain hnamed _ _).1.1 hsame).1
  cases congrArg Header.signerId hequal

end Envelope

end EndToEnd
