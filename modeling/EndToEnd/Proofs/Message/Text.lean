/-
  The text form of a message: which texts are read, and why all others are refused.

  A text is read if it is the written form of octets that are there, with nothing but white space around
  it. Blank texts are told apart from those that are no written form, and there is no third reason. Base64
  holds no white space, so what is written is read as it is.

  Proved:
  * `Message.decodeText_ends`: the three ways in which reading a text can end.
  * `Message.decodeText_eq_ok_iff`, `Message.decodeText_encodeText`: the written form of octets is read.
  * `Message.decodeText_exact`: when each of the three ways is taken, for every text.
-/
import EndToEnd.Message.Text
import EndToEnd.Proofs.Action
import EndToEnd.Proofs.Octets
import EndToEnd.Proofs.Text.Blank
import EndToEnd.Proofs.Text.Utf8

namespace EndToEnd

namespace Base64

theorem isSpace_symbol : ∀ n < 64, Text.isSpace (symbol n) = false := by decide

theorem isSpace_of_mem_encode {o : Octets} {c : Char} (h : c ∈ encode o) :
    Text.isSpace c = false := by
  have hpad : Text.isSpace '=' = false := by decide
  induction o using encode.induct with
  | case1 => cases h
  | case2 a =>
    have ha := a.toNat_lt
    simp only [encode, List.mem_cons, List.not_mem_nil, or_false] at h
    rcases h with rfl | rfl | rfl | rfl
    · exact isSpace_symbol _ (by omega)
    · exact isSpace_symbol _ (by omega)
    · exact hpad
    · exact hpad
  | case3 a b =>
    have ha := a.toNat_lt
    have hb := b.toNat_lt
    simp only [encode, List.mem_cons, List.not_mem_nil, or_false] at h
    rcases h with rfl | rfl | rfl | rfl
    · exact isSpace_symbol _ (by omega)
    · exact isSpace_symbol _ (by omega)
    · exact isSpace_symbol _ (by omega)
    · exact hpad
  | case4 a b c' rest ih =>
    have ha := a.toNat_lt
    have hb := b.toNat_lt
    have hc := c'.toNat_lt
    simp only [encode, List.mem_cons] at h
    rcases h with rfl | rfl | rfl | rfl | h
    · exact isSpace_symbol _ (by omega)
    · exact isSpace_symbol _ (by omega)
    · exact isSpace_symbol _ (by omega)
    · exact isSpace_symbol _ (by omega)
    · exact ih h

theorem length_le_encode (o : Octets) : o.length ≤ (encode o).length := by
  induction o using encode.induct with
  | case1 => exact Nat.le_refl _
  | case2 a => exact Nat.le_add_left 1 3
  | case3 a b => exact Nat.le_add_left 2 2
  | case4 a b c rest ih =>
    simp only [encode, List.length_cons]
    omega

theorem encode_eq_nil_iff {o : Octets} : encode o = [] ↔ o = [] := by
  constructor
  · intro h
    have hle := length_le_encode o
    rw [h, List.length_nil, Nat.le_zero] at hle
    exact List.length_eq_zero_iff.1 hle
  · rintro rfl
    rfl

theorem encode_inj {a b : Octets} (h : encode a = encode b) : a = b := by
  have hread := decode?_encode a
  rw [h, decode?_encode] at hread
  exact (Option.some.inj hread).symm

end Base64

namespace Message

/-- An argument that is accepted is not blank. -/
theorem not_blank_of_requireText {name text : String} {a : Unit}
    (h : requireText name text = .ok a) : Text.isBlank text = false := by
  unfold requireText at h
  split at h
  · cases h
  · rename_i hblank
    simpa using hblank

theorem toList_encodeText (sealed : Octets) : (encodeText sealed).toList = Base64.encode sealed :=
  String.toList_ofList

/-- A text is blank, or it is the written form of octets, or it is neither. -/
theorem decodeText_ends (text : String) :
    (Text.isBlank text = true ∧ decodeText text = .error (.emptyArgument "text")) ∨
      (Text.isBlank text = false ∧ ∃ sealed, Text.trim text.toList = (encodeText sealed).toList ∧
        decodeText text = .ok sealed) ∨
      (Text.isBlank text = false ∧ (∀ sealed, Text.trim text.toList ≠ (encodeText sealed).toList) ∧
        ∃ m, decodeText text = .error (.conversion m)) := by
  unfold decodeText requireText
  cases Text.isBlank text with
  | true => exact .inl ⟨rfl, rfl⟩
  | false =>
    cases hread : Base64.decode? (Text.trim text.toList) with
    | some sealed =>
      rw [Base64.decode?_eq_some_iff, ← toList_encodeText] at hread
      exact .inr (.inl ⟨rfl, sealed, hread, rfl⟩)
    | none =>
      refine .inr (.inr ⟨rfl, fun sealed hsame => ?_, _, rfl⟩)
      rw [toList_encodeText] at hsame
      rw [Base64.decode?_eq_some_iff.2 hsame] at hread
      cases hread

/-- A text is read as the octets whose written form it is, white space around it left aside. -/
theorem decodeText_eq_ok_iff {text : String} {sealed : Octets} :
    decodeText text = .ok sealed ↔ sealed ≠ [] ∧ Text.trim text.toList = Base64.encode sealed := by
  have hblank : Text.isBlank text = true ↔ Text.trim text.toList = [] := Text.trim_eq_nil_iff.symm
  rcases decodeText_ends text with ⟨hb, h⟩ | ⟨hb, read, hread, h⟩ | ⟨-, hnone, m, h⟩
  · rw [h, hblank.1 hb]
    exact ⟨nofun, fun ⟨hne, hnil⟩ => absurd (Base64.encode_eq_nil_iff.1 hnil.symm) hne⟩
  · rw [toList_encodeText] at hread
    rw [h, hread, Except.ok.injEq]
    constructor
    · rintro rfl
      refine ⟨fun hnil => ?_, rfl⟩
      rw [hnil] at hread
      rw [hblank.2 hread] at hb
      cases hb
    · exact fun ⟨_, hsame⟩ => Base64.encode_inj hsame
  · rw [h]
    exact ⟨nofun, fun ⟨_, hsame⟩ => absurd (hsame.trans (toList_encodeText sealed).symm) (hnone sealed)⟩

theorem decodeText_encodeText {sealed : Octets} (hne : sealed ≠ []) :
    decodeText (encodeText sealed) = .ok sealed := by
  refine decodeText_eq_ok_iff.2 ⟨hne, ?_⟩
  rw [toList_encodeText, Text.trim_of_no_space fun c hc => Base64.isSpace_of_mem_encode hc]

/-- The octets of a text are at least as many as those that it is the form of. -/
theorem addressable_of_encodeText {sealed : Octets}
    (h : Addressable (Utf8.encode (encodeText sealed))) : Addressable sealed := by
  have htext := Utf8.length_le_encode (encodeText sealed)
  rw [toList_encodeText] at htext
  exact Nat.lt_of_le_of_lt (Nat.le_trans (Base64.length_le_encode sealed) htext) h

theorem plainText_encode (text : String) : plainText (Utf8.encode text) = .ok text := by
  unfold plainText
  rw [Utf8.decode?_encode]

/-- A text that is not blank has octets. -/
theorem encode_ne_nil {text : String} (h : Text.isBlank text = false) : Utf8.encode text ≠ [] := by
  intro hnil
  have hlength := Utf8.length_le_encode text
  rw [hnil, List.length_nil, Nat.le_zero, List.length_eq_zero_iff] at hlength
  rw [Text.isBlank, hlength] at h
  cases h

/-! ## All texts -/

/-- A text is read as octets exactly if these are not empty and the text, without the white space around
it, is their written form. A blank text is an empty argument, and every other one cannot be converted.
So two texts that are read as the same octets differ in the white space around them at most. -/
theorem decodeText_exact (text : String) :
    (∀ sealed, decodeText text = .ok sealed ↔
      sealed ≠ [] ∧ Text.trim text.toList = (encodeText sealed).toList) ∧
    (decodeText text = .error (.emptyArgument "text") ↔ Text.isBlank text = true) ∧
    ((∃ m, decodeText text = .error (.conversion m)) ↔
      Text.isBlank text = false ∧ ∀ sealed, Text.trim text.toList ≠ (encodeText sealed).toList) ∧
    ∀ other sealed, decodeText text = .ok sealed → decodeText other = .ok sealed →
      ∃ core, Text.Around core text.toList ∧ Text.Around core other.toList := by
  refine ⟨fun sealed => ?_, ?_, ?_, fun other sealed htext hother => ?_⟩
  · rw [toList_encodeText]
    exact decodeText_eq_ok_iff
  · rcases decodeText_ends text with ⟨hb, h⟩ | ⟨hb, _, -, h⟩ | ⟨hb, -, _, h⟩ <;> rw [h, hb] <;> simp
  · rcases decodeText_ends text with ⟨hb, h⟩ | ⟨hb, sealed, hsame, h⟩ | ⟨hb, hnone, m, h⟩
    · rw [h, hb]
      simp
    · rw [h]
      exact ⟨nofun, fun ⟨_, hnone⟩ => absurd hsame (hnone sealed)⟩
    · exact ⟨fun _ => ⟨hb, hnone⟩, fun _ => ⟨m, h⟩⟩
  · refine ⟨Base64.encode sealed, ?_, ?_⟩
    · exact (decodeText_eq_ok_iff.1 htext).2 ▸ Text.around_trim text.toList
    · exact (decodeText_eq_ok_iff.1 hother).2 ▸ Text.around_trim other.toList

/-- One message with an ideographic space in front and a line break behind, and as it is written. -/
theorem decodeText_exact_of_spaced :
    (decodeText "\u3000aGk=\n" = .ok [104, 105] ∧ decodeText "aGk=" = .ok [104, 105]) ∧
      ∃ core, Text.Around core "\u3000aGk=\n".toList ∧ Text.Around core "aGk=".toList := by
  have hspaced : decodeText "\u3000aGk=\n" = .ok [104, 105] := by decide +kernel
  have hwritten : decodeText "aGk=" = .ok [104, 105] := by decide +kernel
  exact ⟨⟨hspaced, hwritten⟩, (decodeText_exact _).2.2.2 _ _ hspaced hwritten⟩

/-- Bits left over, missing padding, a character of another alphabet and white space inside. -/
example : ∀ text ∈ ["aGl=", "aGk", "aG-_", "aG k="], (decodeText text).isOk = false := by
  decide +kernel

end Message

end EndToEnd
