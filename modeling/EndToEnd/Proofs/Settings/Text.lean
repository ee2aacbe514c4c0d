/-
  Settings come back from their text, and what the text leaves out has its default.

  A field may be left out of the record of settings and out of the record of costs inside it, in any
  combination. Each record is read field by field, so that the whole is put together from what one
  field gives (`orDefault_field`) and from what becomes of the fields when members are taken out.

  Proved:
  * `KdfCosts.ofJson?_without`: costs from a record with any of its members left out.
  * `Settings.ofJson?_without`: settings from a record with any members left out at both levels.
  * `Settings.ofJsonText_textWithout`: the same of texts, with the check that follows the reading.
-/
import EndToEnd.Proofs.Json.Record
import EndToEnd.Settings

namespace EndToEnd

/-! ## Fields -/

/-- A field that may be left out, from what its value is read as. -/
theorem Json.orDefault_field {α : Type} {default a : α} {v : Json} (read : Json → Option α)
    (left : Bool) (h : read v = some a) :
    orDefault (if left then none else some v) read default = some (if left then default else a) := by
  cases left with
  | true => rfl
  | false => exact h

theorem Json.natBelow?_int {bound n : Nat} (h : n < bound) : natBelow? bound (.int n) = some n := by
  have hn : (0 : Int) ≤ n ∧ (n : Int) < bound := by omega
  exact if_pos hn

theorem KdfCosts.word?_int (n : UInt32) : word? (.int n.toNat) = some n := by
  rw [word?, Json.natBelow?_int n.toNat_lt, Option.map_some, UInt32.ofNat_toNat]

theorem DuplicatePolicy.ofJson?_name (p : DuplicatePolicy) : ofJson? (.text p.name) = some p := by
  cases p <;> decide

theorem Settings.optionalText?_optionalText (s : Option String) :
    Json.optionalText? (optionalText s) = some s := by
  cases s <;> rfl

/-! ## Records -/

namespace KdfCosts

/-- Costs with defaults in the fields of certain names. -/
def defaulting (out : String → Bool) (c : KdfCosts) : KdfCosts where
  memoryKib := if out "memory_kib" then default.memoryKib else c.memoryKib
  iterations := if out "iterations" then default.iterations else c.iterations
  parallelism := if out "parallelism" then default.parallelism else c.parallelism

theorem fields?_toJson (c : KdfCosts) :
    c.toJson.fields? ["memory_kib", "iterations", "parallelism"] =
      some [some (.int c.memoryKib.toNat), some (.int c.iterations.toNat),
        some (.int c.parallelism.toNat)] := rfl

/-- Costs from a record with any of its members left out. -/
theorem ofJson?_without (out : String → Bool) (c : KdfCosts) :
    ofJson? (c.toJson.without out) = some (c.defaulting out) := by
  have hfields := Json.fields?_without out c.fields?_toJson
  simp only [List.zipWith_cons_cons, List.zipWith_nil_left] at hfields
  unfold ofJson?
  rw [toJson, hfields]
  dsimp only
  rw [Json.orDefault_field word? _ (word?_int _), Json.orDefault_field word? _ (word?_int _),
    Json.orDefault_field word? _ (word?_int _)]
  rfl

end KdfCosts

namespace Settings

variable {s : Settings}

/-- Settings with defaults in the fields of certain names, also of those inside the costs. -/
def defaulting (out kdfOut : String → Bool) (s : Settings) : Settings where
  identity := if out "identity" then default.identity else s.identity
  keyName := if out "key_name" then default.keyName else s.keyName
  throttleCooldownMs :=
    if out "throttle_cooldown_ms" then default.throttleCooldownMs else s.throttleCooldownMs
  duplicateCardPolicy :=
    if out "duplicate_card_policy" then default.duplicateCardPolicy else s.duplicateCardPolicy
  cardCachePath := if out "card_cache_path" then default.cardCachePath else s.cardCachePath
  kdf := if out "kdf" then default.kdf else s.kdf.defaulting kdfOut

/-- The JSON form of settings without the members of certain names, also inside the costs. -/
def jsonWithout (out kdfOut : String → Bool) (s : Settings) : Json :=
  (s.toJson.change "kdf" (Json.without kdfOut)).without out

/-- The text of settings without the fields of certain names, also inside the costs. -/
def textWithout (out kdfOut : String → Bool) (s : Settings) : String :=
  (s.jsonWithout out kdfOut).render

theorem clear_toJson (s : Settings) : s.toJson.Clear := by
  obtain ⟨identity, keyName, cooldown, policy, path, kdf⟩ := s
  cases keyName <;> cases path <;>
    simp [toJson, KdfCosts.toJson, optionalText, Json.Clear, Json.ClearMembers]

theorem clear_jsonWithout (out kdfOut : String → Bool) (s : Settings) :
    (s.jsonWithout out kdfOut).Clear :=
  Json.clear_without out
    (Json.clear_change "kdf" (fun _ => Json.clear_without kdfOut) s.clear_toJson)

theorem fields?_toJson (s : Settings) :
    s.toJson.fields? fieldNames =
      some [some (.text s.identity), some (optionalText s.keyName),
        some (.int s.throttleCooldownMs.toNat), some (.text s.duplicateCardPolicy.name),
        some (optionalText s.cardCachePath), some s.kdf.toJson] := rfl

/-- The costs are changed in the last field, and then fields are left out. -/
theorem fields?_jsonWithout (out kdfOut : String → Bool) (s : Settings) :
    (s.jsonWithout out kdfOut).fields? fieldNames =
      some [if out "identity" then none else some (.text s.identity),
        if out "key_name" then none else some (optionalText s.keyName),
        if out "throttle_cooldown_ms" then none else some (.int s.throttleCooldownMs.toNat),
        if out "duplicate_card_policy" then none else some (.text s.duplicateCardPolicy.name),
        if out "card_cache_path" then none else some (optionalText s.cardCachePath),
        if out "kdf" then none else some (s.kdf.toJson.without kdfOut)] :=
  Json.fields?_without out (Json.fields?_change "kdf" (Json.without kdfOut) s.fields?_toJson)

/-- Settings from a record with any members left out, also inside the costs. -/
theorem ofJson?_without (out kdfOut : String → Bool) (s : Settings) :
    ofJson? (s.jsonWithout out kdfOut) = some (s.defaulting out kdfOut) := by
  have hcooldown : (Json.natBelow? (2 ^ 64) (.int s.throttleCooldownMs.toNat)).map UInt64.ofNat =
      some s.throttleCooldownMs := by
    rw [Json.natBelow?_int s.throttleCooldownMs.toNat_lt, Option.map_some, UInt64.ofNat_toNat]
  unfold ofJson?
  rw [fields?_jsonWithout]
  dsimp only
  rw [Json.orDefault_field Json.text? (out "identity") (a := s.identity) rfl,
    Json.orDefault_field Json.optionalText? _ (optionalText?_optionalText s.keyName),
    Json.orDefault_field (fun v => (v.natBelow? (2 ^ 64)).map UInt64.ofNat) _ hcooldown,
    Json.orDefault_field _ _ (DuplicatePolicy.ofJson?_name s.duplicateCardPolicy),
    Json.orDefault_field Json.optionalText? _ (optionalText?_optionalText s.cardCachePath),
    Json.orDefault_field _ _ (KdfCosts.ofJson?_without kdfOut s.kdf)]
  rfl

/-! ## Texts -/

/-- What a text is answered with that settings are read from. -/
theorem ofJsonText_render {v : Json} (hv : v.Clear) (h : ofJson? v = some s) :
    ofJsonText v.render = s.validate.map fun _ => s := by
  unfold ofJsonText
  rw [Json.ofText?, Json.read?_render hv, Option.bind_some, h]
  dsimp only
  cases s.validate <;> rfl

/-- A text with fields left out is answered like settings with defaults in their place. -/
theorem ofJsonText_defaulting (out kdfOut : String → Bool) (s : Settings) :
    ofJsonText (s.textWithout out kdfOut) =
      (s.defaulting out kdfOut).validate.map fun _ => s.defaulting out kdfOut :=
  ofJsonText_render (clear_jsonWithout out kdfOut s) (ofJson?_without out kdfOut s)

theorem defaulting_none (s : Settings) :
    s.defaulting (fun _ => false) (fun _ => false) = s := rfl

theorem textWithout_none (s : Settings) :
    s.textWithout (fun _ => false) (fun _ => false) = s.toJson.render := rfl

/-- The text of settings gives the settings back if they are usable, and else what is wrong with
them; and leaving any fields out of it, also inside the costs, gives what the text of the settings
with defaults in just these fields gives. -/
theorem ofJsonText_textWithout (s : Settings) :
    (ofJsonText s.toJson.render = s.validate.map fun _ => s) ∧
      ∀ out kdfOut : String → Bool,
        ofJsonText (s.textWithout out kdfOut) =
          ofJsonText (s.defaulting out kdfOut).toJson.render := by
  have hwhole (s : Settings) : ofJsonText s.toJson.render = s.validate.map fun _ => s := by
    have := ofJsonText_defaulting (fun _ => false) (fun _ => false) s
    rwa [textWithout_none, defaulting_none] at this
  refine ⟨hwhole s, fun out kdfOut => ?_⟩
  rw [ofJsonText_defaulting, hwhole]

/-- All that a text of usable settings has to have. -/
example : (new "bob").textWithout (fun name => name ≠ "identity") (fun _ => false) =
    "\x7b\"identity\":\"bob\"\x7d" := by
  decide +kernel

end Settings

end EndToEnd
