/-
  Which settings a device can back up its key with.

  Argon2id refuses some costs that the check of the settings lets pass. The check asks for at least one
  pass and one lane; Argon2id asks for memory for each lane as well (`KdfCosts.HasRoom`). Where there is
  room, no operation on backups fails for want of a key from a password, and where there is none, no
  operation that is given a password is ever done (`Settings.derives_iff_hasRoom`). Under the standard suite
  this is what `CipherSuite.standard_stretches` says of Argon2id.
-/
import EndToEnd.CipherSuite.Standard
import EndToEnd.Device
import EndToEnd.Proofs.Backup.Derived

namespace EndToEnd

/-! ## Costs -/

/-- The costs that Argon2id takes. -/
structure KdfCosts.Stretchable (c : KdfCosts) : Prop where
  memory : 8 ≤ c.memoryKib.toNat
  memoryOfLanes : 8 * c.parallelism.toNat ≤ c.memoryKib.toNat
  passes : 1 ≤ c.iterations.toNat
  lanes : 1 ≤ c.parallelism.toNat
  fewLanes : c.parallelism.toNat ≤ 2 ^ 24 - 1

/-- There is memory for each lane, and there are no more lanes than Argon2id takes. -/
def KdfCosts.HasRoom (c : KdfCosts) : Prop :=
  8 * c.parallelism.toNat ≤ c.memoryKib.toNat ∧ c.parallelism.toNat ≤ 2 ^ 24 - 1

/-- Passwords are stretched under the costs that Argon2id takes, with salts of eight octets or more,
and under no others. -/
def CipherSuite.Stretches (S : CipherSuite) : Prop :=
  ∀ costs password salt,
    (S.stretch costs password salt).isOk = true ↔ costs.Stretchable ∧ 8 ≤ salt.length

theorem Argon2id.refusal_eq_none {c : Costs} :
    c.refusal = none ↔
      8 ≤ c.memory ∧ 8 * c.lanes ≤ c.memory ∧ 1 ≤ c.passes ∧ 1 ≤ c.lanes ∧ c.lanes ≤ 2 ^ 24 - 1 := by
  unfold Costs.refusal
  grind

theorem KdfCosts.stretchable_iff_refusal {c : KdfCosts} :
    c.Stretchable ↔
      Argon2id.Costs.refusal ⟨c.memoryKib.toNat, c.iterations.toNat, c.parallelism.toNat⟩ = none := by
  rw [Argon2id.refusal_eq_none]
  constructor
  · exact fun h => ⟨h.memory, h.memoryOfLanes, h.passes, h.lanes, h.fewLanes⟩
  · rintro ⟨hmemory, hlanes, hpasses, hpositive, hfew⟩
    exact ⟨hmemory, hlanes, hpasses, hpositive, hfew⟩

/-- Argon2id, as the standard suite has it, takes just the costs that `Stretchable` describes. -/
theorem CipherSuite.standard_stretches : standard.Stretches := by
  intro costs password salt
  show (stretchArgon2id costs password salt).isOk = true ↔ _
  unfold stretchArgon2id
  rw [KdfCosts.stretchable_iff_refusal]
  dsimp only
  cases Argon2id.Costs.refusal _ with
  | some r =>
    refine iff_of_false Bool.false_ne_true fun h => ?_
    cases h.1
  | none =>
    by_cases hsalt : salt.length < Argon2id.minSaltLength
    · rw [if_pos hsalt]
      exact iff_of_false Bool.false_ne_true fun h => Nat.not_le_of_lt hsalt h.2
    · rw [if_neg hsalt]
      exact iff_of_true rfl ⟨rfl, Nat.le_of_not_lt hsalt⟩

namespace Settings

variable {s : Settings}

/-- Settings that pass the check leave at least one pass and one lane. -/
theorem positive_of_validate (h : s.validate = .ok ()) :
    1 ≤ s.kdf.iterations.toNat ∧ 1 ≤ s.kdf.parallelism.toNat := by
  unfold validate at h
  split at h
  · cases h
  split at h
  · cases h
  split at h
  · cases h
  rename_i hzero
  rw [not_or] at hzero
  constructor
  · have : s.kdf.iterations.toNat ≠ 0 := fun h0 => hzero.1 (UInt32.toNat_inj.1 h0)
    omega
  · have : s.kdf.parallelism.toNat ≠ 0 := fun h0 => hzero.2 (UInt32.toNat_inj.1 h0)
    omega

/-- What the check leaves open is whether there is room. -/
theorem stretchable_iff (h : s.validate = .ok ()) : s.kdf.Stretchable ↔ s.kdf.HasRoom := by
  obtain ⟨hpasses, hlanes⟩ := positive_of_validate h
  constructor
  · exact fun hs => ⟨hs.memoryOfLanes, hs.fewLanes⟩
  · rintro ⟨hmemory, hfew⟩
    have : 8 ≤ s.kdf.memoryKib.toNat := by omega
    exact ⟨this, hmemory, hpasses, hlanes, hfew⟩

/-- With settings that pass the check, a password is stretched if and only if there is room, whoever
and whatever it is. -/
theorem stretchPassword_isOk_iff {S : CipherSuite} (hS : S.Stretches) (h : s.validate = .ok ())
    (identity password : String) :
    (stretchPassword S s.kdf password (backupSalt S identity).octets).isOk = true ↔
      s.kdf.HasRoom := by
  have hsalt : 8 ≤ (backupSalt S identity).octets.length := by
    rw [Block.length_octets]
    decide
  have hstretch := hS s.kdf (Utf8.encode password) (backupSalt S identity).octets
  rw [stretchable_iff h, and_iff_left hsalt] at hstretch
  rw [← hstretch]
  unfold stretchPassword
  cases S.stretch s.kdf (Utf8.encode password) (backupSalt S identity).octets <;> exact Iff.rfl

end Settings

/-! ## Devices -/

/-- A password becomes a key if and only if it can be stretched. -/
theorem KeyDeriver.exists_stretching_iff {S : CipherSuite} {costs : KdfCosts}
    {identity password : String} :
    (∃ key, stretching S costs identity password = .ok key) ↔
      (stretchPassword S costs password (backupSalt S identity).octets).isOk = true := by
  unfold stretching
  cases stretchPassword S costs password (backupSalt S identity).octets with
  | error e =>
    refine iff_of_false (fun hkey => ?_) Bool.false_ne_true
    obtain ⟨key, hkey⟩ := hkey
    cases hkey
  | ok seed => exact iff_of_true ⟨_, rfl⟩ rfl

namespace Settings

variable {S : CipherSuite} {s : Settings}

/-- Settings that pass the check make a device, whoever listens. If there is room for the lanes, every
password becomes a key, and no operation on backups fails because one does not, whatever the key store
and the backup store hold and whichever calls fail. If there is no room, no password becomes a key, and
no operation that is given one is ever done. -/
theorem derives_iff_hasRoom (hS : S.Stretches) (h : s.validate = .ok ()) (listening : Bool) :
    (∀ identity password,
      (stretchPassword S s.kdf password (backupSalt S identity).octets).isOk = true ↔
        s.kdf.HasRoom) ∧
    ∃ d, Device.ofSettings S s none listening = .ok d ∧ ∀ operation desk,
      (s.kdf.HasRoom →
        ∀ reason, (d.keyBackup.perform S operation desk).1 ≠ .error (.keyDerivationFailed reason)) ∧
      (¬ s.kdf.HasRoom → operation.passwords ≠ [] →
        (d.keyBackup.perform S operation desk).1.isOk = false) := by
  have hiff := stretchPassword_isOk_iff hS h
  obtain ⟨d, hd, hderive⟩ : ∃ d, Device.ofSettings S s none listening = .ok d ∧
      d.derive = .stretching S s.kdf := by
    unfold Device.ofSettings
    rw [h]
    exact ⟨_, rfl, rfl⟩
  have hkey (identity password : String) :
      (∃ key, d.derive identity password = .ok key) ↔ s.kdf.HasRoom := by
    rw [hderive, KeyDeriver.exists_stretching_iff]
    exact hiff identity password
  refine ⟨hiff, d, hd, fun operation desk => ⟨fun hroom reason he => ?_, fun hno hsaid => ?_⟩⟩
  · obtain ⟨p, -, hblamed⟩ := (d.keyBackup.perform_answers S operation desk).2 _ he rfl
    obtain ⟨key, hp⟩ := (hkey d.keyBackup.identity p).2 hroom
    change d.derive d.keyBackup.identity p = _ at hblamed
    rw [hp] at hblamed
    cases hblamed
  · cases hrun : (d.keyBackup.perform S operation desk).1 with
    | error e => rfl
    | ok answer =>
      obtain ⟨p, hp⟩ := List.exists_mem_of_ne_nil _ hsaid
      exact absurd ((hkey _ p).1 ((d.keyBackup.perform_answers S operation desk).1 answer hrun p hp)) hno

/-- With the default costs every password becomes a key, under the standard suite. -/
theorem derives_with_default_costs :
    CipherSuite.standard.Stretches ∧ (new "alice").validate = .ok () ∧ (new "alice").kdf.HasRoom ∧
      (∀ identity password,
        (stretchPassword .standard (new "alice").kdf password
          (backupSalt .standard identity).octets).isOk = true) ∧
      ∃ d, Device.ofSettings .standard (new "alice") none true = .ok d ∧
        ∀ operation desk reason,
          (d.keyBackup.perform .standard operation desk).1 ≠ .error (.keyDerivationFailed reason) := by
  have hvalid : (new "alice").validate = .ok () := by decide +kernel
  have hroom : (new "alice").kdf.HasRoom := by
    unfold KdfCosts.HasRoom
    decide
  obtain ⟨hiff, d, hd, hperform⟩ := derives_iff_hasRoom CipherSuite.standard_stretches hvalid true
  refine ⟨CipherSuite.standard_stretches, hvalid, hroom, fun identity password => ?_, d, hd, ?_⟩
  · exact (hiff identity password).2 hroom
  · exact fun operation desk => (hperform operation desk).1 hroom

/-- Seven KiB pass the check, and Argon2id refuses them: with such settings, a key that is there is not
backed up. -/
theorem not_backed_up_with_seven_kib :
    let s := (new "alice").withKdf ⟨7, 2, 1⟩
    let key : KeyPair := ⟨.zero 32, .zero 32⟩
    let vault : Vault :=
      ⟨⟨Table.empty.insert ⟨Vault.keySlot "alice", key.privateOctets⟩, none⟩, .ofSeed 1⟩
    CipherSuite.standard.Stretches ∧ s.validate = .ok () ∧ ¬ s.kdf.HasRoom ∧
      stretchPassword .standard s.kdf "secret" (backupSalt .standard "alice").octets =
        .error (.keyDerivation "Invalid Argon2 parameters: memory cost is too small") ∧
      ∃ d, Device.ofSettings .standard s none true = .ok d ∧
        (d.keyBackup.perform .standard (.backUp "secret" "alice") (.quiet vault .empty 1000)).1 =
          .error (.keyDerivationFailed
            "Key derivation failed: Invalid Argon2 parameters: memory cost is too small") := by
  refine ⟨CipherSuite.standard_stretches, by decide +kernel, ?_, by decide +kernel, _, rfl, ?_⟩
  · unfold KdfCosts.HasRoom
    decide
  · decide +kernel

end Settings

end EndToEnd
