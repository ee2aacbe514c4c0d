/-
  Clients that share a backup store overwrite nothing that they have not read.

  Calls come from any clients in any order. An entry that the store holds after some calls it held before
  them, or one of them wrote it (`stored_or_written`); so everything stored was written by a client, and
  its hash is the digest of its ciphertext (`hash_of_stored`). An entry is replaced only by one who names
  the hash of what is there (`replace_cases`). Where digests tell ciphertexts apart, that is the ciphertext
  that was read (`replace_done_iff`), and what was written over in between is there again only if it was
  written again (`written_behind`).
-/
import EndToEnd.Proofs.Backup.Outcome
import EndToEnd.Proofs.Key

namespace EndToEnd

/-! ## Entries and calls -/

namespace BackupEntry

/-- An entry as clients make them: a new one with notes, or one with another ciphertext. -/
inductive Made (S : CipherSuite) : BackupEntry → Prop
  | new (now : Timestamp) (identity keyName : String) (ciphertext : Octets)
      (notes : List (String × String)) :
      Made S { BackupEntry.new S now identity keyName ciphertext with notes }
  | withCiphertext {e : BackupEntry} (made : Made S e) (now : Timestamp) (ciphertext : Octets) :
      Made S (e.withCiphertext S now ciphertext)

variable {S : CipherSuite}

theorem Made.hash_eq {e : BackupEntry} (h : Made S e) : e.hash = hashOf S e.ciphertext := by
  cases h <;> rfl

/-- Ciphertexts with one hash have one digest. -/
theorem digest_eq_of_hashOf {a b : Octets} (h : hashOf S a = hashOf S b) :
    S.sha256 a = S.sha256 b := by
  have hread : hexBlock? 32 (S.sha256 a).hex = hexBlock? 32 (S.sha256 b).hex := congrArg _ h
  rw [hexBlock?_hex, hexBlock?_hex] at hread
  exact Option.some.inj hread

end BackupEntry

/-- A call to the backup store. -/
inductive BackupCall where
  | push (e : BackupEntry)
  | pull (identity keyName : String)
  | replace (e : BackupEntry) (previousHash : String)
  | delete (identity keyName : String)
  | deleteAll (identity : String)

/-- What a call answers. -/
inductive BackupReply where
  | done
  /-- The entry that was asked for, if it is there. -/
  | found (e? : Option BackupEntry)
  /-- Whether there was an entry to delete. -/
  | deleted (wasThere : Bool)
  /-- How many entries were deleted. -/
  | removed (count : Nat)
deriving DecidableEq

namespace BackupCall

/-- Makes the call. -/
def perform : BackupCall → BackupStore.Call BackupReply
  | push e => (fun _ => .done) <$> BackupStore.push e
  | pull identity keyName => .found <$> BackupStore.pull identity keyName
  | replace e previousHash => (fun _ => .done) <$> BackupStore.replace e previousHash
  | delete identity keyName => .deleted <$> BackupStore.delete identity keyName
  | deleteAll identity => .removed <$> BackupStore.deleteAll identity

/-- The entry that a call is to write, if it is to write one. -/
def entry? : BackupCall → Option BackupEntry
  | push e => some e
  | replace e _ => some e
  | _ => none

end BackupCall

namespace BackupStore

variable {α β : Type} {t : BackupEntries}

theorem Atomic.map {x : Call α} {done : α → BackupEntries → Prop} (h : Atomic t x done) (g : α → β) :
    Atomic t (g <$> x) fun b t' => ∃ a, g a = b ∧ done a t' := by
  intro available
  rw [map_eq_pure_bind]
  rcases h available with ⟨e, hr⟩ | ⟨a, t', hr, ht'⟩
  · exact .inl ⟨e, Action.bind_error hr⟩
  · exact .inr ⟨g a, t', (Action.bind_ok hr).trans rfl, a, rfl, ht'⟩

/-- What a call leaves once it is done: entries that were there before, and the one that it writes. -/
structure Leaves (call : BackupCall) (t : BackupEntries) (reply : BackupReply) (t' : BackupEntries) :
    Prop where
  stored : ∀ place e, t'.find? place = some e →
    t.find? place = some e ∨ call.entry? = some e ∧ reply = .done
  written : ∀ e, call.entry? = some e → t'.find? e.key = some e

variable {call : BackupCall} {reply : BackupReply}

theorem leaves_insert {e : BackupEntry} (h : call.entry? = some e) :
    Leaves call t .done (t.insert e) where
  stored place found hfound := by
    rw [Table.find?_insert] at hfound
    split at hfound
    · exact .inr ⟨h.trans hfound, rfl⟩
    · exact .inl hfound
  written found hfound := by
    obtain rfl := Option.some.inj (h.symm.trans hfound)
    rw [Table.find?_insert, if_pos rfl]

theorem leaves_of_subset {t' : BackupEntries} (hnone : call.entry? = none)
    (h : ∀ e ∈ t'.rows, e ∈ t.rows) : Leaves call t reply t' where
  stored place e he := by
    rw [Table.find?_eq_some_iff] at he
    exact .inl (Table.find?_eq_some_iff.2 ⟨h e he.1, he.2⟩)
  written e he := by
    rw [hnone] at he
    cases he

/-- Each call fails and changes nothing, or is done. -/
theorem perform_atomic (t : BackupEntries) (call : BackupCall) :
    Atomic t call.perform (Leaves call t) := by
  cases call with
  | push e =>
    refine ((push_atomic t e).map _).mono fun reply t' ht' => ?_
    obtain ⟨_, rfl, -, rfl⟩ := ht'
    exact leaves_insert rfl
  | pull identity keyName =>
    refine ((pull_atomic t identity keyName).map _).mono fun reply t' ht' => ?_
    obtain ⟨_, -, -, rfl⟩ := ht'
    exact leaves_of_subset rfl fun _ he => he
  | replace e previousHash =>
    refine ((replace_atomic t e previousHash).map _).mono fun reply t' ht' => ?_
    obtain ⟨_, rfl, rfl⟩ := ht'
    exact leaves_insert rfl
  | delete identity keyName =>
    refine ((delete_atomic t identity keyName).map _).mono fun reply t' ht' => ?_
    obtain ⟨_, -, rfl⟩ := ht'
    exact leaves_of_subset rfl fun _ he => (Table.mem_erase.1 he).1
  | deleteAll identity =>
    refine ((deleteAll_atomic t identity).map _).mono fun reply t' ht' => ?_
    obtain ⟨_, -, rfl⟩ := ht'
    exact leaves_of_subset rfl fun _ he => (List.mem_filter.1 he).1

theorem perform_pull (t : BackupEntries) (identity keyName : String) :
    (BackupCall.pull identity keyName).perform ⟨t, true⟩ =
      (.ok (.found (t.find? (identity, keyName))), ⟨t, true⟩) := rfl

theorem perform_replace_of_none {e : BackupEntry} (h : t.find? e.key = none) (previousHash : String) :
    (BackupCall.replace e previousHash).perform ⟨t, true⟩ = (.error .entryNotFound, ⟨t, true⟩) := by
  rw [BackupCall.perform, map_eq_pure_bind]
  exact Action.bind_error (replace_of_none h previousHash)

theorem perform_replace_of_some {e current : BackupEntry} (h : t.find? e.key = some current)
    (previousHash : String) :
    (BackupCall.replace e previousHash).perform ⟨t, true⟩ =
      if current.hash = previousHash then (.ok .done, ⟨t.insert e, true⟩)
      else (.error .hashMismatch, ⟨t, true⟩) := by
  rw [BackupCall.perform, map_eq_pure_bind, Action.bind_run, replace_of_some h]
  by_cases hhash : current.hash = previousHash <;> simp [hhash]

end BackupStore

/-! ## Runs -/

/-- A call, and the client that makes it. -/
structure BackupRequest where
  client : String
  call : BackupCall

namespace BackupStore

variable {S : CipherSuite} {requests : List BackupRequest} {r : BackupRequest} {client : String}
  {e : BackupEntry} {place : String × String}

/-- The store after requests, where it was empty before them. -/
def after (requests : List BackupRequest) : BackupStore :=
  requests.foldl (fun s r => (r.call.perform s).2) .empty

/-- The answer to a request that comes after others. -/
def answer (requests : List BackupRequest) (r : BackupRequest) : Except TransportError BackupReply :=
  (r.call.perform (after requests)).1

/-- A request that comes after others writes an entry. -/
def Writes (requests : List BackupRequest) (r : BackupRequest) (e : BackupEntry) : Prop :=
  r.call.entry? = some e ∧ answer requests r = .ok .done

/-- A client has been given an entry. -/
def Pulled (requests : List BackupRequest) (client : String) (e : BackupEntry) : Prop :=
  ∃ before identity keyName behind, requests = before ++ ⟨client, .pull identity keyName⟩ :: behind ∧
    answer before ⟨client, .pull identity keyName⟩ = .ok (.found (some e))

/-- The entries that requests are to write. -/
def entriesOf (requests : List BackupRequest) : List BackupEntry :=
  requests.filterMap (·.call.entry?)

/-- The digests of ciphertexts tell them apart. -/
def DigestsDiffer (S : CipherSuite) (entries : List BackupEntry) : Prop :=
  ∀ d ∈ entries, ∀ e ∈ entries,
    S.sha256 d.ciphertext = S.sha256 e.ciphertext → d.ciphertext = e.ciphertext

instance (S : CipherSuite) : DecidablePred (DigestsDiffer S) := fun entries =>
  inferInstanceAs (Decidable (∀ d ∈ entries, ∀ e ∈ entries,
    S.sha256 d.ciphertext = S.sha256 e.ciphertext → d.ciphertext = e.ciphertext))

theorem after_snoc (requests : List BackupRequest) (r : BackupRequest) :
    after (requests ++ [r]) = (r.call.perform (after requests)).2 := by
  simp [after]

/-- Nothing makes the store unreachable. -/
theorem available_after (requests : List BackupRequest) : (after requests).available = true := by
  suffices h : ∀ s : BackupStore, s.available = true →
      (requests.foldl (fun s r => (r.call.perform s).2) s).available = true from h .empty rfl
  induction requests with
  | nil => exact fun _ hs => hs
  | cons r requests ih =>
    intro s hs
    apply ih
    rcases perform_atomic s.entries r.call s.available with ⟨e, hr⟩ | ⟨reply, t', hr, -⟩
    · exact (congrArg (·.2.available) hr).trans hs
    · exact (congrArg (·.2.available) hr).trans hs

theorem after_eq (requests : List BackupRequest) :
    after requests = ⟨(after requests).entries, true⟩ := by
  rw [← available_after requests]

/-- A request is refused and changes nothing, or it is done. -/
theorem request_cases (requests : List BackupRequest) (r : BackupRequest) :
    (∃ e, answer requests r = .error e ∧ after (requests ++ [r]) = after requests) ∨
      ∃ reply, answer requests r = .ok reply ∧
        Leaves r.call (after requests).entries reply (after (requests ++ [r])).entries := by
  rw [after_snoc, answer]
  rcases perform_atomic (after requests).entries r.call (after requests).available with
    ⟨e, hr⟩ | ⟨reply, t', hr, ht'⟩
  · exact .inl ⟨e, congrArg Prod.fst hr, congrArg Prod.snd hr⟩
  · refine .inr ⟨reply, congrArg Prod.fst hr, ?_⟩
    rwa [congrArg (·.2.entries) hr]

/-- What is stored after a request was there before it, or the request wrote it. -/
theorem stored_or_writes (requests : List BackupRequest) (r : BackupRequest)
    (h : (after (requests ++ [r])).entries.find? place = some e) :
    (after requests).entries.find? place = some e ∨ Writes requests r e := by
  rcases request_cases requests r with ⟨_, -, hsame⟩ | ⟨reply, hanswer, hleaves⟩
  · rw [hsame] at h
    exact .inl h
  · rcases hleaves.stored place e h with hstored | ⟨hentry, rfl⟩
    · exact .inl hstored
    · exact .inr ⟨hentry, hanswer⟩

/-- What a request wrote is stored right after it. -/
theorem stored_of_writes (h : Writes requests r e) :
    (after (requests ++ [r])).entries.find? e.key = some e := by
  rcases request_cases requests r with ⟨_, hrefused, -⟩ | ⟨reply, -, hleaves⟩
  · rw [h.2] at hrefused
    cases hrefused
  · exact hleaves.written e h.1

/-- What is stored after requests was there before them, or one of them wrote it. -/
theorem stored_or_written {before requests : List BackupRequest}
    (h : (after (before ++ requests)).entries.find? place = some e) :
    (after before).entries.find? place = some e ∨
      ∃ middle r rest, requests = middle ++ r :: rest ∧ Writes (before ++ middle) r e := by
  induction requests generalizing before with
  | nil =>
    rw [List.append_nil] at h
    exact .inl h
  | cons r requests ih =>
    rw [← List.singleton_append, ← List.append_assoc] at h
    rcases ih h with hstored | ⟨middle, q, rest, rfl, hwrites⟩
    · refine (stored_or_writes before r hstored).imp_right fun hwrites => ?_
      exact ⟨[], r, requests, rfl, by rwa [List.append_nil]⟩
    · exact .inr ⟨r :: middle, q, rest, rfl, by simpa using hwrites⟩

/-- What is stored was written by some client. -/
theorem mem_entriesOf_of_stored (h : (after requests).entries.find? place = some e) :
    e ∈ entriesOf requests := by
  rw [← List.nil_append requests] at h
  rcases stored_or_written h with hnone | ⟨middle, r, rest, rfl, hentry, -⟩
  · cases hnone
  · exact List.mem_filterMap.2 ⟨r, by simp, hentry⟩

/-- A client is given what is stored. -/
theorem answer_pull (requests : List BackupRequest) (client identity keyName : String) :
    answer requests ⟨client, .pull identity keyName⟩ =
      .ok (.found ((after requests).entries.find? (identity, keyName))) := by
  rw [answer, after_eq, perform_pull]

/-- What was pulled was written by some client. -/
theorem mem_entriesOf_of_pulled (h : Pulled requests client e) : e ∈ entriesOf requests := by
  obtain ⟨before, identity, keyName, behind, rfl, hanswer⟩ := h
  rw [answer_pull] at hanswer
  have hmem := mem_entriesOf_of_stored (BackupReply.found.inj (Except.ok.inj hanswer))
  rw [entriesOf, List.filterMap_append]
  exact List.mem_append_left _ hmem

/-- An entry is replaced by one who names the hash of what is there; who names another one is refused,
and nothing changes. -/
theorem replace_cases (requests : List BackupRequest) (client : String) (e : BackupEntry)
    (previousHash : String) :
    let r : BackupRequest := ⟨client, .replace e previousHash⟩
    (answer requests r = .ok .done ∧
      ∃ current, (after requests).entries.find? e.key = some current ∧ current.hash = previousHash) ∨
    (answer requests r = .error .hashMismatch ∨ answer requests r = .error .entryNotFound) ∧
      after (requests ++ [r]) = after requests ∧
      ∀ current, (after requests).entries.find? e.key = some current → current.hash ≠ previousHash := by
  intro r
  rw [after_snoc, answer, after_eq]
  cases hfound : (after requests).entries.find? e.key with
  | none =>
    rw [perform_replace_of_none hfound]
    refine .inr ⟨.inr rfl, rfl, fun current h => ?_⟩
    cases h
  | some current =>
    rw [perform_replace_of_some hfound]
    by_cases hhash : current.hash = previousHash
    · rw [if_pos hhash]
      exact .inl ⟨rfl, current, rfl, hhash⟩
    · rw [if_neg hhash]
      refine .inr ⟨.inl rfl, rfl, fun found h => ?_⟩
      rwa [← Option.some.inj h]

/-- The hash of what is stored is the digest of its ciphertext. -/
theorem hash_of_stored (hmade : ∀ e ∈ entriesOf requests, e.Made S)
    (h : (after requests).entries.find? place = some e) : e.hash = BackupEntry.hashOf S e.ciphertext :=
  (hmade e (mem_entriesOf_of_stored h)).hash_eq

/-- What is stored with the hash of a pulled entry has its ciphertext. -/
theorem hash_eq_iff (hmade : ∀ e ∈ entriesOf requests, e.Made S)
    (hdiffer : DigestsDiffer S (entriesOf requests)) (hpulled : Pulled requests client e)
    {current : BackupEntry} (hstored : (after requests).entries.find? place = some current) :
    current.hash = e.hash ↔ current.ciphertext = e.ciphertext := by
  have he := mem_entriesOf_of_pulled hpulled
  rw [hash_of_stored hmade hstored, (hmade e he).hash_eq]
  constructor
  · intro hhash
    exact hdiffer current (mem_entriesOf_of_stored hstored) e he (BackupEntry.digest_eq_of_hashOf hhash)
  · intro hsame
    rw [hsame]

/-- A client who has pulled an entry replaces it exactly if what is stored has the ciphertext that was
pulled. -/
theorem replace_done_iff (hmade : ∀ e ∈ entriesOf requests, e.Made S)
    (hdiffer : DigestsDiffer S (entriesOf requests)) (hpulled : Pulled requests client e)
    (now : Timestamp) (ciphertext : Octets) :
    answer requests ⟨client, .replace (e.withCiphertext S now ciphertext) e.hash⟩ = .ok .done ↔
      ∃ current, (after requests).entries.find? e.key = some current ∧
        current.ciphertext = e.ciphertext := by
  rcases replace_cases requests client (e.withCiphertext S now ciphertext) e.hash with
    ⟨hdone, current, hstored, hhash⟩ | ⟨hrefused, -, hother⟩
  · have hsame := (hash_eq_iff hmade hdiffer hpulled hstored).1 hhash
    exact iff_of_true hdone ⟨current, hstored, hsame⟩
  · refine iff_of_false (fun hdone => ?_) fun hexists => ?_
    · rw [hdone] at hrefused
      simp at hrefused
    · obtain ⟨current, hstored, hsame⟩ := hexists
      exact hother current hstored ((hash_eq_iff hmade hdiffer hpulled hstored).2 hsame)

/-- A request has written an entry: if another one is stored in its place, a later request wrote that. -/
theorem written_behind {before behind : List BackupRequest} {first : BackupRequest} {other : BackupEntry}
    (hwrites : Writes before first other) (hne : other ≠ e)
    (h : (after (before ++ first :: behind)).entries.find? other.key = some e) :
    ∃ middle again rest, behind = middle ++ again :: rest ∧
      Writes (before ++ first :: middle) again e := by
  rw [← List.singleton_append, ← List.append_assoc] at h
  rcases stored_or_written h with hearlier | ⟨middle, again, rest, rfl, hagain⟩
  · -- right after the first write its own entry is what is stored
    rw [stored_of_writes hwrites] at hearlier
    exact absurd (Option.some.inj hearlier) hne
  · exact ⟨middle, again, rest, rfl, by simpa using hagain⟩

/-- Whatever clients do, every stored entry lies under its own identity and name, with the digest of its
ciphertext. Where digests tell the ciphertexts apart, a client who has pulled an entry replaces it exactly
if what is stored then has the ciphertext that was pulled; otherwise the client is refused and nothing
changes. So once anybody has written a different ciphertext, the client is refused unless somebody has
written the pulled one again since. -/
theorem overwrites_what_was_read (hmade : ∀ e ∈ entriesOf requests, e.Made S) :
    (∀ place e, (after requests).entries.find? place = some e →
      e.key = place ∧ e.hash = BackupEntry.hashOf S e.ciphertext) ∧
    (DigestsDiffer S (entriesOf requests) → ∀ client e, Pulled requests client e → ∀ now ciphertext,
      let late : BackupRequest := ⟨client, .replace (e.withCiphertext S now ciphertext) e.hash⟩
      (answer requests late = .ok .done ↔ ∃ current,
        (after requests).entries.find? e.key = some current ∧ current.ciphertext = e.ciphertext) ∧
      (answer requests late = .ok .done ∨
        (answer requests late = .error .hashMismatch ∨ answer requests late = .error .entryNotFound) ∧
          after (requests ++ [late]) = after requests) ∧
      ∀ before first other behind, requests = before ++ first :: behind → Writes before first other →
        other.key = e.key → other.ciphertext ≠ e.ciphertext → answer requests late = .ok .done →
          ∃ middle again rest entry, behind = middle ++ again :: rest ∧
            Writes (before ++ first :: middle) again entry ∧ entry.key = e.key ∧
              entry.ciphertext = e.ciphertext) := by
  refine ⟨fun place e h => ⟨Table.key_of_find? h, hash_of_stored hmade h⟩, ?_⟩
  intro hdiffer client e hpulled now ciphertext late
  have hiff := replace_done_iff hmade hdiffer hpulled now ciphertext
  refine ⟨hiff, ?_, ?_⟩
  · rcases replace_cases requests client (e.withCiphertext S now ciphertext) e.hash with
      ⟨hdone, -⟩ | ⟨hrefused, hkept, -⟩
    · exact .inl hdone
    · exact .inr ⟨hrefused, hkept⟩
  · rintro before first other behind rfl hwrites hkey hdifferent hdone
    obtain ⟨current, hstored, hsame⟩ := hiff.1 hdone
    have hplace := Table.key_of_find? hstored
    have hne : other ≠ current := by
      rintro rfl
      exact hdifferent hsame
    rw [← hkey] at hstored
    obtain ⟨middle, again, rest, hbehind, hagain⟩ := written_behind hwrites hne hstored
    exact ⟨middle, again, rest, current, hbehind, hagain, hplace, hsame⟩

/-- Two devices have pulled one entry; when the second one replaces it, the first one has already. -/
theorem late_overwrite_refused :
    let e := BackupEntry.new .transparent 1 "alice" "main" [1]
    let next := e.withCiphertext .transparent 2 [2]
    let requests : List BackupRequest := [⟨"phone", .push e⟩, ⟨"phone", .pull "alice" "main"⟩,
      ⟨"laptop", .pull "alice" "main"⟩, ⟨"phone", .replace next e.hash⟩]
    let late : BackupRequest := ⟨"laptop", .replace (e.withCiphertext .transparent 3 [3]) e.hash⟩
    answer requests late ≠ .ok .done ∧ after (requests ++ [late]) = after requests := by
  intro e next requests late
  have hmade : ∀ d ∈ entriesOf requests, d.Made .transparent := by
    have hnew : e.Made .transparent := .new 1 "alice" "main" [1] []
    intro d hd
    have hcases : d ∈ [e, next] := hd
    simp only [List.mem_cons, List.not_mem_nil, or_false] at hcases
    rcases hcases with rfl | rfl
    · exact hnew
    · exact hnew.withCiphertext 2 [2]
  have hpulled : Pulled requests "laptop" e :=
    ⟨requests.take 2, "alice", "main", requests.drop 3, rfl, by decide +kernel⟩
  have hwrites : Writes (requests.take 3) ⟨"phone", .replace next e.hash⟩ next :=
    ⟨rfl, by decide +kernel⟩
  obtain ⟨-, hreplaces⟩ := overwrites_what_was_read hmade
  obtain ⟨-, hends, hagain⟩ := hreplaces (by decide +kernel) "laptop" e hpulled 3 [3]
  have hrefused : answer requests late ≠ .ok .done := by
    intro hdone
    obtain ⟨middle, again, rest, entry, hnil, -⟩ :=
      hagain _ _ next [] rfl hwrites rfl (by decide) hdone
    cases middle <;> cases hnil
  exact ⟨hrefused, (hends.resolve_left hrefused).2⟩

/-- Where the pulled ciphertext was written again, the client replaces what it has not pulled. -/
example :
    let e := BackupEntry.new .transparent 1 "alice" "main" [1]
    answer [⟨"phone", .push e⟩, ⟨"laptop", .pull "alice" "main"⟩, ⟨"phone", .deleteAll "alice"⟩,
      ⟨"phone", .push (.new .transparent 2 "alice" "main" [1])⟩]
      ⟨"laptop", .replace (e.withCiphertext .transparent 3 [3]) e.hash⟩ = .ok .done := by
  decide +kernel

end BackupStore

end EndToEnd
