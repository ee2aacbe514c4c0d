/-
  What storing a card does to the rows of a cache whose table never fails.

  A card is refused only for the predecessor that it names, and then nothing changes. Otherwise two
  rows change: the predecessor's row is marked as replaced, and the card's own row is written with a
  mark that joins what the card carries, what its row carried before, and whether a cached successor
  names it. `store_run` says so in one equation; all else about storing follows from it.
-/
import EndToEnd.Card.Cache
import EndToEnd.Proofs.Action
import EndToEnd.Proofs.Table
import EndToEnd.Proofs.Text.Order

namespace EndToEnd

namespace CardRow

/-- The row with the mark of a replaced card. -/
def outdate (r : CardRow) : CardRow := { r with outdated := true }

@[simp] theorem outdate_id (r : CardRow) : r.outdate.id = r.id := rfl
@[simp] theorem outdate_identity (r : CardRow) : r.outdate.identity = r.identity := rfl
@[simp] theorem outdate_outdated (r : CardRow) : r.outdate.outdated = true := rfl
@[simp] theorem outdate_previousId (r : CardRow) : r.outdate.previousId = r.previousId := rfl
@[simp] theorem outdate_createdAt (r : CardRow) : r.outdate.createdAt = r.createdAt := rfl
@[simp] theorem outdate_raw (r : CardRow) : r.outdate.raw = r.raw := rfl

theorem outdate_of_outdated {r : CardRow} (h : r.outdated = true) : r.outdate = r := by
  cases r
  cases h
  rfl

/-- The row once a card is there: marked, if it is the row of the card's predecessor. -/
def facing (r : CardRow) (c : Card) : CardRow := if c.previousId = some r.id then r.outdate else r

@[simp] theorem facing_id (r : CardRow) (c : Card) : (r.facing c).id = r.id := by
  unfold facing; split <;> rfl
@[simp] theorem facing_identity (r : CardRow) (c : Card) : (r.facing c).identity = r.identity := by
  unfold facing; split <;> rfl
@[simp] theorem facing_previousId (r : CardRow) (c : Card) :
    (r.facing c).previousId = r.previousId := by
  unfold facing; split <;> rfl
@[simp] theorem facing_createdAt (r : CardRow) (c : Card) :
    (r.facing c).createdAt = r.createdAt := by
  unfold facing; split <;> rfl
@[simp] theorem facing_raw (r : CardRow) (c : Card) : (r.facing c).raw = r.raw := by
  unfold facing; split <;> rfl

theorem facing_outdated (r : CardRow) (c : Card) :
    (r.facing c).outdated = true ↔ r.outdated = true ∨ c.previousId = some r.id := by
  unfold facing
  split
  · rename_i h; simp [h]
  · rename_i h; simp [h]

@[simp] theorem ofCard_id (c : Card) : (ofCard c).id = c.id := rfl
@[simp] theorem ofCard_identity (c : Card) : (ofCard c).identity = c.identity := rfl
@[simp] theorem ofCard_outdated (c : Card) : (ofCard c).outdated = c.outdated := rfl
@[simp] theorem ofCard_previousId (c : Card) : (ofCard c).previousId = c.previousId := rfl
@[simp] theorem ofCard_createdAt (c : Card) : (ofCard c).createdAt = c.createdAt := rfl

end CardRow

namespace CardRows

/-- The row of the predecessor that a card names. -/
def predecessor? (t : CardRows) (c : Card) : Option CardRow := c.previousId.bind fun id => t.find? id

/-- Why a card is refused: its predecessor belongs to another identity or is not older. -/
def refusal (t : CardRows) (c : Card) : Option Error :=
  match t.predecessor? c with
  | none => none
  | some p =>
    if p.identity ≠ c.identity then
      some (.invalidCardChain s!"Card {c.id} names a predecessor owned by another identity")
    else if c.createdAt ≤ p.createdAt then
      some (.invalidCardChain s!"Card {c.id} is not newer than its predecessor {p.id}")
    else none

/-- The rows with the predecessor of a card marked as replaced. -/
def outdatePredecessor (t : CardRows) (c : Card) : CardRows :=
  match t.predecessor? c with
  | none => t
  | some p => if p.outdated then t else t.insert p.outdate

/-- Whether another row of a card's identity names the card as its predecessor. -/
def names (t : CardRows) (c : Card) : Bool :=
  t.rows.any fun r => r.identity = c.identity && (r.id ≠ c.id && r.previousId = some c.id)

/-- The mark that a card is written with. -/
def mark (t : CardRows) (c : Card) : Bool :=
  c.outdated || (t.find? c.id).any (·.outdated) || t.names c

/-- The rows after a card was taken. -/
def adopt (t : CardRows) (c : Card) : CardRows :=
  (t.outdatePredecessor c).insert (CardRow.ofCard { c with outdated := t.mark c })

theorem predecessor?_eq_some {t : CardRows} {c : Card} {p : CardRow} :
    t.predecessor? c = some p ↔ c.previousId = some p.id ∧ p ∈ t.rows := by
  unfold predecessor?
  rw [Option.bind_eq_some_iff]
  constructor
  · rintro ⟨id, hid, hp⟩
    exact ⟨hid.trans (congrArg some (Table.key_of_find? hp).symm), Table.mem_of_find? hp⟩
  · rintro ⟨hid, hp⟩
    exact ⟨p.id, hid, Table.find?_key hp⟩

theorem refusal_eq_none {t : CardRows} {c : Card} :
    t.refusal c = none ↔
      ∀ p, t.predecessor? c = some p → p.identity = c.identity ∧ p.createdAt < c.createdAt := by
  unfold refusal
  constructor
  · intro h p hp
    rw [hp] at h
    dsimp only at h
    split at h
    · cases h
    · split at h
      · cases h
      · rename_i hi hc
        exact ⟨Decidable.not_not.1 hi, Int64.not_le.1 hc⟩
  · intro h
    split
    · rfl
    · rename_i p hp
      obtain ⟨hi, hc⟩ := h p hp
      rw [if_neg (Decidable.not_not.2 hi), if_neg (Int64.not_le.2 hc)]

/-- Marking the predecessor changes its mark and no other row. -/
theorem find?_outdatePredecessor (t : CardRows) (c : Card) (id : String) :
    (t.outdatePredecessor c).find? id =
      if c.previousId = some id then (t.find? id).map CardRow.outdate else t.find? id := by
  unfold outdatePredecessor
  cases hp : t.predecessor? c with
  | none =>
    dsimp only
    split
    · rename_i hid
      have : t.find? id = none := by
        simpa [predecessor?, hid] using hp
      rw [this]
      rfl
    · rfl
  | some p =>
    obtain ⟨hid, hmem⟩ := predecessor?_eq_some.1 hp
    dsimp only
    rw [hid]
    by_cases h : p.id = id
    · subst h
      rw [if_pos rfl, Table.find?_key hmem, Option.map_some]
      split
      · rename_i ho
        rw [Table.find?_key hmem, CardRow.outdate_of_outdated ho]
      · exact (Table.find?_insert _ _ _).trans (if_pos rfl)
    · rw [if_neg (fun e => h (Option.some.inj e))]
      split
      · rfl
      · exact (Table.find?_insert _ _ _).trans (if_neg h)

/-- What is found after a card was taken: its own row, the marked predecessor, and all else as it
was. -/
theorem find?_adopt (t : CardRows) (c : Card) (id : String) :
    (t.adopt c).find? id =
      if c.id = id then some (CardRow.ofCard { c with outdated := t.mark c })
      else if c.previousId = some id then (t.find? id).map CardRow.outdate
      else t.find? id := by
  unfold adopt
  rw [Table.find?_insert, find?_outdatePredecessor]
  rfl

/-- The rows after a card was taken: its own, and those of the other cards. -/
theorem mem_adopt {t : CardRows} {c : Card} {r : CardRow} :
    r ∈ (t.adopt c).rows ↔
      r = CardRow.ofCard { c with outdated := t.mark c } ∨
        ∃ p ∈ t.rows, p.id ≠ c.id ∧ r = p.facing c := by
  have hf := find?_adopt t c r.id
  constructor
  · intro h
    rw [Table.find?_key h] at hf
    split at hf
    · exact .inl (Option.some.inj hf)
    · rename_i hne
      right
      split at hf
      · rename_i hp
        obtain ⟨p, hp', rfl⟩ := Option.map_eq_some_iff.1 hf.symm
        obtain ⟨hmem, hid⟩ := Table.find?_eq_some_iff.1 hp'
        exact ⟨p, hmem, fun e => hne e.symm, (if_pos (show c.previousId = some p.id from hp)).symm⟩
      · rename_i hp
        exact ⟨r, Table.mem_of_find? hf.symm, fun e => hne e.symm, (if_neg hp).symm⟩
  · rintro (rfl | ⟨p, hp, hne, rfl⟩)
    · rw [CardRow.ofCard_id, if_pos rfl] at hf
      exact Table.mem_of_find? hf
    · rw [CardRow.facing_id, if_neg (Ne.symm hne), Table.find?_key hp] at hf
      refine Table.mem_of_find? (hf.trans ?_)
      unfold CardRow.facing
      split <;> rfl

/-- A row after marking the predecessor is one that was there, up to its mark. -/
theorem mem_outdatePredecessor {t : CardRows} {c : Card} {r : CardRow}
    (h : r ∈ (t.outdatePredecessor c).rows) : r ∈ t.rows ∨ ∃ p ∈ t.rows, r = p.outdate := by
  unfold outdatePredecessor at h
  split at h
  · exact .inl h
  · rename_i p hp
    split at h
    · exact .inl h
    · rcases Table.mem_insert.1 h with rfl | ⟨h, _⟩
      · exact .inr ⟨p, (predecessor?_eq_some.1 hp).2, rfl⟩
      · exact .inl h

/-- A row that was there is there after marking the predecessor, up to its mark. -/
theorem exists_mem_outdatePredecessor {t : CardRows} (c : Card) {r : CardRow} (h : r ∈ t.rows) :
    r ∈ (t.outdatePredecessor c).rows ∨ r.outdate ∈ (t.outdatePredecessor c).rows := by
  have hf := find?_outdatePredecessor t c r.id
  rw [Table.find?_key h] at hf
  split at hf
  · exact .inr (Table.mem_of_find? hf)
  · exact .inl (Table.mem_of_find? hf)

theorem names_eq_true {t : CardRows} {c : Card} :
    t.names c = true ↔
      ∃ r ∈ t.rows, r.identity = c.identity ∧ r.id ≠ c.id ∧ r.previousId = some c.id := by
  simp [names]

/-- Marking the predecessor of a card does not change who names the card. -/
theorem names_outdatePredecessor (t : CardRows) (c : Card) :
    (t.outdatePredecessor c).names c = t.names c := by
  rw [Bool.eq_iff_iff, names_eq_true, names_eq_true]
  constructor
  · rintro ⟨r, hr, hn⟩
    rcases mem_outdatePredecessor hr with hr | ⟨p, hp, rfl⟩
    · exact ⟨r, hr, hn⟩
    · exact ⟨p, hp, hn⟩
  · rintro ⟨r, hr, hn⟩
    rcases exists_mem_outdatePredecessor c hr with hr | hr
    · exact ⟨r, hr, hn⟩
    · exact ⟨r.outdate, hr, hn⟩

theorem mem_ofIdentity {t : CardRows} {identity : String} {r : CardRow} :
    r ∈ t.ofIdentity identity ↔ r ∈ t.rows ∧ r.identity = identity := by
  simp [ofIdentity, Timestamp.inOrder, List.mem_mergeSort]

/-- The current rows of an identity. -/
def standing (t : CardRows) (identity : String) : List CardRow :=
  (t.ofIdentity identity).filter fun r => !r.outdated

theorem mem_standing {t : CardRows} {identity : String} {r : CardRow} :
    r ∈ t.standing identity ↔ r ∈ t.rows ∧ r.identity = identity ∧ r.outdated = false := by
  rw [standing, List.mem_filter, mem_ofIdentity, Bool.not_eq_true', and_assoc]

theorem nodup_standing (t : CardRows) (identity : String) : (t.standing identity).Nodup := by
  refine List.Pairwise.sublist List.filter_sublist ?_
  exact (List.mergeSort_perm _ _).nodup_iff.2 (t.nodup_filter _)

theorem mem_currentIds {t : CardRows} {id : String} :
    id ∈ t.currentIds ↔ ∃ r ∈ t.rows, r.id = id ∧ r.outdated = false := by
  simp only [currentIds, List.mem_mergeSort, List.mem_map, List.mem_filter, Bool.not_eq_true']
  constructor
  · rintro ⟨r, ⟨hr, ho⟩, hid⟩
    exact ⟨r, hr, hid, ho⟩
  · rintro ⟨r, hr, hid, ho⟩
    exact ⟨r, ⟨hr, ho⟩, hid⟩

theorem pairwise_currentIds (t : CardRows) : t.currentIds.Pairwise (· < ·) :=
  Text.pairwise_lt_mergeSort (t.distinct.sublist (List.filter_sublist.map _))

theorem any_ofIdentity (t : CardRows) (c : Card) :
    ((t.ofIdentity c.identity).any fun r => r.id ≠ c.id && r.previousId = some c.id) = t.names c := by
  rw [Bool.eq_iff_iff, names_eq_true, List.any_eq_true]
  refine exists_congr fun r => ?_
  rw [mem_ofIdentity]
  simp [and_assoc]

end CardRows

namespace CardCache

/-- The table of the cache fails no call. -/
structure Reliable (k : CardCache) : Prop where
  inserts : k.inserts = .clear
  queries : k.queries = .clear

theorem reliable_empty (policy : DuplicatePolicy) : (empty policy).Reliable := ⟨rfl, rfl⟩

theorem Reliable.withRows {k : CardCache} (hk : k.Reliable) (rows : CardRows) :
    Reliable { k with rows } := ⟨hk.inserts, hk.queries⟩

variable {k : CardCache}

theorem insert_run (hk : k.Reliable) (r : CardRow) :
    insert r k = (.ok (), { k with rows := k.rows.insert r }) := by
  obtain ⟨rows, policy, inserts, queries⟩ := k
  obtain ⟨rfl, rfl⟩ := hk
  rfl

theorem query_run {α : Type} (hk : k.Reliable) (read : CardRows → α) :
    query read k = (.ok (read k.rows), k) := by
  obtain ⟨rows, policy, inserts, queries⟩ := k
  obtain ⟨rfl, rfl⟩ := hk
  rfl

/-- Either the predecessor is marked, or the card is refused and nothing changes. -/
theorem replacePredecessor_run (hk : k.Reliable) (c : Card) :
    (∃ e, k.rows.refusal c = some e ∧ replacePredecessor c k = (.error e, k)) ∨
      ∃ replaced, k.rows.refusal c = none ∧
        replacePredecessor c k =
          (.ok replaced, { k with rows := k.rows.outdatePredecessor c }) := by
  unfold replacePredecessor CardRows.refusal CardRows.outdatePredecessor CardRows.predecessor?
  cases c.previousId with
  | none => exact .inr ⟨none, rfl, rfl⟩
  | some id =>
    dsimp only [Option.bind_some]
    rw [Action.bind_ok (query_run hk _)]
    cases k.rows.find? id with
    | none => exact .inr ⟨none, rfl, rfl⟩
    | some p =>
      dsimp only
      split
      · exact .inl ⟨_, rfl, rfl⟩
      split
      · exact .inl ⟨_, rfl, rfl⟩
      split
      · exact .inr ⟨none, rfl, rfl⟩
      · refine .inr ⟨some p, rfl, ?_⟩
        rw [Action.bind_ok (insert_run hk _)]
        rfl

theorem insertOrRestore_run (hk : k.Reliable) (r : CardRow) (replaced : Option CardRow) :
    insertOrRestore r replaced k = (.ok (), { k with rows := k.rows.insert r }) := by
  unfold insertOrRestore
  rw [insert_run hk]

/-- Storing a card: it is refused and nothing changes, or its rows are written. -/
theorem store_run (hk : k.Reliable) (c : Card) :
    store c k = match k.rows.refusal c with
      | some e => (.error e, k)
      | none => (.ok (), { k with rows := k.rows.adopt c }) := by
  unfold store
  rw [Action.bind_ok (query_run hk _)]
  rcases replacePredecessor_run hk c with ⟨e, he, h⟩ | ⟨replaced, he, h⟩
  · rw [Action.bind_error h, he]
  · have hr := hk.withRows (k.rows.outdatePredecessor c)
    rw [Action.bind_ok h, Action.bind_ok (query_run hr _), insertOrRestore_run hr, he]
    simp only [CardRows.adopt, CardRows.mark, CardRows.any_ofIdentity,
      CardRows.names_outdatePredecessor]

theorem store_of_not_refused (hk : k.Reliable) {c : Card} (h : k.rows.refusal c = none) :
    store c k = (.ok (), { k with rows := k.rows.adopt c }) := by
  rw [store_run hk, h]

/-- The ids of the current rows, each once and in order. -/
theorem currentIds_run (hk : k.Reliable) :
    currentIds k = (.ok k.rows.currentIds, k) := query_run hk _

end CardCache

end EndToEnd
