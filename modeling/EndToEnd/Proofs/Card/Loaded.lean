/-
  Which rows are loaded when a chain is read.

  `CardReader` is a cache that notes every row whose card it loads. It reads a chain by the same text as
  the cache itself, gives the same answer and leaves the same cache (`CardReader.simulates_resolve`), so
  what it has noted at the end is what the cache has loaded.

  The cards that are read get older, which ends the walk; that no row is loaded twice is due to the ids
  that were met. `Noted` relates the two: a row that was noted has an id that was met. No order of the
  rows, and no success of a query, is asked for.
-/
import EndToEnd.Proofs.Card.Resolve

namespace EndToEnd

/-- A card cache, and the rows that were loaded from it. -/
structure CardReader where
  cache : CardCache
  loaded : List CardRow

namespace CardReader

/-- Reads from the table. -/
def query {α : Type} (read : CardRows → α) : Action CardReader α :=
  Action.on cache (fun s cache => { s with cache }) (CardCache.query read)

/-- Loads the card of a row, and notes the row. -/
def load (S : CipherSuite) (row : CardRow) : Action CardReader Card := fun s =>
  (row.toCard S, { s with loaded := s.loaded ++ [row] })

/-- The predecessors of a card, as the cache reads them. -/
def ancestors (S : CipherSuite) (identity : String) (visited : List String) (newer : Timestamp) :
    Option String → Action CardReader (List Card)
  | none => pure []
  | some id =>
    if id ∈ visited then pure []
    else do
      match ← query (·.find? id) with
      | none => pure []
      | some row =>
        let previous ← load S row
        if _h : previous.identity = identity ∧ previous.createdAt < newer then
          let older ← ancestors S identity (id :: visited) previous.createdAt previous.previousId
          pure (previous :: older)
        else pure []
termination_by newer.rank
decreasing_by exact Timestamp.rank_lt _h.2

/-- The card of a row with its predecessors, as the cache reads them. -/
def resolve (S : CipherSuite) (row : CardRow) : Action CardReader CardChain := do
  let card ← load S row
  let older ← ancestors S card.identity [card.id] card.createdAt card.previousId
  pure ⟨card, older⟩

variable {S : CipherSuite} {rows : List CardRow} {visited : List String}

theorem load_ok {row : CardRow} (s : CardReader) (c : Card) (h : (load S row s).1 = .ok c) :
    c.id = row.id :=
  (CardRow.toCard_ok h).1

/-! ## The reader does what the cache does -/

/-- The reader works on this cache. -/
def Over (s : CardReader) (k : CardCache) : Prop := s.cache = k

theorem simulates_query {α : Type} (read : CardRows → α) :
    Action.Simulates Over (query read) (CardCache.query read) := by
  rintro s k rfl
  exact ⟨rfl, rfl⟩

theorem simulates_load (row : CardRow) :
    Action.Simulates Over (load S row) (Action.lift (row.toCard S)) := by
  rintro s k rfl
  exact ⟨rfl, rfl⟩

/-- The recursion is the walk's own. -/
theorem simulates_ancestors (identity : String) (visited : List String) (newer : Timestamp)
    (id? : Option String) : Action.Simulates Over (ancestors S identity visited newer id?)
      (CardCache.ancestors S identity visited newer id?) := by
  cases id? with
  | none =>
    rw [ancestors, CardCache.ancestors]
    exact .pure []
  | some id =>
    rw [ancestors, CardCache.ancestors]
    by_cases hmet : id ∈ visited
    · rw [if_pos hmet, if_pos hmet]
      exact .pure []
    · rw [if_neg hmet, if_neg hmet]
      refine (simulates_query _).bind fun found => ?_
      cases found with
      | none => exact .pure []
      | some row =>
        refine (simulates_load row).bind fun previous => ?_
        by_cases hgoes : previous.identity = identity ∧ previous.createdAt < newer
        · rw [dif_pos hgoes, dif_pos hgoes]
          exact .bind (simulates_ancestors _ _ _ _) fun older => .pure (previous :: older)
        · rw [dif_neg hgoes, dif_neg hgoes]
          exact .pure []
termination_by newer.rank
decreasing_by exact Timestamp.rank_lt hgoes.2

theorem simulates_resolve (row : CardRow) :
    Action.Simulates Over (resolve S row) (CardCache.resolve S row) :=
  (simulates_load row).bind fun card =>
    .bind (simulates_ancestors _ _ _ _) fun older => .pure (CardChain.mk card older)

/-! ## No row is loaded twice -/

/-- On the way back from a card: only some rows are there to be loaded, none of them was noted twice,
and the ids of those that were noted were met. -/
structure Noted (rows : List CardRow) (visited : List String) (s : CardReader) : Prop where
  within : s.cache.rows.rows ⊆ rows
  stored : s.loaded ⊆ rows
  met : s.loaded.map (·.id) ⊆ visited
  distinct : (s.loaded.map (·.id)).Nodup

namespace Noted

variable {s : CardReader}

/-- Before a row is loaded nothing was noted. -/
theorem start (k : CardCache) (row : CardRow) : Noted (row :: k.rows.rows) [] ⟨k, []⟩ where
  within := List.subset_cons_self _ _
  stored := List.nil_subset _
  met := List.nil_subset _
  distinct := List.nodup_nil

theorem keeps_query (id : String) : Action.Keeps (Noted rows visited) (query (·.find? id))
    fun found => ∀ row, found = some row → row ∈ rows ∧ row.id = id := by
  intro s h
  rcases CardCache.query_cases (·.find? id) s.cache with ⟨e, k, hrun, hk, -⟩ | ⟨k, hrun, hk, -⟩
  · rw [query, Action.on_run, hrun]
    exact ⟨⟨hk ▸ h.within, h.stored, h.met, h.distinct⟩, nofun⟩
  · rw [query, Action.on_run, hrun]
    refine ⟨⟨hk ▸ h.within, h.stored, h.met, h.distinct⟩, fun found hfound row hrow => ?_⟩
    cases hfound
    obtain ⟨hmem, hid⟩ := Table.find?_eq_some_iff.1 hrow
    exact ⟨h.within hmem, hid⟩

/-- One more row: its id was not met, and now is. -/
theorem leads_load {row : CardRow} (hrow : row ∈ rows) (hnew : row.id ∉ visited) :
    Action.Leads (Noted rows visited) (Noted rows (row.id :: visited)) (load S row) := by
  intro s h
  refine ⟨h.within, List.append_subset.2 ⟨h.stored, ?_⟩, ?_, ?_⟩
  · exact List.cons_subset.2 ⟨hrow, List.nil_subset _⟩
  · show (s.loaded ++ [row]).map (·.id) ⊆ row.id :: visited
    rw [List.map_append]
    exact List.append_subset.2 ⟨List.subset_cons_of_subset _ h.met, List.cons_subset.2
      ⟨List.mem_cons_self, List.nil_subset _⟩⟩
  · show ((s.loaded ++ [row]).map (·.id)).Nodup
    rw [List.map_append, List.nodup_append]
    refine ⟨h.distinct, List.pairwise_singleton _ _, fun id hid id' hid' heq => ?_⟩
    obtain rfl := List.mem_singleton.1 hid'
    rw [heq] at hid
    exact hnew (h.met hid)

/-- Whatever is met on the way, no row is noted twice. -/
theorem leads_ancestors (identity : String) (visited : List String) (newer : Timestamp)
    (id? : Option String) : Action.Leads (Noted rows visited) (fun s => ∃ met, Noted rows met s)
      (ancestors S identity visited newer id?) := by
  have stop : Action.Leads (Noted rows visited) (fun s => ∃ met, Noted rows met s)
      (pure [] : Action CardReader (List Card)) := fun _ h => ⟨visited, h⟩
  cases id? with
  | none =>
    rw [ancestors]
    exact stop
  | some id =>
    rw [ancestors]
    by_cases hmet : id ∈ visited
    · rw [if_pos hmet]
      exact stop
    · rw [if_neg hmet]
      refine .after (keeps_query id) (fun _ h => ⟨visited, h⟩) fun found hfound => ?_
      cases found with
      | none => exact stop
      | some row =>
        obtain ⟨hrow, rfl⟩ := hfound row rfl
        refine (leads_load hrow hmet).bind load_ok (fun _ h => ⟨_, h⟩) fun previous _ => ?_
        by_cases hgoes : previous.identity = identity ∧ previous.createdAt < newer
        · rw [dif_pos hgoes]
          exact .answer (leads_ancestors _ _ _ _)
        · rw [dif_neg hgoes]
          exact fun _ h => ⟨_, h⟩
termination_by newer.rank
decreasing_by exact Timestamp.rank_lt hgoes.2

theorem noted_resolve (k : CardCache) (row : CardRow) :
    ∃ met, Noted (row :: k.rows.rows) met (resolve S row ⟨k, []⟩).2 := by
  have hleads : Action.Leads (Noted (row :: k.rows.rows) [])
      (fun s => ∃ met, Noted (row :: k.rows.rows) met s) (resolve S row) := by
    refine (leads_load List.mem_cons_self List.not_mem_nil).bind load_ok (fun _ h => ⟨_, h⟩) ?_
    intro card hid
    rw [hid]
    exact .answer (leads_ancestors _ _ _ _)
  exact hleads _ (start k row)

end Noted

/-- The reader gives the cache's answer and leaves its cache. -/
theorem resolve_eq (S : CipherSuite) (row : CardRow) (k : CardCache) :
    ((resolve S row ⟨k, []⟩).1, (resolve S row ⟨k, []⟩).2.cache) = CardCache.resolve S row k := by
  obtain ⟨hanswer, hcache⟩ := simulates_resolve (S := S) row ⟨k, []⟩ k rfl
  exact Prod.ext hanswer hcache

/-- Reading a chain loads no row twice, and no others than the head's and those of the table. -/
theorem loads_once (S : CipherSuite) (row : CardRow) (k : CardCache) :
    ((resolve S row ⟨k, []⟩).2.loaded.map (·.id)).Nodup ∧
      (resolve S row ⟨k, []⟩).2.loaded ⊆ row :: k.rows.rows := by
  obtain ⟨met, h⟩ := Noted.noted_resolve (S := S) k row
  exact ⟨h.distinct, h.stored⟩

end CardReader

end EndToEnd
