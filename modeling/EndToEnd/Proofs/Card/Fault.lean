/-
  Storing a card in a cache whose table fails some of the calls.

  A store marks the predecessor of a card before it writes the card, and puts the predecessor back if
  the card cannot be written. Between the two it reads the cards of the identity; where that reading
  fails, nothing is put back, and the mark stays although no card has taken the predecessor's place.

  A store that is cut short leaves what it leaves when all later calls fail. What holds whichever calls
  fail therefore holds at every point of a store.

  Proved:
  * `CardCache.store_ends`: what a store may leave behind, whichever calls fail.
  * `CardCache.store_of_strands`: the one failing call after which the predecessor stays marked.
  * `CardCache.store_with_fault`: if one call fails at most, every other store that ends in an error
    leaves the rows that were there; and no store, wherever it is cut short, makes more current cards
    of an identity than there were, unless it has taken the card.
-/
import EndToEnd.Proofs.Card.History

namespace EndToEnd

namespace Schedule

variable {ε : Type} {s : Schedule ε}

/-- What a call fails with, if it does, after some other calls. -/
def fails (s : Schedule ε) (calls : Nat) : Option ε := s.upcoming[calls]?.join

/-- How many calls fail. -/
def faults (s : Schedule ε) : Nat := s.upcoming.countP Option.isSome

theorem next_fst (s : Schedule ε) : s.next.1 = s.fails 0 := by
  rw [next, fails, List.head?_eq_getElem?]

theorem fails_next (s : Schedule ε) (calls : Nat) : s.next.2.fails calls = s.fails (calls + 1) := by
  rw [next, fails, fails, List.getElem?_tail]

theorem faults_next (s : Schedule ε) : s.next.2.faults + s.next.1.toList.length = s.faults := by
  obtain ⟨_ | ⟨_ | e, calls⟩⟩ := s
  · rfl
  · exact (List.countP_cons_of_neg Bool.false_ne_true).symm
  · exact (List.countP_cons_of_pos rfl).symm

theorem fails_eq_none (h : s.faults = 0) (calls : Nat) : s.fails calls = none := by
  unfold fails
  cases hcall : s.upcoming[calls]? with
  | none => rfl
  | some e? =>
    have hnot := List.countP_eq_zero.1 h e? (List.mem_of_getElem? hcall)
    rw [Option.not_isSome_iff_eq_none] at hnot
    exact hnot

end Schedule

namespace CardRows

variable {t : CardRows} {c : Card}

/-- The row that a card replaces: its predecessor's, if this is current. -/
def replaced? (t : CardRows) (c : Card) : Option CardRow :=
  (t.predecessor? c).filter fun p => !p.outdated

theorem replaced?_eq_some {p : CardRow} :
    t.replaced? c = some p ↔ t.predecessor? c = some p ∧ p.outdated = false := by
  rw [replaced?, Option.filter_eq_some_iff, Bool.not_eq_true']

theorem outdatePredecessor_eq (t : CardRows) (c : Card) :
    t.outdatePredecessor c = ((t.replaced? c).elim t fun p => t.insert p.outdate) := by
  unfold outdatePredecessor replaced?
  cases t.predecessor? c with
  | none => rfl
  | some p =>
    dsimp only
    rw [Option.filter_some]
    cases p.outdated <;> rfl

theorem outdatePredecessor_of_not_replaced (h : t.replaced? c = none) :
    t.outdatePredecessor c = t := by
  rw [outdatePredecessor_eq, h]
  rfl

/-- A row that is replaced is not left as it was. -/
theorem not_mem_outdatePredecessor {p : CardRow} (h : t.replaced? c = some p) :
    p ∈ t.rows ∧ p ∉ (t.outdatePredecessor c).rows := by
  obtain ⟨hp, hcurrent⟩ := replaced?_eq_some.1 h
  obtain ⟨hid, hmem⟩ := predecessor?_eq_some.1 hp
  refine ⟨hmem, fun hkept => ?_⟩
  have hfind := find?_outdatePredecessor t c p.id
  rw [Table.find?_key hkept, if_pos hid, Table.find?_key hmem] at hfind
  have hmark : p.outdated = true := congrArg CardRow.outdated (Option.some.inj hfind)
  rw [hcurrent] at hmark
  cases hmark

/-- Putting a predecessor back as it was leaves the rows that were there. -/
theorem mem_restored {p : CardRow} (hp : t.predecessor? c = some p) (r : CardRow) :
    r ∈ ((t.outdatePredecessor c).insert p).rows ↔ r ∈ t.rows := by
  obtain ⟨hid, hmem⟩ := predecessor?_eq_some.1 hp
  have hfind : ∀ id, ((t.outdatePredecessor c).insert p).find? id = t.find? id := by
    intro id
    rw [Table.find?_insert, find?_outdatePredecessor]
    by_cases hpid : p.id = id
    · rw [if_pos hpid, ← hpid, Table.find?_key hmem]
    · rw [if_neg hpid, if_neg]
      rw [hid]
      exact fun heq => hpid (Option.some.inj heq)
  constructor
  · intro hr
    refine Table.mem_of_find? (k := r.id) ?_
    rw [← hfind, Table.find?_key hr]
  · intro hr
    refine Table.mem_of_find? (k := r.id) ?_
    rw [hfind, Table.find?_key hr]

/-! ## How many current rows an identity has -/

/-- How many current rows the identity has. -/
def countCurrent (t : CardRows) (identity : String) : Nat :=
  t.rows.countP fun r => !r.outdated && decide (r.identity = identity)

theorem length_standing (t : CardRows) (identity : String) :
    (t.standing identity).length = t.countCurrent identity := by
  rw [standing, ← List.countP_eq_length_filter, ofIdentity, Timestamp.inOrder,
    (List.mergeSort_perm _ _).countP_eq, List.countP_filter, countCurrent]

/-- Marking a predecessor leaves no more current rows of any identity. -/
theorem length_standing_outdatePredecessor (t : CardRows) (c : Card) (identity : String) :
    ((t.outdatePredecessor c).standing identity).length ≤ (t.standing identity).length := by
  rw [outdatePredecessor_eq]
  cases t.replaced? c with
  | none => exact Nat.le_refl _
  | some p =>
    rw [length_standing, length_standing, countCurrent, countCurrent]
    change List.countP _ ((t.erase p.id).rows ++ [p.outdate]) ≤ _
    rw [List.countP_append, List.countP_singleton]
    exact List.filter_sublist.countP_le

/-- An identity whose only current row is marked is left without one. -/
theorem standing_outdatePredecessor {p : CardRow} (hp : t.replaced? c = some p)
    (honly : t.standing p.identity = [p]) : (t.outdatePredecessor c).standing p.identity = [] := by
  refine List.eq_nil_iff_forall_not_mem.2 fun r hr => ?_
  obtain ⟨hmem, howned, hcurrent⟩ := mem_standing.1 hr
  rcases mem_outdatePredecessor hmem with hbefore | ⟨q, -, rfl⟩
  · have hin : r ∈ t.standing p.identity := mem_standing.2 ⟨hbefore, howned, hcurrent⟩
    rw [honly, List.mem_singleton] at hin
    rw [hin] at hmem
    exact (not_mem_outdatePredecessor hp).2 hmem
  · cases hcurrent

/-- The rows of a cache that holds one card. -/
def ofCard (c : Card) : CardRows := Table.empty.insert (CardRow.ofCard c)

theorem mem_ofCard {r : CardRow} : r ∈ (ofCard c).rows ↔ r = CardRow.ofCard c := by
  rw [ofCard, Table.mem_insert]
  exact or_iff_left fun h => List.not_mem_nil h.1

theorem standing_ofCard (h : c.outdated = false) :
    (ofCard c).standing c.identity = [CardRow.ofCard c] := by
  refine List.perm_singleton.1 ?_
  rw [List.perm_ext_iff_of_nodup (nodup_standing _ _) (List.pairwise_singleton _ _)]
  intro r
  rw [mem_standing, mem_ofCard, List.mem_singleton]
  constructor
  · exact fun hr => hr.1
  · rintro rfl
    exact ⟨rfl, rfl, h⟩

theorem predecessor?_ofCard {d : Card} (h : d.previousId = some c.id) :
    (ofCard c).predecessor? d = some (CardRow.ofCard c) :=
  predecessor?_eq_some.2 ⟨h, mem_ofCard.2 rfl⟩

/-- Tables with the same rows have as many current rows of every identity. -/
theorem length_standing_congr {u : CardRows} (h : ∀ r, r ∈ u.rows ↔ r ∈ t.rows) (identity : String) :
    (u.standing identity).length = (t.standing identity).length := by
  refine List.Perm.length_eq ?_
  rw [List.perm_ext_iff_of_nodup (u.nodup_standing identity) (t.nodup_standing identity)]
  intro r
  rw [mem_standing, mem_standing, h]

end CardRows

namespace CardCache

variable {k u v : CardCache}

/-- How many of the calls to come fail. -/
def faults (k : CardCache) : Nat := k.inserts.faults + k.queries.faults

/-- What is left of the calls to come after some calls, of which some failed and some were queries. -/
structure Spent (failed asked : Nat) (k u : CardCache) : Prop where
  faults : u.faults + failed = k.faults
  queries : ∀ calls, u.queries.fails calls = k.queries.fails (calls + asked)

namespace Spent

variable {failed asked : Nat}

theorem refl (k : CardCache) : Spent 0 0 k k := ⟨rfl, fun _ => rfl⟩

theorem trans {failed' asked' : Nat} (h : Spent failed asked k u) (h' : Spent failed' asked' u v) :
    Spent (failed' + failed) (asked' + asked) k v where
  faults := by rw [← Nat.add_assoc, h'.faults, h.faults]
  queries := fun calls => by rw [h'.queries, h.queries, Nat.add_assoc]

/-- Once the only fault has shown, no later query fails. -/
theorem fails_eq_none (h : Spent 1 asked k u) (hk : k.faults ≤ 1) (calls : Nat) :
    k.queries.fails (calls + asked) = none := by
  have hnone : u.queries.faults = 0 := by
    have hspent := h.faults
    unfold CardCache.faults at hspent hk
    omega
  rw [← h.queries, Schedule.fails_eq_none hnone]

end Spent

/-! ## What each part of a store does -/

/-- A row is written, or the call fails and nothing changes. -/
theorem insert_cases (r : CardRow) (k : CardCache) :
    (∃ e u, insert r k = (.error e, u) ∧ u.rows = k.rows ∧ Spent 1 0 k u) ∨
      ∃ u, insert r k = (.ok (), u) ∧ u.rows = k.rows.insert r ∧ Spent 0 0 k u := by
  have hspent := k.inserts.faults_next
  unfold insert
  split
  · rename_i e inserts hnext
    rw [hnext] at hspent
    refine .inl ⟨e, _, rfl, rfl, ?_, fun _ => rfl⟩
    unfold faults
    rw [← hspent]
    exact Nat.add_right_comm _ _ _
  · rename_i inserts hnext
    rw [hnext] at hspent
    refine .inr ⟨_, rfl, rfl, ?_, fun _ => rfl⟩
    unfold faults
    rw [← hspent]
    rfl

/-- A query gives the rows that were asked for, or fails; it changes no row. -/
theorem query_cases {α : Type} (read : CardRows → α) (k : CardCache) :
    (∃ e u, query read k = (.error e, u) ∧ u.rows = k.rows ∧ k.queries.fails 0 = some e ∧
        Spent 1 1 k u) ∨
      ∃ u, query read k = (.ok (read k.rows), u) ∧ u.rows = k.rows ∧ k.queries.fails 0 = none ∧
        Spent 0 1 k u := by
  have hspent := k.queries.faults_next
  have hfirst := k.queries.next_fst
  have hlater := k.queries.fails_next
  unfold query
  split
  · rename_i e queries hnext
    rw [hnext] at hspent hfirst hlater
    refine .inl ⟨e, _, rfl, rfl, hfirst.symm, ?_, hlater⟩
    unfold faults
    rw [← hspent]
    rfl
  · rename_i queries hnext
    rw [hnext] at hspent hfirst hlater
    refine .inr ⟨_, rfl, rfl, hfirst.symm, ?_, hlater⟩
    unfold faults
    rw [← hspent]
    rfl

/-- The predecessor of a card is marked, and given as it was if it was current; or nothing changes,
since the card is refused or a call fails. -/
theorem replacePredecessor_cases (c : Card) (k : CardCache) :
    (∃ e u, replacePredecessor c k = (.error e, u) ∧ u.rows = k.rows ∧
        (k.rows.refusal c = some e ∨ Spent 1 1 k u)) ∨
      ∃ u asked, replacePredecessor c k = (.ok (k.rows.replaced? c), u) ∧
        u.rows = k.rows.outdatePredecessor c ∧ k.rows.refusal c = none ∧ Spent 0 asked k u ∧
        (k.rows.replaced? c ≠ none → asked = 1) := by
  rw [CardRows.outdatePredecessor_eq]
  unfold replacePredecessor CardRows.replaced? CardRows.refusal CardRows.predecessor?
  cases c.previousId with
  | none => exact .inr ⟨k, 0, rfl, rfl, rfl, .refl k, fun h => absurd rfl h⟩
  | some id =>
    dsimp only [Option.bind_some]
    rcases query_cases (fun rows => rows.find? id) k with
      ⟨e, u, hquery, hu, -, hspent⟩ | ⟨u, hquery, hu, -, hspent⟩
    · exact .inl ⟨e, u, Action.bind_error hquery, hu, .inr hspent⟩
    rw [Action.bind_ok hquery]
    cases hfind : k.rows.find? id with
    | none => exact .inr ⟨u, 1, rfl, hu, rfl, hspent, fun _ => rfl⟩
    | some p =>
      dsimp only
      by_cases hforeign : p.identity ≠ c.identity
      · rw [if_pos hforeign, if_pos hforeign]
        exact .inl ⟨_, u, rfl, hu, .inl rfl⟩
      rw [if_neg hforeign, if_neg hforeign]
      by_cases hlate : c.createdAt ≤ p.createdAt
      · rw [if_pos hlate, if_pos hlate]
        exact .inl ⟨_, u, rfl, hu, .inl rfl⟩
      rw [if_neg hlate, if_neg hlate]
      by_cases hmarked : p.outdated = true
      · rw [if_pos hmarked, Option.filter_some_neg (by rw [hmarked]; rfl)]
        exact .inr ⟨u, 1, rfl, hu, rfl, hspent, fun _ => rfl⟩
      rw [if_neg hmarked, Option.filter_some_pos (by rw [Bool.eq_false_iff.2 hmarked]; rfl)]
      rcases insert_cases p.outdate u with ⟨e, v, hinsert, hv, hspent'⟩ | ⟨v, hinsert, hv, hspent'⟩
      · exact .inl ⟨e, v, Action.bind_error hinsert, hv.trans hu, .inr (hspent.trans hspent')⟩
      · rw [hu] at hv
        exact .inr ⟨v, 1, Action.bind_ok hinsert, hv, rfl, hspent.trans hspent', fun _ => rfl⟩

/-- A row is written; or that fails, and the replaced row is put back, unless there is none or writing
it back fails as well. -/
theorem insertOrRestore_cases (row : CardRow) (replaced : Option CardRow) (k : CardCache) :
    (∃ u, insertOrRestore row replaced k = (.ok (), u) ∧ u.rows = k.rows.insert row) ∨
      ∃ e u, insertOrRestore row replaced k = (.error e, u) ∧
        (u.rows = k.rows ∧ (replaced = none ∨ 2 ≤ k.faults) ∨
          ∃ p, replaced = some p ∧ u.rows = k.rows.insert p) := by
  unfold insertOrRestore
  rcases insert_cases row k with ⟨e, u, hinsert, hu, hspent⟩ | ⟨u, hinsert, hu, -⟩
  · rw [hinsert]
    cases replaced with
    | none => exact .inr ⟨e, u, rfl, .inl ⟨hu, .inl rfl⟩⟩
    | some p =>
      rcases insert_cases p u with ⟨e', v, hrestore, hv, hspent'⟩ | ⟨v, hrestore, hv, -⟩
      · have htwo := (hspent.trans hspent').faults
        exact .inr ⟨e, _, rfl, .inl ⟨by rw [hrestore, hv, hu], .inr (htwo ▸ Nat.le_add_left _ _)⟩⟩
      · exact .inr ⟨e, _, rfl, .inr ⟨p, rfl, by rw [hrestore, hv, hu]⟩⟩
  · rw [hinsert]
    exact .inl ⟨u, rfl, hu⟩

/-! ## What a store may leave behind -/

/-- The card replaces a current row, and the table fails to give the rows of the identity once that row
is marked. -/
structure Strands (c : Card) (k : CardCache) (e : Error) : Prop where
  accepted : k.rows.refusal c = none
  replaces : k.rows.replaced? c ≠ none
  fails : k.queries.fails 2 = some e

/-- How storing a card may end. -/
inductive StoreEnds (c : Card) (k : CardCache) : Except Error Unit → CardRows → Prop
  | stored (haccepted : k.rows.refusal c = none) : StoreEnds c k (.ok ()) (k.rows.adopt c)
  | untouched (e : Error) : StoreEnds c k (.error e) k.rows
  | restored (e : Error) {p : CardRow} (hp : k.rows.predecessor? c = some p) :
      StoreEnds c k (.error e) ((k.rows.outdatePredecessor c).insert p)
  | marked (e : Error) (h : Strands c k e ∨ 2 ≤ k.faults) :
      StoreEnds c k (.error e) (k.rows.outdatePredecessor c)

/-- A store ends in one of these ways, whichever calls fail. -/
theorem store_ends (c : Card) (k : CardCache) : StoreEnds c k (store c k).1 (store c k).2.rows := by
  unfold store
  rcases query_cases (fun rows => rows.find? c.id) k with
    ⟨e, u, hrun, hu, -⟩ | ⟨u, hrun, hu, -, hspent⟩
  · rw [Action.bind_error hrun, hu]
    exact .untouched e
  rw [Action.bind_ok hrun]
  rcases replacePredecessor_cases c u with
    ⟨e, v, hrun, hv, -⟩ | ⟨v, asked, hrun, hv, haccepted, hspent', hasked⟩
  · rw [Action.bind_error hrun, hv, hu]
    exact .untouched e
  rw [Action.bind_ok hrun]
  rw [hu] at hv haccepted hasked ⊢
  rcases query_cases (CardRows.ofIdentity c.identity) v with
    ⟨e, w, hrun, hw, hfails, -⟩ | ⟨w, hrun, hw, -, hspent''⟩
  · -- nothing is put back here, so the mark stays if one was set
    rw [Action.bind_error hrun, hw, hv]
    by_cases hreplaces : k.rows.replaced? c = none
    · rw [CardRows.outdatePredecessor_of_not_replaced hreplaces]
      exact .untouched e
    · refine .marked e (.inl ⟨haccepted, hreplaces, ?_⟩)
      rw [hspent'.queries, hasked hreplaces, hspent.queries] at hfails
      exact hfails
  rw [Action.bind_ok hrun]
  rw [hv] at hw
  simp only [hv, CardRows.any_ofIdentity, CardRows.names_outdatePredecessor]
  generalize hrow : CardRow.ofCard { c with outdated := _ } = row
  rcases insertOrRestore_cases row (k.rows.replaced? c) w with
    ⟨x, hrun, hx⟩ | ⟨e, x, hrun, ⟨hx, hwhy⟩ | ⟨p, hp, hx⟩⟩
  · rw [hrun, hx, hw, ← hrow]
    exact .stored haccepted
  · rw [hrun, hx, hw]
    rcases hwhy with hnone | htwo
    · rw [CardRows.outdatePredecessor_of_not_replaced hnone]
      exact .untouched e
    · -- the writing and the putting back both failed
      rw [← Nat.add_zero w.faults, hspent''.faults, ← Nat.add_zero v.faults, hspent'.faults,
        ← Nat.add_zero u.faults, hspent.faults] at htwo
      exact .marked e (.inr htwo)
  · rw [hrun, hx, hw]
    exact .restored e (CardRows.replaced?_eq_some.1 hp).1

/-- Where the table fails to give the rows of the identity, and fails no other call, the store ends in
an error with the predecessor marked. -/
theorem store_of_strands {c : Card} {e : Error} (hk : k.faults ≤ 1) (h : Strands c k e) :
    ∃ k', store c k = (.error e, k') ∧ k'.rows = k.rows.outdatePredecessor c := by
  obtain ⟨haccepted, hreplaces, hfails⟩ := h
  unfold store
  -- the only fault is still to come, so no call before it fails
  rcases query_cases (fun rows => rows.find? c.id) k with
    ⟨e', u, -, -, -, hspent⟩ | ⟨u, hrun, hu, -, hspent⟩
  · rw [hspent.fails_eq_none hk 1] at hfails
    cases hfails
  rw [Action.bind_ok hrun]
  rw [← hspent.queries 1] at hfails
  rw [← hspent.faults] at hk
  rw [← hu] at haccepted hreplaces ⊢
  rcases replacePredecessor_cases c u with
    ⟨e', v, -, -, hrefused | hspent'⟩ | ⟨v, asked, hrun, hv, -, hspent', hasked⟩
  · rw [haccepted] at hrefused
    cases hrefused
  · rw [hspent'.fails_eq_none hk 0] at hfails
    cases hfails
  rw [Action.bind_ok hrun]
  rw [hasked hreplaces] at hspent'
  rw [← hspent'.queries 0] at hfails
  rcases query_cases (CardRows.ofIdentity c.identity) v with
    ⟨e', w, hrun, hw, hfails', -⟩ | ⟨w, -, -, hfails', -⟩
  · obtain rfl : e = e' := Option.some.inj (hfails.symm.trans hfails')
    exact ⟨w, Action.bind_error hrun, hw.trans hv⟩
  · rw [hfails'] at hfails
    cases hfails

/-- However a store ends, no identity has more current rows than before, unless the card was taken. -/
theorem StoreEnds.length_standing {c : Card} {result : Except Error Unit} {rows : CardRows}
    (h : StoreEnds c k result rows) (identity : String) :
    (rows.standing identity).length ≤ (k.rows.standing identity).length ∨
      result = .ok () ∧ k.rows.refusal c = none ∧ rows = k.rows.adopt c := by
  cases h with
  | stored haccepted => exact .inr ⟨rfl, haccepted, rfl⟩
  | untouched e => exact .inl (Nat.le_refl _)
  | restored e hp =>
    exact .inl (Nat.le_of_eq (CardRows.length_standing_congr (CardRows.mem_restored hp) identity))
  | marked e _ => exact .inl (k.rows.length_standing_outdatePredecessor c identity)

/-- A store that fails leaves the rows that were there, unless the predecessor was left marked. -/
theorem StoreEnds.mem_iff {c : Card} {e : Error} {rows : CardRows}
    (h : StoreEnds c k (.error e) rows) (hk : k.faults ≤ 1) (hnot : ¬ ∃ e, Strands c k e)
    (r : CardRow) : r ∈ rows.rows ↔ r ∈ k.rows.rows := by
  cases h with
  | untouched e => exact Iff.rfl
  | restored e hp => exact CardRows.mem_restored hp r
  | marked e h =>
    rcases h with hstrands | htwo
    · exact absurd ⟨e, hstrands⟩ hnot
    · omega

/-- Where one call fails at most, a store that ends in an error leaves the rows that were there, unless
it was the reading between the marking of the predecessor and the writing of the card that failed; then
the predecessor stays marked. And wherever a store is cut short, by calls that fail from then on, no
identity has more current rows than it had, unless the store has taken the card, and then it has as
many as if no call failed. -/
theorem store_with_fault (c : Card) (k : CardCache) (hk : k.faults ≤ 1) :
    (∀ e k', store c k = (.error e, k') →
      ((∀ r, r ∈ k'.rows.rows ↔ r ∈ k.rows.rows) ↔ ¬ ∃ e, Strands c k e)) ∧
    (∀ e, Strands c k e →
      ∃ k', store c k = (.error e, k') ∧ k'.rows = k.rows.outdatePredecessor c) ∧
    ∀ (inserts queries : Schedule Error) (identity : String),
      let cut := store c { k with inserts, queries }
      (cut.2.rows.standing identity).length ≤ (k.rows.standing identity).length ∨
        cut.1 = .ok () ∧ cut.2.rows = (store c { k with inserts := .clear, queries := .clear }).2.rows := by
  refine ⟨fun e k' hrun => ⟨?_, fun hnot => ?_⟩, fun e h => store_of_strands hk h, ?_⟩
  · rintro hsame ⟨e', hstrands⟩
    obtain ⟨p, hp⟩ := Option.ne_none_iff_exists'.1 hstrands.replaces
    obtain ⟨hmem, hgone⟩ := CardRows.not_mem_outdatePredecessor hp
    obtain ⟨u, hrun', hrows⟩ := store_of_strands hk hstrands
    obtain rfl : k' = u := congrArg Prod.snd (hrun.symm.trans hrun')
    rw [← hrows] at hgone
    exact hgone ((hsame p).2 hmem)
  · have hends := store_ends c k
    rw [hrun] at hends
    exact hends.mem_iff hk hnot
  · intro inserts queries identity
    rcases (store_ends c { k with inserts, queries }).length_standing identity with
      hle | ⟨hok, haccepted, hrows⟩
    · exact .inl hle
    · have hclear := store_of_not_refused (k := { k with inserts := .clear, queries := .clear })
        ⟨rfl, rfl⟩ haccepted
      exact .inr ⟨hok, by rw [hrows, hclear]⟩

/-! ## A card that replaces another, while one call fails -/

/-- The card cannot be written: the card that it replaces is put back. -/
theorem store_with_fault_of_write :
    let first := CacheRun.cardOfAlice 1 none
    let second := CacheRun.cardOfAlice 2 (some first.id)
    let full : Error := .database "disk full"
    let k := { empty .reject with rows := .ofCard first, inserts := ⟨[none, some full]⟩ }
    k.faults ≤ 1 ∧ (store second k).1 = .error full ∧
      ∀ r, r ∈ (store second k).2.rows.rows ↔ r ∈ k.rows.rows := by
  intro first second full k
  have hfaults : k.faults ≤ 1 := by decide
  have herror : (store second k).1 = .error full := by decide +kernel
  have hqueries : k.queries.fails 2 = none := rfl
  have hnot : ¬ ∃ e, Strands second k e := by
    rintro ⟨e, h⟩
    have hfails := h.fails
    rw [hqueries] at hfails
    cases hfails
  have hrun : store second k = (.error full, (store second k).2) := Prod.ext herror rfl
  have hsame := ((store_with_fault second k hfaults).1 _ _ hrun).2 hnot
  exact ⟨hfaults, herror, hsame⟩

/-- A card that replaces the only card of a cache, whose table then fails to give the rows of the
identity: no card is left that is current. -/
theorem store_of_single {first second : Card} (hcurrent : first.outdated = false)
    (hnamed : second.previousId = some first.id) (howned : first.identity = second.identity)
    (holder : first.createdAt < second.createdAt) {e : Error} {k : CardCache}
    (hrows : k.rows = .ofCard first) (hk : k.faults ≤ 1) (hfails : k.queries.fails 2 = some e) :
    (store second k).1 = .error e ∧ k.rows.standing first.identity = [CardRow.ofCard first] ∧
      (store second k).2.rows.standing first.identity = [] := by
  have hpredecessor := CardRows.predecessor?_ofCard hnamed
  have hreplaces : k.rows.replaced? second = some (CardRow.ofCard first) := by
    rw [hrows]
    exact CardRows.replaced?_eq_some.2 ⟨hpredecessor, hcurrent⟩
  have haccepted : k.rows.refusal second = none := by
    rw [hrows]
    refine CardRows.refusal_eq_none.2 fun p hp => ?_
    obtain rfl := Option.some.inj (hpredecessor.symm.trans hp)
    exact ⟨howned, holder⟩
  have hstrands : Strands second k e := ⟨haccepted, by rw [hreplaces]; exact Option.some_ne_none _, hfails⟩
  obtain ⟨k', hrun, hmarked⟩ := store_of_strands hk hstrands
  have hstanding : k.rows.standing first.identity = [CardRow.ofCard first] := by
    rw [hrows]
    exact CardRows.standing_ofCard hcurrent
  rw [hrun]
  dsimp only
  rw [hmarked]
  exact ⟨rfl, hstanding, CardRows.standing_outdatePredecessor hreplaces hstanding⟩

/-- The cards of the identity cannot be read: the card that would have been replaced is no longer
current, and no other card is. -/
theorem current_card_lost :
    let first := CacheRun.cardOfAlice 1 none
    let second := CacheRun.cardOfAlice 2 (some first.id)
    let failed : Error := .database "disk I/O error"
    let k := { empty .reject with rows := .ofCard first, queries := ⟨[none, none, some failed]⟩ }
    k.faults = 1 ∧ (store second k).1 = .error failed ∧
      k.rows.standing first.identity = [CardRow.ofCard first] ∧
      (store second k).2.rows.standing first.identity = [] := by
  intro first second failed k
  have hfaults : k.faults = 1 := rfl
  have hrows : k.rows = .ofCard first := rfl
  have hcurrent : first.outdated = false := rfl
  have hnamed : second.previousId = some first.id := rfl
  have howned : first.identity = second.identity := Eq.trans (b := "alice") rfl rfl
  have holder : first.createdAt < second.createdAt := by decide
  exact ⟨hfaults, store_of_single hcurrent hnamed howned holder hrows (Nat.le_of_eq hfaults) rfl⟩

end CardCache

end EndToEnd
