/-
  Directories after any calls that publish and revoke cards.

  `DirectoryHistory` is a directory with the calls that it took. Any number of calls may be refused, and
  an identity may come to have several current cards. `Upheld` is what every history keeps: cards lead
  back to older cards of their identity, no card is replaced twice, and the marked cards are those that
  were withdrawn or replaced. A search then gives exactly the cards that are not marked
  (`Listings.Answers`), and no mark is ever taken away (`Listings.Lasts`).
-/
import EndToEnd.Proofs.Card.History
import EndToEnd.Proofs.Directory.Publish

namespace EndToEnd

/-! ## Withdrawn cards -/

/-- The listing once the card with an id is withdrawn. -/
def Listing.withdrawn (l : Listing) (id : String) : Listing :=
  if l.id = id then ⟨l.card.marked true, true⟩ else l

namespace Listing

variable (l : Listing) (id : String)

theorem withdrawn_card : (l.withdrawn id).card = l.card.marked (l.withdrawn id).card.outdated := by
  unfold withdrawn
  split <;> rfl

@[simp] theorem withdrawn_id : (l.withdrawn id).id = l.id := by
  unfold withdrawn
  split <;> rfl

@[simp] theorem withdrawn_identity : (l.withdrawn id).card.identity = l.card.identity := by
  unfold withdrawn
  split <;> rfl

@[simp] theorem withdrawn_createdAt : (l.withdrawn id).card.createdAt = l.card.createdAt := by
  unfold withdrawn
  split <;> rfl

@[simp] theorem withdrawn_previousId : (l.withdrawn id).card.previousId = l.card.previousId := by
  unfold withdrawn
  split <;> rfl

theorem withdrawn_revoked : (l.withdrawn id).revoked = true ↔ l.revoked = true ∨ l.id = id := by
  unfold withdrawn
  split
  · rename_i h; simp [h]
  · rename_i h; simp [h]

theorem withdrawn_outdated :
    (l.withdrawn id).card.outdated = true ↔ l.card.outdated = true ∨ l.id = id := by
  unfold withdrawn
  split
  · rename_i h; simp [h]
  · rename_i h; simp [h]

end Listing

namespace Listings

variable {t t' u : Listings} {identity : String}

/-- Withdrawing a listed card gives each row as it is without it. -/
theorem revoke_rows {id : String} (h : t.revoke id = .ok t') :
    (∃ l ∈ t.rows, l.id = id) ∧ ∀ l, l ∈ t'.rows ↔ ∃ p ∈ t.rows, l = p.withdrawn id := by
  obtain ⟨l, hl, rfl, hrows⟩ := revoke_ok h
  refine ⟨⟨l, hl, rfl⟩, fun m => ?_⟩
  rw [hrows]
  constructor
  · rintro (rfl | ⟨hm, hne⟩)
    · exact ⟨l, hl, (if_pos rfl).symm⟩
    · exact ⟨m, hm, (if_neg hne).symm⟩
  · rintro ⟨p, hp, rfl⟩
    by_cases hid : p.id = l.id
    · obtain rfl := Table.eq_of_key_eq hp hl hid
      exact .inl (if_pos rfl)
    · rw [Listing.withdrawn, if_neg hid]
      exact .inr ⟨hp, hid⟩

/-! ## What calls leave as it is -/

/-- The listings are still there, with their marks and perhaps further ones. -/
def Lasts (t t' : Listings) : Prop :=
  ∀ l ∈ t.rows, ∃ l' ∈ t'.rows, l'.card = l.card.marked l'.card.outdated ∧
    (l.card.outdated = true → l'.card.outdated = true) ∧ (l.revoked = true → l'.revoked = true)

theorem Lasts.refl (t : Listings) : t.Lasts t := fun l hl => ⟨l, hl, rfl, id, id⟩

theorem Lasts.trans (h : t.Lasts t') (h' : t'.Lasts u) : t.Lasts u := by
  intro l hl
  obtain ⟨m, hm, hcard, hmarked, hrevoked⟩ := h l hl
  obtain ⟨n, hn, hcard', hmarked', hrevoked'⟩ := h' m hm
  refine ⟨n, hn, ?_, fun ho => hmarked' (hmarked ho), fun hr => hrevoked' (hrevoked hr)⟩
  rw [hcard', hcard]
  rfl

theorem Published.lasts {c : Card} (h : Published t t' c) : t.Lasts t' := by
  intro l hl
  refine ⟨l.facing c, (h.rows _).2 (.inr ⟨l, hl, rfl⟩), l.facing_card c, fun ho => ?_, fun hr => ?_⟩
  · exact (l.facing_outdated c).2 (.inl ho)
  · rw [Listing.facing_revoked]
    exact hr

theorem revoke_lasts {id : String} (h : t.revoke id = .ok t') : t.Lasts t' := by
  intro l hl
  exact ⟨_, ((revoke_rows h).2 _).2 ⟨l, hl, rfl⟩, l.withdrawn_card id,
    fun ho => (l.withdrawn_outdated id).2 (.inl ho), fun hr => (l.withdrawn_revoked id).2 (.inl hr)⟩

theorem revoke_ordered {id : String} (h : t.revoke id = .ok t') (ho : t.Ordered) : t'.Ordered := by
  obtain ⟨-, hrows⟩ := revoke_rows h
  intro l hl named hnamed
  obtain ⟨m, hm, rfl⟩ := (hrows l).1 hl
  rw [Listing.withdrawn_previousId] at hnamed
  obtain ⟨p, hp, hid, hidentity, holder, hmarked⟩ := ho m hm named hnamed
  refine ⟨p.withdrawn id, (hrows _).2 ⟨p, hp, rfl⟩, ?_, ?_, ?_,
    (p.withdrawn_outdated id).2 (.inl hmarked)⟩
  · rw [Listing.withdrawn_id, hid]
  · rw [Listing.withdrawn_identity, Listing.withdrawn_identity, hidentity]
  · rw [Listing.withdrawn_createdAt, Listing.withdrawn_createdAt]
    exact holder

/-! ## Searches -/

/-- What a search for an identity is to find: its cards that are not marked, from the earliest to the
latest, each with all that it leads back to. -/
structure Answers (t : Listings) (identity : String) (found : List CardChain) : Prop where
  cards : (found.map CardChain.head).Perm
    ((t.rows.filter fun l => !l.card.outdated && l.card.identity = identity).map Listing.card)
  inOrder : found.Pairwise fun a b => a.head.createdAt ≤ b.head.createdAt
  complete : ∀ chain ∈ found,
    t.Descends identity chain.head.createdAt chain.head.previousId chain.ancestors

theorem inOrder_pairwise {α : Type} (time : α → Timestamp) (items : List α) :
    (Timestamp.inOrder time items).Pairwise fun a b => time a ≤ time b := by
  have htrans : ∀ a b c : α, decide (time a ≤ time b) = true → decide (time b ≤ time c) = true →
      decide (time a ≤ time c) = true := fun a b c hab hbc =>
    decide_eq_true (Int64.le_trans (of_decide_eq_true hab) (of_decide_eq_true hbc))
  have htotal : ∀ a b : α, (decide (time a ≤ time b) || decide (time b ≤ time a)) = true := by
    intro a b
    simpa using Int64.le_total (time a) (time b)
  exact (List.pairwise_mergeSort htrans htotal items).imp of_decide_eq_true

/-- The current listings of an identity are what a search is to find, where withdrawn cards are
marked. -/
theorem current_answers (ho : t.Ordered) (hr : ∀ l ∈ t.rows, l.revoked = true → l.card.outdated = true)
    (identity : String) : t.Answers identity (t.current identity) := by
  have hfilter : (t.rows.filter fun l => l.isCurrent && l.card.identity = identity) =
      t.rows.filter fun l => !l.card.outdated && l.card.identity = identity := by
    refine List.filter_congr fun l hl => ?_
    cases hm : l.card.outdated with
    | true => rw [Listing.isCurrent_of_outdated hm]; rfl
    | false =>
      have hs : l.revoked = false := by
        rw [Bool.eq_false_iff]
        exact fun h => Bool.false_ne_true (hm.symm.trans (hr l hl h))
      rw [Listing.isCurrent_eq_true.2 ⟨hs, hm⟩]
      rfl
  have hperm : (t.current identity).Perm ((t.rows.filter fun l =>
      !l.card.outdated && l.card.identity = identity).map fun l => t.resolve l.card) := by
    rw [← hfilter]
    exact List.mergeSort_perm _ _
  constructor
  · have h := hperm.map CardChain.head
    rwa [List.map_map] at h
  · exact inOrder_pairwise _ _
  · intro chain hchain
    obtain ⟨l, hl, rfl⟩ := List.mem_map.1 (hperm.mem_iff.1 hchain)
    obtain ⟨hl, hp⟩ := List.mem_filter.1 hl
    obtain ⟨cs, hcs⟩ := ho.descends l hl
    have howned : l.card.identity = identity := of_decide_eq_true (Bool.and_eq_true_iff.1 hp).2
    rw [resolve_eq hcs, ← howned]
    exact hcs

end Listings

/-! ## Calls -/

namespace Directory

/-- A call that changes a directory. -/
inductive Call where
  | publish (raw : RawCard)
  | revoke (id : String)

/-- How a call goes. -/
def Call.run (S : CipherSuite) : Call → Action Directory Unit
  | .publish raw => (Directory.publish S raw).silently
  | .revoke id => Directory.revoke id

/-- What a call does to a directory that takes it. -/
inductive Takes (S : CipherSuite) (d : Directory) : Call → Directory → Prop where
  | publish {raw : RawCard} {c : Card} {t : Listings} (unmarked : c.outdated = false)
      (listed : d.listings.publish c = .ok t) : Takes S d (.publish raw) { d with listings := t }
  | revoke {id : String} {t : Listings} (listed : d.listings.revoke id = .ok t) :
      Takes S d (.revoke id) { d with listings := t }

variable {S : CipherSuite} {d d' : Directory} {call : Call}

/-- A call is taken, or it is refused and leaves the directory as it is. -/
theorem Call.run_cases (S : CipherSuite) (d : Directory) (call : Call) :
    (∃ e, call.run S d = (.error e, d)) ∨ ∃ d', call.run S d = (.ok (), d') ∧ d.Takes S call d' := by
  cases call with
  | publish raw =>
    rcases Directory.publish_run S d raw with ⟨e, h⟩ | ⟨c, t, hc, ht, -, h⟩
    · exact .inl ⟨e, by rw [Call.run, Action.silently, h]; rfl⟩
    · exact .inr ⟨_, by rw [Call.run, Action.silently, h]; rfl,
        .publish (Card.genuine_of_ofRaw hc).2.1 ht⟩
  | revoke id =>
    cases ha : d.available with
    | false => exact .inl ⟨_, Action.bind_error (Directory.reach_of_unavailable ha)⟩
    | true =>
      cases ht : d.listings.revoke id with
      | error e =>
        refine .inl ⟨e, ?_⟩
        rw [Call.run, Directory.revoke, Action.bind_ok (Directory.reach_of_available ha),
          Directory.change_of_error ht]
      | ok t => exact .inr ⟨_, Directory.revoke_run ha ht, .revoke ht⟩

theorem Takes.lasts (h : d.Takes S call d') : d.listings.Lasts d'.listings := by
  cases h with
  | publish _ ht => exact (Listings.publish_ok ht).lasts
  | revoke ht => exact Listings.revoke_lasts ht

theorem search_run (ha : d.available = true) (identity : String) :
    search identity d = (.ok (d.listings.current identity), { d with searches := d.searches + 1 }) := by
  rw [search, Action.bind_ok (reach_of_available ha)]

end Directory

/-- A directory, and the calls that it took, the earliest first. -/
structure DirectoryHistory where
  directory : Directory
  taken : List Directory.Call

namespace DirectoryHistory

/-- One more call. -/
def step (S : CipherSuite) (h : DirectoryHistory) (call : Directory.Call) : DirectoryHistory :=
  match call.run S h.directory with
  | (.ok _, directory) => ⟨directory, h.taken ++ [call]⟩
  | (.error _, directory) => { h with directory }

/-- What comes of calls, one after the other, to an empty directory. -/
def ofCalls (S : CipherSuite) (calls : List Directory.Call) : DirectoryHistory :=
  calls.foldl (step S) ⟨.empty, []⟩

/-- The listings of the directory. -/
def listings (h : DirectoryHistory) : Listings := h.directory.listings

/-- What holds of a directory at all times. -/
structure Upheld (h : DirectoryHistory) : Prop where
  available : h.directory.available = true
  /-- A card leads back to a listed, older card of its identity, which is marked. -/
  ordered : h.listings.Ordered
  /-- No card is replaced twice. -/
  single : ∀ l ∈ h.listings.rows, ∀ m ∈ h.listings.rows, ∀ id,
    l.card.previousId = some id → m.card.previousId = some id → l = m
  /-- The marked cards are those that were withdrawn or replaced. -/
  outdated : ∀ l ∈ h.listings.rows, l.card.outdated = true ↔
    l.revoked = true ∨ ∃ m ∈ h.listings.rows, m.card.previousId = some l.id
  /-- The withdrawn cards are those for which a call to do so was taken. -/
  revoked : ∀ id, .revoke id ∈ h.taken ↔ ∃ l ∈ h.listings.rows, l.id = id ∧ l.revoked = true

variable {S : CipherSuite} {h : DirectoryHistory}

theorem upheld_empty : Upheld ⟨.empty, []⟩ where
  available := rfl
  ordered := nofun
  single := nofun
  outdated := nofun
  revoked := fun _ => ⟨nofun, fun ⟨_, hl, _⟩ => nomatch hl⟩

/-! ### After a card was published -/

section Published

variable {t : Listings} {c : Card} (hu : h.Upheld) (hp : Listings.Published h.listings t c)
include hu hp

/-- The card that the new one names was not replaced before. -/
theorem Upheld.not_replaced {l : Listing} (hl : l ∈ h.listings.rows) {id : String}
    (hid : c.previousId = some id) : l.card.previousId ≠ some id := by
  intro hnamed
  obtain ⟨p, hpm, rfl, -, hunmarked, -⟩ := hp.replaces id hid
  have hmarked := (hu.ordered.of_named hl hpm hnamed).2.2
  rw [hunmarked] at hmarked
  cases hmarked

/-- No card names the new one. -/
theorem Upheld.unnamed {m : Listing} (hm : m ∈ t.rows) : m.card.previousId ≠ some c.id := by
  intro hnamed
  rcases (hp.rows m).1 hm with rfl | ⟨q, hq, rfl⟩
  · obtain ⟨r, hr, hid, -⟩ := hp.replaces c.id hnamed
    exact hp.fresh r hr hid
  · rw [Listing.facing_previousId] at hnamed
    obtain ⟨r, hr, hid, -⟩ := hu.ordered q hq c.id hnamed
    exact hp.fresh r hr hid

theorem Upheld.published_single {l m : Listing} (hl : l ∈ t.rows) (hm : m ∈ t.rows) {id : String}
    (hid : l.card.previousId = some id) (hid' : m.card.previousId = some id) : l = m := by
  rcases (hp.rows l).1 hl with rfl | ⟨p, hpm, rfl⟩ <;> rcases (hp.rows m).1 hm with rfl | ⟨q, hq, rfl⟩
  · rfl
  · exact absurd ((Listing.facing_previousId q c).symm.trans hid') (hu.not_replaced hp hq hid)
  · exact absurd ((Listing.facing_previousId p c).symm.trans hid) (hu.not_replaced hp hpm hid')
  · rw [Listing.facing_previousId] at hid hid'
    rw [hu.single p hpm q hq id hid hid']

theorem Upheld.published_outdated (hc : c.outdated = false) {l : Listing} (hl : l ∈ t.rows) :
    l.card.outdated = true ↔
      l.revoked = true ∨ ∃ m ∈ t.rows, m.card.previousId = some l.id := by
  rcases (hp.rows l).1 hl with rfl | ⟨p, hpm, rfl⟩
  · constructor
    · intro hmarked
      rw [hc] at hmarked
      cases hmarked
    · rintro (hrevoked | ⟨m, hm, hnamed⟩)
      · cases hrevoked
      · exact absurd hnamed (hu.unnamed hp hm)
  · rw [Listing.facing_outdated, Listing.facing_revoked, Listing.facing_id, hu.outdated p hpm, or_assoc]
    refine or_congr_right ?_
    constructor
    · rintro (⟨m, hm, hnamed⟩ | hnamed)
      · exact ⟨m.facing c, (hp.rows _).2 (.inr ⟨m, hm, rfl⟩), (m.facing_previousId c).trans hnamed⟩
      · exact ⟨_, hp.listed, hnamed⟩
    · rintro ⟨m, hm, hnamed⟩
      rcases (hp.rows m).1 hm with rfl | ⟨q, hq, rfl⟩
      · exact .inr hnamed
      · exact .inl ⟨q, hq, (q.facing_previousId c).symm.trans hnamed⟩

theorem Upheld.published_revoked {raw : RawCard} {id : String} :
    .revoke id ∈ h.taken ++ [Directory.Call.publish raw] ↔
      ∃ l ∈ t.rows, l.id = id ∧ l.revoked = true := by
  rw [List.mem_append, List.mem_singleton, or_iff_left Directory.Call.noConfusion, hu.revoked]
  constructor
  · rintro ⟨l, hl, rfl, hrevoked⟩
    exact ⟨l.facing c, (hp.rows _).2 (.inr ⟨l, hl, rfl⟩), l.facing_id c,
      (l.facing_revoked c).trans hrevoked⟩
  · rintro ⟨l, hl, rfl, hrevoked⟩
    rcases (hp.rows l).1 hl with rfl | ⟨p, hpm, rfl⟩
    · cases hrevoked
    · exact ⟨p, hpm, (p.facing_id c).symm, (p.facing_revoked c).symm.trans hrevoked⟩

/-- Publishing a card keeps all this. -/
theorem Upheld.published {raw : RawCard} (hc : c.outdated = false) :
    Upheld ⟨{ h.directory with listings := t }, h.taken ++ [.publish raw]⟩ where
  available := hu.available
  ordered := hp.ordered hu.ordered
  single := fun _ hl _ hm _ => hu.published_single hp hl hm
  outdated := fun _ hl => hu.published_outdated hp hc hl
  revoked := fun _ => hu.published_revoked hp

end Published

/-! ### After a card was withdrawn -/

/-- Withdrawing a card keeps all this. -/
theorem Upheld.withdrawn (hu : h.Upheld) {id : String} {t : Listings}
    (ht : h.listings.revoke id = .ok t) :
    Upheld ⟨{ h.directory with listings := t }, h.taken ++ [.revoke id]⟩ := by
  obtain ⟨⟨l, hl, rfl⟩, hrows⟩ := Listings.revoke_rows ht
  constructor
  · exact hu.available
  · exact Listings.revoke_ordered ht hu.ordered
  · intro m hm n hn id hid hid'
    obtain ⟨p, hp, rfl⟩ := (hrows m).1 hm
    obtain ⟨q, hq, rfl⟩ := (hrows n).1 hn
    rw [Listing.withdrawn_previousId] at hid hid'
    rw [hu.single p hp q hq id hid hid']
  · intro m hm
    obtain ⟨p, hp, rfl⟩ := (hrows m).1 hm
    rw [Listing.withdrawn_outdated, Listing.withdrawn_revoked, Listing.withdrawn_id, hu.outdated p hp,
      or_right_comm]
    refine or_congr_right ?_
    constructor
    · rintro ⟨m, hm, hnamed⟩
      exact ⟨m.withdrawn l.id, (hrows _).2 ⟨m, hm, rfl⟩, (m.withdrawn_previousId _).trans hnamed⟩
    · rintro ⟨m, hm, hnamed⟩
      obtain ⟨q, hq, rfl⟩ := (hrows m).1 hm
      exact ⟨q, hq, (q.withdrawn_previousId _).symm.trans hnamed⟩
  · intro id
    rw [List.mem_append, List.mem_singleton, hu.revoked, Directory.Call.revoke.injEq]
    constructor
    · rintro (⟨p, hp, rfl, hrevoked⟩ | rfl)
      · exact ⟨_, (hrows _).2 ⟨p, hp, rfl⟩, p.withdrawn_id _, (p.withdrawn_revoked _).2 (.inl hrevoked)⟩
      · exact ⟨_, (hrows _).2 ⟨l, hl, rfl⟩, l.withdrawn_id _, (l.withdrawn_revoked _).2 (.inr rfl)⟩
    · rintro ⟨m, hm, rfl, hrevoked⟩
      obtain ⟨p, hp, rfl⟩ := (hrows m).1 hm
      rw [Listing.withdrawn_id]
      rcases (p.withdrawn_revoked _).1 hrevoked with hrevoked | hid
      · exact .inl ⟨p, hp, rfl, hrevoked⟩
      · exact .inr hid

theorem Upheld.step (hu : h.Upheld) (call : Directory.Call) : (h.step S call).Upheld := by
  unfold DirectoryHistory.step
  rcases Directory.Call.run_cases S h.directory call with ⟨e, hrun⟩ | ⟨d', hrun, htakes⟩
  · rw [hrun]
    exact hu
  · rw [hrun]
    cases htakes with
    | publish hc ht => exact hu.published (Listings.publish_ok ht) hc
    | revoke ht => exact hu.withdrawn ht

theorem lasts_step (h : DirectoryHistory) (call : Directory.Call) :
    h.listings.Lasts (h.step S call).listings := by
  unfold step
  rcases Directory.Call.run_cases S h.directory call with ⟨e, hrun⟩ | ⟨d', hrun, htakes⟩
  · rw [hrun]
    exact .refl _
  · rw [hrun]
    exact htakes.lasts

theorem upheld_foldl (hu : h.Upheld) (calls : List Directory.Call) :
    (calls.foldl (step S) h).Upheld := by
  induction calls generalizing h with
  | nil => exact hu
  | cons call calls ih => exact ih (hu.step call)

theorem lasts_foldl (h : DirectoryHistory) (calls : List Directory.Call) :
    h.listings.Lasts (calls.foldl (step S) h).listings := by
  induction calls generalizing h with
  | nil => exact .refl _
  | cons call calls ih => exact (h.lasts_step call).trans (ih (h.step S call))

/-- A search is answered with exactly the cards of the identity that are not marked. -/
theorem Upheld.search_answers (hu : h.Upheld) (identity : String) : ∃ found d,
    Directory.search identity h.directory = (.ok found, d) ∧ d.listings = h.listings ∧
      h.listings.Answers identity found := by
  refine ⟨_, _, Directory.search_run hu.available identity, rfl, ?_⟩
  exact Listings.current_answers hu.ordered (fun l hl hr => (hu.outdated l hl).2 (.inl hr)) identity

/-- After any calls, cards lead back to older cards of their identity, none is replaced twice, and
exactly those are marked that were withdrawn or replaced. A search gives exactly the others, each with
all that it leads back to. A call that is refused changes nothing, and no call takes a mark away. -/
theorem invariant_of_calls (S : CipherSuite) (calls : List Directory.Call) :
    (ofCalls S calls).Upheld ∧
    (∀ identity, ∃ found d,
      Directory.search identity (ofCalls S calls).directory = (.ok found, d) ∧
        d.listings = (ofCalls S calls).listings ∧
        (ofCalls S calls).listings.Answers identity found) ∧
    (∀ (d d' : Directory) (call : Directory.Call) (e : Error),
      call.run S d = (.error e, d') → d' = d) ∧
    ∀ more, (ofCalls S calls).listings.Lasts (ofCalls S (calls ++ more)).listings := by
  have hu : (ofCalls S calls).Upheld := upheld_foldl upheld_empty calls
  refine ⟨hu, hu.search_answers, fun d d' call e hrun => ?_, fun more => ?_⟩
  · rcases Directory.Call.run_cases S d call with ⟨e', h⟩ | ⟨d'', h, -⟩
    · exact (Prod.mk.inj (hrun.symm.trans h)).2
    · cases hrun.symm.trans h
  · rw [ofCalls, ofCalls, List.foldl_append]
    exact lasts_foldl _ more

/-- Where cards are only published, the directory is the one of the publication. -/
theorem directory_ofRaws (S : CipherSuite) (raws : List RawCard) :
    (ofCalls S (raws.map .publish)).directory = (Publication.ofRaws S raws).directory := by
  have hfold : ∀ (h : DirectoryHistory) (p : Publication), h.directory = p.directory →
      ((raws.map .publish).foldl (step S) h).directory =
        (raws.foldl (Publication.step S) p).directory := by
    induction raws with
    | nil => exact fun _ _ hd => hd
    | cons raw raws ih =>
      intro h p hd
      refine ih _ _ ?_
      rw [step, Publication.step, Directory.Call.run, Action.silently, hd]
      rcases Directory.publish S raw p.directory with ⟨_ | _, _⟩ <;> rfl
  exact hfold _ _ rfl

/-- A user's card and its replacement are published, and the first one again in vain. -/
theorem exists_publication : ∃ first second : Card, second.previousId = some first.id ∧
    (Publication.ofRaws .transparent [first.raw, second.raw, first.raw]).accepted = [first, second] :=
  ⟨CacheRun.cardOfAlice 1 none, CacheRun.cardOfAlice 2 (some (CacheRun.cardOfAlice 1 none).id), rfl,
    Publication.accepted_of_replacement (CacheRun.genuine_cardOfAlice _ _)
      (CacheRun.genuine_cardOfAlice _ _) rfl rfl CacheRun.id_cardOfAlice_ne rfl rfl rfl (by decide)⟩

/-- A replacement is published, and then withdrawn. -/
theorem invariant_of_replacement : ∃ first second : Card, ∃ calls : List Directory.Call,
    calls = [first.raw, second.raw, first.raw].map .publish ∧ second.previousId = some first.id ∧
      (ofCalls .transparent calls).Upheld ∧
      (∃ found d, Directory.search "alice" (ofCalls .transparent calls).directory = (.ok found, d) ∧
        (ofCalls .transparent calls).listings.Answers "alice" found) ∧
      (∃ e d, Directory.Call.run .transparent (.revoke first.id) .empty = (.error e, d) ∧ d = .empty) ∧
      ∃ l ∈ (ofCalls .transparent calls).listings.rows, l.card.marked false = second ∧
        ∃ l' ∈ (ofCalls .transparent (calls ++ [.revoke second.id])).listings.rows, l'.id = l.id := by
  obtain ⟨first, second, hprevious, haccepted⟩ := exists_publication
  obtain ⟨hupheld, hsearch, hrefused, hlasts⟩ :=
    invariant_of_calls .transparent ([first.raw, second.raw, first.raw].map .publish)
  obtain ⟨found, d, hrun, -, hanswers⟩ := hsearch "alice"
  have hnone : Directory.Call.run .transparent (.revoke first.id) .empty =
      (.error (.directory s!"Card {first.id} not found"), .empty) := rfl
  obtain ⟨l, hl, hcard⟩ := ((Publication.faithful_ofRaws _ _).accepted second).1
    (by rw [haccepted]; exact List.mem_cons_of_mem _ List.mem_cons_self)
  rw [Publication.listings, ← directory_ofRaws] at hl
  obtain ⟨l', hl', hcard', -⟩ := hlasts [.revoke second.id] l hl
  have hid : l'.card.id = l.card.id := by rw [hcard', Card.marked_id]
  exact ⟨first, second, _, rfl, hprevious, hupheld, ⟨found, d, hrun, hanswers⟩,
    ⟨_, _, hnone, hrefused _ _ _ _ hnone⟩, l, hl, hcard.symm, l', hl', hid⟩

end DirectoryHistory

end EndToEnd
