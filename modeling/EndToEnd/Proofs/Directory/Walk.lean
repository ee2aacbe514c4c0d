/-
  The chains that a directory serves, whatever it lists.

  Cards that were listed without a look at what they replace may name themselves, each other in a circle,
  or a card of another identity. The way back from a card stops after as many steps as there are listings.

  `Walks` describes it: it goes on to a listed card of the same identity, and `Ends` says why it ends where
  it is not cut off. Two facts show that only a circle is cut off. A longer bound does nothing but go on
  (`ancestors_eq_take`), so a walk with one step to spare that is short is the walk of the directory. And
  a walk that returns to no card is short, since it meets each listing at most once.

  Proved:
  * `Listings.ancestors_walks`: the cards behind a card are a way back from it.
  * `Listings.Acyclic.ends`: where the links make no circle, a chain ends where it has to.
  * `Listings.acyclic_of_older`: where listed cards name older ones only, the links make no circle.
  * `CardChain.walks_end`: reading a chain ends, in a cache as well as in a directory.
-/
import EndToEnd.Proofs.Card.Loaded
import EndToEnd.Proofs.CipherSuite.Transparent
import EndToEnd.Proofs.Directory.Chain

namespace EndToEnd

namespace Listings

variable {t : Listings} {identity : String} {c p : Card}

/-- A card names a listed one. -/
def Leads (t : Listings) (c p : Card) : Prop := c.previousId = some p.id ∧ ∃ l ∈ t.rows, l.card = p

/-- The links that can be followed from a card make no circle, of whatever identities the cards are. -/
def Acyclic (t : Listings) (c : Card) : Prop :=
  ∀ p, p = c ∨ Relation.TransGen t.Leads c p → ¬ Relation.TransGen t.Leads p p

/-- Why a chain of an identity does not go on behind a card. -/
inductive Ends (t : Listings) (identity : String) (c : Card) : Prop
  | first (h : c.previousId = none)
  | missing (id : String) (h : c.previousId = some id) (hmissing : t.find? id = none)
  | foreign (p : Card) (h : t.Leads c p) (hforeign : p.identity ≠ identity)

/-- The way back from a card: the cards behind it, at most `n` of them. -/
inductive Walks (t : Listings) (identity : String) : (n : Nat) → Card → List Card → Prop
  | stop {n : Nat} {c : Card} (h : t.Ends identity c) : Walks t identity n c []
  | cut {c : Card} : Walks t identity 0 c []
  | next {n : Nat} {c p : Card} {cs : List Card} (h : t.Leads c p) (howned : p.identity = identity)
      (rest : Walks t identity n p cs) : Walks t identity (n + 1) c (p :: cs)

/-! ## The walk of the directory -/

theorem ancestors_zero (id? : Option String) : t.ancestors identity 0 id? = [] := by
  cases id? <;> rfl

theorem ancestors_walks (t : Listings) (identity : String) (n : Nat) (c : Card) :
    t.Walks identity n c (t.ancestors identity n c.previousId) := by
  induction n generalizing c with
  | zero =>
    rw [ancestors_zero]
    exact .cut
  | succ n ih =>
    cases hprevious : c.previousId with
    | none => exact .stop (.first hprevious)
    | some id =>
      rw [ancestors]
      cases hfind : t.find? id with
      | none => exact .stop (.missing id hprevious hfind)
      | some l =>
        obtain ⟨hl, rfl⟩ := Table.find?_eq_some_iff.1 hfind
        have hleads : t.Leads c l.card := ⟨hprevious, l, hl, rfl⟩
        dsimp only
        by_cases howned : l.card.identity = identity
        · rw [if_pos howned]
          exact .next hleads howned (ih l.card)
        · rw [if_neg howned]
          exact .stop (.foreign l.card hleads howned)

/-- With a longer bound the walk goes on; it is not another walk. -/
theorem ancestors_eq_take {m n : Nat} (h : n ≤ m) (id? : Option String) :
    t.ancestors identity n id? = (t.ancestors identity m id?).take n := by
  induction n generalizing m id? with
  | zero => rw [ancestors_zero, List.take_zero]
  | succ n ih =>
    obtain ⟨m, rfl⟩ : ∃ k, m = k + 1 := ⟨m - 1, by omega⟩
    cases id? with
    | none => rfl
    | some id =>
      rw [ancestors, ancestors]
      split
      · rfl
      · split
        · rw [List.take_succ_cons, ← ih (by omega)]
        · rfl

namespace Walks

variable {n : Nat} {cs : List Card}

theorem listed (h : t.Walks identity n c cs) :
    ∀ p ∈ cs, p.identity = identity ∧ ∃ l ∈ t.rows, l.card = p := by
  induction h with
  | stop => exact nofun
  | cut => exact nofun
  | next h howned _ ih => exact List.forall_mem_cons.2 ⟨⟨howned, h.2⟩, ih⟩

theorem linked (h : t.Walks identity n c cs) :
    ∀ p ∈ (c :: cs).zip cs, p.1.previousId = some p.2.id := by
  induction h with
  | stop => exact nofun
  | cut => exact nofun
  | next h _ _ ih =>
    rw [List.zip_cons_cons]
    exact List.forall_mem_cons.2 ⟨h.1, ih⟩

theorem length_le (h : t.Walks identity n c cs) : cs.length ≤ n := by
  induction h with
  | stop => exact Nat.zero_le _
  | cut => exact Nat.le_refl _
  | next _ _ _ ih => exact Nat.succ_le_succ ih

/-- A walk that does not end by itself has taken all its steps. -/
theorem ends_or_length_eq (h : t.Walks identity n c cs) :
    t.Ends identity (cs.getLastD c) ∨ cs.length = n := by
  induction h with
  | stop h => exact .inl h
  | cut => exact .inr rfl
  | next _ _ _ ih =>
    rw [List.getLastD_cons]
    exact ih.imp_right (congrArg (· + 1))

theorem reaches (h : t.Walks identity n c cs) : ∀ p ∈ cs, Relation.TransGen t.Leads c p := by
  induction h with
  | stop => exact nofun
  | cut => exact nofun
  | next h _ _ ih => exact List.forall_mem_cons.2 ⟨.single h, fun q hq => .trans (.single h) (ih q hq)⟩

end Walks

/-! ## Links without circles -/

theorem Acyclic.of_leads (ha : t.Acyclic c) (h : t.Leads c p) : t.Acyclic p := by
  rintro q (rfl | hq)
  · exact ha q (.inr (.single h))
  · exact ha q (.inr (.trans (.single h) hq))

namespace Walks

variable {n : Nat} {cs : List Card}

/-- Without a circle no card is met twice. -/
theorem nodup (h : t.Walks identity n c cs) (ha : t.Acyclic c) : cs.Nodup := by
  induction h with
  | stop => exact List.nodup_nil
  | cut => exact List.nodup_nil
  | @next n c p cs h _ rest ih =>
    have hp := ha.of_leads h
    exact List.nodup_cons.2 ⟨fun hmem => hp p (.inl rfl) (rest.reaches p hmem), ih hp⟩

theorem length_le_of_nodup (h : t.Walks identity n c cs) (hn : cs.Nodup) :
    cs.length ≤ t.rows.length := by
  have hsub : cs ⊆ t.rows.map (·.card) := fun p hp => List.mem_map.2 (h.listed p hp).2
  have := hn.length_le_of_subset hsub
  rwa [List.length_map] at this

end Walks

/-- A walk without circles, given one step more than there are listings, has a step to spare. So it has
ended by itself, and is the walk of the directory. -/
theorem Acyclic.ends (ha : t.Acyclic c) :
    t.Ends c.identity ((t.resolve c).ancestors.getLastD c) := by
  have hwalk := t.ancestors_walks c.identity (t.rows.length + 1) c
  have hshort := hwalk.length_le_of_nodup (hwalk.nodup ha)
  have huncut : (t.resolve c).ancestors =
      t.ancestors c.identity (t.rows.length + 1) c.previousId := by
    show t.ancestors c.identity t.rows.length c.previousId = _
    rw [ancestors_eq_take (Nat.le_succ _), List.take_of_length_le hshort]
  rw [huncut]
  rcases hwalk.ends_or_length_eq with hends | hlong
  · exact hends
  · omega

theorem listed_of_reaches (h : Relation.TransGen t.Leads c p) : ∃ l ∈ t.rows, l.card = p := by
  cases h with
  | single h => exact h.2
  | tail _ h => exact h.2

/-- Time orders the listed cards, so that no way leads back to where it began. -/
theorem acyclic_of_older (h : ∀ l ∈ t.rows, ∀ m ∈ t.rows, l.card.previousId = some m.id →
    m.card.createdAt < l.card.createdAt) (c : Card) : t.Acyclic c := by
  have hstep : ∀ l ∈ t.rows, ∀ q, t.Leads l.card q → q.createdAt < l.card.createdAt := by
    rintro l hl q ⟨hlink, m, hm, rfl⟩
    exact h l hl m hm hlink
  have older : ∀ l ∈ t.rows, ∀ q, Relation.TransGen t.Leads l.card q →
      q.createdAt < l.card.createdAt := by
    intro l hl q hq
    induction hq with
    | single h => exact hstep l hl _ h
    | tail hbefore h ih =>
      obtain ⟨m, hm, rfl⟩ := listed_of_reaches hbefore
      exact Int64.lt_trans (hstep m hm _ h) ih
  intro p _ hcircle
  obtain ⟨l, hl, rfl⟩ := listed_of_reaches hcircle
  exact Int64.lt_irrefl (older l hl _ hcircle)

end Listings

namespace CardChain

/-- Reading a chain ends, whatever links the cards carry. In a cache it ends with a chain or an error,
which the reader shows to be the cache's own, and no row is loaded twice; whichever queries fail. In a
directory it ends after as many steps as there are listings, with cards of the identity each of which
names the next; and where no circle can be reached, only behind a card that has no predecessor to go
on to. -/
theorem walks_end (S : CipherSuite) :
    (∀ (k : CardCache) (row : CardRow),
      let run := CardReader.resolve S row ⟨k, []⟩
      (run.1, run.2.cache) = CardCache.resolve S row k ∧
        ((∃ chain, run.1 = .ok chain ∧ row.toCard S = .ok chain.head) ∨ ∃ e, run.1 = .error e) ∧
          (run.2.loaded.map (·.id)).Nodup ∧ run.2.loaded ⊆ row :: k.rows.rows) ∧
      ∀ (t : Listings) (c : Card),
        let chain := t.resolve c
        chain.head = c ∧ chain.ancestors.length ≤ t.rows.length ∧
          (∀ p ∈ chain.ancestors, p.identity = c.identity ∧ ∃ l ∈ t.rows, l.card = p) ∧
            (∀ p ∈ chain.cards.zip chain.ancestors, p.1.previousId = some p.2.id) ∧
              (t.Acyclic c → t.Ends c.identity (chain.ancestors.getLastD c)) := by
  refine ⟨fun k row => ?_, fun t c => ?_⟩
  · obtain ⟨hdistinct, hstored⟩ := CardReader.loads_once S row k
    have heq := CardReader.resolve_eq S row k
    refine ⟨heq, ?_, hdistinct, hstored⟩
    cases hrun : (CardReader.resolve S row ⟨k, []⟩).1 with
    | error e => exact .inr ⟨e, rfl⟩
    | ok chain =>
      rw [hrun] at heq
      exact .inl ⟨chain, rfl, CardCache.toCard_of_resolve heq.symm⟩
  · have hwalk := t.ancestors_walks c.identity t.rows.length c
    exact ⟨rfl, hwalk.length_le, hwalk.listed, hwalk.linked, Listings.Acyclic.ends⟩

section Examples

/-- A listing with an id and a link of one's choice. -/
def linkedListing (id identity : String) (createdAt : Timestamp) (previousId : Option String) :
    Listing :=
  ⟨⟨id, identity, default, createdAt, false, previousId, ⟨[], .zero 64⟩⟩, false⟩

/-- The second card of alice names her first one, and this one of mallory. -/
def acrossIdentities : Listings where
  rows := [linkedListing "m" "mallory" 1 none, linkedListing "a" "alice" 2 (some "m"),
    linkedListing "b" "alice" 3 (some "a")]
  distinct := by decide

/-- Two cards of alice name each other. -/
def inCircle : Listings where
  rows := [linkedListing "a" "alice" 1 (some "b"), linkedListing "b" "alice" 2 (some "a")]
  distinct := by decide

/-- No circle is there, and the chain of the newest card ends before the card of another identity. -/
theorem walks_end_across_identities :
    let newest := (linkedListing "b" "alice" 3 (some "a")).card
    let first := (linkedListing "a" "alice" 2 (some "m")).card
    acrossIdentities.Acyclic newest ∧ (acrossIdentities.resolve newest).ancestors = [first] ∧
      acrossIdentities.Ends "alice" first := by
  have hacyclic := Listings.acyclic_of_older (t := acrossIdentities) (by decide)
    (linkedListing "b" "alice" 3 (some "a")).card
  have hread : (acrossIdentities.resolve (linkedListing "b" "alice" 3 (some "a")).card).ancestors =
      [(linkedListing "a" "alice" 2 (some "m")).card] := by
    decide
  obtain ⟨-, -, -, -, hends⟩ := (walks_end .transparent).2 acrossIdentities
    (linkedListing "b" "alice" 3 (some "a")).card
  rw [hread] at hends
  exact ⟨hacyclic, hread, hends hacyclic⟩

/-- A circle is gone round until there are as many ancestors as listings. -/
example : (inCircle.resolve (linkedListing "a" "alice" 1 (some "b")).card).ancestors =
    [(linkedListing "b" "alice" 2 (some "a")).card, (linkedListing "a" "alice" 1 (some "b")).card] := by
  decide

end Examples

end CardChain

end EndToEnd
