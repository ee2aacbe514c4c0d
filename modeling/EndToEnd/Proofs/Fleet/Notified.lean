/-
  What is reported while calls to the directory fail.

  A device of a fleet that is open to others brings its cache up to date, again and again, with somebody
  listening. Before each call anything happens to the fleet, and calls to the directory fail in any
  pattern. What a call makes of the cache and what it reports tell of each other, so that over all calls
  each replacement of stale cards is reported once, and no stale card is lost sight of.

  Proved:
  * `progressed_of_mem`: every call goes through the stale identities in order, until it ends.
  * `UpdateCall.Progressed.replaces_iff`: the identities whose stale cards were replaced are those that a
    call came to and that had a current card.
  * `notified_once`: what each call keeps, and how often each identity is reported.
-/
import EndToEnd.Proofs.Fleet.Open
import EndToEnd.Proofs.Fleet.Update

namespace EndToEnd

/-- A call that brings a cache up to date with somebody listening: what the device found, what it
answered, and what it left. -/
structure UpdateCall where
  before : Site
  answer : Except Error (List String)
  after : Site

namespace UpdateCall

/-- What the lookups of the device worked on. -/
def desk (c : UpdateCall) : LookupDesk := ⟨c.before.cache, c.before.directory, c.before.reported⟩

/-- The directory's list. -/
def listings (c : UpdateCall) : Listings := c.before.listings

/-- The identities with a cached current card that the directory did not serve any more. -/
def stale (c : UpdateCall) : List String := c.before.cache.rows.stale c.listings

/-- The identities that the listener was told. A device starts to work with none. -/
def reports (c : UpdateCall) : List String := c.after.reported

/-- Whether the stale cards of an identity were marked, and the card that the policy chooses of those
that the directory serves was cached in their place. -/
def replaces (c : UpdateCall) (identity : String) : Bool :=
  identity ∈ c.stale && !(identity ∈ c.after.cache.rows.stale c.listings : Bool) &&
    (c.before.cache.policy.select identity (c.listings.current identity)).toOption.any fun chain =>
      c.after.cache.rows.find? chain.head.id = some (CardRow.ofCard chain.head)

end UpdateCall

namespace Fleet

/-- The calls with which a device brings its cache up to date, each of them after some events. -/
def updates (S : CipherSuite) (name : String) : Fleet → List (List OpenEvent) → List UpdateCall
  | _, [] => []
  | f, events :: rounds =>
    let f := f.openRun S events
    match f.members.find? name with
    | none => updates S name f rounds
    | some m =>
      let done := { m.device with listening := true }.update S (f.site m)
      ⟨f.site m, done.1, done.2⟩ :: updates S name (f.returned m done.2) rounds

end Fleet

variable {S : CipherSuite} {identity : String}

namespace UpdateCall

variable {c : UpdateCall} {fetched : List String} {n : Nat}

/-- A call has come to some identities. -/
structure Progressed (S : CipherSuite) (c : UpdateCall) (fetched : List String) (n : Nat) : Prop where
  regular : c.listings.Regular S
  silent : c.before.reported = []
  progress : Lookup.Progress c.listings true fetched n c.desk
    ⟨c.after.cache, c.after.directory, c.after.reported⟩
  outcome : Lookup.Outcome c.listings c.desk c.stale fetched n c.answer

namespace Progressed

variable (h : c.Progressed S fetched n)
include h

theorem reports_eq : c.reports = fetched.filter c.listings.hasCurrent := by
  have hreported : c.reports = c.before.reported ++ _ := h.progress.reported
  rw [hreported, h.silent]
  rfl

/-- The rows of an identity that a call did not come to are as they were, so it is stale if it was. -/
theorem stale_iff (hno : identity ∉ fetched) :
    identity ∈ c.after.cache.rows.stale c.listings ↔ identity ∈ c.stale := by
  have hrows : c.after.cache.rows.ofIdentity identity = c.before.cache.rows.ofIdentity identity :=
    h.progress.others identity hno
  unfold stale
  rw [CardRows.mem_stale, CardRows.mem_stale, hrows]

/-- Stale cards were replaced of the identities that a call came to and that have a current card. -/
theorem replaces_iff :
    c.replaces identity = true ↔ identity ∈ fetched ∧ c.listings.hasCurrent identity = true := by
  unfold replaces
  rw [Bool.and_eq_true, Bool.and_eq_true, decide_eq_true_eq, Bool.not_eq_true', decide_eq_false_iff_not,
    Option.any_eq_true]
  constructor
  · rintro ⟨⟨hstale, hgone⟩, chain, hchain, -⟩
    constructor
    · exact Decidable.byContradiction fun hno => hgone ((h.stale_iff hno).2 hstale)
    · rw [Listings.hasCurrent_eq_true]
      intro hnone
      rw [hnone] at hchain
      cases hchain
  · rintro ⟨hi, hyes⟩
    obtain ⟨chain, hchain⟩ := h.progress.decided identity hi hyes
    refine ⟨⟨h.outcome.first.subset hi, h.progress.not_stale hi⟩, chain, ?_, ?_⟩
    · rw [show c.before.cache.policy.select identity _ = .ok chain from hchain]
      rfl
    · exact decide_eq_true (h.progress.find?_head h.regular hi hchain)

/-- An identity is reported once if its stale cards were replaced, and not at all if they were not. -/
theorem count_reports (identity : String) :
    c.reports.count identity = if c.replaces identity then 1 else 0 := by
  have hnodup : fetched.Nodup := by
    have hstale : c.stale.Nodup := (Lookup.pairwise_inOrder _).imp String.ne_of_lt
    exact hstale.sublist h.outcome.first.sublist
  have hmem : identity ∈ c.reports ↔ c.replaces identity = true := by
    rw [h.reports_eq, List.mem_filter, h.replaces_iff]
  have honce : c.reports.Nodup := by
    rw [h.reports_eq]
    exact hnodup.filter _
  by_cases hr : c.replaces identity = true
  · rw [if_pos hr, honce.count, if_pos (hmem.2 hr)]
  · rw [if_neg hr, honce.count, if_neg fun hi => hr (hmem.1 hi)]

end Progressed

end UpdateCall

namespace Fleet

variable {f : Fleet}

/-- In a regular fleet, every call comes to some of the stale identities, and then ends. -/
theorem progressed_of_mem (h : f.Regular S) (name : String) (rounds : List (List OpenEvent))
    {c : UpdateCall} (hc : c ∈ updates S name f rounds) : ∃ fetched n, c.Progressed S fetched n := by
  induction rounds generalizing f with
  | nil => cases hc
  | cons events rounds ih =>
    have hrun := regular_openRun h events
    rw [updates] at hc
    dsimp only at hc
    split at hc
    · exact ih hrun hc
    · rename_i m hm
      have hsite := hrun.site (Table.mem_of_find? hm)
      have hagrees : LookupDesk.Agrees (f.openRun S events).directory.listings
          ⟨m.cache, (f.openRun S events).directory, []⟩ := ⟨hsite.reliable, hsite.coherent, rfl⟩
      obtain ⟨fetched, n, r, d, hupdate, hd, hout⟩ :=
        Lookup.update_progress hsite.regular hagrees true
      have hdone : Device.update S { m.device with listening := true } ((f.openRun S events).site m) = _ :=
        Site.inLookup_run hupdate
      rcases List.mem_cons.1 hc with rfl | hc
      · rw [hdone]
        exact ⟨fetched, n, hsite.regular, rfl, hd, hout⟩
      · refine ih (hrun.returned ?_) hc
        exact ((Site.undisturbed_holds hsite.regular).inLookup
          (Lookup.keeps_agreement hsite.regular true) _ hsite).1.extends

/-- A device of a fleet brings its cache up to date in any number of calls with somebody listening,
while anybody publishes and revokes cards and calls to the directory fail in any pattern. Each call
fetches the answers for some of the stale identities, in order. It answers with those of all stale
identities that have a current card; or it fails because a call to the directory did, or because the
policy chooses no card of the next identity. The listener is told of the identities that were fetched
and have a current card. What was not fetched keeps its rows with their marks; what was fetched is no
longer stale. In all, an identity is reported exactly once for each call in which a fetched card took
the place of its stale ones. -/
theorem notified_once (S : CipherSuite) (tape : Tape) (now : Timestamp) (name : String)
    (rounds : List (List OpenEvent)) :
    let calls := updates S name (empty tape now) rounds
    (∀ c ∈ calls, ∃ fetched searches,
      Lookup.Outcome c.listings c.desk c.stale fetched searches c.answer ∧
      c.before.directory.Called searches c.after.directory ∧
      c.reports = fetched.filter c.listings.hasCurrent ∧
      (∀ identity ∈ fetched, identity ∉ c.after.cache.rows.stale c.listings) ∧
      ∀ identity ∉ fetched,
        c.after.cache.rows.ofIdentity identity = c.before.cache.rows.ofIdentity identity) ∧
    (∀ c ∈ calls, ∀ changed, c.answer = .ok changed →
      c.reports = changed ∧ changed = c.stale.filter c.listings.hasCurrent) ∧
    ∀ identity, (calls.flatMap (·.reports)).count identity = calls.countP (·.replaces identity) := by
  intro calls
  have hcalls : ∀ c ∈ calls, ∃ fetched n, c.Progressed S fetched n :=
    fun c => progressed_of_mem (regular_empty S tape now) name rounds
  refine ⟨fun c hc => ?_, fun c hc changed hok => ?_, fun identity => ?_⟩
  · obtain ⟨fetched, n, h⟩ := hcalls c hc
    exact ⟨fetched, n, h.outcome, h.progress.link, h.reports_eq, fun _ => h.progress.not_stale,
      h.progress.others⟩
  · obtain ⟨fetched, n, h⟩ := hcalls c hc
    have hout := h.outcome
    rw [hok] at hout
    cases hout
    exact ⟨h.reports_eq, rfl⟩
  · clear_value calls
    induction calls with
    | nil => rfl
    | cons c calls ih =>
      obtain ⟨fetched, n, h⟩ := hcalls c List.mem_cons_self
      rw [List.flatMap_cons, List.count_append, List.countP_cons, h.count_reports,
        ih fun d hd => hcalls d (List.mem_cons_of_mem _ hd), Nat.add_comm]

end Fleet

end EndToEnd
