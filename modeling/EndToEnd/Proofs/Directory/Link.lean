/-
  Calls over a link.

  A call arrives if the link does not lose it and the directory can be reached, and is answered from
  the listings. Where it fails, the listings are as they were. A `Clear` link loses none; what calls over
  any other link come to is told by `search_cases` and `outdated_cases`.
-/
import EndToEnd.Directory
import EndToEnd.Proofs.Action

namespace EndToEnd

namespace Directory

variable {d : Directory}

/-- What a call fails with that does not arrive. -/
def unreachable : Error := .directory "Card directory unavailable"

theorem reach_of_available (ha : d.available = true) : reach d = (.ok (), d) := by
  rw [reach, if_pos ha]

theorem reach_of_unavailable (ha : d.available = false) : reach d = (.error unreachable, d) := by
  rw [reach, if_neg (by rw [ha]; exact Bool.false_ne_true)]
  rfl

theorem change_of_ok {f : Listings → Except Error Listings} {t : Listings} (h : f d.listings = .ok t) :
    change f d = (.ok (), { d with listings := t }) := by
  rw [change, h]

theorem change_of_error {f : Listings → Except Error Listings} {e : Error}
    (h : f d.listings = .error e) : change f d = (.error e, d) := by
  rw [change, h]

/-- Publishing gives the card that was listed, or an error and nothing is listed. -/
theorem publish_run (S : CipherSuite) (d : Directory) (raw : RawCard) :
    (∃ e, publish S raw d = (.error e, d)) ∨
      ∃ c t, Card.ofRaw S raw = .ok c ∧ d.listings.publish c = .ok t ∧ d.available = true ∧
        publish S raw d = (.ok c, { d with listings := t }) := by
  rw [publish]
  by_cases ha : d.available = true
  · rw [Action.bind_ok (reach_of_available ha)]
    cases hc : Card.ofRaw S raw with
    | error e => exact .inl ⟨e, rfl⟩
    | ok c =>
      rw [Action.bind_ok (Action.lift_run _ _)]
      cases ht : d.listings.publish c with
      | error e => exact .inl ⟨e, Action.bind_error (change_of_error ht)⟩
      | ok t =>
        refine .inr ⟨c, t, rfl, ht, ha, ?_⟩
        rw [Action.bind_ok (change_of_ok ht)]
        rfl
  · have ha : d.available = false := by simpa using ha
    exact .inl ⟨unreachable, Action.bind_error (reach_of_unavailable ha)⟩

/-- Revoking a listed card does so, if the directory can be reached. -/
theorem revoke_run (ha : d.available = true) {id : String} {t : Listings}
    (ht : d.listings.revoke id = .ok t) : revoke id d = (.ok (), { d with listings := t }) := by
  rw [revoke, Action.bind_ok (reach_of_available ha), change_of_ok ht]

end Directory

/-- The next call fails with a fault that was to come, or it does not fail. -/
theorem Schedule.next_cases {ε : Type} (s : Schedule ε) :
    (∃ e rest, s.next = (some e, rest) ∧ rest.upcoming <:+ s.upcoming ∧ some e ∈ s.upcoming) ∨
      ∃ rest, s.next = (none, rest) ∧ rest.upcoming <:+ s.upcoming := by
  obtain ⟨upcoming⟩ := s
  cases upcoming with
  | nil => exact .inr ⟨_, rfl, List.suffix_rfl⟩
  | cons fault rest =>
    have hrest := List.suffix_cons fault rest
    cases fault with
    | none => exact .inr ⟨_, rfl, hrest⟩
    | some e => exact .inl ⟨e, _, rfl, hrest, List.mem_cons_self⟩

namespace DirectoryLink

/-- The link loses no call. -/
structure Clear (l : DirectoryLink) : Prop where
  searches : l.searchFaults = .clear
  checks : l.outdatedFaults = .clear

theorem clear_reliable (d : Directory) : (reliable d).Clear := ⟨rfl, rfl⟩

/-- The listings at the other end. -/
def listings (l : DirectoryLink) : Listings := l.directory.listings

/-- The link after one more search. -/
def searched (l : DirectoryLink) : DirectoryLink :=
  { l with directory := { l.directory with searches := l.directory.searches + 1 } }

/-- The link with other listings at its end. -/
def listing (l : DirectoryLink) (t : Listings) : DirectoryLink :=
  { l with directory := { l.directory with listings := t } }

variable {l : DirectoryLink}

theorem Clear.searched (h : l.Clear) : l.searched.Clear := ⟨h.searches, h.checks⟩

theorem Clear.listing (h : l.Clear) (t : Listings) : (l.listing t).Clear := ⟨h.searches, h.checks⟩

/-- What a call may fail with: the directory is out of reach, or a fault is still to come. -/
def Raises (l : DirectoryLink) (e : Error) : Prop :=
  l.directory.available = false ∧ e = Directory.unreachable ∨
    some e ∈ l.searchFaults.upcoming ∨ some e ∈ l.outdatedFaults.upcoming

/-- Calls were made of which `n` were searches that the directory answered. The listings and the reach
are as they were, and of the faults that were to come the last ones still are. -/
structure Called (n : Nat) (l l' : DirectoryLink) : Prop where
  listings : l'.listings = l.listings
  available : l'.directory.available = l.directory.available
  searches : l'.directory.searches = l.directory.searches + n
  searchFaults : l'.searchFaults.upcoming <:+ l.searchFaults.upcoming
  outdatedFaults : l'.outdatedFaults.upcoming <:+ l.outdatedFaults.upcoming

namespace Called

variable {l' l'' : DirectoryLink} {m n : Nat}

theorem refl (l : DirectoryLink) : l.Called 0 l :=
  ⟨rfl, rfl, rfl, List.suffix_rfl, List.suffix_rfl⟩

theorem trans (h : l.Called m l') (h' : l'.Called n l'') : l.Called (m + n) l'' where
  listings := h'.listings.trans h.listings
  available := h'.available.trans h.available
  searches := by rw [h'.searches, h.searches, Nat.add_assoc]
  searchFaults := h'.searchFaults.trans h.searchFaults
  outdatedFaults := h'.outdatedFaults.trans h.outdatedFaults

/-- No call adds to what calls may fail with. -/
theorem raises (h : l.Called n l') {e : Error} (he : l'.Raises e) : l.Raises e := by
  rcases he with ⟨ha, he⟩ | hsearch | houtdated
  · exact .inl ⟨h.available.symm.trans ha, he⟩
  · exact .inr (.inl (h.searchFaults.subset hsearch))
  · exact .inr (.inr (h.outdatedFaults.subset houtdated))

theorem clear (h : l.Called n l') (hl : l.Clear) : l'.Clear := by
  have hsearch := h.searchFaults
  have houtdated := h.outdatedFaults
  rw [hl.searches] at hsearch
  rw [hl.checks] at houtdated
  obtain ⟨directory, ⟨searches⟩, ⟨checks⟩⟩ := l'
  obtain rfl := List.suffix_nil.1 hsearch
  obtain rfl := List.suffix_nil.1 houtdated
  exact ⟨rfl, rfl⟩

end Called

/-- A link that loses no call to a directory in reach raises nothing. -/
theorem Clear.not_raises (h : l.Clear) (ha : l.directory.available = true) (e : Error) :
    ¬ l.Raises e := by
  rintro (⟨hno, -⟩ | hsearch | houtdated)
  · rw [ha] at hno
    cases hno
  · rw [h.searches] at hsearch
    cases hsearch
  · rw [h.checks] at houtdated
    cases houtdated

/-- A search fails and changes no listing, or it is answered from the listings. -/
theorem search_cases (l : DirectoryLink) (identity : String) :
    (∃ e l', search identity l = (.error e, l') ∧ l.Called 0 l' ∧ l.Raises e) ∨
      ∃ l', search identity l = (.ok (l.listings.current identity), l') ∧ l.Called 1 l' := by
  obtain ⟨⟨t, available, searches⟩, faults, checks⟩ := l
  rcases faults.next_cases with ⟨e, rest, hnext, hrest, he⟩ | ⟨rest, hnext, hrest⟩
  · have hrun : search identity ⟨⟨t, available, searches⟩, faults, checks⟩ =
        (.error e, ⟨⟨t, available, searches⟩, rest, checks⟩) := by
      rw [search, hnext]
    exact .inl ⟨e, _, hrun, ⟨rfl, rfl, rfl, hrest, List.suffix_rfl⟩, .inr (.inl he)⟩
  · have hrun : search identity ⟨⟨t, available, searches⟩, faults, checks⟩ =
        call (Directory.search identity) ⟨⟨t, available, searches⟩, rest, checks⟩ := by
      rw [search, hnext]
    rw [hrun]
    cases available with
    | true => exact .inr ⟨_, rfl, ⟨rfl, rfl, rfl, hrest, List.suffix_rfl⟩⟩
    | false => exact .inl ⟨_, _, rfl, ⟨rfl, rfl, rfl, hrest, List.suffix_rfl⟩, .inl ⟨rfl, rfl⟩⟩

/-- So it is for a check of ids. -/
theorem outdated_cases (l : DirectoryLink) (ids : List String) :
    (∃ e l', outdated ids l = (.error e, l') ∧ l.Called 0 l' ∧ l.Raises e) ∨
      ∃ l', outdated ids l = (.ok (l.listings.outdated ids), l') ∧ l.Called 0 l' := by
  obtain ⟨⟨t, available, searches⟩, faults, checks⟩ := l
  rcases checks.next_cases with ⟨e, rest, hnext, hrest, he⟩ | ⟨rest, hnext, hrest⟩
  · have hrun : outdated ids ⟨⟨t, available, searches⟩, faults, checks⟩ =
        (.error e, ⟨⟨t, available, searches⟩, faults, rest⟩) := by
      rw [outdated, hnext]
    exact .inl ⟨e, _, hrun, ⟨rfl, rfl, rfl, List.suffix_rfl, hrest⟩, .inr (.inr he)⟩
  · have hrun : outdated ids ⟨⟨t, available, searches⟩, faults, checks⟩ =
        call (Directory.outdated ids) ⟨⟨t, available, searches⟩, faults, rest⟩ := by
      rw [outdated, hnext]
    rw [hrun]
    cases available with
    | true => exact .inr ⟨_, rfl, ⟨rfl, rfl, rfl, List.suffix_rfl, hrest⟩⟩
    | false => exact .inl ⟨_, _, rfl, ⟨rfl, rfl, rfl, List.suffix_rfl, hrest⟩, .inl ⟨rfl, rfl⟩⟩

/-- A search is answered from the listings. -/
theorem search_run (h : l.Clear) (identity : String) :
    search identity l = if l.directory.available then (.ok (l.listings.current identity), l.searched)
      else (.error Directory.unreachable, l) := by
  obtain ⟨⟨t, available, searches⟩, searchFaults, outdatedFaults⟩ := l
  obtain ⟨rfl, rfl⟩ := h
  cases available <;> rfl

/-- A check of ids is answered from the listings. -/
theorem outdated_run (h : l.Clear) (ids : List String) :
    outdated ids l = if l.directory.available then (.ok (l.listings.outdated ids), l)
      else (.error Directory.unreachable, l) := by
  obtain ⟨⟨t, available, searches⟩, searchFaults, outdatedFaults⟩ := l
  obtain ⟨rfl, rfl⟩ := h
  cases available <;> rfl

/-- Publishing gives the card that was listed, or an error and nothing is listed. -/
theorem publish_run (S : CipherSuite) (l : DirectoryLink) (raw : RawCard) :
    (∃ e, publish S raw l = (.error e, l)) ∨
      ∃ c t, Card.ofRaw S raw = .ok c ∧ l.listings.publish c = .ok t ∧ l.directory.available = true ∧
        publish S raw l = (.ok c, l.listing t) := by
  rw [publish, call, Action.on_run]
  rcases Directory.publish_run S l.directory raw with ⟨e, h⟩ | ⟨c, t, hc, ht, ha, h⟩
  · rw [h]
    exact .inl ⟨e, rfl⟩
  · rw [h]
    exact .inr ⟨c, t, hc, ht, ha, rfl⟩

/-- Revoking a listed card does so, if the directory can be reached. -/
theorem revoke_run (ha : l.directory.available = true) {id : String} {t : Listings}
    (ht : l.listings.revoke id = .ok t) : revoke id l = (.ok (), l.listing t) := by
  rw [revoke, call, Action.on_run, Directory.revoke_run ha ht]
  rfl

end DirectoryLink

end EndToEnd
