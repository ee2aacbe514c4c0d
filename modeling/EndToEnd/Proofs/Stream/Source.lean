/-
  Sources that neither break nor report their end early, and what sinks have accepted.

  What `fill` gives and what stays behind depend on the octets of the source alone, and not on the
  pieces that they come in or on the interruptions in between. A sink has what was written to it, or, if
  it refused, a proper front of that.
-/
import EndToEnd.Stream.Source

namespace EndToEnd.Stream

namespace Source

/-- The octets that a source has, one after the other. -/
def contents : List ReadEvent → Octets
  | [] => []
  | .piece b more :: es => b :: more ++ contents es
  | _ :: es => contents es

/-- The source hands out exactly these octets and then ends; it does not break, and it does not report
its end before. -/
structure Yields (s : Source) (o : Octets) : Prop where
  contents_eq : contents s.events = o
  unbroken : ∀ reason, .failure reason ∉ s.events
  steady : .pause ∉ s.events

/-- The source that has octets in one piece. -/
def ofOctets : Octets → Source
  | [] => ⟨[]⟩
  | b :: more => ⟨[.piece b more]⟩

theorem yields_ofOctets (o : Octets) : (ofOctets o).Yields o := by
  cases o with
  | nil => exact ⟨rfl, by simp [ofOctets], by simp [ofOctets]⟩
  | cons b more => exact ⟨by simp [ofOctets, contents], by simp [ofOctets], by simp [ofOctets]⟩

theorem collect_of_unbroken {n : Nat} {es : List ReadEvent} {acc : List Octets}
    (h : ∀ reason, .failure reason ∉ es) (hp : .pause ∉ es) :
    ∃ pieces es', collect n es acc = (.ok pieces, es') ∧
      pieces.reverse.flatten = acc.reverse.flatten ++ (contents es).take n ∧
      contents es' = (contents es).drop n ∧ (∀ reason, .failure reason ∉ es') ∧ .pause ∉ es' := by
  induction n, es, acc using collect.induct with
  | case1 es acc => exact ⟨acc, es, by rw [collect], by simp, by simp, h, hp⟩
  | case2 n acc => exact ⟨acc, [], by rw [collect], by simp [contents], by simp [contents], h, hp⟩
  | case3 n es acc ih =>
    rw [collect]
    exact ih (fun reason hr => h reason (List.mem_cons_of_mem _ hr))
      fun hr => hp (List.mem_cons_of_mem _ hr)
  | case4 n es acc => exact absurd List.mem_cons_self hp
  | case5 n acc reason es => exact absurd List.mem_cons_self (h reason)
  | case6 n b more es acc hd ih =>
    -- the piece is handed out whole
    obtain ⟨pieces, es', hc, ht, hdrop, hu⟩ := ih
      (fun reason hr => h reason (List.mem_cons_of_mem _ hr)) fun hr => hp (List.mem_cons_of_mem _ hr)
    have hlen : more.length ≤ n := List.drop_eq_nil_iff.1 hd
    refine ⟨pieces, es', ?_, ?_, ?_, hu⟩
    · simp only [collect, hd]
      exact hc
    · rw [ht, contents, List.cons_append, List.take_succ_cons, List.take_append,
        List.take_of_length_le hlen]
      simp
    · rw [hdrop, contents, List.cons_append, List.drop_succ_cons, List.drop_append, hd,
        List.nil_append]
  | case7 n b more es acc c rest hd =>
    -- the rest of the piece stays ready
    have hlen : n < more.length := by
      have := congrArg List.length hd
      simp at this
      omega
    refine ⟨(b :: more.take n) :: acc, .piece c rest :: es, ?_, ?_, ?_, ?_, ?_⟩
    · simp only [collect, hd]
    · rw [contents, List.cons_append, List.take_succ_cons, List.take_append_of_le_length (by omega)]
      simp
    · rw [contents, contents, List.cons_append, List.cons_append, List.drop_succ_cons,
        List.drop_append_of_le_length (by omega), hd, List.cons_append]
    · intro reason hr
      rcases List.mem_cons.1 hr with hr | hr
      · cases hr
      · exact h reason (List.mem_cons_of_mem _ hr)
    · intro hr
      rcases List.mem_cons.1 hr with hr | hr
      · cases hr
      · exact hp (List.mem_cons_of_mem _ hr)

/-- Filling takes the first octets and leaves the others. -/
theorem Yields.fill {s : Source} {o : Octets} (h : s.Yields o) (n : Nat) :
    ∃ t, s.fill n = (.ok (o.take n), t) ∧ t.Yields (o.drop n) := by
  obtain ⟨pieces, es, hc, ht, hd, hu, hp⟩ := @collect_of_unbroken n _ [] h.unbroken h.steady
  rw [h.contents_eq] at ht hd
  refine ⟨⟨es⟩, ?_, hd, hu, hp⟩
  unfold Source.fill
  rw [hc]
  dsimp only
  rw [ht]
  simp

end Source

namespace Sink

/-- The sink takes whatever is written to it. -/
structure Takes (s : Sink) : Prop where
  room : s.room = none
  flushFailure : s.flushFailure = none

theorem takes_unlimited : unlimited.Takes := ⟨rfl, rfl⟩

@[simp] theorem octets_unlimited : unlimited.octets = [] := rfl

variable {s : Sink}

theorem Takes.write (h : s.Takes) (o : Octets) :
    ∃ t, s.write o = (.ok (), t) ∧ t.Takes ∧ t.octets = s.octets ++ o := by
  refine ⟨{ s with accepted := o :: s.accepted }, ?_, ⟨h.room, h.flushFailure⟩, ?_⟩
  · unfold Sink.write
    rw [h.room]
  · simp [octets]

theorem Takes.writeAll (h : s.Takes) (parts : List Octets) :
    ∃ t, s.writeAll parts = (.ok (), t) ∧ t.Takes ∧ t.octets = s.octets ++ parts.flatten := by
  induction parts generalizing s with
  | nil => exact ⟨s, rfl, h, by simp⟩
  | cons o os ih =>
    obtain ⟨t, hw, ht, ho⟩ := h.write o
    obtain ⟨u, hu, hut, huo⟩ := ih ht
    refine ⟨u, ?_, hut, ?_⟩
    · unfold Sink.writeAll
      rw [hw]
      exact hu
    · rw [huo, ho, List.flatten_cons, List.append_assoc]

/-- A sink that took a piece has it, whatever more it will take. -/
theorem octets_of_write {t : Sink} {o : Octets} (h : s.write o = (.ok (), t)) :
    t.octets = s.octets ++ o := by
  unfold Sink.write at h
  split at h
  · cases h
    simp [octets]
  · split at h
    · cases h
      simp [octets]
    · cases h

theorem octets_of_writeAll {t : Sink} {parts : List Octets}
    (h : s.writeAll parts = (.ok (), t)) : t.octets = s.octets ++ parts.flatten := by
  induction parts generalizing s with
  | nil =>
    cases h
    simp
  | cons o os ih =>
    unfold Sink.writeAll at h
    split at h
    · rename_i u hu
      rw [ih h, octets_of_write hu, List.flatten_cons, List.append_assoc]
    · cases h

/-- A sink that refuses a piece has accepted less than the whole of it. -/
theorem octets_of_write_error {t : Sink} {o : Octets} {e : CryptoError}
    (h : s.write o = (.error e, t)) : ∃ k < o.length, t.octets = s.octets ++ o.take k := by
  unfold Sink.write at h
  split at h
  · cases h
  · rename_i room _
    split at h
    · cases h
    · rename_i hfull
      cases h
      exact ⟨room, Nat.lt_of_not_le hfull, by simp [octets]⟩

/-- So has a sink that refuses one of several parts. -/
theorem octets_of_writeAll_error {t : Sink} {parts : List Octets} {e : CryptoError}
    (h : s.writeAll parts = (.error e, t)) :
    ∃ k < parts.flatten.length, t.octets = s.octets ++ parts.flatten.take k := by
  induction parts generalizing s with
  | nil => cases h
  | cons o os ih =>
    rw [List.flatten_cons, List.length_append]
    unfold Sink.writeAll at h
    split at h
    · rename_i u hu
      obtain ⟨k, hk, hoct⟩ := ih h
      refine ⟨o.length + k, by omega, ?_⟩
      rw [hoct, octets_of_write hu, List.append_assoc, List.take_length_add_append]
    · rename_i e' u hu
      cases h
      obtain ⟨k, hk, hoct⟩ := octets_of_write_error hu
      refine ⟨k, by omega, ?_⟩
      rw [hoct, List.take_append_of_le_length (Nat.le_of_lt hk)]

theorem Takes.flush (h : s.Takes) : s.flush = .ok () := by
  unfold Sink.flush
  rw [h.flushFailure]

end Sink

end EndToEnd.Stream
