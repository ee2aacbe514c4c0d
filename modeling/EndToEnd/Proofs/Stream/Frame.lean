/-
  Frames as octets.

  `cutFrame` is reading a frame as a function of octets; a source that does not break is read that
  way. It takes a frame exactly where one stands whole at the front and is not too long, and so none
  from octets that end within it (`Cut`), which is what a sink that refused a frame has of it.
-/
import EndToEnd.Proofs.Octets
import EndToEnd.Proofs.Stream.Source
import EndToEnd.Stream.Frame

namespace EndToEnd.Stream

/-- The frame of some octets. -/
def frame (o : Octets) : Octets := bigEndian 4 o.length ++ o

theorem flatten_frameParts (parts : List Octets) :
    (frameParts parts).flatten = frame parts.flatten := by
  simp [frameParts, frame]

/-- The frame at the front of octets and what follows it, if the frame is whole and has no more than
`limit` octets. -/
def cutFrame (limit : Nat) (o : Octets) : Option (Octets × Octets) :=
  if 4 ≤ o.length ∧ ofBigEndian (o.take 4) ≤ limit ∧ ofBigEndian (o.take 4) ≤ (o.drop 4).length then
    some ((o.drop 4).take (ofBigEndian (o.take 4)), (o.drop 4).drop (ofBigEndian (o.take 4)))
  else none

/-- The number in front of a frame that was cut is the length of the frame. -/
theorem cutFrame_eq_some {limit : Nat} {o f rest : Octets} :
    cutFrame limit o = some (f, rest) ↔
      f.length ≤ limit ∧ f.length < 2 ^ 32 ∧ o = frame f ++ rest := by
  constructor
  · intro h
    unfold cutFrame at h
    split at h
    · rename_i hc
      obtain ⟨h4, hlimit, hn⟩ := hc
      injection h with h
      injection h with hf hr
      have hlen : f.length = ofBigEndian (o.take 4) := by
        rw [← hf, List.length_take]
        omega
      have h4' : (o.take 4).length = 4 := List.length_take_of_le h4
      have hlt : ofBigEndian (o.take 4) < 256 ^ 4 := by
        have := ofLittleEndian_lt (o.take 4).reverse
        rwa [List.length_reverse, h4'] at this
      refine ⟨by omega, by omega, ?_⟩
      have hnum := bigEndian_ofBigEndian (o.take 4)
      rw [h4'] at hnum
      rw [frame, hlen, hnum, ← hf, ← hr, List.append_assoc, List.take_append_drop,
        List.take_append_drop]
    · cases h
  · rintro ⟨hlimit, hlt, rfl⟩
    have hn : ofBigEndian (bigEndian 4 f.length) = f.length := ofBigEndian_bigEndian 4 _ (by omega)
    have htake : (frame f ++ rest).take 4 = bigEndian 4 f.length := by
      rw [frame, List.append_assoc, List.take_append_of_le_length (by simp)]
      exact List.take_of_length_le (by simp)
    have hdrop : (frame f ++ rest).drop 4 = f ++ rest := by
      rw [frame, List.append_assoc, List.drop_append_of_le_length (by simp),
        List.drop_of_length_le (by simp), List.nil_append]
    have h4 : 4 ≤ (frame f ++ rest).length := by
      simp [frame]
    unfold cutFrame
    rw [htake, hdrop, hn, if_pos ⟨h4, hlimit, by simp⟩, List.take_left, List.drop_left]

theorem cutFrame_frame {limit : Nat} {f : Octets} (rest : Octets) (hl : f.length ≤ limit)
    (h : f.length < 2 ^ 32) : cutFrame limit (frame f ++ rest) = some (f, rest) :=
  cutFrame_eq_some.2 ⟨hl, h, rfl⟩

/-- The octets begin a frame that can be numbered, and end before it does. -/
def Cut (o : Octets) : Prop :=
  ∃ body : Octets, body.length < 2 ^ 32 ∧ ∃ k < (frame body).length, o = (frame body).take k

theorem cut_nil : Cut [] := ⟨[], by decide, 0, by decide, rfl⟩

/-- No frame stands at the front of what begins one. -/
theorem Cut.cutFrame_eq_none {limit : Nat} {o : Octets} (h : Cut o) : cutFrame limit o = none := by
  obtain ⟨body, hlt, k, hk, rfl⟩ := h
  unfold cutFrame
  refine if_neg ?_
  rintro ⟨h4, -, hn⟩
  have hlen : (frame body).length = 4 + body.length := by simp [frame]
  rw [List.length_take] at h4
  have hnumber : ((frame body).take k).take 4 = bigEndian 4 body.length := by
    rw [List.take_take, Nat.min_eq_left (by omega), frame,
      List.take_append_of_le_length (by simp)]
    exact List.take_of_length_le (by simp)
  rw [hnumber, ofBigEndian_bigEndian 4 _ (by omega), List.length_drop, List.length_take] at hn
  omega

namespace Source

/-- A source never gets more octets by being read. -/
theorem collect_size_le (n : Nat) (es : List ReadEvent) (acc : List Octets) :
    size (collect n es acc).2 ≤ size es := by
  induction n, es, acc using collect.induct with
  | case1 es acc => rewrite [collect]; exact Nat.le_refl _
  | case2 n acc => rewrite [collect]; exact Nat.le_refl _
  | case3 n es acc ih => rewrite [collect]; exact ih
  | case4 n es acc => rewrite [collect]; exact Nat.le_refl _
  | case5 n acc reason es => rewrite [collect]; exact Nat.le_refl _
  | case6 n b more es acc hd ih =>
    simp only [collect, hd, size]
    omega
  | case7 n b more es acc c rest hd =>
    have hlen := congrArg List.length hd
    rw [List.length_drop, List.length_cons] at hlen
    simp only [collect, hd, size]
    omega

theorem fill_size_le {n : Nat} {s t : Source} {result : Except CryptoError Octets}
    (h : s.fill n = (result, t)) : size t.events ≤ size s.events := by
  have hle := collect_size_le n s.events []
  unfold fill at h
  split at h <;> rename_i hc <;> cases h <;> rwa [hc] at hle

variable {s : Source} {o : Octets} {limit : Nat}

/-- A frame that stands at the front is read and leaves what follows it. -/
theorem Yields.readFrame_of_cut (h : s.Yields o) {f rest : Octets}
    (hc : cutFrame limit o = some (f, rest)) :
    ∃ t, s.readFrame limit = (.ok (some f), t) ∧ t.Yields rest := by
  unfold cutFrame at hc
  split at hc
  · rename_i hcut
    obtain ⟨h4, hlimit, hn⟩ := hcut
    obtain ⟨t, ht, hty⟩ := h.fill 4
    obtain ⟨u, hu, huy⟩ := hty.fill (ofBigEndian (o.take 4))
    have hlen : (o.take 4).length = 4 := List.length_take_of_le h4
    cases hc
    refine ⟨u, ?_, huy⟩
    unfold Source.readFrame
    rw [ht]
    dsimp only
    rw [if_neg (by omega), if_neg (by omega), if_neg (by omega), hu]
    dsimp only
    rw [if_neg (by rw [List.length_take_of_le hn]; simp)]
  · cases hc

/-- A frame that is too long is refused before it is read. -/
theorem Yields.readFrame_of_long {f rest : Octets} (h : s.Yields (frame f ++ rest))
    (hlong : limit < f.length) (hlt : f.length < 2 ^ 32) :
    ∃ t, s.readFrame limit = (.error (.invalidFormat
      s!"Frame of {f.length} bytes exceeds the limit of {limit}"), t) := by
  obtain ⟨t, ht, -⟩ := h.fill 4
  have hnumber : (frame f ++ rest).take 4 = bigEndian 4 f.length := by
    rw [frame, List.append_assoc, List.take_append_of_le_length (by simp)]
    exact List.take_of_length_le (by simp)
  have hvalue : ofBigEndian (bigEndian 4 f.length) = f.length := ofBigEndian_bigEndian 4 _ (by omega)
  refine ⟨t, ?_⟩
  unfold Source.readFrame
  rw [ht, hnumber]
  dsimp only
  rw [if_neg (by simp), if_neg (by simp), hvalue, if_pos hlong]

/-- Where no frame stands at the front, reading one fails, or the source has ended. -/
theorem Yields.readFrame_of_no_cut (h : s.Yields o) (hc : cutFrame limit o = none) :
    (∃ t, s.readFrame limit = (.ok none, t) ∧ o = []) ∨ ∃ e t, s.readFrame limit = (.error e, t) := by
  obtain ⟨t, ht, hty⟩ := h.fill 4
  obtain ⟨u, hu, -⟩ := hty.fill (ofBigEndian (o.take 4))
  unfold Source.readFrame
  rw [ht]
  dsimp only
  split
  · rename_i h0
    refine .inl ⟨t, rfl, ?_⟩
    rw [List.length_take] at h0
    exact List.length_eq_zero_iff.1 (by omega)
  split
  · exact .inr ⟨_, t, rfl⟩
  · rename_i h0 h4
    split
    · exact .inr ⟨_, t, rfl⟩
    · rename_i hlimit
      rw [hu]
      dsimp only
      split
      · exact .inr ⟨_, u, rfl⟩
      · -- all checks are passed, so a frame was cut
        rename_i hn
        unfold cutFrame at hc
        rw [List.length_take] at h4 hn
        rw [if_pos ⟨by omega, by omega, by omega⟩] at hc
        cases hc

end Source

/-- What was written as a frame is one, and is short enough to be numbered. -/
theorem Sink.octets_of_writeFrame {s t : Sink} {parts : List Octets}
    (h : s.writeFrame parts = (.ok (), t)) :
    parts.flatten.length < 2 ^ 32 ∧ t.octets = s.octets ++ frame parts.flatten := by
  unfold Sink.writeFrame at h
  split at h
  · cases h
  · rename_i hlt
    rw [octets_of_writeAll h, flatten_frameParts]
    exact ⟨Nat.lt_of_not_le hlt, rfl⟩

/-- What was written of a frame that was refused is a front of it. -/
theorem Sink.octets_of_writeFrame_error {s t : Sink} {parts : List Octets} {e : CryptoError}
    (h : s.writeFrame parts = (.error e, t)) : ∃ o, Cut o ∧ t.octets = s.octets ++ o := by
  unfold Sink.writeFrame at h
  split at h
  · cases h
    exact ⟨[], cut_nil, (List.append_nil _).symm⟩
  · rename_i hlt
    obtain ⟨k, hk, hoct⟩ := octets_of_writeAll_error h
    rw [flatten_frameParts] at hk hoct
    exact ⟨_, ⟨parts.flatten, Nat.lt_of_not_le hlt, k, hk, rfl⟩, hoct⟩

end EndToEnd.Stream
