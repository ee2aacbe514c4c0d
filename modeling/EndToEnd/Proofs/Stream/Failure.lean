/-
  A stream that was not sealed to its end opens for nobody.

  Sealing can fail at any point: the source breaks, or the sink refuses a part and keeps what it took
  of it. The frame that is marked as the last is written last, so what is left behind are whole frames
  without the mark, and the front of one more. A reader goes on behind each such frame and runs into the
  end, whatever the chunks open to. Nothing is asked of the cipher but the lengths of what it locks and
  opens: it need not refuse what others have locked, and the reader may have any key.

  Proved:
  * `sealChunks_error`: what a failed loop over the chunks leaves is `Unfinished`, by the cases of the
    loop.
  * `openChunks_of_unfinished`: reading that ends in an error, by induction on the frames.
  * `refused_of_failed`: the same for whole streams, with the octets that are written on the way.
-/
import EndToEnd.Proofs.Stream.Integrity

namespace EndToEnd.Stream

variable {S : CipherSuite} {key : Block 32} {header : Octets} {index total : Nat} {p p' : Pipe}
  {e : CryptoError} {recipients : List PublicKey}

/-! ## Chunks -/

/-- Frames of chunks that are not marked as the last, which hold `n` octets of data, and the front of
another frame. -/
inductive Unfinished : (n : Nat) → Octets → Prop where
  | cut {o : Octets} (front : Cut o) : Unfinished 0 o
  | chunk {b : Box} {m n : Nat} {o : Octets} (numbered : (b.body false).length < 2 ^ 32)
      (holds : b.sealed.length = m + 16) (others : Unfinished n o) :
      Unfinished (m + n) (frame (b.body false) ++ o)

theorem sealChunk_error {isLast : Bool} {data : Octets} {sink sink' : Sink} {tape tape' : Tape}
    (h : sealChunk S key header index isLast data sink tape = (.error e, sink', tape')) :
    ∃ o, Cut o ∧ sink'.octets = sink.octets ++ o := by
  unfold sealChunk at h
  split at h
  · cases h
    exact ⟨[], cut_nil, (List.append_nil _).symm⟩
  · rename_i nonce sealed t hl
    cases hw : sink.writeFrame [[flag isLast], nonce.octets, sealed] with | mk result sink₁ =>
    rw [hw] at h
    cases h
    exact Sink.octets_of_writeFrame_error hw

/-- Where the loop over the chunks fails, the frames that are marked as the last have not been written,
and the others hold no more than was read before. -/
theorem sealChunks_error (ht : S.Tags) {current : Octets}
    (h : sealChunks S key header index total current p = (.error e, p')) :
    ∃ n o, Unfinished n o ∧ p'.sink.octets = p.sink.octets ++ o ∧
      n + Source.size p'.source.events ≤ current.length + Source.size p.source.events := by
  induction index, total, current, p using sealChunks.induct S key header with
  | case1 index total current p reason source hfill =>
    -- the source breaks, and the chunk in hand is not written
    unfold sealChunks at h
    rw [hfill] at h
    cases h
    have hsize := Source.fill_size_le hfill
    exact ⟨0, [], .cut cut_nil, (List.append_nil _).symm, by dsimp only; omega⟩
  | case2 index total current p next source hfill reason sink tape hchunk =>
    -- the frame of this chunk is not written whole
    unfold sealChunks at h
    rw [hfill] at h
    dsimp only at h
    rw [hchunk] at h
    cases h
    obtain ⟨o, ho, hoct⟩ := sealChunk_error hchunk
    have hsize := Source.fill_size_le hfill
    exact ⟨0, o, .cut ho, hoct, by dsimp only; omega⟩
  | case3 index total current p next source hfill sink tape hchunk hlast =>
    unfold sealChunks at h
    rw [hfill] at h
    dsimp only at h
    rw [hchunk] at h
    dsimp only at h
    rw [dif_pos hlast] at h
    cases h
  | case4 index total current p next source hfill sink tape hchunk hmore ih =>
    unfold sealChunks at h
    rw [hfill] at h
    dsimp only at h
    rw [hchunk] at h
    dsimp only at h
    rw [dif_neg hmore] at h
    obtain ⟨n, o, hu, hoct, hle⟩ := ih h
    obtain ⟨b, -, hlock, hframe, hlt⟩ := sealChunk_ok hchunk
    rw [Bool.eq_false_iff.2 hmore] at hframe hlt
    have hsize := Source.fill_size hfill
    refine ⟨current.length + n, _, .chunk hlt (ht _ _ _ _ _ hlock) hu, ?_, ?_⟩
    · rw [hoct, hframe, List.append_assoc]
    · dsimp only at hle
      omega

theorem Box.eq_of_body_eq {b c : Box} {f g : Bool} (h : b.body f = c.body g) :
    f = g ∧ b.sealed = c.sealed := by
  obtain ⟨hflag, hrest⟩ := List.cons.inj h
  have hread := congrArg readFlag hflag
  rw [readFlag_flag, readFlag_flag] at hread
  exact ⟨Except.ok.inj hread, (List.append_inj hrest (by simp)).2⟩

/-- What opens at the front of a frame is marked as the frame is, has its length, and is followed by
what follows the frame. -/
theorem eq_of_nextChunk_frame (htr : S.Trims) {b t : Box} {marked isLast : Bool} {data o rest : Octets}
    (hlt : (b.body marked).length < 2 ^ 32)
    (hn : nextChunk S key header index (frame (b.body marked) ++ o) = some (isLast, t, data, rest)) :
    isLast = marked ∧ b.sealed.length = data.length + 16 ∧ rest = o := by
  obtain ⟨body, hcut, hbox, hopen⟩ := nextChunk_eq_some.1 hn
  obtain ⟨-, hshort, heq⟩ := cutFrame_eq_some.1 hcut
  -- both frames are cut where no limit is set
  have hframe : cutFrame (2 ^ 32) _ = _ := cutFrame_frame o (Nat.le_of_lt hlt) hlt
  rw [heq, cutFrame_frame rest (Nat.le_of_lt hshort) hshort] at hframe
  obtain ⟨rfl, rfl⟩ := Prod.mk.inj (Option.some.inj hframe)
  obtain ⟨hbody, -⟩ := boxOf?_eq_some.1 hbox
  obtain ⟨rfl, hsealed⟩ := Box.eq_of_body_eq hbody
  exact ⟨rfl, hsealed ▸ htr _ _ _ _ _ hopen, rfl⟩

/-- Reading chunk after chunk does not come to an end, and writes no more than they hold. -/
theorem openChunks_of_unfinished (htr : S.Trims) {n : Nat} {o : Octets} (hu : Unfinished n o)
    {source : Source} (hy : source.Yields o) (key : Block 32) (header : Octets) (index total : Nat)
    (sink : Sink) :
    ∃ e source' sink' written,
      openChunks S key header index total source sink = (.error e, source', sink') ∧
      sink'.octets = sink.octets ++ written ∧ written.length ≤ n := by
  induction hu generalizing index total source sink with
  | @cut o front =>
    have hnone : nextChunk S key header index o = none := by
      unfold nextChunk
      rw [front.cutFrame_eq_none]
      rfl
    obtain ⟨e, source', hstop⟩ := openChunks_of_no_next hy hnone
    exact ⟨e, source', sink, [], hstop total sink, (List.append_nil _).symm, Nat.le_refl _⟩
  | @chunk b m n o numbered holds others ih =>
    cases hn : nextChunk S key header index (frame (b.body false) ++ o) with
    | none =>
      obtain ⟨e, source', hstop⟩ := openChunks_of_no_next hy hn
      exact ⟨e, source', sink, [], hstop total sink, (List.append_nil _).symm, Nat.zero_le _⟩
    | some next =>
      obtain ⟨isLast, t, data, rest⟩ := next
      obtain ⟨rfl, hlen, rfl⟩ := eq_of_nextChunk_frame htr numbered hn
      obtain ⟨source', hrest, hrun⟩ := openChunks_eq_of_next hy hn
      rw [hrun]
      cases hw : sink.write data with
      | mk result sink₁ =>
        cases result with
        | error e =>
          obtain ⟨k, hk, hoct⟩ := Sink.octets_of_write_error hw
          refine ⟨e, source', sink₁, data.take k, rfl, hoct, ?_⟩
          rw [List.length_take]
          omega
        | ok =>
          obtain ⟨e, source₂, sink₂, written, hrun₂, hoct, hle⟩ :=
            ih hrest (index + 1) (total + data.length) sink₁
          refine ⟨e, source₂, sink₂, data ++ written, hrun₂, ?_, ?_⟩
          · rw [hoct, Sink.octets_of_write hw, List.append_assoc]
          · rw [List.length_append]
            omega

/-! ## Whole streams -/

/-- The front of a header's frame, or the frame with unfinished chunks behind it. -/
inductive Stump : (n : Nat) → Octets → Prop where
  | header {o : Octets} (front : Cut o) : Stump 0 o
  | chunks {header : Octets} {n : Nat} {o : Octets} (numbered : header.length < 2 ^ 32)
      (others : Unfinished n o) : Stump n (frame header ++ o)

/-- Sealing comes to its end but for flushing the sink: there is data, and the header and all chunks
are written. -/
def ReachesFlush (S : CipherSuite) (recipients : List PublicKey) (p : Pipe) : Prop :=
  ∃ first source key header tape sink n p',
    recipients ≠ [] ∧ first ≠ [] ∧ p.source.fill chunkSize = (.ok first, source) ∧
    Envelope.prepare S .stream recipients p.tape = (.ok (key, header), tape) ∧
    p.sink.writeFrame [header.encode] = (.ok (), sink) ∧
    sealChunks S key header.encode 0 0 first ⟨source, sink, tape⟩ = (.ok n, p')

/-- From there on the sink alone says how sealing ends. -/
theorem ReachesFlush.encrypt_eq (h : ReachesFlush S recipients p) :
    ∃ n p', encrypt S recipients p = (p'.sink.flush.map fun _ => n, p') := by
  obtain ⟨first, source, key, header, tape, sink, n, p', hne, hfirst, hfill, hprepare, hwrite, hrun⟩ := h
  refine ⟨n, p', ?_⟩
  rw [encrypt_of_first hne hfirst hfill, hprepare]
  dsimp only
  rw [hwrite]
  dsimp only
  rw [hrun]
  dsimp only
  cases p'.sink.flush <;> rfl

/-- So it is not reached where sealing fails although the sink can be flushed. -/
theorem not_reachesFlush (h : encrypt S recipients p = (.error e, p')) (hf : p'.sink.flush = .ok ()) :
    ¬ ReachesFlush S recipients p := by
  intro hreach
  obtain ⟨n, p₁, heq⟩ := hreach.encrypt_eq
  rw [h] at heq
  obtain ⟨herror, rfl⟩ := Prod.mk.inj heq
  rw [hf] at herror
  cases herror

/-- What sealing that fails before leaves behind, with no more data in it than was read. -/
theorem encrypt_error (ht : S.Tags) (h : encrypt S recipients p = (.error e, p'))
    (hflush : ¬ ReachesFlush S recipients p) :
    ∃ n o, Stump n o ∧ p'.sink.octets = p.sink.octets ++ o ∧
      n + Source.size p'.source.events ≤ Source.size p.source.events := by
  have hnothing : Stump 0 [] := .header cut_nil
  unfold encrypt at h
  split at h
  · cases h
    exact ⟨0, [], hnothing, (List.append_nil _).symm, by omega⟩
  rename_i hne
  split at h
  · rename_i hfill
    cases h
    have hsize := Source.fill_size_le hfill
    exact ⟨0, [], hnothing, (List.append_nil _).symm, by dsimp only; omega⟩
  rename_i first source hfill
  have hsize := Source.fill_size hfill
  split at h
  · cases h
  rename_i hfirst
  split at h
  · cases h
    exact ⟨0, [], hnothing, (List.append_nil _).symm, by dsimp only; omega⟩
  rename_i key header tape hprepare
  split at h
  · rename_i hwrite
    cases h
    obtain ⟨o, ho, hoct⟩ := Sink.octets_of_writeFrame_error hwrite
    exact ⟨0, o, .header ho, hoct, by dsimp only; omega⟩
  rename_i sink hwrite
  split at h
  · rename_i hrun
    cases h
    obtain ⟨n, o, hu, hoct, hle⟩ := sealChunks_error ht hrun
    obtain ⟨hlt, hheader⟩ := Sink.octets_of_writeFrame hwrite
    refine ⟨n, _, .chunks hlt hu, ?_, ?_⟩
    · rw [hoct, hheader, List.append_assoc]
    · dsimp only at hle
      omega
  · rename_i n p₁ hrun
    refine absurd ⟨first, source, key, header, tape, sink, n, p₁, ?_, ?_, hfill, hprepare, hwrite, hrun⟩ hflush
    · simpa using hne
    · simpa using hfirst

/-- A stump is refused, if there is anything of it, and what is written before holds no more data. -/
theorem decrypt_of_stump (htr : S.Trims) {n : Nat} {o : Octets} (hstump : Stump n o) {given : Source}
    (hy : given.Yields o) (reader : KeyPair) (target : Sink) :
    ∃ result target' written, decrypt S reader given target = (result, target') ∧
      (o ≠ [] → ∃ e, result = .error e) ∧ target'.octets = target.octets ++ written ∧
      written.length ≤ n := by
  have hnothing : target.octets = target.octets ++ [] := (List.append_nil _).symm
  unfold decrypt
  cases hstump with
  | header front =>
    have hnone : cutFrame maxHeader _ = none := front.cutFrame_eq_none
    rcases hy.readFrame_of_no_cut hnone with ⟨given', hread, hnil⟩ | ⟨e, given', hread⟩
    · rw [hread]
      exact ⟨_, target, [], rfl, fun hne => absurd hnil hne, hnothing, Nat.le_refl _⟩
    · rw [hread]
      exact ⟨_, target, [], rfl, fun _ => ⟨e, rfl⟩, hnothing, Nat.le_refl _⟩
  | @chunks header n o numbered others =>
    by_cases hlimit : maxHeader < header.length
    · obtain ⟨given', hread⟩ := hy.readFrame_of_long hlimit numbered
      rw [hread]
      exact ⟨_, target, [], rfl, fun _ => ⟨_, rfl⟩, hnothing, Nat.zero_le _⟩
    · obtain ⟨given', hread, hrest⟩ :=
        hy.readFrame_of_cut (cutFrame_frame o (Nat.le_of_not_lt hlimit) numbered)
      rw [hread]
      dsimp only
      cases (decodeHeader header).bind fun h => h.contentKey S reader with
      | error e => exact ⟨_, target, [], rfl, fun _ => ⟨e, rfl⟩, hnothing, Nat.zero_le _⟩
      | ok key =>
        obtain ⟨e, source', target', written, hrun, hoct, hle⟩ :=
          openChunks_of_unfinished htr others hrest key header 0 0 target
        dsimp only
        rw [hrun]
        exact ⟨_, target', written, rfl, fun _ => ⟨e, rfl⟩, hoct, hle⟩

/-- Let sealing end in an error before it flushes the sink. What the sink accepted is nothing, or
octets that end in an error for whoever reads them, with any key, from any source that yields them and
into any sink. What is written on the way is never longer than the data that sealing had read. -/
theorem refused_of_failed (ht : S.Tags) (htr : S.Trims) {source : Source} {sink : Sink} {tape : Tape}
    (h : encrypt S recipients ⟨source, sink, tape⟩ = (.error e, p))
    (hflush : ¬ ReachesFlush S recipients ⟨source, sink, tape⟩) :
    ∃ accepted, p.sink.octets = sink.octets ++ accepted ∧
      ∀ (reader : KeyPair) (given : Source) (target : Sink), given.Yields accepted →
        ∃ result target' written, decrypt S reader given target = (result, target') ∧
          (accepted ≠ [] → ∃ e, result = .error e) ∧
          target'.octets = target.octets ++ written ∧
          written.length + Source.size p.source.events ≤ Source.size source.events := by
  obtain ⟨n, accepted, hstump, hoct, hread⟩ := encrypt_error ht h hflush
  refine ⟨accepted, hoct, fun reader given target hgiven => ?_⟩
  obtain ⟨result, target', written, hrun, herror, hwritten, hle⟩ :=
    decrypt_of_stump htr hstump hgiven reader target
  refine ⟨result, target', written, hrun, herror, hwritten, ?_⟩
  dsimp only at hread
  omega

/-- A source hands out five octets and breaks. The first three have been written by then. A recipient
meets an error, and opens no more than the five before it. -/
theorem refused_of_broken_source :
    let reader : KeyPair := ⟨.zero 32, .littleEndian 32 7⟩
    let source : Source := ⟨[.piece 1 [2, 3], .pause, .piece 4 [5], .pause, .failure "broken"]⟩
    let run := encrypt .transparent [reader.publicKey .transparent] ⟨source, .unlimited, .ofSeed 1⟩
    run.1 = .error (.stream "broken") ∧ run.2.sink.octets ≠ [] ∧
      ∃ e target, decrypt .transparent reader (.ofOctets run.2.sink.octets) .unlimited =
        (.error e, target) ∧ target.octets.length ≤ 5 := by
  intro reader source run
  have herror : run.1 = .error (.stream "broken") := by decide +kernel
  have hflush : run.2.sink.flush = .ok () := by decide +kernel
  have hsome : run.2.sink.octets ≠ [] := by decide +kernel
  have hrun : run = (.error (.stream "broken"), run.2) := by rw [← herror]
  obtain ⟨accepted, hoct, hrefused⟩ := refused_of_failed CipherSuite.transparent_tags
    CipherSuite.transparent_trims hrun (not_reachesFlush hrun hflush)
  rw [Sink.octets_unlimited, List.nil_append] at hoct
  obtain ⟨result, target, written, hdecrypt, hfailed, hwritten, hle⟩ :=
    hrefused reader (.ofOctets accepted) .unlimited (Source.yields_ofOctets accepted)
  obtain ⟨e, rfl⟩ := hfailed (hoct ▸ hsome)
  rw [Sink.octets_unlimited, List.nil_append] at hwritten
  refine ⟨herror, hsome, e, target, by rw [hoct, hdecrypt], ?_⟩
  have hsize : Source.size source.events = 5 := rfl
  rw [hwritten]
  omega

end EndToEnd.Stream
