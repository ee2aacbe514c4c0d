/-
  What streams are sealed and opened to does not depend on how their octets arrive.

  A source may hand out its octets in pieces of any size, with interruptions in between. Two sources
  with the same octets answer each `fill` alike, so both loops take the same way on them; what is left
  of the sources has the same octets again, and the inductions are on those. What is written is then
  told by the data: the header's frame, and chunk by chunk a box with its number and its flag.

  Proved:
  * `sealChunks_alike`, `openChunks_alike`: each loop comes to the same on both sources.
  * `getElem_chunks`, `length_chunks`, `Locked.box`: which chunk is in the box with a number.
  * `told_by_octets`: the octets of a source tell what it is sealed and opened to, and how.
-/
import EndToEnd.Proofs.Stream.RoundTrip

namespace EndToEnd.Stream

variable {S : CipherSuite} {key : Block 32} {header : Octets} {index total : Nat} {s t : Source}
  {o data rest current : Octets} {recipients : List PublicKey}

/-! ## Sealing -/

/-- Chunk after chunk, the same is written or the same error is met, with the same random octets. -/
theorem sealChunks_alike (hs : s.Yields rest) (ht : t.Yields rest) (sink : Sink) (tape : Tape) :
    ∃ result s' t' sink' tape',
      sealChunks S key header index total current ⟨s, sink, tape⟩ = (result, ⟨s', sink', tape'⟩) ∧
      sealChunks S key header index total current ⟨t, sink, tape⟩ = (result, ⟨t', sink', tape'⟩) := by
  induction rest using chunks.induct generalizing index total current s t sink tape with
  | case1 =>
    obtain ⟨s', hs', -⟩ := hs.fill chunkSize
    obtain ⟨t', ht', -⟩ := ht.fill chunkSize
    rw [List.take_nil] at hs' ht'
    unfold sealChunks
    rw [hs', ht']
    dsimp only
    cases hchunk : sealChunk S key header index ([] : Octets).isEmpty current sink tape with
    | mk result others =>
      cases result with
      | error e => exact ⟨_, s', t', others.1, others.2, rfl, rfl⟩
      | ok => exact ⟨_, s', t', others.1, others.2, rfl, rfl⟩
  | case2 rest hne ih =>
    obtain ⟨s', hs', hsrest⟩ := hs.fill chunkSize
    obtain ⟨t', ht', htrest⟩ := ht.fill chunkSize
    have hnext : (rest.take chunkSize).isEmpty = false := by
      rw [isEmpty_take_chunkSize]
      simpa using hne
    unfold sealChunks
    rw [hs', ht']
    dsimp only
    rw [hnext]
    cases hchunk : sealChunk S key header index false current sink tape with
    | mk result others =>
      cases result with
      | error e => exact ⟨_, s', t', others.1, others.2, rfl, rfl⟩
      | ok => exact ih hsrest htrest others.1 others.2

/-- Without recipients nothing is read. -/
theorem encrypt_for_nobody (p : Pipe) :
    encrypt S [] p = (.error (.encryption "No recipients"), p) := rfl

theorem encrypt_alike (hs : s.Yields data) (ht : t.Yields data) (sink : Sink) (tape : Tape) :
    ∃ result s' t' sink' tape',
      encrypt S recipients ⟨s, sink, tape⟩ = (result, ⟨s', sink', tape'⟩) ∧
      encrypt S recipients ⟨t, sink, tape⟩ = (result, ⟨t', sink', tape'⟩) := by
  by_cases hne : recipients = []
  · subst hne
    exact ⟨_, s, t, sink, tape, encrypt_for_nobody _, encrypt_for_nobody _⟩
  by_cases hdata : data = []
  · subst hdata
    obtain ⟨s', hs'⟩ := encrypt_of_nothing (S := S) hne hs sink tape
    obtain ⟨t', ht'⟩ := encrypt_of_nothing (S := S) hne ht sink tape
    exact ⟨_, s', t', sink, tape, hs', ht'⟩
  obtain ⟨s', hs', hfirst, hsrest⟩ := hs.first hdata
  obtain ⟨t', ht', -, htrest⟩ := ht.first hdata
  rw [encrypt_of_first hne hfirst hs', encrypt_of_first hne hfirst ht']
  dsimp only
  cases Envelope.prepare S .stream recipients tape with
  | mk prepared tape₁ =>
    cases prepared with
    | error e => exact ⟨_, s', t', sink, tape₁, rfl, rfl⟩
    | ok prepared =>
      obtain ⟨key, header⟩ := prepared
      dsimp only
      cases sink.writeFrame [header.encode] with
      | mk written sink₁ =>
        cases written with
        | error e => exact ⟨_, s', t', sink₁, tape₁, rfl, rfl⟩
        | ok =>
          dsimp only
          obtain ⟨result, s₂, t₂, sink₂, tape₂, hs₂, ht₂⟩ :=
            @sealChunks_alike S key header.encode 0 0 s' t' _ (data.take chunkSize) hsrest htrest
              sink₁ tape₁
          rw [hs₂, ht₂]
          cases result with
          | error e => exact ⟨_, s₂, t₂, sink₂, tape₂, rfl, rfl⟩
          | ok n =>
            dsimp only
            cases sink₂.flush with
            | error e => exact ⟨_, s₂, t₂, sink₂, tape₂, rfl, rfl⟩
            | ok => exact ⟨_, s₂, t₂, sink₂, tape₂, rfl, rfl⟩

/-! ## Opening -/

/-- The same frame is read off both sources, or the same error, and what is left of them is alike. -/
theorem readFrame_alike (hs : s.Yields o) (ht : t.Yields o) (limit : Nat) :
    ∃ result s' t', s.readFrame limit = (result, s') ∧ t.readFrame limit = (result, t') ∧
      ∀ f, result = .ok (some f) → ∃ rest, rest.length < o.length ∧ s'.Yields rest ∧ t'.Yields rest := by
  obtain ⟨s₁, hs₁, hsy⟩ := hs.fill 4
  obtain ⟨t₁, ht₁, hty⟩ := ht.fill 4
  obtain ⟨s₂, hs₂, hsy₂⟩ := hsy.fill (ofBigEndian (o.take 4))
  obtain ⟨t₂, ht₂, hty₂⟩ := hty.fill (ofBigEndian (o.take 4))
  unfold Source.readFrame
  rw [hs₁, ht₁]
  dsimp only
  by_cases hnone : (o.take 4).length = 0
  · rw [if_pos hnone, if_pos hnone]
    exact ⟨_, s₁, t₁, rfl, rfl, by intro _ h; cases h⟩
  rw [if_neg hnone, if_neg hnone]
  by_cases hfour : (o.take 4).length ≠ 4
  · rw [if_pos hfour, if_pos hfour]
    exact ⟨_, s₁, t₁, rfl, rfl, by intro _ h; cases h⟩
  rw [if_neg hfour, if_neg hfour]
  by_cases hlong : limit < ofBigEndian (o.take 4)
  · rw [if_pos hlong, if_pos hlong]
    exact ⟨_, s₁, t₁, rfl, rfl, by intro _ h; cases h⟩
  rw [if_neg hlong, if_neg hlong, hs₂, ht₂]
  dsimp only
  split
  · exact ⟨_, s₂, t₂, rfl, rfl, by intro _ h; cases h⟩
  refine ⟨_, s₂, t₂, rfl, rfl, fun f _ => ⟨_, ?_, hsy₂, hty₂⟩⟩
  rw [List.length_take] at hnone
  rw [List.length_drop, List.length_drop]
  omega

/-- Chunk after chunk, the same is written or the same error is met. The induction is on the number of
octets that the sources still have. -/
theorem openChunks_alike (hs : s.Yields o) (ht : t.Yields o) (sink : Sink) :
    ∃ result s' t' sink', openChunks S key header index total s sink = (result, s', sink') ∧
      openChunks S key header index total t sink = (result, t', sink') ∧
      ∀ n, result = .ok n → ∃ rest, s'.Yields rest ∧ t'.Yields rest := by
  induction hn : o.length using Nat.strongRecOn generalizing o s t index total sink with
  | ind n ih =>
    subst hn
    obtain ⟨frame?, s₁, t₁, hs₁, ht₁, hrest⟩ := readFrame_alike hs ht maxChunkFrame
    rw [openChunks, openChunks, hs₁, ht₁]
    cases frame? with
    | error e => exact ⟨_, s₁, t₁, sink, rfl, rfl, by intro _ h; cases h⟩
    | ok frame? =>
      cases frame? with
      | none => exact ⟨_, s₁, t₁, sink, rfl, rfl, by intro _ h; cases h⟩
      | some body =>
        obtain ⟨rest, hshorter, hsrest, htrest⟩ := hrest body rfl
        dsimp only
        cases openChunk S key header index body with
        | error e => exact ⟨_, s₁, t₁, sink, rfl, rfl, by intro _ h; cases h⟩
        | ok chunk =>
          obtain ⟨isLast, data⟩ := chunk
          dsimp only
          cases sink.write data with
          | mk written sink₁ =>
            cases written with
            | error e => exact ⟨_, s₁, t₁, sink₁, rfl, rfl, by intro _ h; cases h⟩
            | ok =>
              cases isLast with
              | true => exact ⟨_, s₁, t₁, sink₁, rfl, rfl, fun _ _ => ⟨rest, hsrest, htrest⟩⟩
              | false => exact ih rest.length hshorter hsrest htrest sink₁ rfl

theorem decrypt_alike (hs : s.Yields o) (ht : t.Yields o) (reader : KeyPair) (sink : Sink) :
    decrypt S reader s sink = decrypt S reader t sink := by
  obtain ⟨frame?, s₁, t₁, hs₁, ht₁, hrest⟩ := readFrame_alike hs ht maxHeader
  unfold decrypt
  rw [hs₁, ht₁]
  cases frame? with
  | error e => rfl
  | ok frame? =>
    cases frame? with
    | none => rfl
    | some header =>
      obtain ⟨rest, -, hsrest, htrest⟩ := hrest header rfl
      dsimp only
      cases (decodeHeader header).bind fun h => h.contentKey S reader with
      | error e => rfl
      | ok key =>
        obtain ⟨result, s₂, t₂, sink', hs₂, ht₂, hend⟩ :=
          @openChunks_alike S key header 0 0 s₁ t₁ rest hsrest htrest sink
        dsimp only
        rw [hs₂, ht₂]
        cases result with
        | error e => rfl
        | ok n =>
          obtain ⟨trailing, hstrailing, httrailing⟩ := hend n rfl
          obtain ⟨s₃, hs₃, -⟩ := hstrailing.fill 1
          obtain ⟨t₃, ht₃, -⟩ := httrailing.fill 1
          dsimp only
          rw [hs₃, ht₃]

/-! ## The layout -/

/-- The chunk with a number starts after as many full chunks. -/
theorem getElem_chunks {i : Nat} (hi : i < (chunks data).length) :
    (chunks data)[i] = (data.drop (i * chunkSize)).take chunkSize := by
  induction i generalizing data with
  | zero =>
    have hne : data ≠ [] := by
      rintro rfl
      simp at hi
    simp [chunks_of_ne hne]
  | succ i ih =>
    have hne : data ≠ [] := by
      rintro rfl
      simp at hi
    rw [chunks_of_ne hne, List.length_cons] at hi
    simp only [chunks_of_ne hne, List.getElem_cons_succ]
    rw [ih (Nat.lt_of_succ_lt_succ hi), List.drop_drop, Nat.succ_mul, Nat.add_comm chunkSize]

/-- There are as many chunks as it takes full ones. -/
theorem length_chunks (data : Octets) :
    (chunks data).length = (data.length + (chunkSize - 1)) / chunkSize := by
  have hsize : chunkSize = 65536 := by decide
  induction data using chunks.induct with
  | case1 =>
    rw [chunks_nil, hsize]
    rfl
  | case2 data hne ih =>
    have hlen := List.length_pos_iff.2 hne
    rw [chunks_of_ne hne, List.length_cons, ih, List.length_drop, hsize]
    omega

/-- All chunks are full but the last one, which has what is left. -/
theorem length_chunk {i : Nat} (hi : i < (chunks data).length) :
    (i + 1 < (chunks data).length → (chunks data)[i].length = chunkSize) ∧
      (i + 1 = (chunks data).length → (chunks data)[i] = data.drop (i * chunkSize) ∧
        1 ≤ (chunks data)[i].length ∧ (chunks data)[i].length ≤ chunkSize) := by
  have hsize : chunkSize = 65536 := by decide
  have hcount := length_chunks data
  rw [hsize] at hcount
  rw [getElem_chunks hi, List.length_take, List.length_drop, hsize]
  refine ⟨fun hmore => by omega, fun hlast => ⟨?_, by omega, by omega⟩⟩
  refine List.take_of_length_le ?_
  rw [List.length_drop]
  omega

/-- The box with a number holds the chunk with that number. -/
theorem Locked.box {cs : List Octets} {bs : List Box} (h : Locked S key header index cs bs) {i : Nat}
    (hc : i < cs.length) (hb : i < bs.length) :
    bs[i].context = chunkContext header (index + i) (decide (i + 1 = bs.length)) ∧
      S.lock key bs[i].nonce bs[i].context cs[i] = some bs[i].sealed := by
  induction h generalizing i with
  | nil => cases hb
  | @cons index c cs b bs hcontext hlocked hothers ih =>
    cases i with
    | zero =>
      refine ⟨?_, hlocked⟩
      have hlast : cs.isEmpty = decide (0 + 1 = (b :: bs).length) := by
        rw [← hothers.isEmpty_eq]
        cases bs <;> simp
      rw [← hlast]
      exact hcontext
    | succ i =>
      have hbox := ih (Nat.lt_of_succ_lt_succ hc) (Nat.lt_of_succ_lt_succ hb)
      simp only [List.getElem_cons_succ, List.length_cons, Nat.add_right_cancel_iff]
      rwa [← Nat.add_assoc, Nat.add_right_comm]

/-- The frames of boxes, one after the other. -/
theorem frames_eq (bs : List Box) :
    frames bs = (bs.mapIdx fun i b => frame (b.body (decide (i + 1 = bs.length)))).flatten := by
  induction bs with
  | nil => rfl
  | cons b bs ih =>
    have hlast : bs.isEmpty = decide (0 + 1 = (b :: bs).length) := by
      cases bs <;> simp
    rw [frames, ih, List.mapIdx_cons, List.flatten_cons, ← hlast]
    simp only [List.length_cons, Nat.add_right_cancel_iff]

/-- The octets are a stream of the data: a header's frame, and behind it one frame for each full chunk
of the data and one for what is left. The frame with a number holds the chunk that starts after as many
full ones, locked together with the header, the number and a flag that is 1 for the last frame only. -/
def LaidOut (S : CipherSuite) (recipients : List PublicKey) (data written : Octets) : Prop :=
  ∃ s : Sealed S recipients data,
    written = frame s.header.encode ++
      (s.boxes.mapIdx fun i b => frame (b.body (decide (i + 1 = s.boxes.length)))).flatten ∧
    s.boxes.length = (data.length + (chunkSize - 1)) / chunkSize ∧
    ∀ (i : Nat) (hi : i < s.boxes.length),
      let chunk := (data.drop (i * chunkSize)).take chunkSize
      s.boxes[i].context =
        s.header.encode ++ (bigEndian 8 i ++ [flag (decide (i + 1 = s.boxes.length))]) ∧
      S.lock s.key s.boxes[i].nonce s.boxes[i].context chunk = some s.boxes[i].sealed ∧
      (i + 1 < s.boxes.length → chunk.length = chunkSize) ∧
      (i + 1 = s.boxes.length → chunk = data.drop (i * chunkSize) ∧ 1 ≤ chunk.length)

theorem Sealed.laidOut (s : Sealed S recipients data) : LaidOut S recipients data s.octets := by
  have hlen := s.locked.length_eq
  refine ⟨s, ?_, ?_, fun i hi => ?_⟩
  · rw [Sealed.octets, frames_eq]
  · rw [hlen, length_chunks]
  · have hc : i < (chunks data).length := hlen ▸ hi
    obtain ⟨hcontext, hlock⟩ := s.locked.box hc hi
    obtain ⟨hfull, hrest⟩ := length_chunk hc
    rw [getElem_chunks hc] at hlock hfull hrest
    rw [Nat.zero_add] at hcontext
    rw [hlen] at hcontext ⊢
    exact ⟨hcontext, hlock, hfull, fun hlast => ⟨(hrest hlast).1, (hrest hlast).2.1⟩⟩

/-! ## How sealing ends -/

/-- A header whose frame cannot be numbered is not written. -/
theorem encrypt_for_too_many (ht : S.Tags) {limit : Nat} (hl : S.LocksUpTo limit)
    (hlimit : 32 ≤ limit) (hne : recipients ≠ [])
    (hmany : 2 ^ 32 ≤ 47 + 76 * ((recipients.map (·.keyId S)).eraseDups).length)
    (hdata : data ≠ []) (hs : s.Yields data) (sink : Sink) (tape : Tape) :
    ∃ left tape', encrypt S recipients ⟨s, sink, tape⟩ =
      (.error (.encryption "Frame too large"), ⟨left, sink, tape'⟩) := by
  obtain ⟨left, hfill, hfirst, -⟩ := hs.first hdata
  obtain ⟨key, header, tape', hprepare⟩ := Envelope.prepare_runs hl hlimit .stream recipients tape
  obtain ⟨secret, hp⟩ := Envelope.prepare_ok hprepare
  have hlength := hp.length_encode ht
  rw [Envelope.recipientIds_of_prepare hprepare] at hlength
  have hlong : 2 ^ 32 ≤ [header.encode].flatten.length := by
    simp only [List.flatten_cons, List.flatten_nil, List.append_nil, hlength]
    exact hmany
  refine ⟨left, tape', ?_⟩
  rw [encrypt_of_first hne hfirst hfill]
  dsimp only
  rw [hprepare]
  dsimp only
  unfold Sink.writeFrame
  rw [if_pos hlong]

/-- What a source yields tells how sealing it ends and what is written: nothing where there are no
recipients, no data, or recipients beyond what a header's frame can count, and else the layout of the
data. What opening it ends in and writes is told by its octets as well. The cipher locks whatever has
up to `limit` octets. -/
theorem told_by_octets (ht : S.Tags) {limit : Nat} (hl : S.LocksUpTo limit)
    (hlimit : 2 ^ 33 ≤ limit) :
    (∀ (recipients : List PublicKey) (data : Octets) (sink : Sink) (tape : Tape),
      let readers := ((recipients.map (·.keyId S)).eraseDups).length
      ∃ result sink' tape',
        (∀ source : Source, source.Yields data →
          ∃ left, encrypt S recipients ⟨source, sink, tape⟩ = (result, ⟨left, sink', tape'⟩)) ∧
        (recipients = [] →
          result = .error (.encryption "No recipients") ∧ sink' = sink ∧ tape' = tape) ∧
        (recipients ≠ [] → data = [] → result = .ok 0 ∧ sink' = sink ∧ tape' = tape) ∧
        (recipients ≠ [] → data ≠ [] → 2 ^ 32 ≤ 47 + 76 * readers →
          result = .error (.encryption "Frame too large") ∧ sink' = sink) ∧
        (recipients ≠ [] → data ≠ [] → 47 + 76 * readers < 2 ^ 32 → sink.Takes →
          result = .ok data.length ∧ ∃ written, sink'.octets = sink.octets ++ written ∧
            LaidOut S recipients data written)) ∧
    ∀ (reader : KeyPair) (o : Octets) (sink : Sink), ∃ result sink',
      ∀ source : Source, source.Yields o → decrypt S reader source sink = (result, sink') := by
  refine ⟨fun recipients data sink tape => ?_, fun reader o sink => ?_⟩
  · -- any source with the data tells; it is taken in one piece
    have hy := Source.yields_ofOctets data
    have hsize : chunkSize = 65536 := by decide
    cases hrun : encrypt S recipients ⟨.ofOctets data, sink, tape⟩ with
    | mk result p =>
      refine ⟨result, p.sink, p.tape, fun source hsource => ?_, ?_, ?_, ?_, ?_⟩
      · obtain ⟨result', left, whole, sink', tape', hsealed, hsame⟩ :=
          @encrypt_alike S source (.ofOctets data) data recipients hsource hy sink tape
        rw [hrun] at hsame
        cases hsame
        exact ⟨left, hsealed⟩
      · rintro rfl
        rw [encrypt_for_nobody] at hrun
        cases hrun
        exact ⟨rfl, rfl, rfl⟩
      · rintro hne rfl
        obtain ⟨left, hnothing⟩ := encrypt_of_nothing (S := S) hne hy sink tape
        rw [hrun] at hnothing
        cases hnothing
        exact ⟨rfl, rfl, rfl⟩
      · intro hne hdata hmany
        obtain ⟨left, tape', hrefused⟩ :=
          encrypt_for_too_many ht hl (by omega) hne hmany hdata hy sink tape
        rw [hrun] at hrefused
        cases hrefused
        exact ⟨rfl, rfl⟩
      · intro hne hdata hfew hs
        obtain ⟨n, p', hok⟩ := encrypt_runs ht hl hne (by omega) hfew (by omega) hy hs tape
        rw [hrun] at hok
        cases hok
        obtain ⟨stream, hoct, hn, -, -⟩ := encrypt_ok hdata hy hrun
        exact ⟨congrArg _ hn, stream.octets, hoct, stream.laidOut⟩
  · cases hrun : decrypt S reader (.ofOctets o) sink with
    | mk result sink' =>
      refine ⟨result, sink', fun source hsource => ?_⟩
      rw [← hrun, decrypt_alike hsource (Source.yields_ofOctets o) reader sink]

/-- Three octets that come in two pieces, with interruptions, are sealed as they are in one piece. -/
theorem told_by_three_octets :
    let pieces : Source := ⟨[.interruption, .piece 1 [2], .interruption, .piece 3 []]⟩
    let recipients := [(⟨.zero 32, .littleEndian 32 7⟩ : KeyPair).publicKey .standard]
    ∃ sink tape,
      (∀ source ∈ [pieces, .ofOctets [1, 2, 3]], ∃ left,
        encrypt .standard recipients ⟨source, .unlimited, .ofSeed 1⟩ = (.ok 3, ⟨left, sink, tape⟩)) ∧
      LaidOut .standard recipients [1, 2, 3] sink.octets := by
  intro pieces recipients
  obtain ⟨hsealed, -⟩ := told_by_octets CipherSuite.standard_tags CipherSuite.standard_locksUpTo
    (by decide : 2 ^ 33 ≤ Gcm.maxLength)
  obtain ⟨result, sink, tape, hsame, -, -, -, hruns⟩ :=
    hsealed recipients [1, 2, 3] .unlimited (.ofSeed 1)
  have hone : ((recipients.map (·.keyId .standard)).eraseDups).length ≤ 1 :=
    Envelope.length_eraseDups_le _
  obtain ⟨hresult, written, hoct, hlaid⟩ :=
    hruns (List.cons_ne_nil _ _) (List.cons_ne_nil _ _) (by omega) Sink.takes_unlimited
  have hpieces : pieces.Yields [1, 2, 3] := ⟨rfl, by simp [pieces], by simp [pieces]⟩
  rw [Sink.octets_unlimited, List.nil_append] at hoct
  refine ⟨sink, tape, fun source hsource => ?_, hoct ▸ hlaid⟩
  rw [show Except.ok 3 = result from hresult.symm]
  refine hsame source ?_
  rcases List.mem_cons.1 hsource with rfl | hwhole
  · exact hpieces
  · rw [List.mem_singleton.1 hwhole]
    exact Source.yields_ofOctets _

end EndToEnd.Stream
