/-
  Which sealed streams can be read.

  The chunks of a stream always fit what is read: a frame of a full chunk is exactly as long as the
  longest that is accepted. Its header need not. It grows by a slot with each recipient, the reader
  stops at `maxHeader`, and the writer does not look at that limit.

  Proved:
  * `openChunks_frames`: the frames of any boxes are read to their end, by induction on the boxes.
  * `decrypt_iff_few`: a stream that was sealed is read whole by each of its recipients where they
    are at most `maxReaders`, and by none of them where they are more.
  * `unreadable_stream`: a stream for one recipient more, which its recipients cannot read.
-/
import EndToEnd.Proofs.Envelope.Size
import EndToEnd.Proofs.Stream.Integrity

namespace EndToEnd.Stream

variable {S : CipherSuite} {key : Block 32} {header : Octets} {index total : Nat}
  {source : Source} {sink : Sink} {recipients : List PublicKey} {data : Octets}

/-- Where the boxes stand whole, all their chunks are written, however many there are. -/
theorem openChunks_frames (ho : S.Opens) (ht : S.Tags) {cs : List Octets} {bs : List Box}
    (hl : Locked S key header index cs bs) (hne : bs ≠ []) (hfit : ∀ c ∈ cs, c.length ≤ chunkSize)
    {rest : Octets} (hy : source.Yields (frames bs ++ rest)) (hs : sink.Takes) :
    ∃ source' sink', source'.Yields rest ∧ sink'.Takes ∧
      sink'.octets = sink.octets ++ cs.flatten ∧
      openChunks S key header index total source sink =
        (.ok (total + cs.flatten.length), source', sink') := by
  induction hl generalizing source sink total with
  | nil => exact absurd rfl hne
  | @cons index c cs b bs hcontext hlocked hothers ih =>
    have hl : Locked S key header index (c :: cs) (b :: bs) := .cons hcontext hlocked hothers
    have hn := nextChunk_of_locked ho ht hl (hfit c List.mem_cons_self) rest
    obtain ⟨source', sink', hrest, hs', hoct, hrun⟩ := openChunks_of_next hy hs hn
    rw [hrun]
    by_cases hlast : bs = []
    · subst hlast
      cases hothers
      refine ⟨source', sink', by simpa [frames] using hrest, hs', by simpa using hoct, by simp⟩
    · have hmore : bs.isEmpty = false := by simpa using hlast
      have hfit' : ∀ d ∈ cs, d.length ≤ chunkSize := fun d hd => hfit d (List.mem_cons_of_mem _ hd)
      obtain ⟨source₂, sink₂, hrest₂, hs₂, hoct₂, hrun₂⟩ := ih hlast hfit' hrest hs'
      refine ⟨source₂, sink₂, hrest₂, hs₂, ?_, ?_⟩
      · rw [hoct₂, hoct, List.flatten_cons, List.append_assoc]
      · rw [hmore, if_neg Bool.false_ne_true, hrun₂, List.flatten_cons, List.length_append,
          Nat.add_assoc]

theorem flatten_chunks (data : Octets) : (chunks data).flatten = data := by
  have hlen : data.length ≤ data.length * chunkSize := Nat.le_mul_of_pos_right _ (by decide)
  have := flatten_take_chunks data data.length
  rwa [List.take_of_length_le (length_chunks_le hlen), List.take_of_length_le hlen] at this

theorem Sealed.boxes_ne_nil (s : Sealed S recipients data) (hne : data ≠ []) : s.boxes ≠ [] := by
  have hlen := s.locked.length_eq
  rw [chunks_of_ne hne] at hlen
  intro hnil
  rw [hnil] at hlen
  cases hlen

/-- A stream with a short header is read whole. -/
theorem Sealed.decrypt_of_short (s : Sealed S recipients data) (ho : S.Opens) (ht : S.Tags)
    {recipient : KeyPair} (hkey : s.header.contentKey S recipient = .ok s.key) (hne : data ≠ [])
    (hlimit : s.header.encode.length ≤ maxHeader) (hy : source.Yields s.octets) (hs : sink.Takes) :
    ∃ sink', decrypt S recipient source sink = (.ok data.length, sink') ∧
      sink'.octets = sink.octets ++ data := by
  obtain ⟨source₁, hrest, hdecrypt⟩ := decrypt_of_header s hkey hlimit hy
  rw [← List.append_nil (frames s.boxes)] at hrest
  obtain ⟨source₂, sink', hend, hs', hoct, hrun⟩ := openChunks_frames ho ht s.locked
    (s.boxes_ne_nil hne) (fun c hc => length_le_of_mem_chunks hc) hrest hs
  rw [flatten_chunks] at hoct hrun
  obtain ⟨source₃, hfill, -⟩ := hend.fill 1
  rw [List.take_nil] at hfill
  refine ⟨sink', ?_, hoct⟩
  rw [hdecrypt, hrun]
  dsimp only
  rw [hfill]
  dsimp only
  rw [hs'.flush, Nat.zero_add]
  rfl

/-- A stream with a long header is refused at once. -/
theorem Sealed.decrypt_of_long (s : Sealed S recipients data) {recipient : KeyPair}
    (hlimit : maxHeader < s.header.encode.length) (hlt : s.header.encode.length < 2 ^ 32)
    (hy : source.Yields s.octets) :
    decrypt S recipient source sink = (.error (.invalidFormat
      s!"Frame of {s.header.encode.length} bytes exceeds the limit of {maxHeader}"), sink) := by
  obtain ⟨source', hread⟩ := hy.readFrame_of_long hlimit hlt
  unfold decrypt
  rw [hread]

/-- The most recipients whose header is read: it has 47 octets and 76 more for each of them. -/
def maxReaders : Nat := (maxHeader - 47) / 76

theorem short_iff {n : Nat} : 47 + 76 * n ≤ maxHeader ↔ n ≤ maxReaders := by
  have hmax : maxHeader = 1048576 := by decide
  have hreaders : maxReaders = 13796 := by decide
  omega

/-- Let a stream be sealed for recipients of whom no two share a key id. What was written for any of
them to read is read whole, if the recipients are not too many; else the header is refused, and
nothing is written. -/
theorem decrypt_iff_few (ha : S.Agrees) (ho : S.Opens) (ht : S.Tags)
    (hids : PublicKey.DistinctIds S recipients) (hne : data ≠ []) (hy : source.Yields data)
    {tape : Tape} {n : Nat} {p : Pipe}
    (h : encrypt S recipients ⟨source, sink, tape⟩ = (.ok n, p)) :
    ∃ written, p.sink.octets = sink.octets ++ written ∧ n = data.length ∧
      ∀ (reader : KeyPair), reader.publicKey S ∈ recipients →
      ∀ (given : Source) (target : Sink), given.Yields written → target.Takes →
        let readers := (recipients.map (·.keyId S)).eraseDups.length
        (readers ≤ maxReaders →
          ∃ sink', decrypt S reader given target = (.ok data.length, sink') ∧
            sink'.octets = target.octets ++ data) ∧
        (maxReaders < readers →
          decrypt S reader given target = (.error (.invalidFormat
            s!"Frame of {47 + 76 * readers} bytes exceeds the limit of {maxHeader}"), target)) := by
  obtain ⟨s, hoct, hn, hslots, hlt⟩ := encrypt_ok hne hy h
  obtain ⟨secret, hp⟩ := s.prepared
  have hlength := hp.length_encode ht
  rw [hslots] at hlength
  refine ⟨s.octets, hoct, hn, ?_⟩
  intro reader hreader given target hgiven htarget readers
  constructor
  · intro hfew
    have hkey : s.header.contentKey S reader = .ok s.key :=
      hp.contentKey ha ho hreader fun k hk hid => hids k hk _ hreader hid
    have hlimit : s.header.encode.length ≤ maxHeader := hlength ▸ short_iff.2 hfew
    exact s.decrypt_of_short ho ht hkey hne hlimit hgiven htarget
  · intro hmany
    have hlimit : maxHeader < s.header.encode.length := by
      rw [hlength]
      exact Nat.lt_of_not_le fun hle => Nat.not_le_of_lt hmany (short_iff.1 hle)
    rw [← hlength]
    exact s.decrypt_of_long hlimit hlt hgiven

/-- Both of two recipients read what was sealed for them. -/
theorem decrypt_by_both :
    let first : KeyPair := ⟨.zero 32, .littleEndian 32 7⟩
    let second : KeyPair := ⟨.zero 32, .littleEndian 32 8⟩
    let recipients := [first.publicKey .transparent, second.publicKey .transparent]
    let written := encrypt .transparent recipients ⟨.ofOctets [1, 2, 3], .unlimited, .ofSeed 1⟩
    ∀ reader ∈ [first, second], ∃ sink,
      decrypt .transparent reader (.ofOctets written.2.sink.octets) .unlimited = (.ok 3, sink) ∧
        sink.octets = [1, 2, 3] := by
  intro first second recipients written reader hreader
  have hok : written.1 = .ok 3 := by decide +kernel
  have hrun : written = (.ok 3, written.2) := by rw [← hok]
  obtain ⟨o, hoct, -, hread⟩ := decrypt_iff_few CipherSuite.transparent_agrees
    CipherSuite.transparent_opens CipherSuite.transparent_tags (by decide +kernel)
    (List.cons_ne_nil _ _) (Source.yields_ofOctets [1, 2, 3]) hrun
  have hmem : reader.publicKey .transparent ∈ recipients := List.mem_map_of_mem hreader
  rw [hoct, Sink.octets_unlimited, List.nil_append]
  exact (hread reader hmem _ .unlimited (Source.yields_ofOctets o) Sink.takes_unlimited).1
    (by decide +kernel)

/-! ## Sealing without a limit -/

/-- A cipher that locks a chunk lets it be written. -/
theorem sealChunk_runs (key : Block 32) (ht : S.Tags) {isLast : Bool}
    (hl : S.Locks (chunkContext header index isLast) data.length)
    (hshort : data.length ≤ chunkSize) (hs : sink.Takes) (tape : Tape) :
    ∃ sink' tape', sink'.Takes ∧
      sealChunk S key header index isLast data sink tape = (.ok (), sink', tape') := by
  obtain ⟨sealed, hsealed⟩ := hl key (tape.block 12) data rfl
  have hlen := ht _ _ _ _ _ hsealed
  have hchunk : chunkSize = 65536 := by decide
  have hframe : ¬ 2 ^ 32 ≤ [[flag isLast], (tape.block 12).octets, sealed].flatten.length := by
    simp only [List.flatten_cons, List.flatten_nil, List.length_append, List.length_cons,
      List.length_nil, Block.length_octets, hlen]
    omega
  obtain ⟨sink', hwrite, hs', -⟩ :=
    hs.writeAll (frameParts [[flag isLast], (tape.block 12).octets, sealed])
  refine ⟨sink', tape.skip 12, hs', ?_⟩
  unfold sealChunk
  rw [Envelope.lockFresh_run, hsealed]
  dsimp only [Option.elim]
  unfold Sink.writeFrame
  rw [if_neg hframe, hwrite]

/-- Chunk after chunk is written. The induction is on what the source still has. -/
theorem sealChunks_runs (ht : S.Tags) {current rest : Octets} {p : Pipe}
    (hl : ∀ index isLast length, length ≤ chunkSize →
      S.Locks (chunkContext header index isLast) length)
    (hshort : current.length ≤ chunkSize) (hs : p.sink.Takes) (hy : p.source.Yields rest) :
    ∃ n p', p'.sink.Takes ∧ sealChunks S key header index total current p = (.ok n, p') := by
  induction rest using chunks.induct generalizing index total current p with
  | case1 =>
    obtain ⟨source, hfill, -⟩ := hy.fill chunkSize
    rw [List.take_nil] at hfill
    obtain ⟨sink, tape, hs', hchunk⟩ :=
      sealChunk_runs key ht (hl index true _ hshort) hshort hs p.tape
    refine ⟨total + current.length, ⟨source, sink, tape⟩, hs', ?_⟩
    unfold sealChunks
    rw [hfill]
    dsimp only
    rw [show ([] : Octets).isEmpty = true from rfl, hchunk]
    rfl
  | case2 rest hne ih =>
    obtain ⟨source, hfill, hrest⟩ := hy.fill chunkSize
    have hnext : (rest.take chunkSize).isEmpty = false := by
      rw [isEmpty_take_chunkSize]
      simpa using hne
    obtain ⟨sink, tape, hs', hchunk⟩ :=
      sealChunk_runs key ht (hl index false _ hshort) hshort hs p.tape
    have hothers : ∃ n p', p'.sink.Takes ∧ sealChunks S key header (index + 1)
        (total + current.length) (rest.take chunkSize) ⟨source, sink, tape⟩ = (.ok n, p') :=
      ih (p := ⟨source, sink, tape⟩) (List.length_take_le _ _) hs' hrest
    obtain ⟨n, p', htakes, hrun⟩ := hothers
    refine ⟨n, p', htakes, ?_⟩
    unfold sealChunks
    rw [hfill]
    dsimp only
    rw [hnext, hchunk]
    exact hrun

/-- The octets that a chunk is locked together with are nine more than the header. -/
theorem locks_chunk {limit length : Nat} (hlocks : S.LocksUpTo limit)
    (hheader : header.length + 9 ≤ limit) (hl : length ≤ limit) (index : Nat) (isLast : Bool) :
    S.Locks (chunkContext header index isLast) length := by
  refine hlocks _ _ ?_ hl
  simp only [chunkContext, List.length_append, length_bigEndian, List.length_cons, List.length_nil]
  omega

/-- Without data nothing is written, and nothing is drawn. -/
theorem encrypt_of_nothing (hne : recipients ≠ []) (hy : source.Yields []) (sink : Sink) (tape : Tape) :
    ∃ left, encrypt S recipients ⟨source, sink, tape⟩ = (.ok 0, ⟨left, sink, tape⟩) := by
  obtain ⟨left, hfill, -⟩ := hy.fill chunkSize
  rw [List.take_nil] at hfill
  refine ⟨left, ?_⟩
  unfold encrypt
  rw [if_neg (by simpa using hne)]
  dsimp only
  rw [hfill]
  rfl

/-- A cipher that locks whatever is short enough lets any source be sealed for any recipients whose
header it locks and whose frame can be numbered. -/
theorem encrypt_runs (ht : S.Tags) {limit : Nat} (hlocks : S.LocksUpTo limit) (hne : recipients ≠ [])
    (hheader : 56 + 76 * ((recipients.map (·.keyId S)).eraseDups).length ≤ limit)
    (hframe : 47 + 76 * ((recipients.map (·.keyId S)).eraseDups).length < 2 ^ 32)
    (hchunk : chunkSize ≤ limit) (hy : source.Yields data) (hs : sink.Takes) (tape : Tape) :
    ∃ n p, encrypt S recipients ⟨source, sink, tape⟩ = (.ok n, p) := by
  have hsize : chunkSize = 65536 := by decide
  by_cases hdata : data = []
  · subst hdata
    obtain ⟨left, hrun⟩ := encrypt_of_nothing (S := S) hne hy sink tape
    exact ⟨0, _, hrun⟩
  obtain ⟨source₁, hfill, hfirst, hrest⟩ := hy.first hdata
  obtain ⟨key, header, tape₁, hprepare⟩ := Envelope.prepare_runs hlocks (by omega) .stream recipients tape
  obtain ⟨secret, hp⟩ := Envelope.prepare_ok hprepare
  have hlength := hp.length_encode ht
  rw [Envelope.recipientIds_of_prepare hprepare] at hlength
  have hshort : ¬ 2 ^ 32 ≤ [header.encode].flatten.length := by
    simp only [List.flatten_cons, List.flatten_nil, List.append_nil, hlength]
    omega
  obtain ⟨sink₁, hwrite, hs₁, -⟩ := hs.writeAll (frameParts [header.encode])
  have hcontext : ∀ index isLast length, length ≤ chunkSize →
      S.Locks (chunkContext header.encode index isLast) length :=
    fun index isLast length hle => locks_chunk hlocks (by omega) (Nat.le_trans hle hchunk) _ _
  have hchunks : ∃ n p', p'.sink.Takes ∧ sealChunks S key header.encode 0 0
      (data.take chunkSize) ⟨source₁, sink₁, tape₁⟩ = (.ok n, p') :=
    sealChunks_runs ht hcontext (List.length_take_le chunkSize data) hs₁ hrest
  obtain ⟨n, p, hp', hrun⟩ := hchunks
  refine ⟨n, p, ?_⟩
  rw [encrypt_of_first hne hfirst hfill]
  dsimp only
  rw [hprepare]
  dsimp only
  unfold Sink.writeFrame
  rw [if_neg hshort, hwrite]
  dsimp only
  rw [hrun]
  dsimp only
  rw [hp'.flush]

/-! ## A stream that none of its recipients reads -/

/-- The reader with a number. -/
def numbered (i : Nat) : KeyPair := ⟨.littleEndian 32 i, .zero 32⟩

/-- The key id of a numbered reader is its number. -/
theorem octets_keyId_numbered {i : Nat} (hi : i < 2 ^ 64) :
    ((numbered i).keyId .transparent).octets = littleEndian 8 i := by
  have hvalue : ofLittleEndian ((numbered i).publicKey .transparent).octets = i := by
    refine (ofLittleEndian_append_zeros (littleEndian 32 i) 32).trans ?_
    exact ofLittleEndian_littleEndian 32 i (Nat.lt_trans hi (by decide))
  show (littleEndian 64 (ofLittleEndian ((numbered i).publicKey .transparent).octets %
    (2 ^ 255 - 19))).take 8 = _
  rw [hvalue, take_littleEndian (by decide), Nat.mod_eq_of_lt (Nat.lt_trans hi (by decide))]

theorem numbered_of_keyId_eq {i j : Nat} (hi : i < 2 ^ 64) (hj : j < 2 ^ 64)
    (h : (numbered i).keyId .transparent = (numbered j).keyId .transparent) : i = j := by
  have hoctets := congrArg Block.octets h
  rw [octets_keyId_numbered hi, octets_keyId_numbered hj] at hoctets
  rw [← ofLittleEndian_littleEndian 8 i hi, hoctets, ofLittleEndian_littleEndian 8 j hj]

/-- The first numbered readers. -/
def firstReaders (n : Nat) : List PublicKey :=
  (List.range n).map fun i => (numbered i).publicKey .transparent

theorem distinctIds_firstReaders {n : Nat} (hn : n ≤ 2 ^ 64) :
    PublicKey.DistinctIds .transparent (firstReaders n) := by
  intro k hk l hl hid
  obtain ⟨i, hi, rfl⟩ := List.mem_map.1 hk
  obtain ⟨j, hj, rfl⟩ := List.mem_map.1 hl
  rw [List.mem_range] at hi hj
  rw [numbered_of_keyId_eq (Nat.lt_of_lt_of_le hi hn) (Nat.lt_of_lt_of_le hj hn) hid]

/-- No two of them are one recipient. -/
theorem length_firstReaders {n : Nat} (hn : n ≤ 2 ^ 64) :
    ((firstReaders n).map (·.keyId .transparent)).eraseDups.length = n := by
  have hnodup : ((firstReaders n).map (·.keyId .transparent)).Nodup := by
    rw [firstReaders, List.map_map]
    have hrange : (List.range n).Pairwise (· ≠ ·) := List.nodup_range
    refine List.pairwise_map.2 (hrange.imp_of_mem fun hi hj hne hid => hne ?_)
    rw [List.mem_range] at hi hj
    exact numbered_of_keyId_eq (Nat.lt_of_lt_of_le hi hn) (Nat.lt_of_lt_of_le hj hn) hid
  rw [Envelope.eraseDups_of_nodup hnodup, List.length_map, firstReaders, List.length_map,
    List.length_range]

/-- Three octets are sealed for one recipient more than is read. No recipient gets them. -/
theorem unreadable_stream : ∃ p : Pipe,
    encrypt .transparent (firstReaders (maxReaders + 1))
        ⟨.ofOctets [97, 98, 99], .unlimited, .ofSeed 1⟩ = (.ok 3, p) ∧
      PublicKey.DistinctIds .transparent (firstReaders (maxReaders + 1)) ∧
      ∀ reader : KeyPair, reader.publicKey .transparent ∈ firstReaders (maxReaders + 1) →
        decrypt .transparent reader (.ofOctets p.sink.octets) .unlimited =
          (.error (.invalidFormat "Frame of 1048619 bytes exceeds the limit of 1048576"),
            .unlimited) := by
  have hmax : maxReaders = 13796 := by decide
  have hcount := length_firstReaders (n := maxReaders + 1) (by omega)
  have hsome : firstReaders (maxReaders + 1) ≠ [] := by
    rw [firstReaders, List.range_succ]
    simp
  have hlocks : CipherSuite.transparent.LocksUpTo (2 ^ 32) :=
    fun associated length _ _ => CipherSuite.transparent_locks associated length
  obtain ⟨n, p, hrun⟩ := encrypt_runs CipherSuite.transparent_tags hlocks hsome (by omega) (by omega)
    (by decide) (Source.yields_ofOctets [97, 98, 99]) Sink.takes_unlimited (.ofSeed 1)
  obtain ⟨s, hoct, rfl, hslots, hlt⟩ :=
    encrypt_ok (List.cons_ne_nil _ _) (Source.yields_ofOctets [97, 98, 99]) hrun
  refine ⟨p, hrun, distinctIds_firstReaders (by omega), fun reader _ => ?_⟩
  obtain ⟨secret, hp⟩ := s.prepared
  have hlength : s.header.encode.length = 1048619 := by
    rw [hp.length_encode CipherSuite.transparent_tags, hslots, hcount, hmax]
  have hlimit : maxHeader = 1048576 := by decide
  have hrefused : decrypt .transparent reader (.ofOctets s.octets) .unlimited = _ :=
    s.decrypt_of_long (by omega) hlt (Source.yields_ofOctets s.octets)
  rw [hoct, Sink.octets_unlimited, List.nil_append, hrefused, hlength, hlimit]
  rfl

end EndToEnd.Stream
