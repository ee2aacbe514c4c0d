/-
  A sealed stream opens whole or not at all.

  The reader is given arbitrary octets behind the header of a sealed stream. Of what it tries to open
  on the way, only the boxes of the stream itself open. Each of these was locked with its number and
  its flag, so at each number only the box of that number opens: the reader writes the chunks of the
  data in order, and ends well exactly where it was given the stream itself.

  Proved:
  * `openChunks_of_locked`: reading chunk after chunk, by induction on the boxes still to come.
  * `decrypt_of_encrypt`: the same for whole streams.
-/
import EndToEnd.Proofs.Authenticated
import EndToEnd.Proofs.CipherSuite.Transparent
import EndToEnd.Proofs.Stream.Layout

namespace EndToEnd.Stream

open Envelope (Header)

variable {S : CipherSuite} {key : Block 32} {header : Octets} {index : Nat}

/-! ## What is tried -/

/-- The box in the frame of chunk `index`, and whether it is marked as the last one. -/
def boxOf? (header : Octets) (index : Nat) : Octets → Option (Bool × Box)
  | [] => none
  | b :: rest =>
    match Block.ofOctets? 12 (rest.take 12), readFlag b with
    | some nonce, .ok isLast =>
      some (isLast, ⟨nonce, rest.drop 12, chunkContext header index isLast⟩)
    | _, _ => none

theorem readFlag_flag (isLast : Bool) : readFlag (flag isLast) = .ok isLast := by
  cases isLast <;> rfl

theorem flag_of_readFlag {b : UInt8} {isLast : Bool} (h : readFlag b = .ok isLast) :
    b = flag isLast := by
  unfold readFlag at h
  split at h
  · cases h; assumption
  split at h
  · cases h; assumption
  · cases h

/-- A box is read off its frame. -/
theorem boxOf?_eq_some {body : Octets} {isLast : Bool} {b : Box} :
    boxOf? header index body = some (isLast, b) ↔
      body = b.body isLast ∧ b.context = chunkContext header index isLast := by
  constructor
  · intro h
    unfold boxOf? at h
    split at h
    · cases h
    split at h
    · rename_i a rest _ _ nonce isLast hnonce hflag
      cases h
      refine ⟨?_, rfl⟩
      rw [Box.body, ← Block.ofOctets?_eq_some.1 hnonce, List.take_append_drop, flag_of_readFlag hflag]
    · cases h
  · rintro ⟨rfl, hc⟩
    obtain ⟨nonce, sealed, context⟩ := b
    obtain rfl : context = chunkContext header index isLast := hc
    simp [boxOf?, Box.body, readFlag_flag]

theorem openChunk_of_no_box {body : Octets} (h : boxOf? header index body = none) :
    ∃ e, openChunk S key header index body = .error e := by
  unfold boxOf? at h
  unfold openChunk
  split
  · exact ⟨_, rfl⟩
  · split
    · exact ⟨_, rfl⟩
    · rename_i nonce hnonce
      split
      · exact ⟨_, rfl⟩
      · rename_i isLast hflag
        simp [hnonce, hflag] at h

/-- Opening a chunk is opening its box. -/
theorem openChunk_of_box {body : Octets} {isLast : Bool} {b : Box}
    (h : boxOf? header index body = some (isLast, b)) :
    openChunk S key header index body =
      match b.open? S key with
      | some data => .ok (isLast, data)
      | none => .error (.decryption "authentication tag mismatch") := by
  obtain ⟨rfl, hc⟩ := boxOf?_eq_some.1 h
  simp only [openChunk, Box.body, Block.take_octets_append, Block.ofOctets?_octets, readFlag_flag,
    Block.drop_octets_append, Envelope.unlock, ← hc, Box.open?]
  cases S.unlock key b.nonce b.context b.sealed <;> rfl

/-- The chunk at the front of octets, if it opens: whether it is marked as the last one, its box, its
data, and what follows it. -/
def nextChunk (S : CipherSuite) (key : Block 32) (header : Octets) (index : Nat) (o : Octets) :
    Option (Bool × Box × Octets × Octets) :=
  (cutFrame maxChunkFrame o).bind fun (body, rest) =>
    (boxOf? header index body).bind fun (isLast, b) =>
      (b.open? S key).map fun data => (isLast, b, data, rest)

/-- The box is tried while the chunks in some octets are read, from chunk `index` on. Those after the
first are tried only behind a chunk that has opened and that is not the last one. -/
inductive Tried (S : CipherSuite) (key : Block 32) (header : Octets) :
    (index : Nat) → Octets → Box → Prop where
  | here {index : Nat} {o body rest : Octets} {isLast : Bool} {b : Box}
      (cut : cutFrame maxChunkFrame o = some (body, rest))
      (box : boxOf? header index body = some (isLast, b)) : Tried S key header index o b
  | later {index : Nat} {o data rest : Octets} {b t : Box}
      (next : nextChunk S key header index o = some (false, b, data, rest))
      (others : Tried S key header (index + 1) rest t) : Tried S key header index o t

theorem nextChunk_eq_some {o data rest : Octets} {isLast : Bool} {b : Box} :
    nextChunk S key header index o = some (isLast, b, data, rest) ↔
      ∃ body, cutFrame maxChunkFrame o = some (body, rest) ∧
        boxOf? header index body = some (isLast, b) ∧ b.open? S key = some data := by
  unfold nextChunk
  constructor
  · intro h
    obtain ⟨⟨body, rest'⟩, hcut, h⟩ := Option.bind_eq_some_iff.1 h
    obtain ⟨⟨isLast', b'⟩, hbox, h⟩ := Option.bind_eq_some_iff.1 h
    obtain ⟨data', hopen, h⟩ := Option.map_eq_some_iff.1 h
    cases h
    exact ⟨body, hcut, hbox, hopen⟩
  · rintro ⟨body, hcut, hbox, hopen⟩
    rw [hcut, Option.bind_some]
    dsimp only
    rw [hbox, Option.bind_some]
    dsimp only
    rw [hopen, Option.map_some]

/-! ## Reading one chunk -/

variable {o : Octets} {source : Source} {sink : Sink} {total : Nat}

/-- Without a chunk that opens, reading ends with an error and writes nothing. -/
theorem openChunks_of_no_next (hy : source.Yields o) (hn : nextChunk S key header index o = none) :
    ∃ e source', ∀ (total : Nat) (sink : Sink),
      openChunks S key header index total source sink = (.error e, source', sink) := by
  cases hcut : cutFrame maxChunkFrame o with
  | none =>
    rcases hy.readFrame_of_no_cut hcut with ⟨source', hread, -⟩ | ⟨e, source', hread⟩
    · exact ⟨_, source', fun total sink => by rw [openChunks, hread]⟩
    · exact ⟨e, source', fun total sink => by rw [openChunks, hread]⟩
  | some cut =>
    obtain ⟨body, rest⟩ := cut
    obtain ⟨source', hread, -⟩ := hy.readFrame_of_cut hcut
    have hchunk : ∃ e, openChunk S key header index body = .error e := by
      cases hbox : boxOf? header index body with
      | none => exact openChunk_of_no_box hbox
      | some pair =>
        obtain ⟨isLast, b⟩ := pair
        rw [openChunk_of_box hbox]
        cases hopen : b.open? S key with
        | none => exact ⟨_, rfl⟩
        | some data =>
          rw [nextChunk_eq_some.2 ⟨body, hcut, hbox, hopen⟩] at hn
          cases hn
    obtain ⟨e, he⟩ := hchunk
    refine ⟨e, source', fun total sink => ?_⟩
    rw [openChunks, hread]
    dsimp only
    rw [he]

/-- A chunk that opens is written, if the sink takes it, and reading ends there or goes on behind it. -/
theorem openChunks_eq_of_next (hy : source.Yields o) {isLast : Bool} {b : Box} {data rest : Octets}
    (hn : nextChunk S key header index o = some (isLast, b, data, rest)) :
    ∃ source', source'.Yields rest ∧ ∀ (total : Nat) (sink : Sink),
      openChunks S key header index total source sink =
        match sink.write data with
        | (.error e, sink) => (.error e, source', sink)
        | (.ok (), sink) =>
          if isLast then (.ok (total + data.length), source', sink)
          else openChunks S key header (index + 1) (total + data.length) source' sink := by
  obtain ⟨body, hcut, hbox, hopen⟩ := nextChunk_eq_some.1 hn
  obtain ⟨source', hread, hrest⟩ := hy.readFrame_of_cut hcut
  have hchunk : openChunk S key header index body = .ok (isLast, data) := by
    rw [openChunk_of_box hbox, hopen]
  refine ⟨source', hrest, fun total sink => ?_⟩
  rw [openChunks, hread]
  dsimp only
  rewrite [hchunk]
  rfl

/-- A sink that takes everything takes a chunk. -/
theorem openChunks_of_next (hy : source.Yields o) (hs : sink.Takes) {isLast : Bool} {b : Box}
    {data rest : Octets} (hn : nextChunk S key header index o = some (isLast, b, data, rest)) :
    ∃ source' sink', source'.Yields rest ∧ sink'.Takes ∧ sink'.octets = sink.octets ++ data ∧
      openChunks S key header index total source sink =
        if isLast then (.ok (total + data.length), source', sink')
        else openChunks S key header (index + 1) (total + data.length) source' sink' := by
  obtain ⟨source', hrest, hrun⟩ := openChunks_eq_of_next hy hn
  obtain ⟨sink', hwrite, hs', hoct⟩ := hs.write data
  refine ⟨source', sink', hrest, hs', hoct, ?_⟩
  rw [hrun, hwrite]

/-! ## Reading the chunks that were locked -/

/-- The numbers that boxes were locked with. -/
theorem Locked.number {cs : List Octets} {bs : List Box} (h : Locked S key header index cs bs)
    {t : Box} (ht : t ∈ bs) :
    ∃ j f, index ≤ j ∧ j < index + bs.length ∧ t.context = chunkContext header j f := by
  induction h with
  | nil => cases ht
  | cons hc _ _ ih =>
    rw [List.length_cons]
    rcases List.mem_cons.1 ht with rfl | ht
    · exact ⟨_, _, Nat.le_refl _, by omega, hc⟩
    · obtain ⟨j, f, hle, hlt, hj⟩ := ih ht
      exact ⟨j, f, by omega, by omega, hj⟩

/-- The boxes were locked with numbers below `index`. -/
def Passed (header : Octets) (index : Nat) (before : List Box) : Prop :=
  ∀ t ∈ before, ∃ j < index, ∃ f, t.context = chunkContext header j f

variable {before bs : List Box} {b : Box} {c : Octets} {cs : List Octets}

theorem passed_nil : Passed header index [] := nofun

theorem Passed.snoc (h : Passed header index before) {isLast : Bool}
    (hb : b.context = chunkContext header index isLast) :
    Passed header (index + 1) (before ++ [b]) := by
  intro t ht
  rcases List.mem_append.1 ht with ht | ht
  · obtain ⟨j, hj, f, hf⟩ := h t ht
    exact ⟨j, Nat.lt_succ_of_lt hj, f, hf⟩
  · rw [List.mem_singleton.1 ht]
    exact ⟨index, Nat.lt_succ_self index, isLast, hb⟩

/-- Where the boxes stand whole, the next chunk is the first of theirs. -/
theorem nextChunk_of_locked (ho : S.Opens) (ht : S.Tags)
    (hl : Locked S key header index (c :: cs) (b :: bs)) (hc : c.length ≤ chunkSize) (rest : Octets) :
    nextChunk S key header index (frames (b :: bs) ++ rest) =
      some (bs.isEmpty, b, c, frames bs ++ rest) := by
  cases hl with
  | cons hcontext hlocked hothers =>
    have hlen : (b.body bs.isEmpty).length = 1 + 12 + c.length + 16 := by
      have := ht _ _ _ _ _ hlocked
      simp only [Box.body, List.length_cons, List.length_append, Block.length_octets]
      omega
    have hmax : maxChunkFrame = 65565 := by decide
    have hchunk : chunkSize = 65536 := by decide
    refine nextChunk_eq_some.2 ⟨b.body bs.isEmpty, ?_, ?_, ho _ _ _ _ _ hlocked⟩
    · rw [frames, List.append_assoc]
      exact cutFrame_frame _ (by omega) (by omega)
    · exact boxOf?_eq_some.2 ⟨rfl, by rw [hcontext, hothers.isEmpty_eq]⟩

/-- While the boxes themselves are read, nothing else is tried. -/
theorem mem_of_tried_frames (ho : S.Opens) (ht : S.Tags) (hl : Locked S key header index cs bs)
    (hfit : ∀ c ∈ cs, c.length ≤ chunkSize) {t : Box} (h : Tried S key header index (frames bs) t) :
    t ∈ bs := by
  induction hl with
  | nil =>
    cases h with
    | here hcut _ => cases hcut
    | later hn _ => cases hn
  | @cons index c cs b bs hcontext hlocked hothers ih =>
    have hn := nextChunk_of_locked ho ht (.cons hcontext hlocked hothers) (hfit c List.mem_cons_self) []
    rw [List.append_nil, List.append_nil] at hn
    obtain ⟨body, hcut, hbox, -⟩ := nextChunk_eq_some.1 hn
    cases h with
    | here hcut' hbox' =>
      rw [hcut] at hcut'
      cases hcut'
      rw [hbox] at hbox'
      cases hbox'
      exact List.mem_cons_self
    | later hn' h =>
      rw [hn] at hn'
      obtain rfl : frames bs = _ := congrArg (·.2.2.2) (Option.some.inj hn')
      exact List.mem_cons_of_mem _ (ih (fun d hd => hfit d (List.mem_cons_of_mem _ hd)) h)

/-- Of some boxes around the one with the number `index`, only that one fits the number. -/
theorem eq_of_fits {t : Box} {isLast : Bool} (hl : Locked S key header index (c :: cs) (b :: bs))
    (hsize : index + (b :: bs).length ≤ 2 ^ 64)
    (hbefore : Passed header index before)
    (ht : t ∈ before ++ b :: bs) (hc : t.context = chunkContext header index isLast) :
    t = b ∧ isLast = bs.isEmpty := by
  rw [List.length_cons] at hsize
  cases hl with
  | cons hcontext _ hothers =>
    rcases List.mem_append.1 ht with ht | ht
    · obtain ⟨j, hj, f, hf⟩ := hbefore t ht
      have := (chunkContext_inj (by omega) (by omega) (hc.symm.trans hf)).2.1
      omega
    · rcases List.mem_cons.1 ht with rfl | ht
      · rw [hothers.isEmpty_eq]
        exact ⟨rfl, (chunkContext_inj (by omega) (by omega) (hc.symm.trans hcontext)).2.2⟩
      · obtain ⟨j, f, hle, hlt, hf⟩ := hothers.number ht
        have := (chunkContext_inj (by omega) (by omega) (hc.symm.trans hf)).2.1
        omega

/-- A chunk that opens, where only boxes of the stream do, is the one that was locked. -/
theorem next_eq_of_locked (ho : S.Opens) (hl : Locked S key header index (c :: cs) (b :: bs))
    (hsize : index + (b :: bs).length ≤ 2 ^ 64)
    (hbefore : Passed header index before)
    (htried : ∀ t data, Tried S key header index o t → t.open? S key = some data →
      t ∈ before ++ b :: bs)
    {isLast : Bool} {t : Box} {data rest : Octets}
    (hn : nextChunk S key header index o = some (isLast, t, data, rest)) :
    isLast = bs.isEmpty ∧ t = b ∧ data = c ∧ o = frame (b.body bs.isEmpty) ++ rest := by
  obtain ⟨body, hcut, hbox, hopen⟩ := nextChunk_eq_some.1 hn
  obtain ⟨hbody, hcontext⟩ := boxOf?_eq_some.1 hbox
  obtain ⟨rfl, hlast⟩ := eq_of_fits hl hsize hbefore (htried t data (.here hcut hbox) hopen) hcontext
  cases hl with
  | cons _ hlocked _ =>
    refine ⟨hlast, rfl, ?_, ?_⟩
    · exact Option.some.inj (hopen.symm.trans (ho _ _ _ _ _ hlocked))
    · rw [(cutFrame_eq_some.1 hcut).2.2, hbody, hlast]

/-- Reading chunks from the one with the number `index` on. Either all boxes stand there, and their
chunks are written, or they do not, and some of the chunks are written before an error. The induction
is on the boxes still to come; `before` are those that were passed. -/
theorem openChunks_of_locked (ho : S.Opens) (ht : S.Tags) (hl : Locked S key header index cs bs)
    (hne : bs ≠ []) (hfit : ∀ c ∈ cs, c.length ≤ chunkSize) (hsize : index + bs.length ≤ 2 ^ 64)
    (hbefore : Passed header index before)
    (hy : source.Yields o) (hs : sink.Takes)
    (htried : ∀ t data, Tried S key header index o t → t.open? S key = some data →
      t ∈ before ++ bs) :
    (∃ rest source' sink', o = frames bs ++ rest ∧ source'.Yields rest ∧ sink'.Takes ∧
      sink'.octets = sink.octets ++ cs.flatten ∧
      openChunks S key header index total source sink =
        (.ok (total + cs.flatten.length), source', sink')) ∨
    ∃ e source' sink' k, (∀ rest, o ≠ frames bs ++ rest) ∧
      sink'.octets = sink.octets ++ (cs.take k).flatten ∧
      openChunks S key header index total source sink = (.error e, source', sink') := by
  induction hl generalizing before o source sink total with
  | nil => exact absurd rfl hne
  | @cons index c cs b bs hcontext hlocked hothers ih =>
    have hl : Locked S key header index (c :: cs) (b :: bs) := .cons hcontext hlocked hothers
    cases hn : nextChunk S key header index o with
    | none =>
      right
      obtain ⟨e, source', hstop⟩ := openChunks_of_no_next hy hn
      refine ⟨e, source', sink, 0, ?_, by simp, hstop total sink⟩
      rintro rest rfl
      rw [nextChunk_of_locked ho ht hl (hfit c List.mem_cons_self)] at hn
      cases hn
    | some next =>
      obtain ⟨isLast, t, data, rest⟩ := next
      obtain ⟨rfl, rfl, rfl, ho'⟩ := next_eq_of_locked ho hl hsize hbefore htried hn
      obtain ⟨source', sink', hrest, hs', hoct, hrun⟩ := openChunks_of_next hy hs hn
      rw [hrun, frames, ho']
      by_cases hlast : bs = []
      · -- the last chunk: nothing is to come
        subst hlast
        cases hothers
        exact .inl ⟨rest, source', sink', by simp [frames], hrest, hs', by simp [hoct], by simp⟩
      · have hmore : bs.isEmpty = false := by simpa using hlast
        rw [hmore] at hn ⊢
        have hbefore' : Passed header (index + 1) (before ++ [t]) := hbefore.snoc hcontext
        have htried' : ∀ u d, Tried S key header (index + 1) rest u → u.open? S key = some d →
            u ∈ before ++ [t] ++ bs := by
          intro u d hu hd
          rw [List.append_assoc]
          exact htried u d (.later hn hu) hd
        rw [List.length_cons] at hsize
        have hfit' : ∀ c ∈ cs, c.length ≤ chunkSize := fun d hd => hfit d (List.mem_cons_of_mem _ hd)
        rcases ih hlast hfit' (by omega) hbefore' hrest hs' htried' with
          ⟨r, s, k, hr, hsr, hk, hko, hrun⟩ | ⟨e, s, k, n, hno, hko, hrun⟩
        · left
          refine ⟨r, s, k, by rw [hr, List.append_assoc], hsr, hk, ?_, ?_⟩
          · rw [hko, hoct, List.flatten_cons, List.append_assoc]
          · rw [if_neg Bool.false_ne_true, hrun, List.flatten_cons, List.length_append, Nat.add_assoc]
        · right
          refine ⟨e, s, k, n + 1, ?_, ?_, ?_⟩
          · intro rest' hr
            rw [List.append_assoc] at hr
            exact hno rest' (List.append_cancel_left hr)
          · rw [hko, hoct, List.take_succ_cons, List.flatten_cons, List.append_assoc]
          · rw [if_neg Bool.false_ne_true, hrun]

/-! ## Whole streams -/

theorem decodeHeader_encode {h : Header} (hf : h.Fits) (hv : h.version = Envelope.currentVersion)
    (hm : h.mode = .stream) : decodeHeader h.encode = .ok h := by
  have ht : Envelope.takeHeader (h.encode ++ []) = some (h, []) := Envelope.takeHeader_encode hf
  rw [List.append_nil] at ht
  unfold decodeHeader
  rw [ht]
  dsimp only
  rw [if_neg (by rw [hv]; exact fun hne => hne rfl), if_neg (by rw [hm]; exact fun hne => hne rfl)]

/-- Behind the header of a sealed stream, reading starts with the content key and the first chunk. -/
theorem decrypt_of_header {recipients : List PublicKey} {data : Octets} (s : Sealed S recipients data)
    {recipient : KeyPair} (hkey : s.header.contentKey S recipient = .ok s.key)
    (hlimit : s.header.encode.length ≤ maxHeader) {rest : Octets}
    (hy : source.Yields (frame s.header.encode ++ rest)) :
    ∃ source', source'.Yields rest ∧
      decrypt S recipient source sink =
        match openChunks S s.key s.header.encode 0 0 source' sink with
        | (.error e, _, sink) => (.error e, sink)
        | (.ok total, source, sink) =>
          match source.fill 1 with
          | (.error e, _) => (.error e, sink)
          | (.ok trailing, _) =>
            if trailing.isEmpty then
              match sink.flush with
              | .error e => (.error e, sink)
              | .ok () => (.ok total, sink)
            else (.error (.invalidFormat "Data after the last chunk"), sink) := by
  have hmax : maxHeader = 1048576 := by decide
  obtain ⟨secret, hp⟩ := s.prepared
  have hcut : cutFrame maxHeader (frame s.header.encode ++ rest) = some (s.header.encode, rest) :=
    cutFrame_frame rest hlimit (by omega)
  obtain ⟨source', hread, hrest⟩ := hy.readFrame_of_cut hcut
  have hdecode : decodeHeader s.header.encode = .ok s.header := by
    refine decodeHeader_encode (Envelope.Header.fits_of_length (by omega)) ?_ ?_
    · rw [hp.unsigned]
      rfl
    · rw [hp.unsigned]
      rfl
  refine ⟨source', hrest, ?_⟩
  unfold decrypt
  rw [hread]
  dsimp only
  rw [hdecode]
  dsimp only [Except.bind]
  rewrite [hkey]
  rfl

/-- Let a stream be sealed for recipients of whom no two share a key id, one of them the reader, and
let its header be short enough to be read. Of any octets that begin with the header's frame, and in
which only the boxes of the stream open, exactly the stream itself is read to its end. Then the data
was written; otherwise there is an error, and a number of whole chunks of the data was written. The
data has at most as many chunks as 64 bits can count. -/
theorem decrypt_of_encrypt (ha : S.Agrees) (ho : S.Opens) (ht : S.Tags) {recipients : List PublicKey}
    {recipient : KeyPair} (hmem : recipient.publicKey S ∈ recipients)
    (hids : ∀ k ∈ recipients, ∀ l ∈ recipients, k.keyId S = l.keyId S → k = l)
    {data : Octets} (hne : data ≠ []) (hsize : data.length ≤ 2 ^ 64 * chunkSize)
    (hy : source.Yields data) {tape : Tape} {n : Nat} {p : Pipe}
    (h : encrypt S recipients ⟨source, .unlimited, tape⟩ = (.ok n, p)) :
    ∃ s : Sealed S recipients data, p.sink.octets = s.octets ∧ n = data.length ∧
      (s.header.encode.length ≤ maxHeader → ∀ (rest : Octets) (given : Source),
        given.Yields (frame s.header.encode ++ rest) →
        (∀ t data, Tried S s.key s.header.encode 0 rest t → t.open? S s.key = some data →
          t ∈ s.boxes) →
        (frame s.header.encode ++ rest = s.octets →
          ∃ sink, decrypt S recipient given .unlimited = (.ok data.length, sink) ∧
            sink.octets = data) ∧
        (frame s.header.encode ++ rest ≠ s.octets →
          ∃ e sink k, decrypt S recipient given .unlimited = (.error e, sink) ∧
            sink.octets = data.take (k * chunkSize))) := by
  obtain ⟨s, hoct, hn, -⟩ := encrypt_ok hne hy h
  refine ⟨s, hoct, hn, ?_⟩
  intro hlimit rest given hgiven htried
  have hboxes : s.boxes.length = (chunks data).length := s.locked.length_eq
  have hsome : s.boxes ≠ [] := by
    intro hnil
    rw [hnil, chunks_of_ne hne] at hboxes
    cases hboxes
  have hcount : 0 + s.boxes.length ≤ 2 ^ 64 := by
    rw [hboxes, Nat.zero_add]
    exact length_chunks_le hsize
  have hwhole : (chunks data).flatten = data := by
    have := flatten_take_chunks data (2 ^ 64)
    rwa [List.take_of_length_le (length_chunks_le hsize), List.take_of_length_le hsize] at this
  obtain ⟨secret, hp⟩ := s.prepared
  have hkey : s.header.contentKey S recipient = .ok s.key :=
    hp.contentKey ha ho hmem fun k hk hid => hids k hk _ hmem hid
  obtain ⟨source', hrest, hdecrypt⟩ := decrypt_of_header s hkey hlimit hgiven
  rw [hdecrypt]
  rcases openChunks_of_locked ho ht s.locked hsome
    (fun c hc => length_le_of_mem_chunks hc) hcount passed_nil hrest Sink.takes_unlimited
    (by simpa using htried) with
    ⟨trailing, source'', sink, hr, hsource, hsink, hko, hrun⟩ | ⟨e, source'', sink, k, hno, hko, hrun⟩
  · -- all boxes stand there; what follows them decides
    rw [hwhole, Nat.zero_add] at hrun
    rw [hwhole, Sink.octets_unlimited, List.nil_append] at hko
    obtain ⟨source₃, hfill, -⟩ := hsource.fill 1
    rw [hrun]
    dsimp only
    rw [hfill]
    dsimp only
    rw [hsink.flush]
    dsimp only
    have hiff : frame s.header.encode ++ rest = s.octets ↔ trailing = [] := by
      rw [hr, Sealed.octets, List.append_cancel_left_eq, List.append_right_eq_self]
    constructor
    · intro heq
      rw [hiff.1 heq]
      exact ⟨sink, rfl, hko⟩
    · intro hneq
      have htrail : (trailing.take 1).isEmpty = false := by
        cases htr : trailing with
        | nil => exact absurd (hiff.2 htr) hneq
        | cons b more => rfl
      rw [htrail, if_neg Bool.false_ne_true]
      refine ⟨_, sink, 2 ^ 64, rfl, ?_⟩
      rw [List.take_of_length_le hsize, hko]
  · rw [hrun]
    dsimp only
    constructor
    · intro heq
      exact absurd (List.append_cancel_left heq) (by simpa using hno [])
    · intro _
      refine ⟨e, sink, k, rfl, ?_⟩
      rw [hko, flatten_take_chunks, Sink.octets_unlimited, List.nil_append]

/-- Three octets are sealed for two recipients. The first of them reads them back, and reads nothing
from the header alone. -/
theorem decrypt_three_octets :
    let reader : KeyPair := ⟨.zero 32, .littleEndian 32 7⟩
    let other : KeyPair := ⟨.zero 32, .littleEndian 32 8⟩
    let recipients := [reader.publicKey .transparent, other.publicKey .transparent]
    let written := encrypt .transparent recipients ⟨.ofOctets [1, 2, 3], .unlimited, .ofSeed 1⟩
    ∃ s : Sealed .transparent recipients [1, 2, 3], written.2.sink.octets = s.octets ∧
      (∃ sink, decrypt .transparent reader (.ofOctets s.octets) .unlimited = (.ok 3, sink) ∧
        sink.octets = [1, 2, 3]) ∧
      ∃ e sink k, decrypt .transparent reader (.ofOctets (frame s.header.encode)) .unlimited =
        (.error e, sink) ∧ sink.octets = [1, 2, 3].take (k * chunkSize) := by
  intro reader other recipients written
  have hok : written.1 = .ok 3 := by decide +kernel
  have hrun : written = (.ok 3, written.2) := by rw [← hok]
  have hshort : written.2.sink.octets.length ≤ maxHeader := by decide +kernel
  have hreader : reader.publicKey .transparent ∈ recipients := List.mem_cons_self
  obtain ⟨s, hoct, -, hread⟩ := decrypt_of_encrypt CipherSuite.transparent_agrees
    CipherSuite.transparent_opens CipherSuite.transparent_tags
    hreader (by decide +kernel) (List.cons_ne_nil _ _)
    (Nat.le_trans (show 3 ≤ chunkSize by decide) (Nat.le_mul_of_pos_left _ (Nat.two_pow_pos 64)))
    (Source.yields_ofOctets [1, 2, 3]) hrun
  have hlimit : s.header.encode.length ≤ maxHeader := by
    rw [hoct] at hshort
    simp only [Sealed.octets, frame, List.length_append] at hshort
    omega
  refine ⟨s, hoct, ?_, ?_⟩
  · refine (hread hlimit (frames s.boxes) _ (Source.yields_ofOctets _) ?_).1 rfl
    intro t data ht _
    exact mem_of_tried_frames CipherSuite.transparent_opens CipherSuite.transparent_tags s.locked
      (fun c hc => length_le_of_mem_chunks hc) ht
  · refine (hread hlimit [] _ (by simpa using Source.yields_ofOctets _) ?_).2 ?_
    · intro t data ht _
      cases ht with
      | here hcut _ => cases hcut
      | later hn _ => cases hn
    · intro heq
      have hempty : frames s.boxes = [] := (List.append_cancel_left heq).symm
      have hlen := s.locked.length_eq
      cases hboxes : s.boxes with
      | nil => rw [hboxes, chunks_of_ne (List.cons_ne_nil _ _)] at hlen; cases hlen
      | cons b bs => rw [hboxes, frames, frame] at hempty; simp [Box.body] at hempty

end EndToEnd.Stream
