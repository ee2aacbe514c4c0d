/-
  What a sealed stream is made of.

  The data is cut into chunks, each chunk is locked in a box with its number and its flag, and behind
  the header's frame stands one frame for each box. `encrypt_ok` says that sealing a stream writes
  exactly this.
-/
import EndToEnd.Proofs.Envelope.Wrap
import EndToEnd.Proofs.Stream.Frame
import EndToEnd.Stream.Seal

namespace EndToEnd.Stream

open Envelope (Header)

/-- Data in full chunks, of which only the last one may be shorter. -/
def chunks (data : Octets) : List Octets :=
  if _h : data = [] then [] else data.take chunkSize :: chunks (data.drop chunkSize)
termination_by data.length
decreasing_by
  have := List.length_pos_iff.2 _h
  have : 0 < chunkSize := by decide
  rw [List.length_drop]
  omega

@[simp] theorem chunks_nil : chunks [] = [] := by
  rw [chunks, dif_pos rfl]

theorem chunks_of_ne {data : Octets} (h : data ≠ []) :
    chunks data = data.take chunkSize :: chunks (data.drop chunkSize) := by
  rw [chunks, dif_neg h]

theorem isEmpty_take_chunkSize (data : Octets) : (data.take chunkSize).isEmpty = data.isEmpty := by
  cases data <;> rfl

/-- The front chunks are the front of the data. -/
theorem flatten_take_chunks (data : Octets) (k : Nat) :
    ((chunks data).take k).flatten = data.take (k * chunkSize) := by
  induction k generalizing data with
  | zero => simp
  | succ k ih =>
    by_cases h : data = []
    · rw [h, chunks_nil]
      simp
    · rw [chunks_of_ne h, List.take_succ_cons, List.flatten_cons, ih, Nat.succ_mul, Nat.add_comm,
        List.take_add]

theorem length_le_of_mem_chunks {data c : Octets} (h : c ∈ chunks data) : c.length ≤ chunkSize := by
  induction data using chunks.induct with
  | case1 => rw [chunks_nil] at h; cases h
  | case2 data hne ih =>
    rw [chunks_of_ne hne] at h
    rcases List.mem_cons.1 h with rfl | h
    · exact List.length_take_le _ _
    · exact ih h

/-- There are as many chunks as it takes. -/
theorem length_chunks_le {data : Octets} {n : Nat} (h : data.length ≤ n * chunkSize) :
    (chunks data).length ≤ n := by
  induction n generalizing data with
  | zero =>
    obtain rfl := List.length_eq_zero_iff.1 (by omega : data.length = 0)
    simp
  | succ n ih =>
    by_cases hne : data = []
    · rw [hne, chunks_nil]
      exact Nat.zero_le _
    · rw [chunks_of_ne hne, List.length_cons]
      refine Nat.succ_le_succ (ih ?_)
      rw [List.length_drop]
      rw [Nat.succ_mul] at h
      omega

/-! ## Boxes -/

/-- A locked message with its nonce and what it was locked together with. -/
structure Box where
  nonce : Block 12
  sealed : Octets
  context : Octets
deriving DecidableEq

/-- The message in a box, if the box opens. -/
def Box.open? (S : CipherSuite) (key : Block 32) (b : Box) : Option Octets :=
  S.unlock key b.nonce b.context b.sealed

/-- What stands in the frame of a box. -/
def Box.body (b : Box) (isLast : Bool) : Octets := flag isLast :: (b.nonce.octets ++ b.sealed)

/-- The frames of boxes, of which the last one is marked as the last. -/
def frames : List Box → Octets
  | [] => []
  | b :: bs => frame (b.body bs.isEmpty) ++ frames bs

/-- The boxes hold the chunks, locked with their numbers from `index` on and their flags. -/
inductive Locked (S : CipherSuite) (key : Block 32) (header : Octets) :
    (index : Nat) → List Octets → List Box → Prop where
  | nil {index : Nat} : Locked S key header index [] []
  | cons {index : Nat} {c : Octets} {cs : List Octets} {b : Box} {bs : List Box}
      (context : b.context = chunkContext header index cs.isEmpty)
      (locked : S.lock key b.nonce b.context c = some b.sealed)
      (others : Locked S key header (index + 1) cs bs) : Locked S key header index (c :: cs) (b :: bs)

variable {S : CipherSuite} {key : Block 32} {header : Octets} {index : Nat}

theorem Locked.length_eq {cs : List Octets} {bs : List Box} (h : Locked S key header index cs bs) :
    bs.length = cs.length := by
  induction h with
  | nil => rfl
  | cons _ _ _ ih => rw [List.length_cons, List.length_cons, ih]

theorem Locked.isEmpty_eq {cs : List Octets} {bs : List Box} (h : Locked S key header index cs bs) :
    bs.isEmpty = cs.isEmpty := by
  cases h <;> rfl

/-! ## Sealing -/

/-- Sealing a chunk writes the frame of its box, which can be numbered. -/
theorem sealChunk_ok {isLast : Bool} {data : Octets} {sink sink' : Sink} {tape tape' : Tape}
    (h : sealChunk S key header index isLast data sink tape = (.ok (), sink', tape')) :
    ∃ b : Box, b.context = chunkContext header index isLast ∧
      S.lock key b.nonce b.context data = some b.sealed ∧
      sink'.octets = sink.octets ++ frame (b.body isLast) ∧ (b.body isLast).length < 2 ^ 32 := by
  unfold sealChunk at h
  split at h
  · cases h
  · rename_i nonce sealed t hl
    cases hw : sink.writeFrame [[flag isLast], nonce.octets, sealed] with | mk result sink₁ =>
    rw [hw] at h
    cases h
    refine ⟨⟨nonce, sealed, chunkContext header index isLast⟩, rfl, Envelope.lockFresh_ok hl, ?_⟩
    simpa [Box.body, and_comm] using Sink.octets_of_writeFrame hw

/-- Sealing chunk after chunk writes one frame for each. The induction is on what the source still
has. -/
theorem sealChunks_ok {total n : Nat} {current rest : Octets} {p p' : Pipe}
    (hy : p.source.Yields rest) (h : sealChunks S key header index total current p = (.ok n, p')) :
    ∃ bs, Locked S key header index (current :: chunks rest) bs ∧
      p'.sink.octets = p.sink.octets ++ frames bs ∧ n = total + current.length + rest.length := by
  induction rest using chunks.induct generalizing index total current p with
  | case1 =>
    obtain ⟨source, hfill, -⟩ := hy.fill chunkSize
    unfold sealChunks at h
    rw [List.take_nil] at hfill
    rw [hfill] at h
    dsimp only at h
    split at h
    · cases h
    · rename_i sink tape hchunk
      obtain ⟨b, hc, hl, ho, -⟩ := sealChunk_ok hchunk
      rw [dif_pos (show ([] : Octets).isEmpty = true from rfl)] at h
      cases h
      refine ⟨[b], ?_, ?_, rfl⟩
      · rw [chunks_nil]
        exact .cons hc hl .nil
      · rw [ho]
        simp [frames]
  | case2 rest hne ih =>
    obtain ⟨source, hfill, hrest⟩ := hy.fill chunkSize
    have hnext : (rest.take chunkSize).isEmpty = false := by
      rw [isEmpty_take_chunkSize]
      simpa using hne
    unfold sealChunks at h
    rw [hfill] at h
    dsimp only at h
    split at h
    · cases h
    · rename_i sink tape hchunk
      obtain ⟨b, hc, hl, ho, -⟩ := sealChunk_ok hchunk
      rw [dif_neg (by rw [hnext]; exact Bool.false_ne_true)] at h
      obtain ⟨bs, hb, hoct, hn⟩ := ih hrest h
      have hbs : bs.isEmpty = false := hb.isEmpty_eq
      refine ⟨b :: bs, ?_, ?_, ?_⟩
      · rw [chunks_of_ne hne]
        exact .cons (by rw [hc, hnext]; rfl) hl hb
      · rw [hoct, ho, frames, hbs, hnext, List.append_assoc]
      · rw [hn, List.length_take, List.length_drop]
        omega

/-- What a whole stream is: its header, and its chunks locked under the content key that the header
holds for the recipients. -/
structure Sealed (S : CipherSuite) (recipients : List PublicKey) (data : Octets) where
  key : Block 32
  header : Header
  boxes : List Box
  prepared : ∃ secret, Envelope.Prepared S recipients .stream key secret header
  locked : Locked S key header.encode 0 (chunks data) boxes

/-- The octets of a stream. -/
def Sealed.octets {recipients : List PublicKey} {data : Octets} (s : Sealed S recipients data) :
    Octets :=
  frame s.header.encode ++ frames s.boxes

/-- A source that has data has a first chunk. -/
theorem Source.Yields.first {s : Source} {data : Octets} (hy : s.Yields data) (hne : data ≠ []) :
    ∃ t, s.fill chunkSize = (.ok (data.take chunkSize), t) ∧ data.take chunkSize ≠ [] ∧
      t.Yields (data.drop chunkSize) := by
  obtain ⟨t, hfill, hrest⟩ := hy.fill chunkSize
  refine ⟨t, hfill, ?_, hrest⟩
  rw [ne_eq, ← List.isEmpty_iff, isEmpty_take_chunkSize, List.isEmpty_iff]
  exact hne

/-- Once there is a first chunk, the header is prepared and written, then the chunks, and the sink is
flushed. -/
theorem encrypt_of_first {recipients : List PublicKey} {p : Pipe} {first : Octets} {source : Source}
    (hne : recipients ≠ []) (hfirst : first ≠ [])
    (hfill : p.source.fill chunkSize = (.ok first, source)) :
    encrypt S recipients p =
      match Envelope.prepare S .stream recipients p.tape with
      | (.error e, tape) => (.error e, { p with source, tape })
      | (.ok (key, header), tape) =>
        match p.sink.writeFrame [header.encode] with
        | (.error e, sink) => (.error e, ⟨source, sink, tape⟩)
        | (.ok (), sink) =>
          match sealChunks S key header.encode 0 0 first ⟨source, sink, tape⟩ with
          | (.error e, p) => (.error e, p)
          | (.ok total, p) =>
            match p.sink.flush with
            | .error e => (.error e, p)
            | .ok () => (.ok total, p) := by
  unfold encrypt
  rw [if_neg (by simpa using hne), hfill]
  dsimp only
  rewrite [if_neg (by simpa using hfirst)]
  rfl

/-- Sealing a stream that has data writes its header and its chunks, and counts the data. The header
names each recipient once, and its frame can be numbered. -/
theorem encrypt_ok {recipients : List PublicKey} {data : Octets} {source : Source} {sink : Sink}
    {tape : Tape} {n : Nat} {p : Pipe} (hne : data ≠ []) (hy : source.Yields data)
    (h : encrypt S recipients ⟨source, sink, tape⟩ = (.ok n, p)) :
    ∃ s : Sealed S recipients data,
      p.sink.octets = sink.octets ++ s.octets ∧ n = data.length ∧
      s.header.recipientIds = (recipients.map (·.keyId S)).eraseDups ∧
      s.header.encode.length < 2 ^ 32 := by
  have hsome : recipients ≠ [] := by
    rintro rfl
    cases h
  obtain ⟨source', hfill, hfirst, hrest⟩ := hy.first hne
  rw [encrypt_of_first hsome hfirst hfill] at h
  dsimp only at h
  split at h
  · cases h
  rename_i key header tape' hprep
  split at h
  · cases h
  rename_i sink' hheader
  obtain ⟨hlt, ho⟩ := Sink.octets_of_writeFrame hheader
  split at h
  · cases h
  rename_i total p' hchunks
  obtain ⟨bs, hb, hoct, hn⟩ := sealChunks_ok hrest hchunks
  rw [← chunks_of_ne hne] at hb
  split at h
  · cases h
  · cases h
    refine ⟨⟨key, header, bs, Envelope.prepare_ok hprep, hb⟩, ?_, ?_,
      Envelope.recipientIds_of_prepare hprep, by simpa using hlt⟩
    · rw [hoct, ho, Sealed.octets]
      simp
    · rw [hn, List.length_take, List.length_drop]
      omega

end EndToEnd.Stream
