/-
  Sealing a stream in chunks and opening it again.

  A stream is the frame of a header and one frame for each chunk: a flag that is 1 for the last
  chunk, a nonce, and the chunk locked together with the header, its number and the flag. Every
  chunk but the last is full, so a chunk is written once it is known whether another one follows.
-/
import EndToEnd.Envelope.Seal
import EndToEnd.Stream.Frame

namespace EndToEnd.Stream

open Envelope (Header Mode)

/-- Octets of data in a full chunk. -/
def chunkSize : Nat := 64 * 1024

/-- The longest header frame that is read. -/
def maxHeader : Nat := 1024 * 1024

/-- The longest chunk frame that is read: a flag, a nonce, a full chunk and its tag. -/
def maxChunkFrame : Nat := 1 + 12 + chunkSize + 16

/-- The flag of a chunk. -/
def flag (isLast : Bool) : UInt8 := if isLast then 1 else 0

/-- What a chunk is locked together with. -/
def chunkContext (header : Octets) (index : Nat) (isLast : Bool) : Octets :=
  header ++ (bigEndian 8 index ++ [flag isLast])

/-- What a stream is sealed with: where it comes from, where it goes, and random octets. -/
structure Pipe where
  source : Source
  sink : Sink
  tape : Tape

/-- Locks one chunk and writes its frame. -/
def sealChunk (S : CipherSuite) (key : Block 32) (header : Octets) (index : Nat) (isLast : Bool)
    (data : Octets) (sink : Sink) (tape : Tape) : Except CryptoError Unit × Sink × Tape :=
  match Envelope.lockFresh S key data (chunkContext header index isLast) tape with
  | (.error e, tape) => (.error e, sink, tape)
  | (.ok (nonce, sealed), tape) =>
    let (result, sink) := sink.writeFrame [[flag isLast], nonce.octets, sealed]
    (result, sink, tape)

/-- Seals chunk `index`, which has been read, and those after it; `total` octets came before. -/
def sealChunks (S : CipherSuite) (key : Block 32) (header : Octets) (index total : Nat)
    (current : Octets) (p : Pipe) : Except CryptoError Nat × Pipe :=
  match _h : p.source.fill chunkSize with
  | (.error e, source) => (.error e, { p with source })
  | (.ok next, source) =>
    match sealChunk S key header index next.isEmpty current p.sink p.tape with
    | (.error e, sink, tape) => (.error e, ⟨source, sink, tape⟩)
    | (.ok (), sink, tape) =>
      if _hn : next.isEmpty then (.ok (total + current.length), ⟨source, sink, tape⟩)
      else sealChunks S key header (index + 1) (total + current.length) next ⟨source, sink, tape⟩
termination_by Source.size p.source.events
decreasing_by
  have := Source.fill_size _h
  have : next ≠ [] := by simpa using _hn
  have := List.length_pos_iff.2 this
  omega

/-- Seals a whole stream for recipients and says how many octets of data it held. An empty source
leaves nothing and draws nothing. -/
def encrypt (S : CipherSuite) (recipients : List PublicKey) (p : Pipe) :
    Except CryptoError Nat × Pipe :=
  if recipients.isEmpty then (.error (.encryption "No recipients"), p)
  else
    match p.source.fill chunkSize with
    | (.error e, source) => (.error e, { p with source })
    | (.ok first, source) =>
      if first.isEmpty then (.ok 0, { p with source })
      else
        match Envelope.prepare S .stream recipients p.tape with
        | (.error e, tape) => (.error e, { p with source, tape })
        | (.ok (key, header), tape) =>
          match p.sink.writeFrame [header.encode] with
          | (.error e, sink) => (.error e, ⟨source, sink, tape⟩)
          | (.ok (), sink) =>
            match sealChunks S key header.encode 0 0 first ⟨source, sink, tape⟩ with
            | (.error e, p) => (.error e, p)
            | (.ok total, p) =>
              match p.sink.flush with
              | .error e => (.error e, p)
              | .ok () => (.ok total, p)

/-- The flag that an octet is. -/
def readFlag (b : UInt8) : Except CryptoError Bool :=
  if b = 0 then .ok false
  else if b = 1 then .ok true
  else .error (.invalidFormat s!"Invalid chunk flag {b.toNat}")

/-- The data of the frame of chunk `index`, and whether it is the last one. -/
def openChunk (S : CipherSuite) (key : Block 32) (header : Octets) (index : Nat) :
    Octets → Except CryptoError (Bool × Octets)
  | [] => .error (.invalidFormat "Truncated chunk")
  | b :: rest =>
    match Block.ofOctets? 12 (rest.take 12) with
    | none => .error (.invalidFormat "Truncated chunk")
    | some nonce =>
      match readFlag b with
      | .error e => .error e
      | .ok isLast =>
        match Envelope.unlock S key nonce (rest.drop 12) (chunkContext header index isLast) with
        | .error e => .error e
        | .ok data => .ok (isLast, data)

/-- Opens chunk `index` and those after it, up to one that is the last; `total` octets came
before. -/
def openChunks (S : CipherSuite) (key : Block 32) (header : Octets) (index total : Nat)
    (source : Source) (sink : Sink) : Except CryptoError Nat × Source × Sink :=
  match _h : source.readFrame maxChunkFrame with
  | (.error e, source) => (.error e, source, sink)
  | (.ok none, source) =>
    (.error (.invalidFormat "Stream ended before its last chunk"), source, sink)
  | (.ok (some frame), source') =>
    match openChunk S key header index frame with
    | .error e => (.error e, source', sink)
    | .ok (isLast, data) =>
      match sink.write data with
      | (.error e, sink) => (.error e, source', sink)
      | (.ok (), sink) =>
        if isLast then (.ok (total + data.length), source', sink)
        else openChunks S key header (index + 1) (total + data.length) source' sink
termination_by Source.size source.events
decreasing_by exact Source.readFrame_size _h

/-- The header of a stream. -/
def decodeHeader (o : Octets) : Except CryptoError Header :=
  match Envelope.takeHeader o with
  | none => .error (.invalidFormat "Malformed stream header: not the octets of a header")
  | some (h, _) =>
    if h.version ≠ Envelope.currentVersion then .error (Envelope.unsupportedVersion h.version)
    else if h.mode ≠ .stream then
      .error (.invalidFormat s!"Expected Stream envelope, found {h.mode.name}")
    else .ok h

/-- Opens a whole stream and says how many octets of data it held. Chunks are written as they are
opened, so after an error the sink holds the front of the data. -/
def decrypt (S : CipherSuite) (recipient : KeyPair) (source : Source) (sink : Sink) :
    Except CryptoError Nat × Sink :=
  match source.readFrame maxHeader with
  | (.error e, _) => (.error e, sink)
  | (.ok none, _) => (.ok 0, sink)
  | (.ok (some header), source) =>
    match (decodeHeader header).bind fun h => h.contentKey S recipient with
    | .error e => (.error e, sink)
    | .ok key =>
      match openChunks S key header 0 0 source sink with
      | (.error e, _, sink) => (.error e, sink)
      | (.ok total, source, sink) =>
        match source.fill 1 with
        | (.error e, _) => (.error e, sink)
        | (.ok trailing, _) =>
          if trailing.isEmpty then
            match sink.flush with
            | .error e => (.error e, sink)
            | .ok () => (.ok total, sink)
          else (.error (.invalidFormat "Data after the last chunk"), sink)

end EndToEnd.Stream
