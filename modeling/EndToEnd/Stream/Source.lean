/-
  Sources that are read piece by piece and sinks that are written to.

  A source hands out octets in pieces of any size, may be interrupted in between, may report its end
  early, and ends or breaks. `fill` reads until it has what was asked for; where the source neither
  breaks nor reports its end early, what it gives depends on the octets alone.
-/
import EndToEnd.Error
import EndToEnd.Octets

namespace EndToEnd.Stream

/-- What a source answers to a call that asks for octets. A piece is handed out up to the number that
was asked for; the rest of it stays ready. -/
inductive ReadEvent where
  /-- Octets that are ready; there is at least one. -/
  | piece (first : UInt8) (more : Octets)
  /-- Nothing yet: the reader has to ask again. -/
  | interruption
  /-- Nothing, as at the end, although there may be more when it is asked again. -/
  | pause
  /-- The source is broken. -/
  | failure (reason : String)

/-- A source: what it has, in order. After that it reports its end each time it is asked. -/
structure Source where
  events : List ReadEvent

namespace Source

/-- The number of octets a source still has. -/
def size : List ReadEvent → Nat
  | [] => 0
  | .piece _ more :: es => more.length + 1 + size es
  | _ :: es => size es

/-- The pieces of the first `n` octets, last piece first, in front of those in `acc`; fewer octets
where the source reports its end. -/
def collect : (n : Nat) → List ReadEvent → (acc : List Octets) →
    Except CryptoError (List Octets) × List ReadEvent
  | 0, es, acc => (.ok acc, es)
  | _ + 1, [], acc => (.ok acc, [])
  | n + 1, .interruption :: es, acc => collect (n + 1) es acc
  | _ + 1, .pause :: es, acc => (.ok acc, es)
  | _ + 1, .failure reason :: es, _ => (.error (.stream reason), es)
  | n + 1, .piece b more :: es, acc =>
    match more.drop n with
    | [] => collect (n - more.length) es ((b :: more) :: acc)
    | c :: rest => (.ok ((b :: more.take n) :: acc), .piece c rest :: es)

/-- Reads until there are `n` octets or the source reports its end. -/
def fill (n : Nat) (s : Source) : Except CryptoError Octets × Source :=
  match collect n s.events [] with
  | (.ok pieces, es) => (.ok pieces.reverse.flatten, ⟨es⟩)
  | (.error e, es) => (.error e, ⟨es⟩)

end Source

/-- A sink: what it has accepted, and how much more it will. -/
structure Sink where
  /-- The accepted pieces, last one first. -/
  accepted : List Octets
  /-- How many more octets are accepted; any number if there is none. -/
  room : Option Nat
  /-- What it says when it is full. -/
  fullReason : String
  /-- Why it cannot be flushed, if it cannot. -/
  flushFailure : Option String

namespace Sink

/-- The octets a sink has accepted. -/
def octets (s : Sink) : Octets := s.accepted.reverse.flatten

/-- A sink that accepts everything. -/
def unlimited : Sink := ⟨[], none, "", none⟩

/-- Writes octets; where they do not fit, as many of them as do. -/
def write (o : Octets) (s : Sink) : Except CryptoError Unit × Sink :=
  match s.room with
  | none => (.ok (), { s with accepted := o :: s.accepted })
  | some room =>
    if o.length ≤ room then
      (.ok (), { s with accepted := o :: s.accepted, room := some (room - o.length) })
    else
      (.error (.stream s.fullReason),
        { s with accepted := o.take room :: s.accepted, room := some 0 })

/-- Writes parts one after the other, up to the first that does not fit. -/
def writeAll : List Octets → Sink → Except CryptoError Unit × Sink
  | [], s => (.ok (), s)
  | o :: os, s =>
    match s.write o with
    | (.ok (), s) => writeAll os s
    | (.error e, s) => (.error e, s)

/-- Makes sure that everything accepted has arrived. -/
def flush (s : Sink) : Except CryptoError Unit :=
  match s.flushFailure with
  | none => .ok ()
  | some reason => .error (.stream reason)

end Sink

end EndToEnd.Stream
