/-
  Frames: octets behind their number, which is four octets with the most significant one first.

  Reading a frame takes at least those four octets off the source, which is why a loop over frames
  ends.
-/
import EndToEnd.Stream.Source

namespace EndToEnd.Stream

/-- The parts of a frame: its length, then the given parts. -/
def frameParts (parts : List Octets) : List Octets :=
  bigEndian 4 parts.flatten.length :: parts

/-- Writes a frame, part by part. -/
def Sink.writeFrame (parts : List Octets) (s : Sink) : Except CryptoError Unit × Sink :=
  if 2 ^ 32 ≤ parts.flatten.length then (.error (.encryption "Frame too large"), s)
  else s.writeAll (frameParts parts)

/-- Reads a frame of at most `limit` octets; none if the source ends in front of it. -/
def Source.readFrame (limit : Nat) (s : Source) : Except CryptoError (Option Octets) × Source :=
  match s.fill 4 with
  | (.error e, s) => (.error e, s)
  | (.ok len, s) =>
    if len.length = 0 then (.ok none, s)
    else if len.length ≠ 4 then (.error (.invalidFormat "Truncated frame length"), s)
    else
      let n := ofBigEndian len
      if limit < n then
        (.error (.invalidFormat s!"Frame of {n} bytes exceeds the limit of {limit}"), s)
      else
        match s.fill n with
        | (.error e, s) => (.error e, s)
        | (.ok frame, s) =>
          if frame.length ≠ n then (.error (.invalidFormat "Truncated frame"), s)
          else (.ok (some frame), s)

theorem Source.collect_size {n : Nat} {es es' : List ReadEvent} {acc out : List Octets}
    (h : Source.collect n es acc = (.ok out, es')) :
    Source.size es' + out.flatten.length = Source.size es + acc.flatten.length := by
  induction n, es, acc using Source.collect.induct with
  | case1 es acc => simp only [collect] at h; cases h; rfl
  | case2 n acc => simp only [collect] at h; cases h; simp [size]
  | case3 n es acc ih => simp only [collect] at h; simpa [size] using ih h
  | case4 n es acc => simp only [collect] at h; cases h; simp [size]
  | case5 n reason es acc => simp only [collect] at h; cases h
  | case6 n b more es acc hd ih =>
    simp only [collect, hd] at h
    have := ih h
    simp [size] at this ⊢
    omega
  | case7 n b more es acc c rest hd =>
    simp only [collect, hd] at h
    cases h
    have hl : (more.drop n).length = rest.length + 1 := by rw [hd]; rfl
    simp [size] at hl ⊢
    omega

theorem Source.fill_size {n : Nat} {s s' : Source} {o : Octets} (h : s.fill n = (.ok o, s')) :
    Source.size s'.events + o.length = Source.size s.events := by
  unfold fill at h
  split at h
  · rename_i pieces es hc
    cases h
    have := collect_size hc
    have hr : pieces.reverse.flatten.length = pieces.flatten.length := by
      simp [List.length_flatten, List.map_reverse, List.sum_reverse]
    simp at this ⊢
    simp [List.length_flatten] at hr this ⊢
    omega
  · cases h

theorem Source.readFrame_size {limit : Nat} {s s' : Source} {frame : Octets}
    (h : s.readFrame limit = (.ok (some frame), s')) :
    Source.size s'.events < Source.size s.events := by
  unfold readFrame at h
  split at h
  · cases h
  · rename_i len s1 h1
    have e1 := fill_size h1
    split at h
    · cases h
    · split at h
      · cases h
      · rename_i hne h4
        simp only at h
        split at h
        · cases h
        · split at h
          · cases h
          · rename_i fr s2 h2
            have e2 := fill_size h2
            split at h
            · cases h
            · cases h
              omega

end EndToEnd.Stream
