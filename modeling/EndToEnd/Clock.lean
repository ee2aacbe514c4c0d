/-
  Points in time: whole seconds since the start of 1970.
-/
import EndToEnd.Octets

namespace EndToEnd

/-- Seconds since the start of 1970. -/
abbrev Timestamp := Int64

namespace Timestamp

/-- The first second that has a date. -/
def firstDate : Timestamp := -8334601228800

/-- The last second that has a date. -/
def lastDate : Timestamp := 8210266876799

/-- A point in time that has a date. -/
def dated? (t : Timestamp) : Option Timestamp :=
  if firstDate ≤ t ∧ t ≤ lastDate then some t else none

/-- The milliseconds since the start of 1970. -/
def milliseconds (t : Timestamp) : Int := t.toInt * 1000

/-- The first second after a point in time; there is none after the last one. -/
def following (t : Timestamp) : Timestamp := if t = Int64.maxValue then t else t + 1

/-- The number of points in time before this one. -/
def rank (t : Timestamp) : Nat := (t.toInt + 2 ^ 63).toNat

theorem rank_lt {a b : Timestamp} (h : a < b) : a.rank < b.rank := by
  have := Int64.lt_iff_toInt_lt.1 h
  have := a.le_toInt
  simp only [rank]
  omega

/-- Items from the earliest to the latest; those of one time stay as they are. -/
def inOrder {α : Type} (time : α → Timestamp) (items : List α) : List α :=
  items.mergeSort fun a b => decide (time a ≤ time b)

/-- The latest item; of several, the last one. -/
def latest? {α : Type} (time : α → Timestamp) : List α → Option α
  | [] => none
  | a :: items => some (items.foldl (fun best b => if time best ≤ time b then b else best) a)

end Timestamp

end EndToEnd
