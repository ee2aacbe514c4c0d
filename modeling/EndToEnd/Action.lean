/-
  Actions: computations that change a state and may fail.

  What an action has changed when it fails stays changed, which is what makes it worth stating that
  an operation leaves nothing behind.
-/
import EndToEnd.Error

namespace EndToEnd

/-- A computation that changes a state and may fail. -/
abbrev Action (σ : Type) := ExceptT Error (StateM σ)

namespace Action

variable {σ τ α : Type}

/-- An action that looks at nothing and changes nothing. -/
def lift (r : Except Error α) : Action σ α := fun s => (r, s)

/-- An action on a part of the state. -/
def on (get : σ → τ) (set : σ → τ → σ) (x : Action τ α) : Action σ α := fun s =>
  let (r, t) := x (get s)
  (r, set s t)

/-- Does an action for each item, in order. -/
def each (f : α → Action σ Unit) : List α → Action σ Unit
  | [] => pure ()
  | a :: as => do
    f a
    each f as

end Action

/-- Which of the next calls to a service fail, and with what. Calls after those succeed. -/
structure Schedule (ε : Type) where
  upcoming : List (Option ε)

namespace Schedule

variable {ε : Type}

/-- All calls succeed. -/
def clear : Schedule ε := ⟨[]⟩

/-- What the next call fails with, if it does. -/
def next (s : Schedule ε) : Option ε × Schedule ε := (s.upcoming.head?.join, ⟨s.upcoming.tail⟩)

end Schedule

end EndToEnd
