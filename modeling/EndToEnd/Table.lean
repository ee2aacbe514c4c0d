/-
  Tables: rows in the order they were written, each under a key of its own.

  Writing a row takes the place of the row that had its key and puts the new one last. Reading by key
  after a write gives the row that was written, and leaves all other keys alone.
-/
namespace EndToEnd

/-- Rows with distinct keys. -/
structure Table {α κ : Type} (key : α → κ) where
  rows : List α
  distinct : (rows.map key).Nodup

namespace Table

variable {α κ : Type} {key : α → κ}

/-- A table without rows. -/
def empty : Table key := ⟨[], by simp⟩

instance : Inhabited (Table key) := ⟨empty⟩

/-- The rows with a property. -/
def keep (p : α → Bool) (t : Table key) : Table key :=
  ⟨t.rows.filter p, List.Pairwise.sublist (List.filter_sublist.map key) t.distinct⟩

variable [DecidableEq κ]

/-- The row with a key. -/
def find? (k : κ) (t : Table key) : Option α := t.rows.find? (fun a => key a = k)

/-- Whether there is a row with a key. -/
def has (k : κ) (t : Table key) : Bool := (t.find? k).isSome

/-- The table without the row that has a key. -/
def erase (k : κ) (t : Table key) : Table key := t.keep (fun a => key a ≠ k)

/-- Writes a row in place of the one that has its key. -/
def insert (a : α) (t : Table key) : Table key where
  rows := (t.erase (key a)).rows ++ [a]
  distinct := by
    rw [List.map_append, List.nodup_append]
    refine ⟨(t.erase (key a)).distinct, by simp, ?_⟩
    intro x hx y hy h
    simp only [List.map_cons, List.map_nil, List.mem_singleton] at hy
    subst hy h
    obtain ⟨b, hb, hk⟩ := List.mem_map.1 hx
    simp [erase, keep] at hb
    exact hb.2 hk

theorem mem_erase {k : κ} {a : α} {t : Table key} :
    a ∈ (t.erase k).rows ↔ a ∈ t.rows ∧ key a ≠ k := by
  simp [erase, keep]

theorem mem_insert {a b : α} {t : Table key} :
    b ∈ (t.insert a).rows ↔ b = a ∨ (b ∈ t.rows ∧ key b ≠ key a) := by
  simp [insert, mem_erase, or_comm]

theorem forall_insert {a : α} {t : Table key} {P : α → Prop} (ha : P a) (ht : ∀ b ∈ t.rows, P b) :
    ∀ b ∈ (t.insert a).rows, P b := by
  intro b hb
  rcases mem_insert.1 hb with rfl | ⟨hb, -⟩
  · exact ha
  · exact ht b hb

/-- Rows with distinct keys are found by them. -/
theorem find?_rows {k : κ} {a : α} :
    {rows : List α} → (rows.map key).Nodup →
      (rows.find? (fun b => key b = k) = some a ↔ a ∈ rows ∧ key a = k)
  | [], _ => by simp
  | b :: rows, h => by
    have ⟨hb, hrows⟩ := List.nodup_cons.1 h
    rw [List.find?_cons]
    by_cases hk : key b = k
    · simp only [hk, decide_true, Option.some.injEq, List.mem_cons]
      constructor
      · rintro rfl
        exact ⟨.inl rfl, hk⟩
      · rintro ⟨rfl | ha, hak⟩
        · rfl
        · exact absurd (List.mem_map.2 ⟨a, ha, hak.trans hk.symm⟩) hb
    · simp only [hk, decide_false, find?_rows hrows, List.mem_cons]
      constructor
      · exact fun ⟨ha, hak⟩ => ⟨.inr ha, hak⟩
      · rintro ⟨rfl | ha, hak⟩
        · exact absurd hak hk
        · exact ⟨ha, hak⟩

theorem find?_eq_some_iff {k : κ} {a : α} {t : Table key} :
    t.find? k = some a ↔ a ∈ t.rows ∧ key a = k := find?_rows t.distinct

theorem find?_eq_none_iff {k : κ} {t : Table key} :
    t.find? k = none ↔ ∀ a ∈ t.rows, key a ≠ k := by
  simp [find?]

theorem find?_insert (k : κ) (a : α) (t : Table key) :
    (t.insert a).find? k = if key a = k then some a else t.find? k := by
  split
  · rename_i h
    rw [find?_eq_some_iff, mem_insert]
    exact ⟨.inl rfl, h⟩
  · rename_i h
    apply Option.ext
    intro b
    rw [find?_eq_some_iff, find?_eq_some_iff, mem_insert]
    constructor
    · rintro ⟨rfl | ⟨hb, _⟩, hk⟩
      · exact absurd hk h
      · exact ⟨hb, hk⟩
    · rintro ⟨hb, hk⟩
      exact ⟨.inr ⟨hb, fun e => h (e.symm.trans hk)⟩, hk⟩

theorem find?_erase (k l : κ) (t : Table key) :
    (t.erase l).find? k = if k = l then none else t.find? k := by
  split
  · rename_i h
    rw [find?_eq_none_iff]
    intro a ha
    exact h ▸ (mem_erase.1 ha).2
  · rename_i h
    apply Option.ext
    intro b
    rw [find?_eq_some_iff, find?_eq_some_iff, mem_erase]
    exact ⟨fun ⟨⟨hb, _⟩, hk⟩ => ⟨hb, hk⟩, fun ⟨hb, hk⟩ => ⟨⟨hb, fun e => h (hk.symm.trans e)⟩, hk⟩⟩

end Table

end EndToEnd
