/-
  Reading tables: rows found by key, and what stays the same when rows are written.
-/
import EndToEnd.Table

namespace EndToEnd.Table

variable {α κ : Type} {key : α → κ}

@[simp] theorem rows_empty : (empty : Table key).rows = [] := rfl

theorem ext_rows {t u : Table key} (h : t.rows = u.rows) : t = u := by
  cases t
  cases u
  cases h
  rfl

/-- No row occurs twice, also among those that are left when some are dropped. -/
theorem nodup_filter (t : Table key) (p : α → Bool) : (t.rows.filter p).Nodup := by
  have hdistinct := List.pairwise_map.1 t.distinct
  refine List.Pairwise.sublist List.filter_sublist (hdistinct.imp fun hne heq => hne ?_)
  rw [heq]

/-- A row that alone has a property is all that is left when the others are dropped. -/
theorem filter_eq_singleton {a : α} {t : Table key} {p : α → Bool} (ha : a ∈ t.rows)
    (hp : p a = true) (h : ∀ b ∈ t.rows, p b = true → b = a) : t.rows.filter p = [a] := by
  have hmem : a ∈ t.rows.filter p := List.mem_filter.2 ⟨ha, hp⟩
  have hall : ∀ b ∈ t.rows.filter p, b = a := by
    intro b hb
    obtain ⟨hb, hpb⟩ := List.mem_filter.1 hb
    exact h b hb hpb
  have hdistinct : ((t.rows.filter p).map key).Nodup :=
    t.distinct.sublist (List.filter_sublist.map _)
  cases hf : t.rows.filter p with
  | nil => rw [hf] at hmem; cases hmem
  | cons b bs =>
    rw [hf] at hall hdistinct
    obtain rfl := hall b List.mem_cons_self
    cases bs with
    | nil => rfl
    | cons c cs =>
      -- a second row would be the same row again
      obtain rfl := hall c (List.mem_cons_of_mem _ List.mem_cons_self)
      exact absurd List.mem_cons_self (List.nodup_cons.1 hdistinct).1

variable [DecidableEq κ]

@[simp] theorem find?_empty (k : κ) : (empty : Table key).find? k = none := rfl

theorem mem_of_find? {k : κ} {a : α} {t : Table key} (h : t.find? k = some a) : a ∈ t.rows :=
  (find?_eq_some_iff.1 h).1

theorem key_of_find? {k : κ} {a : α} {t : Table key} (h : t.find? k = some a) : key a = k :=
  (find?_eq_some_iff.1 h).2

theorem find?_key {a : α} {t : Table key} (h : a ∈ t.rows) : t.find? (key a) = some a :=
  find?_eq_some_iff.2 ⟨h, rfl⟩

/-- Rows with one key are one row. -/
theorem eq_of_key_eq {a b : α} {t : Table key} (ha : a ∈ t.rows) (hb : b ∈ t.rows)
    (h : key a = key b) : a = b := by
  have := find?_key ha
  rw [h, find?_key hb] at this
  exact (Option.some.inj this).symm

theorem has_eq_true_iff {k : κ} {t : Table key} : t.has k = true ↔ ∃ a ∈ t.rows, key a = k := by
  unfold has
  rw [Option.isSome_iff_exists]
  exact exists_congr fun a => find?_eq_some_iff

theorem has_eq_false_iff {k : κ} {t : Table key} : t.has k = false ↔ t.find? k = none := by
  unfold has
  cases t.find? k <;> simp

/-- Rows that are dropped by their keys are not found, and all others are. -/
theorem find?_keep {p : α → Bool} {q : κ → Bool} (h : ∀ a, p a = q (key a)) (k : κ) (t : Table key) :
    (t.keep p).find? k = if q k then t.find? k else none := by
  split
  · rename_i hq
    apply Option.ext
    intro a
    rw [find?_eq_some_iff, find?_eq_some_iff, keep, List.mem_filter, h]
    exact ⟨fun ha => ⟨ha.1.1, ha.2⟩, fun ha => ⟨⟨ha.1, by rw [ha.2]; exact hq⟩, ha.2⟩⟩
  · rename_i hq
    rw [find?_eq_none_iff]
    intro a ha hk
    have hkept := (List.mem_filter.1 ha).2
    rw [h, hk] at hkept
    exact hq hkept

/-- Among rows with a property nothing changes when a row without it is written, in place of one without
it. -/
theorem filter_insert {p : α → Bool} {a : α} {t : Table key} (ha : p a = false)
    (hold : ∀ b ∈ t.rows, key b = key a → p b = false) :
    (t.insert a).rows.filter p = t.rows.filter p := by
  have hothers : (t.erase (key a)).rows.filter p = t.rows.filter p := by
    rw [erase, keep, List.filter_filter]
    refine List.filter_congr fun b hb => ?_
    by_cases hk : key b = key a
    · rw [hold b hb hk, Bool.false_and]
    · rw [decide_eq_true hk, Bool.and_true]
  have hnone : [a].filter p = [] := List.filter_cons_of_neg (by rw [ha]; exact Bool.false_ne_true)
  rw [insert, List.filter_append, hothers, hnone, List.append_nil]

/-- Erasing a key that no row has changes nothing. -/
theorem erase_of_not_has {k : κ} {t : Table key} (h : t.has k = false) : t.erase k = t := by
  apply ext_rows
  refine List.filter_eq_self.2 fun a ha => ?_
  have hne := find?_eq_none_iff.1 (has_eq_false_iff.1 h) a ha
  simpa using hne

/-- A row with a new key is put behind the others. -/
theorem rows_insert_of_not_has {a : α} {t : Table key} (h : t.has (key a) = false) :
    (t.insert a).rows = t.rows ++ [a] := by
  change (t.erase (key a)).rows ++ [a] = _
  rw [erase_of_not_has h]

end EndToEnd.Table
