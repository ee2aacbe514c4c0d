/-
  Lists of texts in order.
-/
namespace EndToEnd.Text

/-- Sorting distinct texts puts each of them strictly before the next. -/
theorem pairwise_lt_mergeSort {texts : List String} (h : texts.Nodup) :
    (texts.mergeSort fun a b => decide (a ≤ b)).Pairwise (· < ·) := by
  have hle : (texts.mergeSort fun a b => decide (a ≤ b)).Pairwise fun a b => decide (a ≤ b) = true := by
    apply List.pairwise_mergeSort
    · intro a b c hab hbc
      exact decide_eq_true (String.le_trans (of_decide_eq_true hab) (of_decide_eq_true hbc))
    · intro a b
      rcases String.le_total a b with hab | hba
      · rw [decide_eq_true hab, Bool.true_or]
      · rw [decide_eq_true hba, Bool.or_true]
  have hne : (texts.mergeSort fun a b => decide (a ≤ b)).Nodup :=
    (List.mergeSort_perm texts _).nodup_iff.2 h
  refine hle.imp₂ (fun a b hab hn => ?_) hne
  exact String.not_le.1 fun hba => hn (String.le_antisymm (of_decide_eq_true hab) hba)

/-- No text occurs twice once repeats are dropped. -/
theorem nodup_eraseDups : ∀ texts : List String, texts.eraseDups.Nodup
  | [] => List.nodup_nil
  | a :: texts => by
    rw [List.eraseDups_cons, List.nodup_cons]
    refine ⟨fun ha => ?_, nodup_eraseDups _⟩
    rw [List.mem_eraseDups, List.mem_filter] at ha
    simp at ha
termination_by texts => texts.length
decreasing_by exact Nat.lt_succ_of_le (List.length_filter_le _ _)

/-- Where there are no repeats, dropping them changes nothing. -/
theorem eraseDups_of_nodup {texts : List String} (h : texts.Nodup) : texts.eraseDups = texts := by
  induction texts with
  | nil => rfl
  | cons a texts ih =>
    obtain ⟨hnew, h⟩ := List.nodup_cons.1 h
    have hothers : texts.filter (fun b => !b == a) = texts := by
      refine List.filter_eq_self.2 fun b hb => ?_
      have hne : b ≠ a := ne_of_mem_of_not_mem hb hnew
      simpa using hne
    rw [List.eraseDups_cons, hothers, ih h]

/-- The first text of a kind is the first one also where repeats are left out. -/
theorem find?_eraseDups (p : String → Bool) :
    ∀ texts : List String, texts.eraseDups.find? p = texts.find? p
  | [] => rfl
  | a :: texts => by
    rw [List.eraseDups_cons, List.find?_cons, List.find?_cons]
    cases hp : p a with
    | true => rfl
    | false =>
      rw [find?_eraseDups p, List.find?_filter]
      refine congrArg (fun q => texts.find? q) (funext fun b => ?_)
      by_cases hb : b = a
      · rw [hb, hp]
        simp
      · simp [hb]
termination_by texts => texts.length
decreasing_by exact Nat.lt_succ_of_le (List.length_filter_le _ _)

/-- Texts in strict order are told by which they are. -/
theorem eq_of_pairwise_lt {xs ys : List String} (hx : xs.Pairwise (· < ·)) (hy : ys.Pairwise (· < ·))
    (h : ∀ a, a ∈ xs ↔ a ∈ ys) : xs = ys := by
  have hperm : xs.Perm ys :=
    (List.perm_ext_iff_of_nodup (hx.imp String.ne_of_lt) (hy.imp String.ne_of_lt)).2 h
  exact hperm.eq_of_pairwise (fun a b _ _ hab hba => absurd hab (String.lt_asymm hba)) hx hy

end EndToEnd.Text
