/-
  Choosing among several current cards of one identity.

  What a policy chooses depends on the times of the items alone, so it is the same for rows and for
  the chains that they stand for (`choose_map`); and where no two items have one time, it does not
  depend on their order (`choose_perm`).
-/
import EndToEnd.Card.Cache

namespace EndToEnd

variable {identity : String}

/-! ## The latest of some items -/

namespace Timestamp

variable {α β : Type} {time : α → Timestamp}

theorem latest?_eq_none_iff {items : List α} : latest? time items = none ↔ items = [] := by
  cases items with
  | nil => exact ⟨fun _ => rfl, fun _ => rfl⟩
  | cons a items => exact ⟨nofun, nofun⟩

/-- The latest of some items is one of them, and none is later. -/
theorem latest?_spec {items : List α} {a : α} (h : latest? time items = some a) :
    a ∈ items ∧ ∀ b ∈ items, time b ≤ time a := by
  cases items with
  | nil => cases h
  | cons c cs =>
    -- the fold keeps an item that is not earlier than any that it has passed
    have hfold : ∀ (cs : List α) (best : α),
        cs.foldl (fun best c => if time best ≤ time c then c else best) best ∈ best :: cs ∧
          ∀ b ∈ best :: cs,
            time b ≤ time (cs.foldl (fun best c => if time best ≤ time c then c else best) best) := by
      intro cs
      induction cs with
      | nil =>
        intro best
        refine ⟨List.mem_cons_self, fun b hb => ?_⟩
        rw [List.mem_singleton.1 hb]
        exact Int64.le_refl _
      | cons c cs ih =>
        intro best
        rw [List.foldl_cons]
        by_cases hle : time best ≤ time c
        · rw [if_pos hle]
          obtain ⟨hmem, hlast⟩ := ih c
          refine ⟨List.mem_cons_of_mem _ hmem, fun b hb => ?_⟩
          rcases List.mem_cons.1 hb with rfl | hb
          · exact Int64.le_trans hle (hlast c List.mem_cons_self)
          · exact hlast b hb
        · rw [if_neg hle]
          obtain ⟨hmem, hlast⟩ := ih best
          have hbest := hlast best List.mem_cons_self
          refine ⟨List.mem_cons.2 ((List.mem_cons.1 hmem).imp_right (List.mem_cons_of_mem _)),
            fun b hb => ?_⟩
          rcases List.mem_cons.1 hb with rfl | hb
          · exact hbest
          · rcases List.mem_cons.1 hb with rfl | hb
            · exact Int64.le_trans (Int64.le_of_lt (Int64.not_le.1 hle)) hbest
            · exact hlast b (List.mem_cons_of_mem _ hb)
    cases h
    exact hfold cs c

/-- The order of the items does not matter to which is the latest, where no two have one time. -/
theorem latest?_perm {xs ys : List α} (h : xs.Perm ys)
    (hties : ∀ a ∈ xs, ∀ b ∈ xs, time a = time b → a = b) : latest? time xs = latest? time ys := by
  cases hx : latest? time xs with
  | none =>
    rw [latest?_eq_none_iff] at hx
    rw [hx] at h
    rw [List.nil_perm.1 h]
    rfl
  | some a =>
    cases hy : latest? time ys with
    | none =>
      rw [latest?_eq_none_iff] at hy
      rw [hy] at h
      rw [List.perm_nil.1 h] at hx
      cases hx
    | some b =>
      obtain ⟨ha, hlast⟩ := latest?_spec hx
      obtain ⟨hb, hlast'⟩ := latest?_spec hy
      have hab := hlast' a (h.mem_iff.1 ha)
      have hba := hlast b (h.mem_iff.2 hb)
      rw [hties a ha b (h.mem_iff.2 hb) (Int64.le_antisymm hab hba)]

theorem latest?_map {time : β → Timestamp} (f : α → β) (items : List α) :
    latest? time (items.map f) = (latest? (fun a => time (f a)) items).map f := by
  cases items with
  | nil => rfl
  | cons a items =>
    have hfold : ∀ (items : List α) (best : α),
        (items.map f).foldl (fun best c => if time best ≤ time c then c else best) (f best) =
          f (items.foldl (fun best c => if time (f best) ≤ time (f c) then c else best) best) := by
      intro items
      induction items with
      | nil => exact fun _ => rfl
      | cons c items ih =>
        intro best
        rw [List.map_cons, List.foldl_cons, List.foldl_cons]
        by_cases hle : time (f best) ≤ time (f c)
        · rw [if_pos hle, if_pos hle, ih]
        · rw [if_neg hle, if_neg hle, ih]
    exact congrArg some (hfold items a)

end Timestamp

/-! ## Choices -/

theorem short_or_two_le {α : Type} (items : List α) :
    items = [] ∨ (∃ a, items = [a]) ∨ 2 ≤ items.length := by
  cases items with
  | nil => exact .inl rfl
  | cons a items =>
    cases items with
    | nil => exact .inr (.inl ⟨a, rfl⟩)
    | cons b items => exact .inr (.inr (Nat.le_add_left 2 items.length))

namespace DuplicatePolicy

variable {α β : Type} {time : α → Timestamp} {policy : DuplicatePolicy}

theorem choose_reject {items : List α} (h : 2 ≤ items.length) :
    reject.choose time identity items = .error (.ambiguousCards identity items.length) := by
  cases items with
  | nil => cases h
  | cons a items =>
    cases items with
    | nil => exact absurd h (Nat.lt_irrefl 1)
    | cons b items => rfl

theorem choose_preferNewest (items : List α) :
    preferNewest.choose time identity items =
      (Timestamp.latest? time items).elim (.error (.cardNotFound identity)) .ok := by
  cases items with
  | nil => rfl
  | cons a items => cases items <;> rfl

theorem choose_map {time : β → Timestamp} (f : α → β) (items : List α) :
    policy.choose time identity (items.map f) =
      (policy.choose (fun a => time (f a)) identity items).map f := by
  cases policy with
  | reject =>
    rcases short_or_two_le items with rfl | ⟨a, rfl⟩ | htwo
    · rfl
    · rfl
    · rw [choose_reject htwo, choose_reject (by rwa [List.length_map]), List.length_map]
      rfl
  | preferNewest =>
    rw [choose_preferNewest, choose_preferNewest, Timestamp.latest?_map]
    cases Timestamp.latest? (fun a => time (f a)) items <;> rfl

/-- The order of the items does not matter to what is chosen, where no two have one time. -/
theorem choose_perm {xs ys : List α} (h : xs.Perm ys)
    (hties : ∀ a ∈ xs, ∀ b ∈ xs, time a = time b → a = b) :
    policy.choose time identity xs = policy.choose time identity ys := by
  cases policy with
  | reject =>
    rcases short_or_two_le xs with rfl | ⟨a, rfl⟩ | htwo
    · rw [List.nil_perm.1 h]
    · rw [List.singleton_perm.1 h]
    · rw [choose_reject htwo, choose_reject (by rwa [← h.length_eq]), h.length_eq]
  | preferNewest =>
    rw [choose_preferNewest, choose_preferNewest, Timestamp.latest?_perm h hties]

/-- What is chosen among items is one of them, or the error says why there is none. -/
theorem choose_cases (policy : DuplicatePolicy) (time : α → Timestamp) (identity : String)
    (items : List α) :
    (items = [] ∧ policy.choose time identity items = .error (.cardNotFound identity)) ∨
      (policy = .reject ∧ 2 ≤ items.length ∧
        policy.choose time identity items = .error (.ambiguousCards identity items.length)) ∨
      ∃ a ∈ items, (policy = .reject → items.length = 1) ∧
        policy.choose time identity items = .ok a := by
  rcases short_or_two_le items with rfl | ⟨a, rfl⟩ | htwo
  · exact .inl ⟨rfl, rfl⟩
  · exact .inr (.inr ⟨a, List.mem_cons_self, fun _ => rfl, rfl⟩)
  · right
    cases policy with
    | reject => exact .inl ⟨rfl, htwo, choose_reject htwo⟩
    | preferNewest =>
      rw [choose_preferNewest]
      cases hlatest : Timestamp.latest? time items with
      | none =>
        rw [Timestamp.latest?_eq_none_iff] at hlatest
        rw [hlatest] at htwo
        cases htwo
      | some a => exact .inr ⟨a, (Timestamp.latest?_spec hlatest).1, nofun, rfl⟩

/-- What a policy chooses is one of the items. -/
theorem mem_of_choose {items : List α} {a : α} (h : policy.choose time identity items = .ok a) :
    a ∈ items := by
  rcases choose_cases policy time identity items with ⟨-, he⟩ | ⟨-, -, he⟩ | ⟨b, hb, -, he⟩
  · cases h.symm.trans he
  · cases h.symm.trans he
  · cases h.symm.trans he
    exact hb

/-- A choice fails for want of items, or where there are several and none is preferred. -/
theorem choose_eq_error_iff {items : List α} {e : Error} :
    policy.choose time identity items = .error e ↔
      (items.length = 0 ∧ e = .cardNotFound identity) ∨
        (policy = .reject ∧ 2 ≤ items.length ∧ e = .ambiguousCards identity items.length) := by
  rcases choose_cases policy time identity items with ⟨rfl, h⟩ | ⟨hp, htwo, h⟩ | ⟨a, ha, hone, h⟩
  · rw [h]
    constructor
    · intro he
      cases he
      exact .inl ⟨rfl, rfl⟩
    · rintro (⟨-, rfl⟩ | ⟨-, htwo, -⟩)
      · rfl
      · cases htwo
  · rw [h]
    constructor
    · intro he
      cases he
      exact .inr ⟨hp, htwo, rfl⟩
    · rintro (⟨hzero, -⟩ | ⟨-, -, rfl⟩)
      · rw [hzero] at htwo
        cases htwo
      · rfl
  · rw [h]
    refine ⟨nofun, ?_⟩
    rintro (⟨hzero, -⟩ | ⟨hp, htwo, -⟩)
    · rw [List.length_eq_zero_iff.1 hzero] at ha
      cases ha
    · rw [hone hp] at htwo
      exact absurd htwo (Nat.lt_irrefl 1)

/-- Whether a choice fails, and how, depends on the number of the items alone. -/
theorem choose_error_congr {time' : β → Timestamp} {xs : List α} {ys : List β}
    (h : xs.length = ys.length) {e : Error} :
    policy.choose time identity xs = .error e ↔ policy.choose time' identity ys = .error e := by
  rw [choose_eq_error_iff, choose_eq_error_iff, h]

end DuplicatePolicy

end EndToEnd
