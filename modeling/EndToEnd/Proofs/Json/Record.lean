/-
  Records from which members are left out, and records with a changed member.

  A field whose member is left out is not there, and every other field is what it was
  (`fields?_without`); a change is seen in the field that it is made to (`fields?_change`). Both keep
  records that can be written and read back (`clear_without`, `clear_change`).
-/
import EndToEnd.Json.Record
import EndToEnd.Proofs.Json.RoundTrip

namespace EndToEnd.Json

/-- A record without the members of certain names. -/
def without (out : String → Bool) : Json → Json
  | record members => record (members.filter fun m => !m.1.any out)
  | v => v

/-- A record in which what stands under a name is changed. -/
def change (name : String) (f : Json → Json) : Json → Json
  | record members => record (members.map fun m => if m.1 = some name then (m.1, f m.2) else m)
  | v => v

variable {name : String} {names : List String} {members members' : List (Option String × Json)}
  {fields : List (Option Json)} {out : String → Bool} {f : Json → Json} {v : Json}

/-! ## Fields -/

/-- The fields of a record are changed where its members are. -/
theorem fields?_of_members {g : String → Option Json → Option Json}
    (hnamed : ∀ m' ∈ members', ∃ m ∈ members, m'.1 = m.1)
    (hmember : ∀ name w, member? name members = some w → member? name members' = some (g name w))
    (h : (record members).fields? names = some fields) :
    (record members').fields? names = some (List.zipWith g names fields) := by
  unfold fields? at h ⊢
  dsimp only at h ⊢
  split at h
  · rename_i hall
    have hall' : members'.all (fun m => m.1.isSome) = true := by
      rw [List.all_eq_true] at hall ⊢
      intro m' hm'
      obtain ⟨m, hm, hsame⟩ := hnamed m' hm'
      rw [hsame]
      exact hall m hm
    rw [if_pos hall']
    induction names generalizing fields with
    | nil =>
      cases h
      rfl
    | cons name names ih =>
      rw [List.mapM_cons] at h ⊢
      obtain ⟨w, hw, h⟩ := Option.bind_eq_some_iff.1 h
      obtain ⟨others, hothers, h⟩ := Option.bind_eq_some_iff.1 h
      cases h
      rw [hmember name w hw, ih hothers]
      rfl
  · cases h

theorem member?_filter (h : out name = false) :
    member? name (members.filter fun m => !m.1.any out) = member? name members := by
  unfold member?
  rw [List.filter_filter]
  have hsame : (members.filter fun m => m.1 == some name && !m.1.any out) =
      members.filter fun m => m.1 == some name := by
    apply List.filter_congr
    intro m _
    by_cases hm : m.1 = some name <;> simp [hm, h]
  rw [hsame]

theorem member?_filter_of_out (h : out name = true) :
    member? name (members.filter fun m => !m.1.any out) = some none := by
  unfold member?
  rw [List.filter_filter]
  have hnone : (members.filter fun m => m.1 == some name && !m.1.any out) = [] := by
    apply List.filter_eq_nil_iff.2
    intro m _
    by_cases hm : m.1 = some name <;> simp [hm, h]
  rw [hnone]

theorem member?_map (n : String) :
    member? n (members.map fun m => if m.1 = some name then (m.1, f m.2) else m) =
      (member? n members).map fun w => if n = name then w.map f else w := by
  have hfilter : (members.map fun m => if m.1 = some name then (m.1, f m.2) else m).filter
        (fun m => m.1 == some n) =
      (members.filter fun m => m.1 == some n).map fun m => if n = name then (m.1, f m.2) else m := by
    rw [List.filter_map]
    have hnames : ((fun m => m.1 == some n) ∘ fun m : Option String × Json =>
        if m.1 = some name then (m.1, f m.2) else m) = fun m => m.1 == some n := by
      funext m
      by_cases hm : m.1 = some name <;> simp [hm]
    rw [hnames]
    apply List.map_congr_left
    intro m hm
    have hn : m.1 = some n := by simpa using (List.mem_filter.1 hm).2
    by_cases h : n = name <;> simp [hn, h]
  unfold member?
  rw [hfilter]
  generalize members.filter (fun m => m.1 == some n) = found
  rcases found with _ | ⟨m, _ | ⟨m', found⟩⟩
  · by_cases h : n = name <;> simp [h]
  · by_cases h : n = name <;> simp [h]
  · rfl

/-- A field that is left out is not there, and all others are what they were. -/
theorem fields?_without (out : String → Bool)
    (h : (record members).fields? names = some fields) :
    ((record members).without out).fields? names =
      some (List.zipWith (fun name w => if out name then none else w) names fields) := by
  refine fields?_of_members (fun m hm => ⟨m, (List.mem_filter.1 hm).1, rfl⟩) (fun name w hw => ?_) h
  cases hout : out name with
  | true => rw [member?_filter_of_out hout, if_pos rfl]
  | false => rw [member?_filter hout, hw, if_neg Bool.false_ne_true]

/-- A change is seen in the field that it is made to, and in no other. -/
theorem fields?_change (name : String) (f : Json → Json)
    (h : (record members).fields? names = some fields) :
    ((record members).change name f).fields? names =
      some (List.zipWith (fun n w => if n = name then w.map f else w) names fields) := by
  refine fields?_of_members (fun m' hm' => ?_) (fun n w hw => ?_) h
  · obtain ⟨m, hm, rfl⟩ := List.mem_map.1 hm'
    refine ⟨m, hm, ?_⟩
    by_cases hname : m.1 = some name
    · rw [if_pos hname]
    · rw [if_neg hname]
  · rw [member?_map, hw]
    rfl

/-! ## The written form -/

theorem clearMembers_iff : ClearMembers members ↔ ∀ m ∈ members, m.1.isSome = true ∧ Clear m.2 := by
  induction members with
  | nil => simp [ClearMembers]
  | cons m members ih => simp [ClearMembers, ih, and_assoc]

theorem clear_without (out : String → Bool) (h : Clear v) : Clear (v.without out) := by
  cases v with
  | record members =>
    refine clearMembers_iff.2 fun m hm => ?_
    exact clearMembers_iff.1 h m (List.mem_filter.1 hm).1
  | _ => exact h

theorem clear_change (name : String) (hf : ∀ w, Clear w → Clear (f w)) (h : Clear v) :
    Clear (v.change name f) := by
  cases v with
  | record members =>
    refine clearMembers_iff.2 fun m' hm' => ?_
    obtain ⟨m, hm, rfl⟩ := List.mem_map.1 hm'
    obtain ⟨hname, hclear⟩ := clearMembers_iff.1 h m hm
    by_cases hm : m.1 = some name
    · rw [if_pos hm]
      exact ⟨hname, hf m.2 hclear⟩
    · rw [if_neg hm]
      exact ⟨hname, hclear⟩
  | _ => exact h

end EndToEnd.Json
