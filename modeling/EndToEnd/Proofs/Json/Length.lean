/-
  Every text in a value that was read stands in the octets, between its quotes.

  A text may be written with escapes, which only makes it longer, so each text of the value is at
  least two octets shorter than what it was read from. `read?_texts` says so of all texts of a value
  at once; it bounds from below the octets of any record with a text of known length in it.
-/
import EndToEnd.Json.Record
import EndToEnd.Proofs.Text.Utf8

namespace EndToEnd.Json

/-! ## Strings -/

/-- The octets that an atom is written with, at the least. -/
def Atom.width : Atom → Nat
  | octet _ => 1
  | unit _ => 6

/-- The octets that atoms are written with, at the least. -/
def widths : List Atom → Nat
  | [] => 0
  | a :: as => a.width + widths as

theorem widths_append (as bs : List Atom) : widths (as ++ bs) = widths as + widths bs := by
  induction as with
  | nil => rw [List.nil_append, widths, Nat.zero_add]
  | cons a as ih => rw [List.cons_append, widths, widths, ih, Nat.add_assoc]

theorem widths_reverse (as : List Atom) : widths as.reverse = widths as := by
  induction as with
  | nil => rfl
  | cons a as ih => rw [List.reverse_cons, widths_append, ih, widths, widths, widths, Nat.add_comm]; rfl

theorem length_charOctets_le (n : Nat) : (charOctets n).length ≤ 4 := by
  have h : charOctets n = String.utf8EncodeChar (Char.ofNat n) := by
    unfold charOctets
    rw [Utf8.encode_eq_octets]
    simp [Utf8.octets]
  rw [h, String.length_utf8EncodeChar]
  exact Char.utf8Size_le_four _

/-- Atoms stand for no more octets than they are written with. -/
theorem content?_length {as : List Atom} {acc o : Octets} (h : content? as acc = some o) :
    o.length ≤ acc.length + widths as := by
  induction as, acc using content?.induct with
  | case1 acc =>
    rw [content?] at h
    cases h
    simp [widths]
  | case2 b rest acc ih =>
    rw [content?] at h
    have := ih h
    simp only [widths, Atom.width, List.length_cons] at this ⊢
    omega
  | case3 n m rest acc hn hm ih =>
    rw [content?, if_pos hn, if_pos hm] at h
    have := ih h
    have hpair := length_charOctets_le (0x10000 + (n - 0xd800) * 0x400 + (m - 0xdc00))
    simp only [widths, Atom.width, List.length_append, List.length_reverse] at this ⊢
    omega
  | case4 n m rest acc hn hm =>
    rw [content?, if_pos hn, if_neg hm] at h
    cases h
  | case5 n m rest acc hn hl =>
    rw [content?, if_neg hn, if_pos hl] at h
    cases h
  | case6 n m rest acc hn hl ih =>
    rw [content?, if_neg hn, if_neg hl] at h
    have := ih h
    have hunit := length_charOctets_le n
    simp only [widths, Atom.width, List.length_append, List.length_reverse] at this ⊢
    omega
  | case7 n rest acc hrest hn =>
    rw [content?, if_pos hn] at h
    · cases h
    · exact hrest
  | case8 n rest acc hrest hn ih =>
    rw [content?, if_neg hn] at h
    · have := ih h
      have hunit := length_charOctets_le n
      simp only [widths, Atom.width, List.length_append, List.length_reverse] at this ⊢
      omega
    · exact hrest

/-- A text has no more characters than its atoms are written with. -/
theorem stringToken_length {as : List Atom} {s : String} (h : stringToken as = .text s) :
    s.toList.length ≤ widths as := by
  unfold stringToken at h
  split at h
  · rename_i t ht
    obtain rfl := Token.text.inj h
    obtain ⟨o, ho, hs⟩ := Option.bind_eq_some_iff.1 ht
    obtain rfl := Utf8.decode?_eq_some_iff.1 hs
    have hle := content?_length ho
    rw [List.length_nil, Nat.zero_add] at hle
    exact Nat.le_trans (Utf8.length_le_encode t) hle
  · cases h

/-- What the atoms of a string are written with stands in front of what follows the string. -/
theorem atoms_length {o rest : Octets} {acc as : List Atom} (h : atoms o acc = some (as, rest)) :
    widths as + rest.length + 1 ≤ widths acc + o.length := by
  fun_induction atoms o acc with
  | case1 acc => cases h
  | case2 b rest' acc hb =>
    cases h
    rw [widths_reverse, List.length_cons]
    omega
  | case3 b acc hb hs a b' c d rest' hu => cases h
  | case4 b acc hb hs a b' c d rest' n hu ih =>
    have := ih h
    simp only [widths, Atom.width, List.length_cons] at this ⊢
    omega
  | case5 b acc hb hs e rest' hne he => cases h
  | case6 b acc hb hs e rest' hne c he ih =>
    have := ih h
    simp only [widths, Atom.width, List.length_cons] at this ⊢
    omega
  | case7 b acc hb hs => cases h
  | case8 b rest' acc hb hs hlt => cases h
  | case9 b rest' acc hb hs hlt ih =>
    have := ih h
    simp only [widths, Atom.width, List.length_cons] at this ⊢
    omega

/-! ## Tokens -/

theorem length_takeDigits_le (o : Octets) : (takeDigits o).2.length ≤ o.length :=
  (List.dropWhile_suffix isDigit).length_le

theorem exponentRest_length {o rest : Octets} (h : exponentRest o = some rest) :
    rest.length ≤ o.length := by
  have digits : ∀ p : Octets, (if (takeDigits p).1.isEmpty then none else some (takeDigits p).2) =
      some rest → rest.length ≤ p.length := by
    intro p hp
    split at hp
    · cases hp
    · cases hp
      exact length_takeDigits_le p
  cases o with
  | nil => exact digits [] h
  | cons b o =>
    unfold exponentRest at h
    dsimp only at h
    split at h
    · exact Nat.le_succ_of_le (digits o h)
    · exact digits (b :: o) h

/-- Looking for an exponent goes no further back than it started. -/
theorem length_of_exponent {exponent : Bool → Octets → Option (Bool × Octets)}
    (hnil : ∀ seen, exponent seen [] = some (seen, []))
    (hcons : ∀ seen b o, exponent seen (b :: o) =
      if b == 101 || b == 69 then (exponentRest o).map (true, ·) else some (seen, b :: o))
    {seen real : Bool} {o rest : Octets} (h : exponent seen o = some (real, rest)) :
    rest.length ≤ o.length := by
  cases o with
  | nil =>
    rw [hnil] at h
    cases h
    exact Nat.le_refl _
  | cons b o =>
    rw [hcons] at h
    split at h
    · obtain ⟨r, hr, he⟩ := Option.map_eq_some_iff.1 h
      cases he
      exact Nat.le_succ_of_le (exponentRest_length hr)
    · cases h
      exact Nat.le_refl _

theorem fractionRest_length {o rest : Octets} {real : Bool}
    (h : fractionRest o = some (real, rest)) : rest.length ≤ o.length := by
  revert h
  fun_cases fractionRest o with
  | case1 =>
    intro h
    cases h
  | case2 exponent b o hdot ds digitsRest hdigits hsome =>
    intro h
    have hrest := length_of_exponent (fun _ => rfl) (fun _ _ _ => rfl) h
    have hd := length_takeDigits_le o
    rw [hdigits] at hd
    exact Nat.le_succ_of_le (Nat.le_trans hrest hd)
  | case3 exponent b o hdot =>
    intro h
    exact length_of_exponent (fun _ => rfl) (fun _ _ _ => rfl) h
  | case4 =>
    intro h
    cases h
    exact Nat.le_refl _

theorem numberToken_length {o rest : Octets} {negative : Bool} {t : Token}
    (h : numberToken negative o = some (t, rest)) :
    rest.length ≤ o.length ∧ ∀ s, t ≠ .text s := by
  unfold numberToken at h
  split at h
  rename_i ds digitsRest hdigits
  have hle : digitsRest.length ≤ o.length := by
    split at hdigits
    · cases hdigits
      exact Nat.le_succ _
    · have := length_takeDigits_le o
      rwa [hdigits] at this
  split at h
  · cases h
  · split at h
    · cases h
    · rename_i hf
      cases h
      exact ⟨Nat.le_trans (fractionRest_length hf) hle, fun s hs => by cases hs⟩
    · rename_i hf
      have hle := Nat.le_trans (fractionRest_length hf) hle
      dsimp only at h
      split at h
      · split at h
        · cases h
          exact ⟨hle, fun s hs => by cases hs⟩
        · cases h
          exact ⟨hle, fun s hs => by cases hs⟩
      · cases h
        exact ⟨hle, fun s hs => by cases hs⟩

/-- A token ends no earlier than it starts, and a text between its quotes. -/
theorem token?_length {o rest : Octets} {t : Token} (h : token? o = some (t, rest)) :
    rest.length ≤ o.length ∧ ∀ s, t = .text s → s.toList.length + 2 + rest.length ≤ o.length := by
  have number : ∀ {negative : Bool} {p : Octets}, p.length ≤ o.length →
      numberToken negative p = some (t, rest) →
      rest.length ≤ o.length ∧ ∀ s, t = .text s → s.toList.length + 2 + rest.length ≤ o.length := by
    intro negative p hle hp
    obtain ⟨hrest, htext⟩ := numberToken_length hp
    exact ⟨Nat.le_trans hrest hle, fun s hs => absurd hs (htext s)⟩
  revert h
  fun_cases token? o
  case case9 =>
    rename_i as rest' hatoms
    intro h
    cases h
    have hlength := atoms_length hatoms
    rw [widths, Nat.zero_add] at hlength
    rw [List.length_cons]
    refine ⟨by omega, fun s hs => ?_⟩
    have := stringToken_length hs
    omega
  case case10 => exact number (Nat.le_succ _)
  case case11 => exact number (Nat.le_refl _)
  -- all other tokens are no texts, and are one octet or four or five long
  all_goals
    intro h
    cases h <;> exact ⟨by simp only [List.length_cons]; omega, fun s hs => by cases hs⟩

/-- Each text among the tokens is shorter than the octets. -/
theorem tokensFrom_length {n : Nat} {o : Octets} {acc ts : List Token}
    (h : tokensFrom n o acc = some ts) {s : String} (hs : .text s ∈ ts) :
    .text s ∈ acc ∨ s.toList.length + 2 ≤ o.length := by
  induction n generalizing o acc with
  | zero =>
    rw [tokensFrom] at h
    split at h
    · cases h
      exact .inl (List.mem_reverse.1 hs)
    · cases h
  | succ n ih =>
    have hspace := (List.dropWhile_suffix isSpace (l := o)).length_le
    rw [tokensFrom] at h
    split at h
    · cases h
      exact .inl (List.mem_reverse.1 hs)
    · rename_i b rest hrest
      rw [hrest] at hspace
      split at h
      · cases h
      · rename_i t rest' ht
        obtain ⟨hle, htext⟩ := token?_length ht
        rcases ih h with hmem | hshort
        · rcases List.mem_cons.1 hmem with rfl | hmem
          · have := htext s rfl
            right
            omega
          · exact .inl hmem
        · right
          omega

/-! ## Values -/

/-- All texts in the value have a property. -/
inductive AllTexts (P : String → Prop) : Json → Prop where
  | null : AllTexts P .null
  | bool (b : Bool) : AllTexts P (.bool b)
  | int (n : Int) : AllTexts P (.int n)
  | real : AllTexts P .real
  | garbled : AllTexts P .garbled
  | text {s : String} (holds : P s) : AllTexts P (.text s)
  | list {items : List Json} (each : ∀ v ∈ items, AllTexts P v) : AllTexts P (.list items)
  | record {members : List (Option String × Json)} (each : ∀ m ∈ members, AllTexts P m.2) :
      AllTexts P (.record members)

variable {P : String → Prop}

/-- All texts in what is still open have a property. -/
def Frame.AllTexts (P : String → Prop) : Frame → Prop
  | .list items => ∀ v ∈ items, Json.AllTexts P v
  | .record members _ => ∀ m ∈ members, Json.AllTexts P m.2

/-- All texts read so far have a property: those in the complete value, and those in what is open. -/
structure StateTexts (P : String → Prop) (e : Expected) (fs : List Frame) : Prop where
  value : ∀ v, e = .nothing v → AllTexts P v
  frames : ∀ f ∈ fs, f.AllTexts P

theorem stateTexts_open {e : Expected} {fs : List Frame} (he : ∀ v, e ≠ .nothing v)
    (hfs : ∀ f ∈ fs, f.AllTexts P) : StateTexts P e fs :=
  ⟨fun v hv => absurd hv (he v), hfs⟩

variable {t : Token} {fs fs' : List Frame} {e e' : Expected}

theorem deliver_texts {v : Json} (hv : AllTexts P v) (hfs : ∀ f ∈ fs, f.AllTexts P)
    (h : deliver v fs = (e', fs')) : StateTexts P e' fs' := by
  cases fs with
  | nil =>
    cases h
    refine ⟨fun w hw => ?_, hfs⟩
    cases hw
    exact hv
  | cons f fs =>
    obtain ⟨hf, hothers⟩ := List.forall_mem_cons.1 hfs
    cases f with
    | list items =>
      cases h
      have hitems : ∀ w ∈ v :: items, AllTexts P w := List.forall_mem_cons.2 ⟨hv, hf⟩
      exact stateTexts_open (fun w hw => by cases hw) (List.forall_mem_cons.2 ⟨hitems, hothers⟩)
    | record members name =>
      cases h
      have hmembers : ∀ m ∈ (name, v) :: members, AllTexts P m.2 :=
        List.forall_mem_cons.2 ⟨hv, hf⟩
      exact stateTexts_open (fun w hw => by cases hw) (List.forall_mem_cons.2 ⟨hmembers, hothers⟩)

theorem scalar?_texts {t : Token} {v : Json} (ht : ∀ s, t = .text s → P s)
    (h : t.scalar? = some v) : AllTexts P v := by
  cases t with
  | null => cases h; exact .null
  | bool b => cases h; exact .bool b
  | int n => cases h; exact .int n
  | real => cases h; exact .real
  | garbled => cases h; exact .garbled
  | text s => cases h; exact .text (ht s rfl)
  | _ => cases h

theorem startValue_texts (ht : ∀ s, t = .text s → P s) (hfs : ∀ f ∈ fs, f.AllTexts P)
    (h : startValue t fs = some (e', fs')) : StateTexts P e' fs' := by
  unfold startValue at h
  split at h
  · cases h
    have hnew : Frame.AllTexts P (.list []) := fun v hv => by cases hv
    exact stateTexts_open (fun w hw => by cases hw) (List.forall_mem_cons.2 ⟨hnew, hfs⟩)
  · cases h
    have hnew : Frame.AllTexts P (.record [] none) := fun v hv => by cases hv
    exact stateTexts_open (fun w hw => by cases hw) (List.forall_mem_cons.2 ⟨hnew, hfs⟩)
  · obtain ⟨v, hv, hd⟩ := Option.map_eq_some_iff.1 h
    exact deliver_texts (scalar?_texts ht hv) hfs hd

theorem startMember_texts (hfs : ∀ f ∈ fs, f.AllTexts P)
    (h : startMember t fs = some (e', fs')) : StateTexts P e' fs' := by
  unfold startMember at h
  split at h
  · obtain ⟨hf, hothers⟩ := List.forall_mem_cons.1 hfs
    obtain ⟨name, -, hd⟩ := Option.map_eq_some_iff.1 h
    cases hd
    exact stateTexts_open (fun w hw => by cases hw) (List.forall_mem_cons.2 ⟨hf, hothers⟩)
  · cases h

/-- One more token keeps what all texts have. -/
theorem step_texts (ht : ∀ s, t = .text s → P s) (hfs : ∀ f ∈ fs, f.AllTexts P)
    (h : step t e fs = some (e', fs')) : StateTexts P e' fs' := by
  have unchanged : ∀ {e : Expected}, (∀ v, e ≠ .nothing v) → some (e, fs) = some (e', fs') →
      StateTexts P e' fs' := by
    intro e he hstate
    cases hstate
    exact stateTexts_open he hfs
  revert h
  fun_cases step t e fs
  case case1 | case3 => exact startValue_texts ht hfs
  case case2 =>
    intro h
    exact deliver_texts (.list fun v hv => by cases hv) (List.forall_mem_cons.1 hfs).2
      (Option.some.inj h)
  case case4 =>
    intro h
    exact deliver_texts (.record fun m hm => by cases hm) (List.forall_mem_cons.1 hfs).2
      (Option.some.inj h)
  case case11 =>
    intro h
    obtain ⟨hf, hothers⟩ := List.forall_mem_cons.1 hfs
    exact deliver_texts (.list fun v hv => hf v (List.mem_reverse.1 hv)) hothers
      (Option.some.inj h)
  case case12 =>
    intro h
    obtain ⟨hf, hothers⟩ := List.forall_mem_cons.1 hfs
    exact deliver_texts (.record fun m hm => hf m (List.mem_reverse.1 hm)) hothers
      (Option.some.inj h)
  case case5 | case6 => exact startMember_texts hfs
  case case7 | case9 | case10 => exact unchanged fun v hv => by cases hv
  case case8 | case13 | case14 =>
    intro h
    cases h

theorem steps_texts {ts : List Token} (ht : ∀ s, .text s ∈ ts → P s) (hs : StateTexts P e fs)
    (h : steps ts e fs = some (e', fs')) : StateTexts P e' fs' := by
  induction ts generalizing e fs with
  | nil =>
    cases h
    exact hs
  | cons t ts ih =>
    unfold steps at h
    split at h
    · cases h
    · rename_i e₁ fs₁ hstep
      have hone : StateTexts P e₁ fs₁ :=
        step_texts (fun s hts => ht s (hts ▸ List.mem_cons_self)) hs.frames hstep
      exact ih (fun s hmem => ht s (List.mem_cons_of_mem _ hmem)) hone h

/-- Each text in a value that was read stands in the octets, with its quotes. -/
theorem read?_texts {o : Octets} {v : Json} (h : read? o = some v) :
    AllTexts (fun s => s.toList.length + 2 ≤ o.length) v := by
  unfold read? at h
  split at h
  · cases h
  · rename_i ts hts
    unfold ofTokens? at h
    split at h
    · rename_i w fs hsteps
      cases h
      have hstart : StateTexts (fun s => s.toList.length + 2 ≤ o.length) .value [] :=
        stateTexts_open (fun w hw => by cases hw) (fun f hf => by cases hf)
      refine (steps_texts (fun s hs => ?_) hstart hsteps).value v rfl
      rcases tokensFrom_length hts hs with hnone | hshort
      · cases hnone
      · exact hshort
    · cases h

/-! ## Records -/

theorem exists_of_member? {name : String} {members : List (Option String × Json)} {w : Json}
    (h : member? name members = some (some w)) : ∃ m ∈ members, m.2 = w := by
  unfold member? at h
  split at h
  · cases h
  · rename_i m hm
    cases h
    have hmem : m ∈ members.filter (fun m => m.1 == some name) := hm ▸ List.mem_cons_self
    exact ⟨m, (List.mem_filter.1 hmem).1, rfl⟩
  · cases h

/-- The fields of a record have what all texts in it have. -/
theorem fields?_texts {names : List String} {v w : Json} {fields : List (Option Json)}
    (hv : AllTexts P v) (h : v.fields? names = some fields) (hw : some w ∈ fields) :
    AllTexts P w := by
  unfold fields? at h
  split at h
  · rename_i members
    cases hv with
    | record heach =>
      split at h
      · induction names generalizing fields with
        | nil =>
          cases h
          cases hw
        | cons name names ih =>
          rw [List.mapM_cons] at h
          obtain ⟨field, hfield, h⟩ := Option.bind_eq_some_iff.1 h
          obtain ⟨others, hothers, h⟩ := Option.bind_eq_some_iff.1 h
          cases h
          rcases List.mem_cons.1 hw with rfl | hw
          · obtain ⟨m, hm, rfl⟩ := exists_of_member? hfield
            exact heach m hm
          · exact ih hw hothers
      · cases h
  · rename_i items
    cases hv with
    | list heach =>
      split at h
      · cases h
        rcases List.mem_append.1 hw with hw | hw
        · obtain ⟨item, hitem, he⟩ := List.mem_map.1 hw
          cases he
          exact heach _ hitem
        · cases (List.mem_replicate.1 hw).2
      · cases h
  · cases h

theorem text?_texts {v : Json} {s : String} (hv : AllTexts P v) (h : v.text? = some s) : P s := by
  unfold text? at h
  split at h
  · cases h
    cases hv with
    | text hs => exact hs
  · cases h

end EndToEnd.Json
