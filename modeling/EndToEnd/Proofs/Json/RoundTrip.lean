/-
  JSON values are read back from their written form.

  `tokensOf` lists the tokens that a value is written with. Reading the written form gives these
  tokens, and they stand for the value; both are proved by recursion over the value. Strings that
  stand for no text are written empty, so `Clear` excludes them.
-/
import EndToEnd.Json.Reader
import EndToEnd.Proofs.Json.Token

namespace EndToEnd.Json

mutual

/-- The tokens that a value is written with. -/
def tokensOf : Json → List Token
  | null => [.null]
  | bool b => [.bool b]
  | int n => [.int n]
  | real => [.real]
  | text s => [.text s]
  | garbled => [.garbled]
  | list [] => [.openList, .closeList]
  | list (v :: vs) => .openList :: (tokensOf v ++ (tokensOfItems vs ++ [.closeList]))
  | record [] => [.openRecord, .closeRecord]
  | record ((name, v) :: ms) =>
    .openRecord :: .text (name.getD "") :: .colon ::
      (tokensOf v ++ (tokensOfMembers ms ++ [.closeRecord]))

/-- The tokens of further items, each behind a comma. -/
def tokensOfItems : List Json → List Token
  | [] => []
  | v :: vs => .comma :: (tokensOf v ++ tokensOfItems vs)

/-- The tokens of further members, each behind a comma. -/
def tokensOfMembers : List (Option String × Json) → List Token
  | [] => []
  | (name, v) :: ms =>
    .comma :: .text (name.getD "") :: .colon :: (tokensOf v ++ tokensOfMembers ms)

end

mutual

/-- All strings in the value stand for texts. -/
def Clear : Json → Prop
  | garbled => False
  | list items => ClearItems items
  | record members => ClearMembers members
  | _ => True

/-- All strings in the items stand for texts. -/
def ClearItems : List Json → Prop
  | [] => True
  | v :: vs => Clear v ∧ ClearItems vs

/-- All strings in the members stand for texts. -/
def ClearMembers : List (Option String × Json) → Prop
  | [] => True
  | (name, v) :: ms => name.isSome = true ∧ Clear v ∧ ClearMembers ms

end

/-! ## Tokens of the written form -/

/-- The tokens stand at the front of the octets, and the given ones follow. Reading them uses up no
more steps than octets. -/
def Reads (o : Octets) (ts : List Token) (rest : Octets) : Prop :=
  ∀ n acc, o.length ≤ n →
    ∃ m, rest.length ≤ m ∧ tokensFrom n o acc = tokensFrom m rest (ts.reverse ++ acc)

namespace Reads

variable {o o' o'' rest : Octets} {ts us : List Token} {t : Token}

theorem refl (o : Octets) : Reads o [] o := fun n _ h => ⟨n, h, rfl⟩

theorem trans (h : Reads o ts o') (h' : Reads o' us o'') : Reads o (ts ++ us) o'' := by
  intro n acc hn
  obtain ⟨m, hm, e⟩ := h n acc hn
  obtain ⟨k, hk, e'⟩ := h' m (ts.reverse ++ acc) hm
  refine ⟨k, hk, ?_⟩
  rw [e, e', List.reverse_append, List.append_assoc]

/-- One token is read, and then others. -/
theorem next (t : Token) (h : Reads o [t] o') (h' : Reads o' us o'') : Reads o (t :: us) o'' :=
  h.trans h'

/-- A token that is read off octets, of which the first is no space. -/
theorem token {b : UInt8} (hb : isSpace b = false) (ht : token? (b :: o) = some (t, rest))
    (hl : rest.length ≤ o.length) : Reads (b :: o) [t] rest := by
  intro n acc hn
  cases n with
  | zero => cases hn
  | succ n =>
    refine ⟨n, Nat.le_trans hl (Nat.le_of_succ_le_succ hn), ?_⟩
    rw [tokensFrom, List.dropWhile_cons, hb, if_neg Bool.false_ne_true]
    dsimp only
    rw [ht]
    rfl

theorem tokens_eq (h : Reads o ts []) : tokens o = some ts := by
  obtain ⟨m, -, e⟩ := h o.length [] (Nat.le_refl _)
  rw [tokens, e]
  cases m with
  | zero => simp [tokensFrom]
  | succ m => simp [tokensFrom]

end Reads

variable {rest : Octets}

theorem reads_quote (s : String) : Reads (Utf8.octets (quote s) ++ rest) [.text s] rest := by
  have ht := token?_quote s rest
  rw [octets_quote, List.cons_append] at ht ⊢
  refine .token rfl ht ?_
  rw [List.length_append]
  exact Nat.le_add_left _ _

theorem reads_signed (n : Int) (h : Delimited rest) :
    Reads (Utf8.octets (Decimal.signed n) ++ rest) [.int n] rest := by
  have ht := token?_signed n h
  cases ho : Utf8.octets (Decimal.signed n) with
  | nil =>
    -- a number has at least one digit
    rw [ho] at ht
    cases rest with
    | nil => cases ht
    | cons b rest => rcases h with rfl | rfl | rfl <;> cases ht
  | cons b o =>
    rw [ho, List.cons_append] at ht
    rw [List.cons_append]
    refine .token ?_ ht (by rw [List.length_append]; exact Nat.le_add_left _ _)
    cases hs : isSpace b with
    | false => rfl
    | true =>
      simp only [isSpace, Bool.or_eq_true, beq_iff_eq] at hs
      rcases hs with ((rfl | rfl) | rfl) | rfl <;> cases ht

/-! ## Separated parts -/

/-- Parts that follow a first one, each behind a comma. -/
def tails (parts : List (List Char)) : List Char := parts.flatMap fun p => ',' :: p

theorem separate_cons (p : List Char) (ps : List (List Char)) :
    separate (p :: ps) = p ++ tails ps := by
  induction ps generalizing p with
  | nil => simp [separate, tails]
  | cons q ps ih =>
    rw [separate, ih]
    · simp [tails]
    · simp

theorem delimited_tails (parts : List (List Char)) (h : Delimited rest) :
    Delimited (Utf8.octets (tails parts) ++ rest) := by
  cases parts with
  | nil => exact h
  | cons p ps => exact .inl rfl

theorem delimited_closeList : Delimited (93 :: rest) := .inr (.inl rfl)

theorem delimited_closeRecord : Delimited (125 :: rest) := .inr (.inr rfl)

/-- The octets of a list: brackets around the first item and the others. -/
theorem octets_list (v : Json) (vs : List Json) :
    Utf8.octets (write (list (v :: vs))) ++ rest =
      91 :: (Utf8.octets (write v) ++ (Utf8.octets (tails (writeItems vs)) ++ 93 :: rest)) := by
  show Utf8.octets ('[' :: (separate (write v :: writeItems vs) ++ [']'])) ++ rest = _
  rw [separate_cons, Utf8.octets_cons, Utf8.octets_append, Utf8.octets_append,
    List.append_assoc, List.append_assoc, List.append_assoc]
  rfl

/-- The octets of a first or further member: its name, a colon and its value. -/
theorem octets_member (name : String) (v : Json) :
    Utf8.octets (quote name ++ ':' :: write v) ++ rest =
      Utf8.octets (quote name) ++ 58 :: (Utf8.octets (write v) ++ rest) := by
  rw [Utf8.octets_append, Utf8.octets_cons, List.append_assoc, List.append_assoc]
  rfl

/-- The octets of a record: braces around the first member and the others. -/
theorem octets_record (name : Option String) (v : Json) (ms : List (Option String × Json)) :
    Utf8.octets (write (record ((name, v) :: ms))) ++ rest =
      123 :: (Utf8.octets (quote (name.getD "")) ++ 58 :: (Utf8.octets (write v) ++
        (Utf8.octets (tails (writeMembers ms)) ++ 125 :: rest))) := by
  have hmember := @octets_member (Utf8.octets (tails (writeMembers ms)) ++ 125 :: rest)
    (name.getD "") v
  refine .trans ?_ (congrArg (123 :: ·) hmember)
  show Utf8.octets ('\x7b' :: (separate ((quote (name.getD "") ++ ':' :: write v) ::
    writeMembers ms) ++ ['\x7d'])) ++ rest = _
  rw [separate_cons, Utf8.octets_cons, Utf8.octets_append, Utf8.octets_append,
    List.append_assoc, List.append_assoc, List.append_assoc]
  rfl

/-- The octets of further parts: a comma before each. -/
theorem octets_tails (p : List Char) (ps : List (List Char)) :
    Utf8.octets (tails (p :: ps)) ++ rest =
      44 :: (Utf8.octets p ++ (Utf8.octets (tails ps) ++ rest)) := by
  rw [tails, List.flatMap_cons, Utf8.octets_append, Utf8.octets_cons, List.append_assoc,
    List.append_assoc]
  rfl

theorem reads_real (h : Delimited rest) : Reads (48 :: 46 :: 48 :: rest) [.real] rest := by
  refine .token rfl ?_ (Nat.le_add_right _ 2)
  cases rest with
  | nil => rfl
  | cons b rest => rcases h with rfl | rfl | rfl <;> rfl

mutual

/-- The written form of a value is read as its tokens. -/
theorem reads_write : ∀ {v : Json}, Clear v → ∀ {rest : Octets}, Delimited rest →
    Reads (Utf8.octets (write v) ++ rest) (tokensOf v) rest
  | null, _, rest, _ => show Reads (110 :: 117 :: 108 :: 108 :: rest) [.null] rest from
    .token rfl rfl (Nat.le_add_right _ 3)
  | bool true, _, rest, _ => show Reads (116 :: 114 :: 117 :: 101 :: rest) [.bool true] rest from
    .token rfl rfl (Nat.le_add_right _ 3)
  | bool false, _, rest, _ =>
    show Reads (102 :: 97 :: 108 :: 115 :: 101 :: rest) [.bool false] rest from
    .token rfl rfl (Nat.le_add_right _ 4)
  | int n, _, _, h => reads_signed n h
  | real, _, _, h => reads_real h
  | text s, _, _, _ => reads_quote s
  | garbled, hc, _, _ => hc.elim
  | list [], _, rest, _ => show Reads (91 :: 93 :: rest) [.openList, .closeList] rest from
    .trans (.token rfl rfl (Nat.le_refl _)) (.token rfl rfl (Nat.le_refl _))
  | list (v :: vs), hc, rest, _ => by
    rw [octets_list]
    refine .next .openList (.token rfl rfl (Nat.le_refl _)) ?_
    refine .trans (reads_write hc.1 (delimited_tails _ delimited_closeList)) ?_
    refine .trans (reads_items hc.2 delimited_closeList) ?_
    exact .token rfl rfl (Nat.le_refl _)
  | record [], _, rest, _ => show Reads (123 :: 125 :: rest) [.openRecord, .closeRecord] rest from
    .trans (.token rfl rfl (Nat.le_refl _)) (.token rfl rfl (Nat.le_refl _))
  | record ((name, v) :: ms), hc, rest, _ => by
    rw [octets_record]
    refine .next .openRecord (.token rfl rfl (Nat.le_refl _)) ?_
    refine .next (.text (name.getD "")) (reads_quote _) ?_
    refine .next .colon (.token rfl rfl (Nat.le_refl _)) ?_
    refine .trans (reads_write hc.2.1 (delimited_tails _ delimited_closeRecord)) ?_
    refine .trans (reads_members hc.2.2 delimited_closeRecord) ?_
    exact .token rfl rfl (Nat.le_refl _)

/-- Further items are read as their tokens. -/
theorem reads_items : ∀ {vs : List Json}, ClearItems vs → ∀ {rest : Octets}, Delimited rest →
    Reads (Utf8.octets (tails (writeItems vs)) ++ rest) (tokensOfItems vs) rest
  | [], _, _, _ => .refl _
  | v :: vs, hc, rest, h => by
    show Reads (Utf8.octets (tails (write v :: writeItems vs)) ++ rest) _ _
    rw [octets_tails]
    refine .next .comma (.token rfl rfl (Nat.le_refl _)) ?_
    exact .trans (reads_write hc.1 (delimited_tails _ h)) (reads_items hc.2 h)

/-- Further members are read as their tokens. -/
theorem reads_members : ∀ {ms : List (Option String × Json)}, ClearMembers ms →
    ∀ {rest : Octets}, Delimited rest →
    Reads (Utf8.octets (tails (writeMembers ms)) ++ rest) (tokensOfMembers ms) rest
  | [], _, _, _ => .refl _
  | (name, v) :: ms, hc, rest, h => by
    show Reads (Utf8.octets (tails ((quote (name.getD "") ++ ':' :: write v) :: writeMembers ms)) ++
      rest) _ _
    rw [octets_tails, octets_member]
    refine .next .comma (.token rfl rfl (Nat.le_refl _)) ?_
    refine .next (.text (name.getD "")) (reads_quote _) ?_
    refine .next .colon (.token rfl rfl (Nat.le_refl _)) ?_
    exact .trans (reads_write hc.2.1 (delimited_tails _ h)) (reads_members hc.2.2 h)

end

/-! ## Values of tokens -/

variable {ts : List Token} {fs : List Frame}

theorem steps_cons {t : Token} {e e' : Expected} {fs' : List Frame} (h : step t e fs = some (e', fs')) :
    steps (t :: ts) e fs = steps ts e' fs' := by
  rw [steps, h]

/-- Where a value may come, all tokens but the end of a list start one. -/
theorem step_value {t : Token} {e : Expected} (he : e = .value ∨ e = .firstItem)
    (ht : t ≠ .closeList) : step t e fs = startValue t fs := by
  rcases he with rfl | rfl
  · rfl
  · cases t <;> first | rfl | exact absurd rfl ht

mutual

/-- The tokens of a value stand for it, where a value may come. -/
theorem steps_value : ∀ {v : Json}, Clear v → ∀ {e : Expected}, e = .value ∨ e = .firstItem →
    ∀ (ts : List Token) (fs : List Frame),
    steps (tokensOf v ++ ts) e fs = steps ts (deliver v fs).1 (deliver v fs).2
  | null, _, _, he, _, _ => steps_cons (step_value he nofun)
  | bool b, _, _, he, _, _ => steps_cons (step_value he nofun)
  | int n, _, _, he, _, _ => steps_cons (step_value he nofun)
  | real, _, _, he, _, _ => steps_cons (step_value he nofun)
  | text s, _, _, he, _, _ => steps_cons (step_value he nofun)
  | garbled, hc, _, _, _, _ => hc.elim
  | list [], _, e, he, ts, fs => by
    have hopen : step .openList e fs = some (.firstItem, .list [] :: fs) := step_value he nofun
    rw [tokensOf, List.cons_append, steps_cons hopen]
    exact steps_cons rfl
  | list (v :: vs), hc, e, he, ts, fs => by
    have hopen : step .openList e fs = some (.firstItem, .list [] :: fs) := step_value he nofun
    rw [tokensOf, List.cons_append, steps_cons hopen, List.append_assoc, steps_value hc.1 (.inr rfl),
      List.append_assoc]
    show steps (tokensOfItems vs ++ ([.closeList] ++ ts)) .more (.list [v] :: fs) = _
    rw [steps_items hc.2, List.singleton_append]
    refine steps_cons (show some (deliver (.list (vs.reverse ++ [v]).reverse) fs) = _ from ?_)
    rw [List.reverse_append, List.reverse_reverse]
    rfl
  | record [], _, e, he, ts, fs => by
    have hopen : step .openRecord e fs = some (.firstName, .record [] none :: fs) :=
      step_value he nofun
    rw [tokensOf, List.cons_append, steps_cons hopen]
    exact steps_cons rfl
  | record ((none, v) :: ms), hc, _, _, _, _ => absurd hc.1 Bool.false_ne_true
  | record ((some name, v) :: ms), hc, e, he, ts, fs => by
    have hopen : step .openRecord e fs = some (.firstName, .record [] none :: fs) :=
      step_value he nofun
    rw [tokensOf, List.cons_append, steps_cons hopen, List.cons_append]
    show steps (.text name :: _) _ _ = _
    rw [steps_cons (t := .text name) rfl, List.cons_append, steps_cons (t := .colon) rfl,
      List.append_assoc, steps_value hc.2.1 (.inl rfl), List.append_assoc]
    show steps (tokensOfMembers ms ++ ([.closeRecord] ++ ts)) .more
      (.record [(some name, v)] none :: fs) = _
    rw [steps_members hc.2.2, List.singleton_append]
    refine steps_cons (show some (deliver (.record (ms.reverse ++ [(some name, v)]).reverse) fs) = _
      from ?_)
    rw [List.reverse_append, List.reverse_reverse]
    rfl

/-- Further items are put before those of an open list. -/
theorem steps_items : ∀ {vs : List Json}, ClearItems vs →
    ∀ {items : List Json} {ts : List Token} {fs : List Frame},
    steps (tokensOfItems vs ++ ts) .more (.list items :: fs) =
      steps ts .more (.list (vs.reverse ++ items) :: fs)
  | [], _, _, _, _ => rfl
  | v :: vs, hc, items, ts, fs => by
    rw [tokensOfItems, List.cons_append, steps_cons (t := .comma) rfl, List.append_assoc,
      steps_value hc.1 (.inl rfl)]
    show steps (tokensOfItems vs ++ ts) .more (.list (v :: items) :: fs) = _
    rw [steps_items hc.2, List.reverse_cons, List.append_assoc]
    rfl

/-- Further members are put before those of an open record. -/
theorem steps_members : ∀ {ms : List (Option String × Json)}, ClearMembers ms →
    ∀ {members : List (Option String × Json)} {ts : List Token} {fs : List Frame},
    steps (tokensOfMembers ms ++ ts) .more (.record members none :: fs) =
      steps ts .more (.record (ms.reverse ++ members) none :: fs)
  | [], _, _, _, _ => rfl
  | (none, _) :: _, hc, _, _, _ => absurd hc.1 Bool.false_ne_true
  | (some name, v) :: ms, hc, members, ts, fs => by
    rw [tokensOfMembers, List.cons_append, steps_cons (t := .comma) rfl, List.cons_append]
    show steps (.text name :: _) _ _ = _
    rw [steps_cons (t := .text name) rfl, List.cons_append, steps_cons (t := .colon) rfl,
      List.append_assoc, steps_value hc.2.1 (.inl rfl)]
    show steps (tokensOfMembers ms ++ ts) .more (.record ((some name, v) :: members) none :: fs) = _
    rw [steps_members hc.2.2, List.reverse_cons, List.append_assoc]
    rfl

end

/-- A value is read back from its written form. -/
theorem read?_render {v : Json} (h : Clear v) : read? (Utf8.encode v.render) = some v := by
  have ht : Reads (Utf8.encode v.render) (tokensOf v) [] := by
    have hr : Reads (Utf8.octets (write v) ++ []) (tokensOf v) [] := reads_write h trivial
    rwa [List.append_nil, ← Utf8.encode_ofList] at hr
  have hv := steps_value h (.inl rfl) [] []
  rw [List.append_nil] at hv
  rw [read?, ht.tokens_eq]
  show ofTokens? (tokensOf v) = some v
  rw [ofTokens?, hv]
  rfl

end EndToEnd.Json
