/-
  White space around texts.

  Trimming takes off white space and nothing else (`around_trim`), and where the text in the middle has
  none it is all that is left (`trim_of_around`).
-/
import EndToEnd.Text.Blank

namespace EndToEnd.Text

variable {core cs : List Char}

/-- The characters are those of a text with nothing but white space before and after it. -/
def Around (core cs : List Char) : Prop :=
  ∃ before after, (∀ c ∈ before, isSpace c = true) ∧ (∀ c ∈ after, isSpace c = true) ∧
    cs = before ++ (core ++ after)

/-- What trimming takes off is white space. -/
theorem around_trim (cs : List Char) : Around (trim cs) cs := by
  refine ⟨cs.takeWhile isSpace, ((cs.dropWhile isSpace).reverse.takeWhile isSpace).reverse, ?_, ?_, ?_⟩
  · exact List.all_eq_true.1 List.all_takeWhile
  · intro c hc
    exact List.all_eq_true.1 List.all_takeWhile c (List.mem_reverse.1 hc)
  · unfold trim
    rw [← List.reverse_append, List.takeWhile_append_dropWhile, List.reverse_reverse,
      List.takeWhile_append_dropWhile]

theorem dropWhile_of_no_space (h : ∀ c ∈ cs, isSpace c = false) : cs.dropWhile isSpace = cs := by
  cases cs with
  | nil => rfl
  | cons c cs =>
    rw [List.dropWhile_cons_of_neg]
    rw [h c List.mem_cons_self]
    exact Bool.false_ne_true

/-- A text without white space is what is left when white space around it is trimmed. -/
theorem trim_of_around (hcore : ∀ c ∈ core, isSpace c = false) (h : Around core cs) :
    trim cs = core := by
  obtain ⟨before, after, hbefore, hafter, rfl⟩ := h
  cases core with
  | nil =>
    rw [trim_eq_nil_iff, List.all_eq_true]
    intro c hc
    exact (List.mem_append.1 hc).elim (hbefore c) (hafter c)
  | cons c core =>
    have hc : ¬ isSpace c = true := by
      rw [hcore c List.mem_cons_self]
      exact Bool.false_ne_true
    have hback : (after.reverse ++ (c :: core).reverse).dropWhile isSpace = (c :: core).reverse := by
      rw [List.dropWhile_append_of_pos fun d hd => hafter d (List.mem_reverse.1 hd)]
      exact dropWhile_of_no_space fun d hd => hcore d (List.mem_reverse.1 hd)
    unfold trim
    rw [List.dropWhile_append_of_pos hbefore, List.cons_append, List.dropWhile_cons_of_neg hc,
      ← List.cons_append, List.reverse_append, hback, List.reverse_reverse]

theorem trim_of_no_space (h : ∀ c ∈ cs, isSpace c = false) : trim cs = cs :=
  trim_of_around h ⟨[], [], nofun, nofun, by simp⟩

end EndToEnd.Text
