import EdgeAttributes.Proofs.Text.Split
import EdgeAttributes.Text.Blank

namespace EdgeAttributes.Text

variable {blanks : List Char}

/-- Blanks in front do not show once a text is trimmed. -/
theorem trimChars_append_left (h : ∀ c ∈ blanks, isBlank c) (cs : List Char) :
    trimChars (blanks ++ cs) = trimChars cs := by
  rw [trimChars, List.dropWhile_append_of_pos h, trimChars]

/-- Blanks behind do not show once a text is trimmed. -/
theorem trimChars_append_right (h : ∀ c ∈ blanks, isBlank c) (cs : List Char) :
    trimChars (cs ++ blanks) = trimChars cs := by
  have hrev : ∀ c ∈ blanks.reverse, isBlank c := fun c hc => h c (List.mem_reverse.1 hc)
  rw [trimChars, List.dropWhile_append]
  split
  · next hnone =>
    have hblanks : blanks.dropWhile isBlank = [] := List.dropWhile_eq_nil_iff.2 h
    rw [hblanks, trimChars, List.isEmpty_iff.1 hnone]
  · rw [List.reverse_append, List.dropWhile_append_of_pos hrev, trimChars]

/-- Nothing but blanks is trimmed. -/
theorem isBlank_or_mem_trimChars {c : Char} {cs : List Char} (h : c ∈ cs) :
    isBlank c ∨ c ∈ trimChars cs := by
  have hfront : ∀ {cs : List Char}, c ∈ cs → isBlank c ∨ c ∈ cs.dropWhile isBlank := by
    intro cs hmem
    rw [← cs.takeWhile_append_dropWhile (p := isBlank)] at hmem
    exact (List.mem_append.1 hmem).imp_left List.mem_takeWhile_imp
  rw [trimChars, List.mem_reverse]
  exact (hfront h).elim .inl fun hkept => hfront (List.mem_reverse.2 hkept)

/-- A text up to its last separator, if it has one. -/
theorem exists_eq_append_cons_of_mem {sep : Char} {cs : List Char} (h : sep ∈ cs) :
    ∃ front last, cs = front ++ sep :: last ∧ sep ∉ last := by
  obtain ⟨last, front, heq, hlast⟩ := List.eq_append_cons_of_mem (List.mem_reverse.2 h)
  refine ⟨front.reverse, last.reverse, ?_, fun hmem => hlast (List.mem_reverse.1 hmem)⟩
  rw [← List.reverse_reverse cs, heq, List.reverse_append, List.reverse_cons, List.append_assoc,
    List.singleton_append]

/-- Blanks in front of a list change nothing of its trimmed pieces. -/
theorem map_trimChars_splitChars_append_left {sep : Char} (hsep : isBlank sep = false)
    (h : ∀ c ∈ blanks, isBlank c) (cs : List Char) :
    (splitChars sep (blanks ++ cs)).map trimChars = (splitChars sep cs).map trimChars := by
  have hblanks : sep ∉ blanks := fun hmem => by simp [h sep hmem] at hsep
  by_cases hmem : sep ∈ cs
  · obtain ⟨first, rest, rfl, hfirst⟩ := List.eq_append_cons_of_mem hmem
    have hfront : sep ∉ blanks ++ first := by simp [hblanks, hfirst]
    rw [← List.append_assoc, splitChars_append_cons hfront, splitChars_append_cons hfirst,
      List.map_cons, List.map_cons, trimChars_append_left h]
  · have hwhole : sep ∉ blanks ++ cs := by simp [hblanks, hmem]
    rw [splitChars_of_notMem hwhole, splitChars_of_notMem hmem, List.map_singleton,
      List.map_singleton, trimChars_append_left h]

/-- Blanks behind a list change nothing of its trimmed pieces. -/
theorem map_trimChars_splitChars_append_right {sep : Char} (hsep : isBlank sep = false)
    (h : ∀ c ∈ blanks, isBlank c) (cs : List Char) :
    (splitChars sep (cs ++ blanks)).map trimChars = (splitChars sep cs).map trimChars := by
  have hblanks : sep ∉ blanks := fun hmem => by simp [h sep hmem] at hsep
  have hpiece : ∀ last, sep ∉ last →
      (splitChars sep (last ++ blanks)).map trimChars = (splitChars sep last).map trimChars := by
    intro last hlast
    have hwhole : sep ∉ last ++ blanks := by simp [hblanks, hlast]
    rw [splitChars_of_notMem hwhole, splitChars_of_notMem hlast, List.map_singleton,
      List.map_singleton, trimChars_append_right h]
  by_cases hmem : sep ∈ cs
  · obtain ⟨front, last, rfl, hlast⟩ := exists_eq_append_cons_of_mem hmem
    rw [List.append_assoc, List.cons_append, splitChars_append, splitChars_append, List.map_append,
      List.map_append, hpiece last hlast]
  · exact hpiece cs hmem

/-- A text that has no blank at its ends. -/
def Trimmed (cs : List Char) : Prop :=
  (∀ c ∈ cs.head?, ¬ isBlank c) ∧ ∀ c ∈ cs.getLast?, ¬ isBlank c

theorem trimChars_of_trimmed {cs : List Char} (h : Trimmed cs) : trimChars cs = cs := by
  have hdrop : ∀ {cs : List Char}, (∀ c ∈ cs.head?, ¬ isBlank c) → cs.dropWhile isBlank = cs :=
    fun hhead => (@takeWhile_dropWhile_append isBlank [] _ (by simp) hhead).2
  have hlast : ∀ c ∈ cs.reverse.head?, ¬ isBlank c := by
    rw [List.head?_reverse]
    exact h.2
  rw [trimChars, hdrop h.1, hdrop hlast, List.reverse_reverse]

/-- Every text is a trimmed one with blanks around it, which may be empty. -/
theorem exists_trimmed (cs : List Char) : ∃ front key back, cs = front ++ key ++ back ∧
    (∀ c ∈ front, isBlank c) ∧ (∀ c ∈ back, isBlank c) ∧ Trimmed key := by
  obtain ⟨front, rest, rfl, hfront, hhead⟩ := exists_run isBlank cs
  obtain ⟨back, key, hrest, hback, hlast⟩ := exists_run isBlank rest.reverse
  obtain rfl : rest = key.reverse ++ back.reverse := by
    rw [← List.reverse_append, ← hrest, List.reverse_reverse]
  refine ⟨front, key.reverse, back.reverse, (List.append_assoc ..).symm, hfront,
    fun c hc => hback c (List.mem_reverse.1 hc), fun c hc => hhead c ?_, ?_⟩
  · rw [List.head?_append, Option.mem_def.1 hc]
    rfl
  · rw [List.getLast?_reverse]
    exact hlast

end EdgeAttributes.Text
