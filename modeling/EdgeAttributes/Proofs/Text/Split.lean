import EdgeAttributes.Text.Split
import Mathlib

namespace EdgeAttributes.Text

variable {sep : Char}

theorem splitChars_of_notMem {cs : List Char} (h : sep ∉ cs) : splitChars sep cs = [cs] := by
  induction cs with
  | nil => rfl
  | cons c cs ih =>
    obtain ⟨hne, hrest⟩ := not_or.1 (mt List.mem_cons.2 h)
    rw [splitChars, if_neg (Ne.symm hne), ih hrest]

/-- A separator between two texts separates their pieces. -/
theorem splitChars_append (sep : Char) (cs cs' : List Char) :
    splitChars sep (cs ++ sep :: cs') = splitChars sep cs ++ splitChars sep cs' := by
  induction cs with
  | nil => simp [splitChars]
  | cons c cs ih =>
    rw [List.cons_append, splitChars, ih, splitChars]
    split
    · rfl
    · cases hsplit : splitChars sep cs with
      | nil => exact absurd hsplit (splitChars_ne_nil sep cs)
      | cons piece pieces => rfl

/-- A text up to its first separator is the first piece. -/
theorem splitChars_append_cons {piece : List Char} (h : sep ∉ piece) (cs : List Char) :
    splitChars sep (piece ++ sep :: cs) = piece :: splitChars sep cs := by
  rw [splitChars_append, splitChars_of_notMem h, List.singleton_append]

/-- A run of characters in front of one that does not belong to it is cut off as it is. -/
theorem takeWhile_dropWhile_append {p : Char → Bool} {run rest : List Char}
    (hrun : ∀ c ∈ run, p c) (hrest : ∀ c ∈ rest.head?, ¬ p c) :
    (run ++ rest).takeWhile p = run ∧ (run ++ rest).dropWhile p = rest := by
  rw [List.takeWhile_append_of_pos hrun, List.dropWhile_append_of_pos hrun]
  cases rest with
  | nil => simp
  | cons c cs =>
    have hc := hrest c rfl
    rw [List.takeWhile_cons_of_neg hc, List.dropWhile_cons_of_neg hc, List.append_nil]
    exact ⟨rfl, rfl⟩

/-- Every text starts with a run, which may be empty. -/
theorem exists_run (p : Char → Bool) (cs : List Char) :
    ∃ run rest, cs = run ++ rest ∧ (∀ c ∈ run, p c) ∧ ∀ c ∈ rest.head?, ¬ p c := by
  refine ⟨cs.takeWhile p, cs.dropWhile p, List.takeWhile_append_dropWhile.symm,
    fun c hc => List.mem_takeWhile_imp hc, fun c hc => ?_⟩
  have hhead := List.head?_dropWhile_not p cs
  rw [Option.mem_def.1 hc] at hhead
  simpa using hhead

/-- Pieces without the separator come apart again after they are joined. No pieces at all are joined
    like a single empty one. -/
theorem splitChars_intercalate {pieces : List (List Char)} (hne : pieces ≠ [])
    (hpieces : ∀ piece ∈ pieces, sep ∉ piece) :
    splitChars sep ([sep].intercalate pieces) = pieces := by
  induction pieces with
  | nil => exact absurd rfl hne
  | cons piece pieces ih =>
    obtain ⟨hpiece, hpieces⟩ := List.forall_mem_cons.1 hpieces
    cases pieces with
    | nil => rw [List.intercalate_singleton, splitChars_of_notMem hpiece]
    | cons next pieces =>
      rw [List.intercalate_cons_cons, List.append_assoc, List.singleton_append,
        splitChars_append_cons hpiece, ih (List.cons_ne_nil _ _) hpieces]

theorem notMem_of_mem_splitChars {cs piece : List Char} (h : piece ∈ splitChars sep cs) :
    sep ∉ piece := by
  induction cs generalizing piece with
  | nil => simp_all [splitChars]
  | cons c cs ih =>
    rw [splitChars] at h
    split at h
    · obtain rfl | h := List.mem_cons.1 h
      · exact List.not_mem_nil
      · exact ih h
    · next hne =>
      split at h
      · next hnil => exact absurd hnil (splitChars_ne_nil sep cs)
      · next first rest hsplit =>
        obtain rfl | h := List.mem_cons.1 h
        · refine mt List.mem_cons.1 (not_or.2 ⟨Ne.symm hne, ih ?_⟩)
          rw [hsplit]
          exact List.mem_cons_self
        · apply ih
          rw [hsplit]
          exact List.mem_cons_of_mem _ h

theorem intercalate_splitChars (sep : Char) (cs : List Char) :
    [sep].intercalate (splitChars sep cs) = cs := by
  induction cs with
  | nil => rfl
  | cons c cs ih =>
    rw [splitChars]
    cases hsplit : splitChars sep cs with
    | nil => exact absurd hsplit (splitChars_ne_nil sep cs)
    | cons piece pieces =>
      rw [hsplit] at ih
      split
      · next heq => rw [List.intercalate_cons_cons, ih, heq]; rfl
      · cases pieces with
        | nil =>
          rw [List.intercalate_singleton] at ih ⊢
          rw [ih]
        | cons next pieces =>
          rw [List.intercalate_cons_cons] at ih ⊢
          rw [List.cons_append, List.cons_append, ih]

/-- The pieces of a text are the one way to make it up of texts without the separator. -/
theorem split_eq_iff {s : String} {pieces : List String} : split sep s = pieces ↔
    pieces ≠ [] ∧ (∀ piece ∈ pieces, sep ∉ piece.toList) ∧
      (String.singleton sep).intercalate pieces = s := by
  have hjoin : ((String.singleton sep).intercalate pieces).toList =
      [sep].intercalate (pieces.map String.toList) := by
    rw [String.toList_intercalate, String.toList_singleton]
  constructor
  · rintro rfl
    refine ⟨?_, ?_, ?_⟩
    · simp [split, splitChars_ne_nil]
    · intro piece hpiece
      obtain ⟨cs, hcs, rfl⟩ := List.mem_map.1 hpiece
      rw [String.toList_ofList]
      exact notMem_of_mem_splitChars hcs
    · rw [← String.toList_inj, hjoin, split, List.map_map]
      simp [Function.comp_def, intercalate_splitChars]
  · rintro ⟨hne, hpieces, hs⟩
    have hsplit : splitChars sep s.toList = pieces.map String.toList := by
      rw [← hs, hjoin]
      apply splitChars_intercalate
      · simpa using hne
      · simpa using hpieces
    rw [split, hsplit, List.map_map]
    simp [Function.comp_def]

theorem split_append (sep : Char) (s t : String) :
    split sep (s ++ String.singleton sep ++ t) = split sep s ++ split sep t := by
  rw [split, String.toList_append, String.toList_append, String.toList_singleton,
    List.append_assoc, List.singleton_append, splitChars_append, List.map_append, split, split]

end EdgeAttributes.Text
