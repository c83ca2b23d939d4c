import EdgeAttributes.Import.Lines
import EdgeAttributes.Proofs.Text.Utf8
import Mathlib

namespace EdgeAttributes.Import

open Text (utf8)

/-- Bytes and the lines that they are made up of. A line ends in a line feed, or in a carriage
    return and a line feed; nothing need end the last line, unless it is empty. -/
inductive Lined : List (List UInt8) → List UInt8 → Prop where
  | nothing : Lined [] []
  | unended {line : List UInt8} (hfeed : lineFeed ∉ line) (hne : line ≠ []) : Lined [line] line
  | feed {line rest : List UInt8} {ls : List (List UInt8)} (hfeed : lineFeed ∉ line)
    (hreturn : line.getLast? ≠ some carriageReturn) (hrest : Lined ls rest) :
    Lined (line :: ls) (line ++ lineFeed :: rest)
  | returnFeed {line rest : List UInt8} {ls : List (List UInt8)} (hfeed : lineFeed ∉ line)
    (hrest : Lined ls rest) : Lined (line :: ls) (line ++ carriageReturn :: lineFeed :: rest)

variable {line : List UInt8}

theorem linesFrom_append (reversed : List UInt8) (hfeed : lineFeed ∉ line) (rest : List UInt8) :
    linesFrom reversed (line ++ rest) = linesFrom (line.reverse ++ reversed) rest := by
  induction line generalizing reversed with
  | nil => rfl
  | cons b line ih =>
    obtain ⟨hb, hline⟩ := not_or.1 (mt List.mem_cons.2 hfeed)
    rw [List.cons_append, linesFrom, if_neg (Ne.symm hb), ih _ hline, List.reverse_cons,
      List.append_assoc, List.singleton_append]

/-- What stands before the first line feed makes up the first line. -/
theorem lines_append_lineFeed (hfeed : lineFeed ∉ line) (rest : List UInt8) :
    lines (line ++ lineFeed :: rest) = closeLine line.reverse :: lines rest := by
  rw [lines, linesFrom_append [] hfeed, List.append_nil, linesFrom, if_pos rfl, lines]

theorem lines_of_notMem (hfeed : lineFeed ∉ line) (hne : line ≠ []) : lines line = [line] := by
  have happend := linesFrom_append [] hfeed []
  rw [List.append_nil, List.append_nil, linesFrom, if_neg (by simpa using hne),
    List.reverse_reverse] at happend
  exact happend

theorem closeLine_return (line : List UInt8) :
    closeLine (line ++ [carriageReturn]).reverse = line := by
  rw [List.reverse_append, List.reverse_singleton, List.singleton_append, closeLine, if_pos rfl,
    List.reverse_reverse]

theorem closeLine_of_getLast?_ne (h : line.getLast? ≠ some carriageReturn) :
    closeLine line.reverse = line := by
  rcases List.eq_nil_or_concat' line with rfl | ⟨before, b, rfl⟩
  · rfl
  · have hb : b ≠ carriageReturn := by simpa using h
    rw [List.reverse_append, List.reverse_singleton, List.singleton_append,
      closeLine, if_neg hb, List.reverse_cons, List.reverse_reverse]

theorem lines_append_returnFeed (hfeed : lineFeed ∉ line) (rest : List UInt8) :
    lines (line ++ carriageReturn :: lineFeed :: rest) = line :: lines rest := by
  have hmore : lineFeed ∉ line ++ [carriageReturn] := by
    rw [List.mem_append, List.mem_singleton]
    exact not_or.2 ⟨hfeed, by decide⟩
  have hlines := lines_append_lineFeed hmore rest
  rwa [List.append_assoc, List.singleton_append, closeLine_return] at hlines

theorem lined_lines (bytes : List UInt8) : Lined (lines bytes) bytes := by
  induction hlength : bytes.length using Nat.strongRecOn generalizing bytes with
  | ind n ih =>
    by_cases hmem : lineFeed ∈ bytes
    · obtain ⟨line, rest, rfl, hfeed⟩ := List.eq_append_cons_of_mem hmem
      have hrest : Lined (lines rest) rest := by
        refine ih rest.length ?_ rest rfl
        rw [← hlength, List.length_append, List.length_cons]
        omega
      by_cases hreturn : line.getLast? = some carriageReturn
      · obtain ⟨before, rfl⟩ := List.getLast?_eq_some_iff.1 hreturn
        have hbefore : lineFeed ∉ before := fun h => hfeed (List.mem_append_left _ h)
        rw [List.append_assoc, List.singleton_append, lines_append_returnFeed hbefore]
        exact .returnFeed hbefore hrest
      · rw [lines_append_lineFeed hfeed, closeLine_of_getLast?_ne hreturn]
        exact .feed hfeed hreturn hrest
    · by_cases hne : bytes = []
      · subst hne
        exact .nothing
      · rw [lines_of_notMem hmem hne]
        exact .unended hmem hne

/-- The lines of some bytes are the one way to make the bytes up of lines. -/
theorem lines_eq_iff {bytes : List UInt8} {ls : List (List UInt8)} :
    lines bytes = ls ↔ Lined ls bytes := by
  constructor
  · rintro rfl
    exact lined_lines bytes
  · intro h
    induction h with
    | nothing => rfl
    | unended hfeed hne => exact lines_of_notMem hfeed hne
    | feed hfeed hreturn _ ih =>
      rw [lines_append_lineFeed hfeed, closeLine_of_getLast?_ne hreturn, ih]
    | returnFeed hfeed _ ih => rw [lines_append_returnFeed hfeed, ih]

variable {s : String}

theorem lineText?_eq_some_iff : lineText? line = some s ↔ line = utf8 s := by
  rw [utf8, Text.toList_byteArray, String.toUTF8_eq_toByteArray, lineText?, String.fromUTF8?]
  constructor
  · intro h
    split at h
    · cases h
      rfl
    · cases h
  · rintro rfl
    rw [dif_pos s.isValidUTF8]
    rfl

theorem utf8_lineFeed : utf8 "\n" = [lineFeed] := (Text.utf8_eq_flatMap _).trans rfl

theorem utf8_return : utf8 "\r" = [carriageReturn] := (Text.utf8_eq_flatMap _).trans rfl

theorem utf8_returnFeed : utf8 "\r\n" = [carriageReturn, lineFeed] :=
  (Text.utf8_eq_flatMap _).trans rfl

theorem lineFeed_notMem_utf8 (h : '\n' ∉ s.toList) : lineFeed ∉ utf8 s := by
  intro hmem
  obtain ⟨c, hc, hfeed⟩ := Text.exists_of_mem_utf8 hmem (by decide)
  obtain rfl : c = '\n' := Char.toNat_inj.1 hfeed
  exact h hc

/-- A text whose last byte is a carriage return ends in that character. -/
theorem exists_eq_append_return (h : (utf8 s).getLast? = some carriageReturn) :
    ∃ t, s = t ++ "\r" := by
  rcases List.eq_nil_or_concat' s.toList with hnil | ⟨before, c, hs⟩
  · rw [Text.utf8_eq_flatMap, hnil] at h
    cases h
  · rw [Text.utf8_eq_flatMap, hs, List.flatMap_append, List.flatMap_singleton,
      List.getLast?_append_of_ne_nil _ String.utf8EncodeChar_ne_nil] at h
    have hmem : carriageReturn ∈ String.utf8EncodeChar c := List.mem_of_getLast? h
    have hreturn : c.toNat = '\r'.toNat := Text.toNat_of_mem_utf8EncodeChar hmem (by decide)
    obtain rfl : c = '\r' := Char.toNat_inj.1 hreturn
    refine ⟨String.ofList before, String.toList_inj.1 ?_⟩
    rw [hs, String.toList_append, String.toList_ofList]
    rfl

/-- How a line of a text may end. -/
def IsLineEnd (ending : String) : Prop := ending = "\n" ∨ ending = "\r\n"

/-- A line of a text is read as it stands, but for a carriage return that it ends in itself. -/
theorem lines_utf8 (hline : '\n' ∉ s.toList) {ending : String} (hend : IsLineEnd ending)
    (text : String) : ∃ t, lines (utf8 (s ++ ending ++ text)) = utf8 t :: lines (utf8 text) ∧
      (t = s ∨ s = t ++ "\r") := by
  have hfeed := lineFeed_notMem_utf8 hline
  rcases hend with rfl | rfl
  · rw [Text.utf8_append, Text.utf8_append, utf8_lineFeed, List.append_assoc,
      List.singleton_append, lines_append_lineFeed hfeed]
    by_cases hreturn : (utf8 s).getLast? = some carriageReturn
    · obtain ⟨t, rfl⟩ := exists_eq_append_return hreturn
      refine ⟨t, ?_, .inr rfl⟩
      rw [Text.utf8_append, utf8_return, closeLine_return]
    · exact ⟨s, by rw [closeLine_of_getLast?_ne hreturn], .inl rfl⟩
  · refine ⟨s, ?_, .inl rfl⟩
    rw [Text.utf8_append, Text.utf8_append, utf8_returnFeed, List.append_assoc, List.cons_append,
      List.singleton_append, lines_append_returnFeed hfeed]

end EdgeAttributes.Import
