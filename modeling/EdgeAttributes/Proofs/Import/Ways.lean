import EdgeAttributes.Import.Ways
import EdgeAttributes.Proofs.Import.Lines
import EdgeAttributes.Proofs.Way.Json
import Mathlib

namespace EdgeAttributes

open Text (utf8 isBlankText)

namespace Import

/-- A text that lists ways: each on a line of its own as compact JSON, with blank lines anywhere.
    Nothing need end the last line. -/
inductive Lists : List Way → String → Prop where
  | nothing : Lists [] ""
  | lastWay (w : Way) : Lists [w] w.render
  | lastBlank {blank : String} (hblank : isBlankText blank) (hline : '\n' ∉ blank.toList) :
    Lists [] blank
  | way (w : Way) {ending text : String} {ways : List Way} (hend : IsLineEnd ending)
    (h : Lists ways text) : Lists (w :: ways) (w.render ++ ending ++ text)
  | blank {blank ending text : String} {ways : List Way} (hblank : isBlankText blank)
    (hline : '\n' ∉ blank.toList) (hend : IsLineEnd ending) (h : Lists ways text) :
    Lists ways (blank ++ ending ++ text)

/-- A line that is blank or holds a way. -/
def Legible (line : List UInt8) : Prop :=
  ∃ s, line = utf8 s ∧ (isBlankText s ∨ ∃ w, Way.parse? s = some w)

variable {line : List UInt8} {s : String}

theorem wayOfLine_of_blank (number : Nat) (h : isBlankText s) :
    wayOfLine number (utf8 s) = .ok none := by
  simp only [wayOfLine, lineText?_eq_some_iff.2 rfl, h, if_true]

theorem wayOfLine_of_way (number : Nat) {w : Way} (hblank : ¬isBlankText s)
    (hw : Way.parse? s = some w) : wayOfLine number (utf8 s) = .ok (some w) := by
  simp only [wayOfLine, lineText?_eq_some_iff.2 rfl, hblank, hw]
  rfl

theorem wayOfLine_render (number : Nat) (w : Way) :
    wayOfLine number (utf8 w.render) = .ok (some w) := by
  refine wayOfLine_of_way number ?_ w.parse?_render
  obtain ⟨cs, hcs⟩ := w.exists_render_eq_cons
  rw [isBlankText, hcs, List.all_cons]
  exact nofun

theorem Legible.wayOfLine (h : Legible line) (number : Nat) :
    ∃ found, wayOfLine number line = .ok found := by
  obtain ⟨s, rfl, h⟩ := h
  by_cases hblank : isBlankText s
  · exact ⟨none, wayOfLine_of_blank number hblank⟩
  · obtain ⟨w, hw⟩ := h.resolve_left hblank
    exact ⟨some w, wayOfLine_of_way number hblank hw⟩

/-- A line of text that is neither blank nor a way is refused by its number. -/
theorem wayOfLine_of_not_legible (number : Nat) (h : ¬Legible (utf8 s)) :
    wayOfLine number (utf8 s) = .error (.invalidWay number) := by
  have hblank : ¬isBlankText s := fun hblank => h ⟨s, rfl, .inl hblank⟩
  have hw : Way.parse? s = none :=
    Option.eq_none_iff_forall_ne_some.2 fun w hw => h ⟨s, rfl, .inr ⟨w, hw⟩⟩
  simp only [wayOfLine, lineText?_eq_some_iff.2 rfl, hblank, hw]
  rfl

/-- A line that is no text is refused without its number. -/
theorem wayOfLine_of_not_text (number : Nat) (h : ∀ s, line ≠ utf8 s) :
    wayOfLine number line = .error .cannotRead := by
  have hnone : lineText? line = none :=
    Option.eq_none_iff_forall_ne_some.2 fun s hs => h s (lineText?_eq_some_iff.1 hs)
  simp only [wayOfLine, hnone]

theorem waysFrom_cons_of_ok {number : Nat} {found : Option Way}
    (h : wayOfLine number line = .ok found) (rest : List (List UInt8)) :
    waysFrom number (line :: rest) =
      (waysFrom (number + 1) rest).map (found.toList ++ ·) := by
  rw [waysFrom, h]
  cases waysFrom (number + 1) rest <;> rfl

theorem waysFrom_cons_of_error {number : Nat} {fault : ReadFault}
    (h : wayOfLine number line = .error fault) (rest : List (List UInt8)) :
    waysFrom number (line :: rest) = .error fault := by
  rw [waysFrom, h]

theorem not_mem_render {w : Way} {c : Char} (hc : Json.isControl c) : c ∉ w.render.toList :=
  fun hmem => w.not_isControl_of_mem_render hmem hc

theorem isBlankText_of_append {t : String} (h : isBlankText (s ++ t)) : isBlankText s := by
  rw [isBlankText, String.toList_append, List.all_append, Bool.and_eq_true] at h
  exact h.1

theorem waysFrom_of_lists {ways : List Way} {text : String} (h : Lists ways text) (number : Nat) :
    waysFrom number (lines (utf8 text)) = .ok ways := by
  induction h generalizing number with
  | nothing => rw [Text.utf8_eq_nil_iff.2 rfl]; rfl
  | lastWay w =>
    have hne : utf8 w.render ≠ [] := by
      obtain ⟨cs, hcs⟩ := w.exists_render_eq_cons
      rw [Ne, Text.utf8_eq_nil_iff, ← String.toList_eq_nil_iff, hcs]
      exact List.cons_ne_nil _ _
    rw [lines_of_notMem (lineFeed_notMem_utf8 (not_mem_render (by decide))) hne,
      waysFrom_cons_of_ok (wayOfLine_render number w)]
    rfl
  | @lastBlank blank hblank hline =>
    by_cases hne : utf8 blank = []
    · rw [hne]
      rfl
    · rw [lines_of_notMem (lineFeed_notMem_utf8 hline) hne,
        waysFrom_cons_of_ok (wayOfLine_of_blank number hblank)]
      rfl
  | @way w ending text ways hend _ ih =>
    obtain ⟨t, hlines, rfl | hreturn⟩ :=
      lines_utf8 (not_mem_render (w := w) (by decide)) hend text
    · rw [hlines, waysFrom_cons_of_ok (wayOfLine_render number w), ih]
      rfl
    · have hmem : '\r' ∈ w.render.toList := by
        rw [hreturn, String.toList_append]
        exact List.mem_append_right _ List.mem_cons_self
      exact absurd hmem (not_mem_render (by decide))
  | @blank blank ending text ways hblank hline hend _ ih =>
    obtain ⟨t, hlines, ht⟩ := lines_utf8 hline hend text
    have hblank : isBlankText t := by
      rcases ht with rfl | rfl
      · exact hblank
      · exact isBlankText_of_append hblank
    rw [hlines, waysFrom_cons_of_ok (wayOfLine_of_blank number hblank), ih]
    rfl

/-- Reading ends with the fault of the first line that is refused. -/
theorem waysFrom_of_first {before after : List (List UInt8)} {bad : List UInt8} {fault : ReadFault}
    (hbefore : ∀ line ∈ before, Legible line) (number : Nat)
    (hbad : wayOfLine (number + before.length) bad = .error fault) :
    waysFrom number (before ++ bad :: after) = .error fault := by
  induction before generalizing number with
  | nil => exact waysFrom_cons_of_error hbad after
  | cons line before ih =>
    obtain ⟨hline, hbefore⟩ := List.forall_mem_cons.1 hbefore
    obtain ⟨found, hfound⟩ := hline.wayOfLine number
    rw [List.length_cons, ← Nat.add_assoc, Nat.add_right_comm] at hbad
    rw [List.cons_append, waysFrom_cons_of_ok hfound, ih hbefore (number + 1) hbad]
    rfl

/-- Reading a file of ways. A text that lists ways, whatever their tags hold, is read as those ways
    in order. In any other bytes the first line that is neither blank nor a way ends the reading
    without ways. If that line is text, the fault names its number, with blank lines counted; if it
    is not, the fault is that the file cannot be read. -/
theorem readWays_lines :
    (∀ ways text, Lists ways text → readWays (.content text.toUTF8) = .ok ways) ∧
    ∀ (bytes : ByteArray) before bad after, Lined (before ++ bad :: after) bytes.toList →
      (∀ line ∈ before, Legible line) → ¬Legible bad →
      ∃ fault, readWays (.content bytes) = .error fault ∧
        ((∃ s, bad = utf8 s) → ∀ path : String,
          fault.message path = s!"{path}:{before.length + 1}: invalid way") ∧
        ((∀ s, bad ≠ utf8 s) → ∀ path, fault.message path = "Failed to read " ++ path) := by
  refine ⟨fun ways text h => waysFrom_of_lists h 1, ?_⟩
  intro bytes before bad after hlined hbefore hbad
  have hread {fault : ReadFault} (hfault : wayOfLine (1 + before.length) bad = .error fault) :
      readWays (.content bytes) = .error fault := by
    rw [readWays, lines_eq_iff.2 hlined]
    exact waysFrom_of_first hbefore 1 hfault
  by_cases htext : ∃ s, bad = utf8 s
  · obtain ⟨s, rfl⟩ := htext
    refine ⟨_, hread (wayOfLine_of_not_legible _ hbad), fun _ path => ?_, fun h => (h s rfl).elim⟩
    rw [ReadFault.message, Nat.add_comm]
  · have hnot : ∀ s, bad ≠ utf8 s := not_exists.1 htext
    exact ⟨_, hread (wayOfLine_of_not_text _ hnot), fun h => (htext h).elim, fun _ path => rfl⟩

private def notedWay : Way := .ofTags (-7) [("note", "say \"no\"\nor \\ yes")]

private def plainWay : Way := .ofTags 9223372036854775807 []

private theorem legible_nil : Legible [] := ⟨"", (Text.utf8_eq_nil_iff.2 rfl).symm, .inl rfl⟩

/-- A text in quotes is JSON, but no way. -/
private theorem not_legible_quoted : ¬Legible [0x22, 0x78, 0x22] := by
  rintro ⟨s, hs, h⟩
  have hquoted : lineText? [0x22, 0x78, 0x22] = some (Json.Value.text "x").render := by rfl
  obtain rfl := Option.some.inj (hquoted.symm.trans (lineText?_eq_some_iff.2 hs))
  rcases h with hblank | ⟨w, hw⟩
  · exact absurd hblank (by decide)
  · rw [Way.parse?, Json.Value.parse?_render (Json.Value.proper_text "x")] at hw
    cases hw

/-- Line ends of both kinds and blank lines leave two ways as they were written. A JSON text that is
    no way is reported by its line, the blank one before it counted. -/
theorem readWays_lines_noted :
    readWays (.content ("" ++ "\n" ++
      (notedWay.render ++ "\r\n" ++ (" \t" ++ "\n" ++ plainWay.render))).toUTF8) =
        .ok [notedWay, plainWay] ∧
    Lined ([[]] ++ [0x22, 0x78, 0x22] :: []) [0x0A, 0x22, 0x78, 0x22] ∧
    (∀ line ∈ [[]], Legible line) ∧ ¬Legible [0x22, 0x78, 0x22] ∧
    ∃ fault, readWays (.content ⟨#[0x0A, 0x22, 0x78, 0x22]⟩) = .error fault ∧
      fault.message "ways.jsonl" = "ways.jsonl:2: invalid way" := by
  have hlined : Lined ([[]] ++ [0x22, 0x78, 0x22] :: []) [0x0A, 0x22, 0x78, 0x22] :=
    .feed (by decide) (by decide) (.unended (by decide) (by decide))
  have hblank : ∀ line ∈ [[]], Legible line := List.forall_mem_singleton.2 legible_nil
  obtain ⟨fault, hread, hnumbered, -⟩ := readWays_lines.2 ⟨#[0x0A, 0x22, 0x78, 0x22]⟩ _ _ _
    (by rw [Text.toList_byteArray]; exact hlined) hblank not_legible_quoted
  have hquoted : lineText? [0x22, 0x78, 0x22] = some "\"x\"" := by rfl
  refine ⟨readWays_lines.1 _ _ ?_, hlined, hblank, not_legible_quoted, fault, hread,
    hnumbered ⟨_, lineText?_eq_some_iff.1 hquoted⟩ "ways.jsonl"⟩
  exact .blank rfl (by decide) (.inl rfl)
    (.way _ (.inr rfl) (.blank rfl (by decide) (.inl rfl) (.lastWay _)))

/-- A line that is no text is refused, but not by its number. -/
theorem readWays_unnumbered :
    Lined ([[]] ++ [0xFF] :: []) [0x0A, 0xFF] ∧ (∀ line ∈ [[]], Legible line) ∧
      ¬Legible [0xFF] ∧
      (readWays (.content ⟨#[0x0A, 0xFF]⟩)).mapError (·.message "ways.jsonl") =
        .error "Failed to read ways.jsonl" := by
  refine ⟨.feed (by decide) (by decide) (.unended (by decide) (by decide)),
    List.forall_mem_singleton.2 legible_nil, ?_, ?_⟩
  · rintro ⟨s, hs, -⟩
    have hnone : lineText? [0xFF] = none := by rfl
    cases hnone.symm.trans (lineText?_eq_some_iff.2 hs)
  · rw [readWays, Text.toList_byteArray]
    rfl

end Import

end EdgeAttributes
