namespace EdgeAttributes.Text

/-- The small letter of an ASCII capital; any other character itself. -/
def foldCase (c : Char) : Char :=
  if 'A' ≤ c ∧ c ≤ 'Z' then Char.ofNat (c.toNat + 32) else c

/-- `s` with its ASCII capitals made small. -/
def folded (s : String) : List Char := s.toList.map foldCase

/-- Equality of texts up to the case of ASCII letters. -/
def sameIgnoringCase (s t : String) : Bool := folded s == folded t

theorem sameIgnoringCase_iff {s t : String} : sameIgnoringCase s t ↔ folded s = folded t := by
  simp [sameIgnoringCase]

theorem sameIgnoringCase_refl (s : String) : sameIgnoringCase s s := by
  simp [sameIgnoringCase]

end EdgeAttributes.Text
