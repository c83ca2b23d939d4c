import EdgeAttributes.Proofs.Attribute.TagValues
import EdgeAttributes.Proofs.Text.Trim

namespace EdgeAttributes.RoadAccess

/-- The entries of a list value, without the blanks around them. -/
def entries (value : String) : List String := (Text.split ';' value).map Text.trim

/-- An entry that stands for an access other than `missing`. -/
def Recognised (entry : String) : Prop := ∃ a, a ≠ missing ∧ Means entry a

theorem recognised_iff {entry : String} : Recognised entry ↔ ofEntry entry ≠ missing := by
  constructor
  · rintro ⟨a, hne, hmeans⟩
    rwa [means_iff.1 hmeans]
  · exact fun h => ⟨ofEntry entry, h, means_iff.2 rfl⟩

theorem not_recognised_empty : ¬ Recognised "" := by
  rw [recognised_iff, not_not]
  decide

theorem entries_join (a b : String) : entries (a ++ ";" ++ b) = entries a ++ entries b := by
  have hsplit : Text.split ';' (a ++ ";" ++ b) = Text.split ';' a ++ Text.split ';' b :=
    Text.split_append ';' a b
  rw [entries, hsplit, List.map_append, entries, entries]

/-- Blanks around a list are blanks around its first and its last entry. -/
theorem entries_padded {front back : String} (hfront : Text.isBlankText front)
    (hback : Text.isBlankText back) (value : String) :
    entries (front ++ value ++ back) = entries value := by
  have hentries (v : String) : entries v =
      ((Text.splitChars ';' v.toList).map Text.trimChars).map String.ofList := by
    simp [entries, Text.split, Text.trim, Function.comp_def]
  have hsemicolon : Text.isBlank ';' = false := by decide
  rw [hentries, hentries, String.toList_append, String.toList_append,
    Text.map_trimChars_splitChars_append_right hsemicolon (List.all_eq_true.1 hback),
    Text.map_trimChars_splitChars_append_left hsemicolon (List.all_eq_true.1 hfront)]

theorem ofValue_eq_strictest (value : String) :
    ofValue value = strictest ((entries value).map ofEntry) := by
  rw [ofValue, entries, List.map_map]
  rfl

/-- A list is no stricter than a bound exactly if none of its recognised entries is. -/
theorem ordinal_ofValue_le_iff {value : String} {n : Nat} : TagEnum.ordinal (ofValue value) ≤ n ↔
    ∀ entry ∈ entries value, Recognised entry → TagEnum.ordinal (ofEntry entry) ≤ n := by
  rw [ofValue_eq_strictest, ordinal_strictest_le_iff, List.forall_mem_map]
  refine ⟨fun hall entry hmem _ => hall entry hmem, fun hall entry hmem => ?_⟩
  by_cases hrecognised : Recognised entry
  · exact hall entry hmem hrecognised
  · rw [recognised_iff, not_not] at hrecognised
    rw [hrecognised]
    exact (le_of_eq TagEnum.ordinal_missing).trans (Nat.zero_le n)

/-- Entries that a list has beside those of another one make it no less strict. -/
theorem ordinal_ofValue_mono {a b : String}
    (h : ∀ entry ∈ entries a, Recognised entry → entry ∈ entries b) :
    TagEnum.ordinal (ofValue a) ≤ TagEnum.ordinal (ofValue b) := by
  rw [ordinal_ofValue_le_iff]
  intro entry hmem hrecognised
  exact ordinal_ofValue_le_iff.1 (le_refl _) entry (h entry hmem hrecognised) hrecognised

/-- The strictness of two lists behind one another is that of the stricter one. -/
theorem ordinal_ofValue_join (a b : String) : TagEnum.ordinal (ofValue (a ++ ";" ++ b)) =
    max (TagEnum.ordinal (ofValue a)) (TagEnum.ordinal (ofValue b)) := by
  refine eq_of_forall_ge_iff fun n => ?_
  simp only [max_le_iff, ordinal_ofValue_le_iff, entries_join, List.forall_mem_append]

/-- Two lists behind one another stand for the stricter of what they stand for alone. So it is only
    the set of recognised entries that counts: neither their order nor how often they come, nor
    entries that are not recognised, of which the empty one is one. More entries never make a list
    less strict, and blanks around any part of it change nothing. -/
theorem ofValue_join (a b : String) :
    ofValue (a ++ ";" ++ b) = (if TagEnum.ordinal (ofValue a) ≤ TagEnum.ordinal (ofValue b)
      then ofValue b else ofValue a) ∧
    ((∀ entry, Recognised entry → (entry ∈ entries a ↔ entry ∈ entries b)) →
      ofValue a = ofValue b) ∧
    ((∀ entry ∈ entries a, Recognised entry → entry ∈ entries b) →
      TagEnum.ordinal (ofValue a) ≤ TagEnum.ordinal (ofValue b)) ∧
    (∀ front back, Text.isBlankText front → Text.isBlankText back →
      ofValue (front ++ a ++ back) = ofValue a) ∧
    ¬ Recognised "" := by
  refine ⟨?_, fun hsame => ?_, ordinal_ofValue_mono, fun front back hfront hback => ?_,
    not_recognised_empty⟩
  · apply TagEnum.ordinal_injective
    rw [ordinal_ofValue_join]
    split
    · next hle => exact max_eq_right hle
    · next hlt => exact max_eq_left (Nat.le_of_not_le hlt)
  · apply TagEnum.ordinal_injective
    apply le_antisymm
    · exact ordinal_ofValue_mono fun entry hmem hrecognised => (hsame entry hrecognised).1 hmem
    · exact ordinal_ofValue_mono fun entry hmem hrecognised => (hsame entry hrecognised).2 hmem
  · rw [ofValue_eq_strictest, entries_padded hfront hback, ← ofValue_eq_strictest]

end EdgeAttributes.RoadAccess
