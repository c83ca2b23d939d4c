import EdgeAttributes.Proofs.Attribute.TagValues
import EdgeAttributes.Proofs.Text.Casing

namespace EdgeAttributes

namespace SortedMap

variable {β γ : Type}

private theorem lookup_map (g : β → γ) (l : List (String × β)) (key : String) :
    (l.map fun entry => (entry.1, g entry.2)).lookup key = (l.lookup key).map g := by
  induction l with
  | nil => rfl
  | cons entry rest ih =>
    rw [List.map_cons, List.lookup_cons, List.lookup_cons, ih]
    split <;> rfl

/-- Apply a function to all values. -/
def mapValues (g : β → γ) (m : SortedMap β) : SortedMap γ where
  entries := m.entries.map fun entry => (entry.1, g entry.2)
  sorted := List.pairwise_map.2 m.sorted

theorem get?_mapValues (g : β → γ) (m : SortedMap β) (key : String) :
    (m.mapValues g).get? key = (m.get? key).map g :=
  lookup_map g m.entries key

theorem map_get?_ofList (g : β → γ) (l : List (String × β)) (key : String) :
    ((ofList l).get? key).map g =
      (ofList (l.map fun entry => (entry.1, g entry.2))).get? key := by
  rw [get?_ofList, get?_ofList, ← List.map_reverse, lookup_map]

end SortedMap

namespace Way

/-- The same keys, with values that differ in nothing but the case of letters. -/
def SameButCase (way way' : Way) : Prop :=
  ∀ key, (way.tag key).map Text.folded = (way'.tag key).map Text.folded

theorem SameButCase.symm {way way' : Way} (h : way.SameButCase way') : way'.SameButCase way :=
  fun key => (h key).symm

/-- Pairs that differ in the case of values only make up ways that do. -/
theorem sameButCase_ofTags {id id' : Int64} {tags tags' : List (String × String)}
    (h : tags.map (fun tag => (tag.1, Text.folded tag.2)) =
      tags'.map fun tag => (tag.1, Text.folded tag.2)) :
    (ofTags id tags).SameButCase (ofTags id' tags') := by
  intro key
  rw [tag, tag, ofTags, ofTags, SortedMap.map_get?_ofList, SortedMap.map_get?_ofList, h]

/-- A way with the characters of all its values changed. -/
def recase (g : Char → Char) (way : Way) : Way :=
  { way with tags := way.tags.mapValues (String.map g) }

theorem tag_recase (g : Char → Char) (way : Way) (key : String) :
    (way.recase g).tag key = (way.tag key).map (String.map g) :=
  way.tags.get?_mapValues (String.map g) key

section Recase

variable {g : Char → Char} (hg : Text.Recases g) (way : Way)

include hg

theorem sameButCase_recase : way.SameButCase (way.recase g) := by
  intro key
  rw [tag_recase, Option.map_map]
  cases way.tag key with
  | none => rfl
  | some value => exact congrArg some (hg.folded_map value).symm

theorem restrictions?_recase :
    (way.recase g).restrictions? = way.restrictions?.map (List.map (String.map g)) := by
  simp only [restrictions?, tag_recase, ← Option.map_or, Option.map_map]
  congr 1
  funext value
  exact hg.entries_map value

end Recase

/-- Restrictions that differ in case only have the same entries up to case. -/
theorem SameButCase.restrictions? {way way' : Way} (h : way.SameButCase way') :
    way.restrictions?.map (List.map Text.folded) =
      way'.restrictions?.map (List.map Text.folded) := by
  have hvalue : ((way.tag "motor_vehicle").or ((way.tag "vehicle").or (way.tag "access"))).map
      Text.folded = ((way'.tag "motor_vehicle").or ((way'.tag "vehicle").or
        (way'.tag "access"))).map Text.folded := by
    simp only [Option.map_or, h _]
  rw [Way.restrictions?, Way.restrictions?]
  generalize (way.tag "motor_vehicle").or _ = value at hvalue ⊢
  generalize (way'.tag "motor_vehicle").or _ = value' at hvalue ⊢
  cases value with
  | none =>
    rw [Option.map_none, eq_comm, Option.map_eq_none_iff] at hvalue
    rw [hvalue]
  | some value =>
    obtain ⟨value', rfl, heq⟩ := Option.map_eq_some_iff.1 hvalue.symm
    exact congrArg some (Text.folded_entries heq.symm)

end Way

end EdgeAttributes
