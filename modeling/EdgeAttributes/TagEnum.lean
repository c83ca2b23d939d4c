import EdgeAttributes.Text.AsciiCase

namespace EdgeAttributes

/-- What a layout remembers of a set of tag values: which set it is, its title and the spellings in
    ordinal order. -/
structure EnumShape where
  identity : String
  title : String
  spellings : List String
deriving DecidableEq

/-- A closed set of tag values. `identity` tells the sets of a program apart, which may share a
    title, `key` names the encoded value that holds it, and `spelling` is how a value is written in
    a tag. -/
class TagEnum (α : Type) [DecidableEq α] where
  title : String
  identity : String := title
  key : String
  missing : α
  others : List α
  spelling : α → String
  nodup : (missing :: others).Nodup
  complete : ∀ a, a ∈ missing :: others

namespace TagEnum

variable {α : Type} [DecidableEq α] [TagEnum α]

/-- All values in ordinal order. -/
def values (α : Type) [DecidableEq α] [TagEnum α] : List α := missing :: others

/-- All spellings in ordinal order. -/
def spellings (α : Type) [DecidableEq α] [TagEnum α] : List String := (values α).map spelling

/-- The set as a layout remembers it. -/
def shape (α : Type) [DecidableEq α] [TagEnum α] : EnumShape := ⟨identity α, title α, spellings α⟩

/-- Position of a value in ordinal order. -/
def ordinal (a : α) : Nat := (values α).idxOf a

/-- The value of an ordinal; one that no value has stands for `missing`. -/
def ofOrdinal (n : Nat) : α := (values α)[n]?.getD missing

/-- The value spelled `text`, whatever the case of its letters; an absent, empty or unknown text is
    `missing`. -/
def find (text : Option String) : α :=
  match text with
  | none => missing
  | some t =>
    if t.isEmpty then missing
    else ((values α).find? fun v => Text.sameIgnoringCase (spelling v) t).getD missing

theorem mem_values (a : α) : a ∈ values α := complete a

theorem ordinal_lt (a : α) : ordinal a < (values α).length :=
  List.idxOf_lt_length_iff.2 (mem_values a)

@[simp] theorem ofOrdinal_ordinal (a : α) : ofOrdinal (ordinal a) = a := by
  rw [ofOrdinal, List.getElem?_eq_getElem (ordinal_lt a), Option.getD_some]
  exact List.getElem_idxOf (ordinal_lt a)

theorem ordinal_injective {a b : α} (h : ordinal a = ordinal b) : a = b := by
  rw [← ofOrdinal_ordinal a, h, ofOrdinal_ordinal]

@[simp] theorem ordinal_missing : ordinal (missing : α) = 0 := by
  simp [ordinal, values]

end TagEnum

end EdgeAttributes
