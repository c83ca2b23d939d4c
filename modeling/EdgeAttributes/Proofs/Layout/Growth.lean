import EdgeAttributes.Layout
import Mathlib

namespace EdgeAttributes

/-- The second cursor is no less far than the first: no word is closed again and no bit given
    back. -/
structure Cursor.Reaches (c c' : Cursor) : Prop where
  words_le : c.words ≤ c'.words
  bitsUsed_le : c.bitsUsed ≤ c'.bitsUsed

namespace Cursor

theorem Reaches.refl (c : Cursor) : c.Reaches c := ⟨le_rfl, le_rfl⟩

theorem Reaches.trans {c c' c'' : Cursor} (h : c.Reaches c') (h' : c'.Reaches c'') :
    c.Reaches c'' :=
  ⟨h.words_le.trans h'.words_le, h.bitsUsed_le.trans h'.bitsUsed_le⟩

theorem reaches_take (c : Cursor) (bits : Nat) : c.Reaches (c.take bits).2 where
  words_le := by
    simp only [take]
    split <;> simp
  bitsUsed_le := by
    rw [bitsUsed_take]
    exact Nat.le_add_right _ _

theorem reaches_place (c : Cursor) (d : Declaration) : c.Reaches (c.place d).2 := by
  have hforward := c.reaches_take d.bits
  by_cases htwo : d.twoDirections = true
  · have hbackward := (c.take d.bits).2.reaches_take d.bits
    simpa only [place, htwo, if_true] using hforward.trans hbackward
  · simpa only [place, htwo, Bool.false_eq_true, if_false] using hforward

theorem reaches_placeAll (c : Cursor) (ds : List Declaration) : c.Reaches (c.placeAll ds).2 := by
  induction ds generalizing c with
  | nil => exact .refl c
  | cons d ds ih => exact (c.reaches_place d).trans (ih _)

/-- Declarations that come later get slots behind those of the others, which stay where they are. -/
theorem placeAll_append (c : Cursor) (ds es : List Declaration) :
    c.placeAll (ds ++ es) =
      ((c.placeAll ds).1 ++ ((c.placeAll ds).2.placeAll es).1,
        ((c.placeAll ds).2.placeAll es).2) := by
  induction ds generalizing c with
  | nil => rfl
  | cons d ds ih => simp only [List.cons_append, placeAll, ih]

end Cursor

namespace Layout

/-- A layout that has all fields of another one at the front, with the same slots, and at least as
    many words and bits. -/
structure Extends (l l' : Layout) : Prop where
  fields_isPrefix : l.fields <+: l'.fields
  intsPerEdge_le : l.intsPerEdge ≤ l'.intsPerEdge
  bitsUsed_le : l.bitsUsed ≤ l'.bitsUsed

theorem Draft.extends_freeze {d d' : Draft} (h : d.declarations <+: d'.declarations) :
    d.freeze.Extends d'.freeze := by
  obtain ⟨later, hlater⟩ := h
  have hplace := Cursor.placeAll_append Cursor.start d.declarations later
  have hreaches := (Cursor.start.placeAll d.declarations).2.reaches_placeAll later
  rw [hlater] at hplace
  refine ⟨⟨_, (congrArg Prod.fst hplace).symm⟩, ?_, ?_⟩
  · exact hreaches.words_le.trans_eq (congrArg (fun r => r.2.words) hplace).symm
  · exact hreaches.bitsUsed_le.trans_eq (congrArg (fun r => r.2.bitsUsed) hplace).symm

end Layout

end EdgeAttributes
