import EdgeAttributes.Layout
import EdgeAttributes.Proofs.Slot.Packing

namespace EdgeAttributes

namespace Field

/-- The slots are as wide as the declaration says, and there is a backward one exactly if the
    declaration has two directions. -/
structure Sized (f : Field) : Prop where
  forward_bits : f.forward.bits = f.declaration.bits
  backward_bits : ∀ b, f.backward = some b → b.bits = f.declaration.bits
  isSome_backward : f.backward.isSome = f.declaration.twoDirections

/-- The slots of several fields in order, the forward slot of each before its backward one. -/
def slotsOf (fields : List Field) : List Slot := fields.flatMap Field.slots

/-- Bits that a declaration takes for all its directions. -/
def footprint (d : Declaration) : Nat := if d.twoDirections then 2 * d.bits else d.bits

theorem footprint_le (d : Declaration) : footprint d ≤ 2 * maxBits := by
  have hbits := d.bits_le
  rw [footprint]
  split <;> omega

theorem Sized.sum_bits_slots {f : Field} (h : f.Sized) :
    (f.slots.map Slot.bits).sum = footprint f.declaration := by
  have hsome := h.isSome_backward
  cases hback : f.backward with
  | none =>
    rw [hback] at hsome
    simp [slots, hback, footprint, ← hsome, h.forward_bits]
  | some b =>
    rw [hback] at hsome
    simp [slots, hback, footprint, ← hsome, h.forward_bits, h.backward_bits b hback]
    omega

theorem sum_bits_slotsOf {fields : List Field} (h : ∀ f ∈ fields, f.Sized) :
    ((slotsOf fields).map Slot.bits).sum =
      ((fields.map Field.declaration).map footprint).sum := by
  induction fields with
  | nil => rfl
  | cons f fields ih =>
    have hf := (h f List.mem_cons_self).sum_bits_slots
    have hrest := ih fun g hg => h g (List.mem_cons_of_mem _ hg)
    simp only [slotsOf] at hrest
    simp [slotsOf, hf, hrest]

theorem slot_mem_slots (f : Field) (reverse : Bool) : f.slot reverse ∈ f.slots := by
  cases hback : f.backward <;> cases reverse <;> simp [slot, slots, hback]

theorem mem_slotsOf {fields : List Field} {f : Field} (hf : f ∈ fields) (reverse : Bool) :
    f.slot reverse ∈ slotsOf fields :=
  List.mem_flatMap.2 ⟨f, hf, slot_mem_slots f reverse⟩

end Field

namespace Cursor

variable {slots : List Slot} {c : Cursor}

theorem sized_place (c : Cursor) (d : Declaration) : (c.place d).1.Sized := by
  by_cases htwo : d.twoDirections = true
  · simp only [place, htwo, if_true]
    refine ⟨bits_take _ _, ?_, htwo.symm⟩
    intro b hb
    rw [← Option.some.inj hb]
    exact bits_take _ _
  · simp only [place, htwo]
    refine ⟨bits_take _ _, ?_, (Bool.eq_false_iff.2 htwo).symm⟩
    intro b hb
    exact absurd hb (Option.some_ne_none b).symm

theorem sized_placeAll (c : Cursor) (ds : List Declaration) :
    ∀ f ∈ (c.placeAll ds).1, f.Sized := by
  induction ds generalizing c with
  | nil => simp [placeAll]
  | cons d ds ih =>
    intro f hf
    rcases List.mem_cons.1 hf with rfl | hf
    · exact sized_place c d
    · exact ih _ f hf

private theorem bits_le_wordBits (d : Declaration) : d.bits ≤ wordBits :=
  Nat.le_trans d.bits_le (by decide)

/-- What every slot handed out keeps true is kept while a declaration is placed. -/
private theorem place_invariant {P : List Slot → Cursor → Prop}
    (htake : ∀ slots c bits, 0 < bits → bits ≤ wordBits → P slots c →
      P (slots ++ [(c.take bits).1]) (c.take bits).2) (h : P slots c) (d : Declaration) :
    P (slots ++ (c.place d).1.slots) (c.place d).2 := by
  have hforward := htake _ _ _ d.bits_pos (bits_le_wordBits d) h
  by_cases htwo : d.twoDirections = true
  · have hbackward := htake _ _ _ d.bits_pos (bits_le_wordBits d) hforward
    simpa only [Cursor.place, htwo, if_true, Field.slots, Option.toList_some, List.append_assoc,
      List.singleton_append] using hbackward
  · simpa only [Cursor.place, htwo, Bool.false_eq_true, if_false, Field.slots,
      Option.toList_none] using hforward

/-- What every slot handed out keeps true is kept while declarations are placed one after the
    other. -/
theorem placeAll_invariant {P : List Slot → Cursor → Prop}
    (htake : ∀ slots c bits, 0 < bits → bits ≤ wordBits → P slots c →
      P (slots ++ [(c.take bits).1]) (c.take bits).2) (h : P slots c) (ds : List Declaration) :
    P (slots ++ Field.slotsOf (c.placeAll ds).1) (c.placeAll ds).2 := by
  induction ds generalizing slots c with
  | nil => simpa [Cursor.placeAll, Field.slotsOf] using h
  | cons d ds ih =>
    have hrest := ih (place_invariant htake h d)
    simpa only [Cursor.placeAll, Field.slotsOf, List.flatMap_cons, List.append_assoc] using hrest

theorem filled_placeAll_start (ds : List Declaration) :
    Filled (Field.slotsOf (start.placeAll ds).1) (start.placeAll ds).2 :=
  placeAll_invariant (fun _ _ _ hpos hbits hslots => hslots.take hpos hbits) filled_start ds

theorem bitsUsed_placeAll_start (ds : List Declaration) :
    (start.placeAll ds).2.bitsUsed = (ds.map Field.footprint).sum := by
  rw [(filled_placeAll_start ds).bitsUsed_eq, Field.sum_bits_slotsOf (sized_placeAll start ds),
    map_declaration_placeAll]

end Cursor

/-- The bits of up to `2 ^ 26` values can be counted in 32 bits. -/
theorem Layout.Draft.bitsUsed_freeze_lt {d : Layout.Draft} (h : d.declarations.length ≤ 2 ^ 26) :
    d.freeze.bitsUsed < 2 ^ 32 := by
  have hsum := List.sum_le_card_nsmul (d.declarations.map Field.footprint) (2 * maxBits) (by
    simpa using fun decl _ => Field.footprint_le decl)
  rw [List.length_map, smul_eq_mul, maxBits] at hsum
  change (Cursor.start.placeAll d.declarations).2.bitsUsed < 2 ^ 32
  rw [Cursor.bitsUsed_placeAll_start]
  omega

/-- How declarations are laid out in words of 32 bits: in order, each slot inside one word, each
    word filled from bit 0 without a gap, and nothing counted twice. -/
structure Packed (ds : List Declaration) (fields : List Field) (words bitsUsed : Nat) : Prop where
  declared : fields.map Field.declaration = ds
  sized : ∀ f ∈ fields, f.Sized
  nonempty : ∀ s ∈ Field.slotsOf fields, s.bitRange.1 < s.bitRange.2
  ordered : (Field.slotsOf fields).Pairwise fun a b => a.bitRange.2 ≤ b.bitRange.1
  inside_word : ∀ s ∈ Field.slotsOf fields, s.shift + s.bits ≤ wordBits
  index_lt : ∀ s ∈ Field.slotsOf fields, s.index < words
  mask_bits : ∀ s ∈ Field.slotsOf fields, ∀ bit < wordBits,
    s.mask.toBitVec.getLsbD bit = true ↔
      s.bitRange.1 ≤ s.index * wordBits + bit ∧ s.index * wordBits + bit < s.bitRange.2
  masks_exclusive : (Field.slotsOf fields).Pairwise fun a b =>
    a.index = b.index → a.mask &&& b.mask = 0
  filled : ∀ word < words, ∃ used, 0 < used ∧ used ≤ wordBits ∧
    ∀ bit, Slot.Covered (Field.slotsOf fields) word bit ↔ bit < used
  no_words : ds = [] → words = 0
  last_word : ds ≠ [] → ∃ s ∈ Field.slotsOf fields, words = s.index + 1
  bitsUsed_slots : bitsUsed = ((Field.slotsOf fields).map Slot.bits).sum
  bitsUsed_declared : bitsUsed = (ds.map Field.footprint).sum

private theorem disjoint_of_bitRange_le {a b : Slot} (h : a.bitRange.2 ≤ b.bitRange.1) :
    a.Disjoint b := by
  simp only [Slot.bitRange] at h
  by_cases hindex : a.index = b.index
  · rw [hindex] at h
    exact Or.inr (Or.inl (by omega))
  · exact Or.inl hindex

theorem Cursor.Filled.pairwise_disjoint {slots : List Slot} {c : Cursor} (h : c.Filled slots) :
    slots.Pairwise Slot.Disjoint :=
  h.ordered.imp disjoint_of_bitRange_le

/-- Declarations placed from an untouched cursor are packed, whatever their widths, and so is every
    layout. Names play no part in it. -/
theorem packed_placeAll :
    (∀ ds : List Declaration, Packed ds (Cursor.start.placeAll ds).1
      (Cursor.start.placeAll ds).2.words (Cursor.start.placeAll ds).2.bitsUsed) ∧
    ∀ d : Layout.Draft,
      Packed d.declarations d.freeze.fields d.freeze.intsPerEdge d.freeze.bitsUsed := by
  have hpacked (ds : List Declaration) : Packed ds (Cursor.start.placeAll ds).1
      (Cursor.start.placeAll ds).2.words (Cursor.start.placeAll ds).2.bitsUsed := by
    have hfilled := Cursor.filled_placeAll_start ds
    have hsized := Cursor.sized_placeAll Cursor.start ds
    have hdeclared := Cursor.map_declaration_placeAll Cursor.start ds
    refine
      { declared := hdeclared
        sized := hsized
        nonempty := ?_
        ordered := hfilled.ordered
        inside_word := fun s hs => (hfilled.inside s hs).end_le
        index_lt := hfilled.index_lt
        mask_bits := ?_
        masks_exclusive := ?_
        filled := ?_
        no_words := fun hnil => by rw [hnil]; rfl
        last_word := ?_
        bitsUsed_slots := hfilled.bitsUsed_eq
        bitsUsed_declared := Cursor.bitsUsed_placeAll_start ds }
    · intro s hs
      have hpos := (hfilled.inside s hs).bits_pos
      simp only [Slot.bitRange]
      omega
    · intro s hs bit _
      rw [Slot.getLsbD_mask (hfilled.inside s hs), decide_eq_true_eq]
      simp only [Slot.bitRange]
      omega
    · refine hfilled.pairwise_disjoint.imp_of_mem ?_
      intro a b ha hb hab hindex
      exact Slot.mask_and_mask_of_disjoint (hfilled.inside a ha) (hfilled.inside b hb) hindex hab
    · intro word hword
      obtain ⟨used, hpos, hle, _, hcover⟩ := hfilled.filled word hword
      exact ⟨used, hpos, hle, hcover⟩
    · intro hne
      obtain ⟨d, rest, rfl⟩ := List.exists_cons_of_ne_nil hne
      have hslots : Field.slotsOf (Cursor.start.placeAll (d :: rest)).1 ≠ [] :=
        List.ne_nil_of_mem (Field.mem_slotsOf List.mem_cons_self false)
      obtain ⟨s, hs, hlast⟩ := hfilled.last_index hslots
      exact ⟨s, hs, hlast.symm⟩
  exact ⟨hpacked, fun d => hpacked d.declarations⟩

end EdgeAttributes
