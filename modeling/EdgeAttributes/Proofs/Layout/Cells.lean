import EdgeAttributes.Proofs.Layout.Slots

namespace EdgeAttributes

-- Powers keep the meaning that they have without any further library.
attribute [local instance (high)] instPowNat

/-- Where a value is kept, whatever the layout: a field of one direction keeps one value for
    both. -/
structure Address where
  name : String
  backward : Bool
  edge : Nat
deriving DecidableEq

namespace Field

variable {width : Nat}

/-- Where a field keeps the value of a direction of an edge. -/
def address (f : Field) (edge : Nat) (reverse : Bool) : Address :=
  ⟨f.name, reverse && f.declaration.twoDirections, edge⟩

theorem Sized.bits_slot {f : Field} (h : f.Sized) (reverse : Bool) :
    (f.slot reverse).bits = f.declaration.bits := by
  cases reverse with
  | false => exact h.forward_bits
  | true =>
    cases hback : f.backward with
    | none => simpa [slot, hback] using h.forward_bits
    | some b => simpa [slot, hback] using h.backward_bits b hback

theorem Sized.slot_of_oneDirection {f : Field} (h : f.Sized)
    (hone : f.declaration.twoDirections = false) (reverse : Bool) : f.slot reverse = f.forward := by
  have hnone : f.backward = none := by
    rw [← Option.isNone_iff_eq_none, ← Option.not_isSome, h.isSome_backward, hone]
    rfl
  cases reverse <;> simp [slot, hnone]

/-- Storage that has the word of a slot answers what the slot holds there. -/
theorem pattern_eq (f : Field) (s : EdgeStorage width) (edge : Nat) (reverse : Bool)
    (hindex : (f.slot reverse).index < width) :
    f.pattern s edge reverse =
      .ok ((f.slot reverse).extract (s.cell edge)[(f.slot reverse).index]) := by
  rw [pattern, EdgeStorage.word_eq s edge hindex]
  rfl

/-- Storage that has the word of a slot accepts every pattern. -/
theorem setPattern_eq (f : Field) (s : EdgeStorage width) (edge : Nat) (reverse : Bool)
    (pattern : UInt32) (hindex : (f.slot reverse).index < width) :
    f.setPattern edge reverse pattern s =
      .ok () (s.put edge (f.slot reverse).index
        ((f.slot reverse).deposit pattern (s.cell edge)[(f.slot reverse).index]) hindex) := by
  simp only [setPattern, EdgeStorage.word_eq s edge hindex, EdgeStorage.setWord, dif_pos hindex]

end Field

namespace Layout.Draft

variable {width : Nat} {f g : Field} (d : Layout.Draft)

theorem filled_freeze : ∃ c : Cursor, c.words = d.freeze.intsPerEdge ∧
    c.Filled (Field.slotsOf d.freeze.fields) :=
  ⟨_, rfl, Cursor.filled_placeAll_start d.declarations⟩

theorem map_declaration_freeze : d.freeze.fields.map Field.declaration = d.declarations :=
  Cursor.map_declaration_placeAll _ _

theorem sized (hf : f ∈ d.freeze.fields) : f.Sized :=
  Cursor.sized_placeAll _ d.declarations f hf

theorem nodup_names : d.freeze.names.Nodup := by
  have hnodup := d.nodup
  rw [← d.map_declaration_freeze, List.map_map] at hnodup
  exact hnodup

theorem eq_of_name_eq (hf : f ∈ d.freeze.fields) (hg : g ∈ d.freeze.fields)
    (hname : f.name = g.name) : f = g :=
  List.inj_on_of_nodup_map d.nodup_names hf hg hname

theorem slot_inside (hf : f ∈ d.freeze.fields) (reverse : Bool) : (f.slot reverse).Inside := by
  obtain ⟨c, _, hfilled⟩ := d.filled_freeze
  exact hfilled.inside _ (Field.mem_slotsOf hf reverse)

theorem slot_index_lt (hf : f ∈ d.freeze.fields) (reverse : Bool) :
    (f.slot reverse).index < d.freeze.intsPerEdge := by
  obtain ⟨c, hwords, hfilled⟩ := d.filled_freeze
  rw [← hwords]
  exact hfilled.index_lt _ (Field.mem_slotsOf hf reverse)

theorem slots_disjoint_of_ne (hf : f ∈ d.freeze.fields) (hg : g ∈ d.freeze.fields)
    (hne : f ≠ g) {a b : Slot} (ha : a ∈ f.slots) (hb : b ∈ g.slots) : a.Disjoint b := by
  obtain ⟨c, _, hfilled⟩ := d.filled_freeze
  have hpair := (List.pairwise_flatMap.1 hfilled.pairwise_disjoint).2
  have hsymm : Std.Symm fun f g : Field => ∀ a ∈ f.slots, ∀ b ∈ g.slots, a.Disjoint b :=
    ⟨fun f g h a ha b hb => (h b hb a ha).symm⟩
  exact hpair.forall hf hg hne a ha b hb

private theorem forward_disjoint_backward (hf : f ∈ d.freeze.fields) {b : Slot}
    (hback : f.backward = some b) : f.forward.Disjoint b := by
  obtain ⟨c, _, hfilled⟩ := d.filled_freeze
  have hpair := (List.pairwise_flatMap.1 hfilled.pairwise_disjoint).1 f hf
  simp only [Field.slots, hback, Option.toList_some, List.pairwise_cons, List.mem_singleton,
    forall_eq] at hpair
  exact hpair.1

/-- Values with one address share their slot. -/
theorem slot_eq_of_address_eq (hf : f ∈ d.freeze.fields) (hg : g ∈ d.freeze.fields)
    {edge other : Nat} {reverse reverse' : Bool}
    (haddress : f.address edge reverse = g.address other reverse') :
    f = g ∧ f.slot reverse = g.slot reverse' ∧ edge = other := by
  have heq : f = g := d.eq_of_name_eq hf hg (congrArg Address.name haddress)
  subst heq
  refine ⟨rfl, ?_, congrArg Address.edge haddress⟩
  have hbackward := congrArg Address.backward haddress
  by_cases htwo : f.declaration.twoDirections = true
  · have hreverse : reverse = reverse' := by simpa [Field.address, htwo] using hbackward
    rw [hreverse]
  · have hone := Bool.eq_false_iff.2 htwo
    rw [(d.sized hf).slot_of_oneDirection hone, (d.sized hf).slot_of_oneDirection hone]

/-- Values with different addresses on one edge have slots without a common bit. -/
theorem slot_disjoint_of_address_ne (hf : f ∈ d.freeze.fields) (hg : g ∈ d.freeze.fields)
    {edge : Nat} {reverse reverse' : Bool}
    (haddress : f.address edge reverse ≠ g.address edge reverse') :
    (f.slot reverse).Disjoint (g.slot reverse') := by
  by_cases heq : f = g
  · subst heq
    have hbackward : (reverse && f.declaration.twoDirections) ≠
        (reverse' && f.declaration.twoDirections) := by
      intro h
      exact haddress (by simp only [Field.address, h])
    have htwo : f.declaration.twoDirections = true := by
      by_contra hone
      simp [Bool.eq_false_iff.2 hone] at hbackward
    obtain ⟨b, hback⟩ := Option.isSome_iff_exists.1 ((d.sized hf).isSome_backward.trans htwo)
    have hdisjoint := d.forward_disjoint_backward hf hback
    cases reverse <;> cases reverse' <;> simp_all [Field.slot]
    exact hdisjoint.symm
  · exact d.slots_disjoint_of_ne hf hg heq (f.slot_mem_slots reverse) (g.slot_mem_slots reverse')

/-- A stored pattern is read back at its own address and shows at no other, whatever the storage
    held before and whichever words the slots share. -/
theorem pattern_setPattern (hwidth : d.freeze.intsPerEdge ≤ width) (hf : f ∈ d.freeze.fields)
    (edge : Nat) (reverse : Bool) {pattern : UInt32}
    (hpattern : pattern.toNat < 2 ^ f.declaration.bits) (s : EdgeStorage width) :
    ∃ s', f.setPattern edge reverse pattern s = .ok () s' ∧
      ∀ g ∈ d.freeze.fields, ∀ other reverse', g.pattern s' other reverse' =
        if f.address edge reverse = g.address other reverse' then .ok pattern
        else g.pattern s other reverse' := by
  have hindex := Nat.lt_of_lt_of_le (d.slot_index_lt hf reverse) hwidth
  refine ⟨_, f.setPattern_eq s edge reverse pattern hindex, ?_⟩
  intro g hg other reverse'
  have hindex' := Nat.lt_of_lt_of_le (d.slot_index_lt hg reverse') hwidth
  have hinside := d.slot_inside hf reverse
  rw [g.pattern_eq _ other reverse' hindex', g.pattern_eq s other reverse' hindex']
  rw [EdgeStorage.cell_put]
  by_cases hedge : edge = other
  · subst hedge
    rw [if_pos rfl, Vector.getElem_set]
    by_cases haddress : f.address edge reverse = g.address edge reverse'
    · obtain ⟨_, hslot, _⟩ := d.slot_eq_of_address_eq hf hg haddress
      rw [if_pos haddress, if_pos (congrArg Slot.index hslot), ← hslot,
        Slot.extract_deposit hinside]
      rwa [(d.sized hf).bits_slot]
    · have hdisjoint := d.slot_disjoint_of_address_ne hf hg haddress
      rw [if_neg haddress]
      by_cases hword : (f.slot reverse).index = (g.slot reverse').index
      · rw [if_pos hword, Slot.extract_deposit_of_disjoint hinside (d.slot_inside hg reverse')
          hword hdisjoint]
        simp only [hword]
      · rw [if_neg hword]
  · have haddress : f.address edge reverse ≠ g.address other reverse' := fun h =>
      hedge (congrArg Address.edge h)
    rw [if_neg hedge, if_neg haddress]

/-- Storage that was never written holds the pattern zero everywhere, however many edges it starts
    with. -/
theorem pattern_zeroed (hwidth : d.freeze.intsPerEdge ≤ width) (hf : f ∈ d.freeze.fields)
    (edges edge : Nat) (reverse : Bool) :
    f.pattern (EdgeStorage.zeroed width edges) edge reverse = .ok 0 := by
  have hindex := Nat.lt_of_lt_of_le (d.slot_index_lt hf reverse) hwidth
  rw [f.pattern_eq _ edge reverse hindex, EdgeStorage.cell_zeroed]
  simp [EdgeStorage.blank, Slot.extract_zero]

end Layout.Draft

end EdgeAttributes
