import EdgeAttributes.Proofs.Field.Integers
import EdgeAttributes.Proofs.Layout.Cells

namespace EdgeAttributes

variable {width : Nat} {α : Type}

/-- Take an answer from storage for its fault alone. Storage stays as it is. -/
def Edit.probe (answer : EdgeStorage width → Except Fault α) : Edit width Unit := fun s =>
  match answer s with
  | .ok _ => .ok () s
  | .error fault => .error fault s

/-- A computation stops because it wants a word past the words of an edge. -/
def Edit.StopsPastWidth (x : Edit width Unit) (s : EdgeStorage width) : Prop :=
  ∃ index limit s', x s = .error (.wordPastWidth index limit) s'

/-- A call that gets or sets a value: as an integer, as a text or through a view of its kind. A view
    of integers has no calls but those of its field. -/
inductive Access : Type 1 where
  | getInt (field : Field)
  | format (field : Field)
  | getFlag (field : BooleanField)
  | getDecimal (field : DecimalField)
  | getTag (α : Type) [DecidableEq α] [TagEnum α] (field : EnumField α)
  | setInt (field : Field) (value : Int)
  | setFlag (field : BooleanField) (value : Bool)
  | setDecimal (field : DecimalField) (value : Float)
  | setTag (α : Type) [DecidableEq α] [TagEnum α] (field : EnumField α) (value : α)

namespace Access

/-- The field that is read or written. -/
def field : Access → Field
  | .getInt f => f
  | .format f => f
  | .getFlag f => f.field
  | .getDecimal f => f.field
  | @getTag _ _ _ f => f.field
  | .setInt f _ => f
  | .setFlag f _ => f.field
  | .setDecimal f _ => f.field
  | @setTag _ _ _ f _ => f.field

/-- Make the call for a direction of an edge. -/
def perform (edge : Nat) (reverse : Bool) : Access → Edit width Unit
  | .getInt f => Edit.probe fun s => f.getInt s edge reverse
  | .format f => Edit.probe fun s => f.format s edge reverse
  | .getFlag f => Edit.probe fun s => f.get s edge reverse
  | .getDecimal f => Edit.probe fun s => f.get s edge reverse
  | @getTag _ _ _ f => Edit.probe fun s => f.get s edge reverse
  | .setInt f value => f.setInt edge reverse value
  | .setFlag f value => f.set edge reverse value
  | .setDecimal f value => f.set edge reverse value
  | @setTag _ _ _ f value => f.set edge reverse value

/-- The call is to set a value that its field cannot hold. -/
def OutOfRange : Access → Prop
  | .setInt f value => ¬ f.declaration.InRange value
  | .setDecimal f value => ∀ n, Decimal.nearestInt? (value / f.factor) = some n →
      ¬ f.field.declaration.InRange n
  | _ => False

end Access

namespace Field

variable {f : Field} {reverse : Bool}

theorem pattern_of_le (hindex : width ≤ (f.slot reverse).index) (s : EdgeStorage width)
    (edge : Nat) :
    f.pattern s edge reverse = .error (.wordPastWidth (f.slot reverse).index width) := by
  rw [pattern, EdgeStorage.word, dif_neg (Nat.not_lt.2 hindex)]
  rfl

theorem exists_slot_eq {slot : Slot} (hslot : slot ∈ f.slots) :
    ∃ reverse, f.slot reverse = slot := by
  obtain rfl | hback := List.mem_cons.1 hslot
  · exact ⟨false, rfl⟩
  · exact ⟨true, by rw [Field.slot, Option.mem_toList.1 hback]; rfl⟩

theorem setPattern_of_le (hindex : width ≤ (f.slot reverse).index) (s : EdgeStorage width)
    (edge : Nat) (pattern : UInt32) : f.setPattern edge reverse pattern s =
      .error (.wordPastWidth (f.slot reverse).index width) s := by
  rw [setPattern, EdgeStorage.word, dif_neg (Nat.not_lt.2 hindex)]

end Field

namespace Access

theorem probe_map {β : Type} (g : α → β) (answer : EdgeStorage width → Except Fault α) :
    Edit.probe (fun s => (answer s).map g) = Edit.probe answer := by
  funext s
  rw [Edit.probe, Edit.probe]
  cases answer s <;> rfl

/-- The call is refused, and storage is not looked at. -/
theorem perform_of_outOfRange {a : Access} (h : a.OutOfRange) (edge : Nat) (reverse : Bool)
    (s : EdgeStorage width) : ∃ e, a.perform edge reverse s = .error (.error e) s := by
  cases a with
  | setInt f value => exact ⟨_, f.setInt_of_not_inRange edge reverse h s⟩
  | setDecimal f value =>
    exact ⟨_, f.set_of_not_inRange edge reverse h s⟩
  | _ => exact h.elim

/-- Any other call reads the pattern of its field or stores one. -/
theorem perform_cases {a : Access} (h : ¬ a.OutOfRange) :
    (∀ width edge reverse, (a.perform edge reverse : Edit width Unit) =
      Edit.probe fun s => a.field.pattern s edge reverse) ∨
    ∃ pattern, ∀ width edge reverse, (a.perform edge reverse : Edit width Unit) =
      a.field.setPattern edge reverse pattern := by
  cases a with
  | getInt f => exact .inl fun _ _ _ => probe_map _ _
  | format f => exact .inl fun _ _ _ => probe_map _ _
  | getFlag f => exact .inl fun _ _ _ => probe_map _ _
  | getDecimal f => exact .inl fun _ _ _ => probe_map _ _
  | getTag α f => exact .inl fun _ _ _ => probe_map _ _
  | setInt f value =>
    have hrange : f.declaration.InRange value := not_not.1 h
    exact .inr ⟨_, fun _ edge reverse => f.setInt_of_inRange edge reverse hrange⟩
  | setFlag f value => exact .inr ⟨_, fun _ _ _ => rfl⟩
  | setDecimal f value =>
    simp only [OutOfRange, not_forall, not_not] at h
    obtain ⟨n, hnearest, hrange⟩ := h
    refine .inr ⟨f.field.declaration.encode n, fun _ edge reverse => ?_⟩
    rw [perform, f.set_eq_setInt edge reverse hnearest (f.min_eq ▸ hrange.1) hrange.2,
      f.field.setInt_of_inRange edge reverse hrange]
    rfl
  | setTag α f value => exact .inr ⟨_, fun _ _ _ => rfl⟩

/-- A call for a word that is not there stops, and leaves storage as it is. -/
theorem perform_of_le {a : Access} (h : ¬ a.OutOfRange) {reverse : Bool}
    (hindex : width ≤ (a.field.slot reverse).index) (edge : Nat) (s : EdgeStorage width) :
    a.perform edge reverse s = .error (.wordPastWidth (a.field.slot reverse).index width) s := by
  obtain hread | ⟨pattern, hstore⟩ := perform_cases h
  · rw [hread, Edit.probe, Field.pattern_of_le hindex]
  · rw [hstore, Field.setPattern_of_le hindex]

/-- A call for a word that is there never stops at it. -/
theorem not_stopsPastWidth_of_lt (a : Access) {reverse : Bool}
    (hindex : (a.field.slot reverse).index < width) (edge : Nat) (s : EdgeStorage width) :
    ¬ Edit.StopsPastWidth (a.perform edge reverse) s := by
  rintro ⟨index, limit, s', hstop⟩
  by_cases h : a.OutOfRange
  · obtain ⟨e, hrefused⟩ := perform_of_outOfRange h edge reverse s
    cases hrefused.symm.trans hstop
  · obtain hread | ⟨pattern, hstore⟩ := perform_cases h
    · rw [hread, Edit.probe, a.field.pattern_eq s edge reverse hindex] at hstop
      cases hstop
    · rw [hstore, a.field.setPattern_eq s edge reverse pattern hindex] at hstop
      cases hstop

end Access

namespace Layout.Draft

/-- The last word that a layout asks for is the word of some value in some direction. -/
theorem exists_slot_last (d : Layout.Draft) (hpos : 0 < d.freeze.intsPerEdge) :
    ∃ f ∈ d.freeze.fields, ∃ reverse, (f.slot reverse).index + 1 = d.freeze.intsPerEdge := by
  have hpacked := packed_placeAll.2 d
  have hne : d.declarations ≠ [] := fun hnil => hpos.ne' (hpacked.no_words hnil)
  obtain ⟨slot, hslot, hlast⟩ := hpacked.last_word hne
  obtain ⟨f, hf, hslot⟩ := List.mem_flatMap.1 hslot
  obtain ⟨reverse, rfl⟩ := Field.exists_slot_eq hslot
  exact ⟨f, hf, reverse, hlast.symm⟩

/-- The width check is exact. It accepts storage if and only if no get and no set of any value of
    the layout, in either direction of any edge, can stop at a word past the width. When it refuses,
    it says how many words are wanted and how many there are, and some value has a direction in
    which every call stops there, whatever the edge and whatever is stored. Only a set of a value
    that the field cannot hold never comes that far: it is refused for that before storage is looked
    at. -/
theorem checkStorage_exact (d : Layout.Draft) (s : EdgeStorage width) :
    (d.freeze.checkStorage s = .ok () ↔ ∀ a : Access, a.field ∈ d.freeze.fields →
      ∀ edge reverse, ¬ Edit.StopsPastWidth (a.perform edge reverse) s) ∧
    ∀ e, d.freeze.checkStorage s = .error e →
      e = .storageTooNarrow d.freeze.intsPerEdge width ∧
      ∃ f ∈ d.freeze.fields, ∃ reverse, ∀ a : Access, a.field = f →
        ∀ edge (t : EdgeStorage width),
          (¬ a.OutOfRange → a.perform edge reverse t =
            .error (.wordPastWidth (f.slot reverse).index width) t) ∧
          (a.OutOfRange → ∃ e, a.perform edge reverse t = .error (.error e) t) := by
  by_cases hwidth : d.freeze.intsPerEdge ≤ width
  · have hcheck : d.freeze.checkStorage s = .ok () := by
      rw [checkStorage, checkWidth, if_neg (Nat.not_lt.2 hwidth)]
    rw [hcheck]
    refine ⟨iff_of_true rfl fun a ha edge reverse => ?_, fun e he => by cases he⟩
    exact a.not_stopsPastWidth_of_lt (Nat.lt_of_lt_of_le (d.slot_index_lt ha reverse) hwidth) edge s
  · have hlt : width < d.freeze.intsPerEdge := Nat.lt_of_not_le hwidth
    have hcheck : d.freeze.checkStorage s =
        .error (.storageTooNarrow d.freeze.intsPerEdge width) := by
      rw [checkStorage, checkWidth, if_pos hlt]
    obtain ⟨f, hf, reverse, hlast⟩ := d.exists_slot_last (Nat.zero_lt_of_lt hlt)
    have hindex : width ≤ (f.slot reverse).index := by omega
    rw [hcheck]
    refine ⟨iff_of_false (fun h => by cases h) fun hnever => ?_, fun e he => ⟨?_, ?_⟩⟩
    · exact hnever (.getInt f) hf 0 reverse
        ⟨_, _, _, Access.perform_of_le (a := .getInt f) not_false hindex 0 s⟩
    · exact (Except.error.inj he).symm
    · refine ⟨f, hf, reverse, ?_⟩
      rintro a rfl edge t
      exact ⟨fun h => Access.perform_of_le h hindex edge t,
        fun h => Access.perform_of_outOfRange h edge reverse t⟩

private def threeBits : Layout.Draft :=
  ⟨[(Declaration.int "lanes" 3 false).toOption.get rfl], by decide⟩

/-- Storage without words is too narrow for lanes, yet to set eight lanes does not stop at the word
    that is missing. -/
theorem checkStorage_lanes :
    threeBits.freeze.checkStorage (EdgeStorage.zeroed 0 0) = .error (.storageTooNarrow 1 0) ∧
    ∀ f ∈ threeBits.freeze.fields, ∀ reverse, ∃ a : Access, a.field = f ∧
      ¬ Edit.StopsPastWidth (a.perform 0 reverse) (EdgeStorage.zeroed 0 0) := by
  refine ⟨rfl, fun f hf reverse => ⟨.setInt f 8, rfl, ?_⟩⟩
  have hrange : (Access.setInt f 8).OutOfRange := by
    obtain rfl := List.mem_singleton.1 hf
    rw [Access.OutOfRange]
    decide
  obtain ⟨e, hrefused⟩ := Access.perform_of_outOfRange hrange 0 reverse (EdgeStorage.zeroed 0 0)
  rintro ⟨index, limit, s', hstop⟩
  cases hrefused.symm.trans hstop

end Layout.Draft

end EdgeAttributes
