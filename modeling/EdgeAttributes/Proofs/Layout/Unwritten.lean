import EdgeAttributes.Proofs.Layout.Cells

open Float.Model Float.Model.UnpackedFloat

namespace EdgeAttributes

variable {width : Nat}

/-- The multiple of no unit at all is zero, and not its negative twin. -/
private theorem Decimal.zero_mul {factor : Float} (hfinite : factor.isFinite)
    (hpos : 0 < factor) : (0 : UInt32).toFloat * factor = 0 := by
  obtain ⟨model⟩ := factor
  have hfinite : model.unpack.isFinite = true := hfinite
  have hpos : ((0 : Float).toModel.unpack.compare model.unpack == some .lt) = true :=
    of_decide_eq_true hpos
  have hzero : (0 : Float).toModel.unpack = .zero .positive := rfl
  have hmul : UnpackedFloat.mul Format.binary64 (.zero .positive) model.unpack =
      .zero .positive := by
    rw [hzero] at hpos
    cases hx : model.unpack with
    | notANumber =>
      rw [hx] at hfinite
      cases hfinite
    | infinity s =>
      rw [hx] at hfinite
      cases hfinite
    | zero s =>
      rw [hx] at hpos
      cases hpos
    | finite s m e hm =>
      rw [hx] at hpos
      cases s with
      | positive => rfl
      | negative => cases hpos
  change Float.ofModel (pack (UnpackedFloat.mul Format.binary64
    (Float.Model.ofUInt32 0).unpack model.unpack)) = 0
  rw [show (Float.Model.ofUInt32 0).unpack = .zero .positive from rfl, hmul]
  rfl

namespace Layout

/-- An edge reads as if nothing had ever been written for it. -/
structure Unwritten (l : Layout) (s : EdgeStorage width) (edge : Nat) : Prop where
  int : ∀ f : IntField, f.field ∈ l.fields → ∀ reverse,
    f.get s edge reverse = .ok f.field.declaration.min
  boolean : ∀ f : BooleanField, f.field ∈ l.fields → ∀ reverse, f.get s edge reverse = .ok false
  decimal : ∀ f : DecimalField, f.field ∈ l.fields → ∀ reverse, f.get s edge reverse = .ok 0
  enum : ∀ (α : Type) [DecidableEq α] [TagEnum α] (f : EnumField α), f.field ∈ l.fields →
    ∀ reverse, f.get s edge reverse = .ok TagEnum.missing

/-- The zero pattern stands for the default of every kind of value. -/
theorem unwritten_of_pattern {l : Layout} {s : EdgeStorage width} {edge : Nat}
    (hzero : ∀ f ∈ l.fields, ∀ reverse, f.pattern s edge reverse = .ok 0) :
    l.Unwritten s edge where
  int f hf reverse := by
    rw [IntField.get, Field.getInt, hzero _ hf reverse]
    exact congrArg Except.ok f.field.decode_zero
  boolean f hf reverse := by
    rw [BooleanField.get, hzero _ hf reverse]
    rfl
  decimal f hf reverse := by
    have hfits := f.field.declaration.kind_fits
    rw [show f.field.declaration.kind = .decimal f.factor from f.isDecimal] at hfits
    obtain ⟨-, hfinite, hpos⟩ := hfits
    rw [DecimalField.get, hzero _ hf reverse]
    exact congrArg Except.ok (Decimal.zero_mul hfinite hpos)
  enum α _ _ f hf reverse := by
    rw [EnumField.get, hzero _ hf reverse]
    rfl

/-- Storage from which all values of an edge can be read is as wide as the layout. -/
theorem Draft.intsPerEdge_le (d : Layout.Draft) {s : EdgeStorage width} {edge : Nat}
    (h : ∀ f ∈ d.freeze.fields, ∀ reverse, ∃ pattern, f.pattern s edge reverse = .ok pattern) :
    d.freeze.intsPerEdge ≤ width := by
  obtain ⟨c, hwords, hfilled⟩ := d.filled_freeze
  rw [← hwords]
  by_contra hwide
  -- The last word has a slot, and that is read for some field and direction.
  have hslots : Field.slotsOf d.freeze.fields ≠ [] := by
    intro hnil
    rw [hnil] at hfilled
    obtain ⟨used, hpos, -, -, hcovered⟩ := hfilled.filled 0 (by omega)
    obtain ⟨slot, hslot, -⟩ := (hcovered 0).2 hpos
    cases hslot
  obtain ⟨slot, hslot, hlast⟩ := hfilled.last_index hslots
  obtain ⟨f, hf, hslot⟩ := List.mem_flatMap.1 hslot
  obtain ⟨reverse, rfl⟩ : ∃ reverse, f.slot reverse = slot := by
    obtain rfl | hslot := List.mem_cons.1 hslot
    · exact ⟨false, rfl⟩
    · exact ⟨true, by simp [Field.slot, Option.mem_toList.1 hslot]⟩
  obtain ⟨pattern, hpattern⟩ := h f hf reverse
  rw [Field.pattern, EdgeStorage.word, dif_neg (by omega)] at hpattern
  cases hpattern

end Layout

end EdgeAttributes
