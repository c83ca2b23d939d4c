import EdgeAttributes.Field.Typed
import Mathlib

namespace EdgeAttributes

-- Powers keep the meaning that they have without any further library.
attribute [local instance (high)] instPowNat

variable {width : Nat}

namespace Declaration

/-- An integer is storable if it lies in the declared range. -/
def InRange (d : Declaration) (value : Int) : Prop := d.min ≤ value ∧ value ≤ d.max

instance (d : Declaration) (value : Int) : Decidable (d.InRange value) :=
  inferInstanceAs (Decidable (_ ∧ _))

/-- The pattern that stands for an integer in range. -/
def encode (d : Declaration) (value : Int) : UInt32 := UInt32.ofNat (value - d.min).toNat

private theorem toNat_sub_min_lt (d : Declaration) {value : Int} (h : d.InRange value) :
    (value - d.min).toNat < 2 ^ d.bits := by
  obtain ⟨hmin, hmax⟩ := h
  have hcast : ((2 ^ d.bits : Nat) : Int) = 2 ^ d.bits := Int.natCast_pow 2 d.bits
  rw [max_eq] at hmax
  omega

theorem toNat_encode (d : Declaration) {value : Int} (h : d.InRange value) :
    (d.encode value).toNat = (value - d.min).toNat := by
  have hlt := d.toNat_sub_min_lt h
  have hpow : 2 ^ d.bits ≤ 2 ^ maxBits := Nat.pow_le_pow_right Nat.two_pos d.bits_le
  rw [encode, UInt32.toNat_ofNat']
  apply Nat.mod_eq_of_lt
  exact Nat.lt_of_lt_of_le hlt (Nat.le_trans hpow (by decide))

theorem not_excludes_iff (d : Declaration) {value : Int} :
    ¬ d.Excludes value ↔ d.InRange value := by
  rw [Excludes, InRange]
  omega

/-- The offset of an integer in range is its pattern. -/
theorem offset_eq_encode (d : Declaration) {value : Int} (h : ¬ d.Excludes value) :
    d.offset value h = d.encode value := by
  rw [← UInt32.toNat_inj, d.toNat_offset, d.toNat_encode (d.not_excludes_iff.1 h)]

/-- From zero upwards only the offset zero leads to zero, also past the declared width. -/
private theorem atOffset_eq_zero_iff (d : Declaration) (hmin : d.min = 0) (offset : UInt32) :
    d.atOffset offset = 0 ↔ offset = 0 := by
  have hlt := offset.toNat_lt
  rw [d.atOffset_eq_bmod, hmin, Int.add_zero, ← UInt32.toNat_inj, UInt32.toNat_zero, Int.bmod_def]
  split <;> omega

/-- From zero upwards an offset past the declared width leads to itself or below zero. -/
private theorem toNat_atOffset (d : Declaration) (hmin : d.min = 0) (offset : UInt32) :
    (d.atOffset offset).toNat = offset.toNat ∨
      2 ^ d.bits ≤ offset.toNat ∧ (d.atOffset offset).toNat = 0 := by
  by_cases hfits : offset.toNat < 2 ^ d.bits
  · rw [d.atOffset_eq hfits, hmin]
    exact .inl rfl
  · have hlt := offset.toNat_lt
    rw [d.atOffset_eq_bmod, hmin, Int.add_zero, Int.bmod_def]
    split <;> omega

/-- An integer in range fits the declared width. -/
theorem encode_lt (d : Declaration) {value : Int} (h : d.InRange value) :
    (d.encode value).toNat < 2 ^ d.bits := by
  rw [d.toNat_encode h]
  exact d.toNat_sub_min_lt h

end Declaration

namespace Field

theorem decode_encode (f : Field) {value : Int} (h : f.declaration.InRange value) :
    f.decode (f.declaration.encode value) = value := by
  have hmin := h.1
  rw [decode, f.declaration.atOffset_eq (f.declaration.encode_lt h), f.declaration.toNat_encode h]
  omega

/-- Storing an integer in range stores its pattern. -/
theorem setInt_of_inRange (f : Field) (edge : Nat) (reverse : Bool) {value : Int}
    (h : f.declaration.InRange value) :
    (f.setInt edge reverse value : Edit width Unit) =
      f.setPattern edge reverse (f.declaration.encode value) := by
  have hinside := f.declaration.not_excludes_iff.2 h
  simp only [setInt]
  rw [dif_neg hinside, f.declaration.offset_eq_encode hinside]

/-- An integer out of range is refused before any word is read, so storage stays as it is. -/
theorem setInt_of_not_inRange (f : Field) (edge : Nat) (reverse : Bool) {value : Int}
    (h : ¬ f.declaration.InRange value) (s : EdgeStorage width) :
    f.setInt edge reverse value s =
      .error (.error (.valueOutOfRange f.name value f.declaration.min f.declaration.max)) s := by
  have hout : f.declaration.Excludes value := not_not.1 (mt f.declaration.not_excludes_iff.1 h)
  simp only [setInt]
  rw [dif_pos hout]
  rfl

end Field

namespace BooleanField

variable (f : BooleanField)

theorem min_eq : f.field.declaration.min = 0 := by
  have hfits := f.field.declaration.kind_fits
  have hkind : f.field.declaration.kind = .boolean := f.isBoolean
  rw [hkind] at hfits
  exact hfits.2

theorem bits_eq : f.field.declaration.bits = 1 := by
  have hfits := f.field.declaration.kind_fits
  have hkind : f.field.declaration.kind = .boolean := f.isBoolean
  rw [hkind] at hfits
  exact hfits.1

/-- A flag is the integer one or zero. -/
theorem toInt_inRange (value : Bool) : f.field.declaration.InRange value.toInt := by
  rw [Declaration.InRange, Declaration.max_eq, f.min_eq, f.bits_eq]
  cases value <;> decide

theorem encode_toInt (value : Bool) :
    f.field.declaration.encode value.toInt = if value then 1 else 0 := by
  rw [Declaration.encode, f.min_eq]
  cases value <;> rfl

theorem set_eq_setInt (edge : Nat) (reverse value : Bool) :
    (f.set edge reverse value : Edit width Unit) = f.field.setInt edge reverse value.toInt := by
  rw [f.field.setInt_of_inRange edge reverse (f.toInt_inRange value), f.encode_toInt]
  rfl

theorem get_eq_getInt (s : EdgeStorage width) (edge : Nat) (reverse : Bool) :
    f.get s edge reverse = (f.field.getInt s edge reverse).map fun n => decide (n ≠ 0) := by
  rw [BooleanField.get, Field.getInt]
  cases f.field.pattern s edge reverse with
  | error e => rfl
  | ok p =>
    simp [Except.map, Field.decode, Declaration.atOffset_eq_zero_iff _ f.min_eq]

end BooleanField

namespace DecimalField

variable (f : DecimalField)

theorem min_eq : f.field.declaration.min = 0 := by
  have hfits := f.field.declaration.kind_fits
  have hkind : f.field.declaration.kind = .decimal f.factor := f.isDecimal
  rw [hkind] at hfits
  exact hfits.1

/-- A decimal whose multiple is in range is stored as that multiple. -/
theorem set_eq_setInt (edge : Nat) (reverse : Bool) {value : Float} {n : Int}
    (hnearest : Decimal.nearestInt? (value / f.factor) = some n) (hpos : 0 ≤ n)
    (hmax : n ≤ f.field.declaration.max) :
    (f.set edge reverse value : Edit width Unit) = f.field.setInt edge reverse n := by
  rw [set]
  simp only [hnearest, Option.filter_some, hpos, hmax, decide_true, Bool.and_self, if_true]

/-- A decimal without a multiple in range is refused before any word is read. -/
theorem set_of_not_inRange (edge : Nat) (reverse : Bool) {value : Float}
    (h : ∀ n, Decimal.nearestInt? (value / f.factor) = some n → ¬ f.field.declaration.InRange n)
    (s : EdgeStorage width) :
    f.set edge reverse value s = .error (.error (.valueOutOfRange f.field.declaration.name
      (reported (Decimal.nearestInt? (value / f.factor))) 0 f.field.declaration.max)) s := by
  have hnone : ((Decimal.nearestInt? (value / f.factor)).filter
      fun n => decide (0 ≤ n) && decide (n ≤ f.field.declaration.max)) = none := by
    rw [Option.filter_eq_none_iff]
    intro n hn hrange
    apply h n hn
    rw [Declaration.InRange, f.min_eq]
    simpa using hrange
  rw [set]
  simp only [hnone]
  rfl

end DecimalField

theorem le_two_pow_bitsForCount (count : Nat) : count ≤ 2 ^ bitsForCount count := by
  rw [bitsForCount]
  split
  · assumption
  · have h := Nat.lt_log2_self (n := count - 1)
    omega

namespace EnumField

variable {α : Type} [DecidableEq α] [TagEnum α] (f : EnumField α)

theorem min_eq : f.field.declaration.min = 0 := by
  have hfits := f.field.declaration.kind_fits
  have hkind : f.field.declaration.kind = .enum (TagEnum.shape α) := f.isEnum
  rw [hkind] at hfits
  exact hfits.2

theorem bits_eq : f.field.declaration.bits = bitsForCount (TagEnum.values α).length := by
  have hfits := f.field.declaration.kind_fits
  have hkind : f.field.declaration.kind = .enum (TagEnum.shape α) := f.isEnum
  rw [hkind] at hfits
  simpa [TagEnum.shape, TagEnum.spellings] using hfits.1

/-- Every tag value has an ordinal that fits, since the width is that of the whole set. -/
theorem ordinal_inRange (value : α) :
    f.field.declaration.InRange (TagEnum.ordinal value : Nat) := by
  rw [Declaration.InRange, Declaration.max_eq, f.min_eq, f.bits_eq]
  have hlt := TagEnum.ordinal_lt value
  have hle := le_two_pow_bitsForCount (TagEnum.values α).length
  have hcast := Int.natCast_pow 2 (bitsForCount (TagEnum.values α).length)
  rw [Nat.cast_ofNat] at hcast
  omega

theorem encode_ordinal (value : α) :
    f.field.declaration.encode (TagEnum.ordinal value : Nat) =
      UInt32.ofNat (TagEnum.ordinal value) := by
  rw [Declaration.encode, f.min_eq, Int.sub_zero, Int.toNat_natCast]

theorem set_eq_setInt (edge : Nat) (reverse : Bool) (value : α) :
    (f.set edge reverse value : Edit width Unit) =
      f.field.setInt edge reverse (TagEnum.ordinal value : Nat) := by
  rw [f.field.setInt_of_inRange edge reverse (f.ordinal_inRange value), f.encode_ordinal]
  rfl

theorem get_eq_getInt (s : EdgeStorage width) (edge : Nat) (reverse : Bool) :
    f.get s edge reverse =
      (f.field.getInt s edge reverse).map fun n => TagEnum.ofOrdinal n.toNat := by
  rw [get, Field.getInt]
  cases f.field.pattern s edge reverse with
  | error e => rfl
  | ok p =>
    obtain hsame | ⟨hpast, hzero⟩ := f.field.declaration.toNat_atOffset f.min_eq p
    · simp [Except.map, Field.decode, hsame]
    · -- Neither a pattern that no value has nor the one of `missing` reads as anything else.
      have hnone : (TagEnum.values α).length ≤ p.toNat :=
        (le_two_pow_bitsForCount _).trans (f.bits_eq ▸ hpast)
      simp only [Except.map, Field.decode, hzero, TagEnum.ofOrdinal,
        List.getElem?_eq_none hnone]
      rfl

end EnumField

end EdgeAttributes
