import EdgeAttributes.Proofs.Attribute.MaxSpeed
import EdgeAttributes.Proofs.Decimal.Numeral
import EdgeAttributes.Proofs.Text.Trim

namespace EdgeAttributes.Speed

/-- What may stand behind a number, once it is trimmed. -/
def unitTexts : List String := ["", "km/h", "kmh", "kph", "mph", "knots"]

/-- The characters that units are written with. -/
def unitChars : List Char := "km/hpnots".toList

/-- The trimmed texts that are speeds. A number has to be more than zero when it is rounded to a
    double, and a half of the least double still is rounded to zero. -/
inductive Posted : String → Prop
  | unlimited : Posted "none"
  | walking : Posted "walk"
  | number {number rest : List Char} (hnumeral : Decimal.IsNumeral number)
      (hmaximal : ∀ c ∈ rest.head?, ¬ isNumberChar c)
      (hpositive : Decimal.halfLeast < Decimal.denoted number)
      (hunit : Text.trim (String.ofList rest) ∈ unitTexts) : Posted (String.ofList (number ++ rest))

theorem isNumberChar_iff {c : Char} : isNumberChar c ↔ c.isDigit ∨ c = '.' := by
  rw [isNumberChar, Bool.or_eq_true, beq_iff_eq]

theorem isNumberChar_of_isNumeral {number : List Char} (h : Decimal.IsNumeral number) :
    ∀ c ∈ number, isNumberChar c := fun c hc => isNumberChar_iff.2 (h.only c hc)

theorem SpeedUnit.ofText?_isSome_iff {text : String} :
    (SpeedUnit.ofText? text).isSome ↔ text ∈ unitTexts := by
  unfold SpeedUnit.ofText?
  split <;> simp_all [unitTexts]

private theorem value?_milesFactor :
    Decimal.value? 1.609344 = some (7247841038710944 / 2 ^ 52) := by
  decide +kernel

private theorem value?_knotsFactor :
    Decimal.value? 1.852 = some (8340666509890159 / 2 ^ 52) := by
  decide +kernel

/-- No unit takes a number to zero, or back from there. -/
theorem SpeedUnit.toKmh_pos_iff (unit : SpeedUnit) {x : Float} {q : ℚ}
    (h : Decimal.Lands x.toModel.unpack q) : 0 < unit.toKmh x ↔ Decimal.halfLeast < q := by
  cases unit with
  | kmh => exact h.pos_iff
  | mph => exact h.mul_pos_iff value?_milesFactor (by norm_num)
  | knots => exact h.mul_pos_iff value?_knotsFactor (by norm_num)

section Number

variable {number rest : List Char}

theorem ofNumber?_eq_some_iff (hnumber : ∀ c ∈ number, isNumberChar c)
    (hrest : ∀ c ∈ rest.head?, ¬ isNumberChar c) {speed : Float} :
    ofNumber? (number ++ rest) = some speed ↔ ∃ x, Decimal.readNumeral? number = some x ∧
      ∃ unit, SpeedUnit.ofText? (Text.trim (String.ofList rest)) = some unit ∧
        0 < unit.toKmh x ∧ unit.toKmh x = speed := by
  obtain ⟨htake, hdrop⟩ := Text.takeWhile_dropWhile_append hnumber hrest
  have htrim : Text.trim (String.ofList rest) = String.ofList (Text.trimChars rest) := by
    rw [Text.trim, String.toList_ofList]
  simp only [ofNumber?, htake, hdrop, htrim, Option.bind_eq_bind, Option.bind_eq_some_iff,
    gt_iff_lt, Option.ite_none_right_eq_some, Option.some.injEq]

/-- A number is a speed if it does not vanish and a unit stands behind it, or nothing. -/
theorem ofNumber?_isSome_iff (hnumber : ∀ c ∈ number, isNumberChar c)
    (hrest : ∀ c ∈ rest.head?, ¬ isNumberChar c) : (ofNumber? (number ++ rest)).isSome ↔
      Decimal.IsNumeral number ∧ Decimal.halfLeast < Decimal.denoted number ∧
        Text.trim (String.ofList rest) ∈ unitTexts := by
  rw [← SpeedUnit.ofText?_isSome_iff, Option.isSome_iff_exists, Option.isSome_iff_exists]
  constructor
  · rintro ⟨speed, hspeed⟩
    obtain ⟨x, hread, unit, hunit, hpos, -⟩ := (ofNumber?_eq_some_iff hnumber hrest).1 hspeed
    have hland := Decimal.lands_of_readNumeral? hread
    exact ⟨(Decimal.readNumeral?_eq_some_iff.1 hread).1, (unit.toKmh_pos_iff hland).1 hpos,
      unit, hunit⟩
  · rintro ⟨hnumeral, hpositive, unit, hunit⟩
    have hread := Decimal.readNumeral?_eq_some_iff.2 ⟨hnumeral, rfl⟩
    have hpos := (unit.toKmh_pos_iff (Decimal.lands_of_readNumeral? hread)).2 hpositive
    exact ⟨_, (ofNumber?_eq_some_iff hnumber hrest).2 ⟨_, hread, unit, hunit, hpos, rfl⟩⟩

end Number

/-- A text that is none of the words is a speed if it is read as a number, and only then. -/
theorem ofNumber?_toList_isSome_iff {text : String} (hunlimited : text ≠ "none")
    (hwalking : text ≠ "walk") : (ofNumber? text.toList).isSome ↔ Posted text := by
  constructor
  · intro h
    obtain ⟨number, rest, htext, hnumber, hrest⟩ := Text.exists_run isNumberChar text.toList
    rw [htext] at h
    obtain ⟨hnumeral, hpositive, hunit⟩ := (ofNumber?_isSome_iff hnumber hrest).1 h
    rw [← text.ofList_toList, htext]
    exact .number hnumeral hrest hpositive hunit
  · rintro (_ | _ | ⟨hnumeral, hrest, hpositive, hunit⟩)
    · exact absurd rfl hunlimited
    · exact absurd rfl hwalking
    · have hnumber := isNumberChar_of_isNumeral hnumeral
      rw [String.toList_ofList, ofNumber?_isSome_iff hnumber hrest]
      exact ⟨hnumeral, hpositive, hunit⟩

theorem parse?_isSome_iff {value : String} :
    (parse? value).isSome ↔ Posted (Text.trim value) := by
  rw [parse?]
  split
  · next h => exact iff_of_true rfl (h ▸ .unlimited)
  · next hunlimited =>
    split
    · next h => exact iff_of_true rfl (h ▸ .walking)
    · next hwalking => exact ofNumber?_toList_isSome_iff hunlimited hwalking

/-- Behind its number a speed is written with blanks and the characters of units alone. -/
theorem Posted.isBlank_or_mem_unitChars {text : String} (h : Posted text) :
    text = "none" ∨ text = "walk" ∨
      ∀ c ∈ text.toList.dropWhile isNumberChar, Text.isBlank c ∨ c ∈ unitChars := by
  have hunits : ∀ text ∈ unitTexts, text.toList ⊆ unitChars := by decide
  obtain _ | _ | ⟨hnumeral, hrest, -, hunit⟩ := h
  · exact .inl rfl
  · exact .inr (.inl rfl)
  · have hnumber := isNumberChar_of_isNumeral hnumeral
    refine .inr (.inr fun c hc => ?_)
    rw [String.toList_ofList, (Text.takeWhile_dropWhile_append hnumber hrest).2] at hc
    refine (Text.isBlank_or_mem_trimChars hc).imp_right fun hkept => hunits _ hunit ?_
    rwa [Text.trim, String.toList_ofList, String.toList_ofList]

/-- Exactly the texts of the grammar are speeds, whatever blanks are around them, and every speed is
    a number above zero. The words for infinity and not-a-number, signs, exponents, lists and second
    numbers are out, since nothing but a unit follows the leading digits and points. -/
theorem parse?_accepts (value : String) :
    ((parse? value).isSome ↔ Posted (Text.trim value)) ∧
      ∀ speed, parse? value = some speed → 0 < speed ∧ ¬ speed.isNaN ∧
        (Text.trim value = "none" ∨ Text.trim value = "walk" ∨
          ∀ c ∈ (Text.trim value).toList.dropWhile isNumberChar,
            Text.isBlank c ∨ c ∈ unitChars) := by
  refine ⟨parse?_isSome_iff, fun speed hspeed => ?_⟩
  have hpos := pos_of_parse? hspeed
  have hposted := parse?_isSome_iff.1 (Option.isSome_iff_exists.2 ⟨speed, hspeed⟩)
  exact ⟨hpos, Decimal.not_isNaN_of_pos hpos, hposted.isBlank_or_mem_unitChars⟩

example : (parse? " 20 mph").isSome ∧ (parse? "50;30").isNone ∧ (parse? "1e3").isNone := by decide

end EdgeAttributes.Speed
