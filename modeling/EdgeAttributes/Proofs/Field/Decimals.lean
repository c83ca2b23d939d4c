import EdgeAttributes.Proofs.Decimal.Arithmetic
import EdgeAttributes.Proofs.Field.Exactness

namespace EdgeAttributes

-- Powers keep the meaning that they have without any further library.
attribute [local instance (high)] instPowNat

namespace DecimalField

variable (f : DecimalField)

/-- A decimal that no field should accept: it is negative, not finite, or larger than the largest
    one that can be stored. -/
def Outside (value : Float) : Prop := value < 0 ∨ value.isNaN ∨ value.isInf ∨ f.max < value

/-- The quotient by the factor, as it comes out of the division, is less than a half away from the
    integers of the field. -/
def RoundsInto (value : Float) : Prop :=
  ∃ q, Decimal.value? (value / f.factor) = some q ∧ -(1 / 2) < q ∧
    q < f.field.declaration.max + 1 / 2

theorem factor_fits : f.factor.isFinite ∧ 0 < f.factor := by
  have hfits := f.field.declaration.kind_fits
  have hkind : f.field.declaration.kind = .decimal f.factor := f.isDecimal
  rw [hkind] at hfits
  exact hfits.2

/-- The integers of a field of decimals end at a natural number of no more than 31 bits. -/
theorem exists_max_eq : ∃ n : Nat, f.field.declaration.max = n ∧ 0 < n ∧ n < 2 ^ 31 := by
  have hlow := Nat.pow_le_pow_right Nat.two_pos f.field.declaration.bits_pos
  have hhigh := Nat.pow_le_pow_right Nat.two_pos f.field.declaration.bits_le
  have hcast := Int.natCast_pow 2 f.field.declaration.bits
  rw [maxBits] at hhigh
  rw [Nat.cast_ofNat] at hcast
  refine ⟨2 ^ f.field.declaration.bits - 1, ?_, by omega, by omega⟩
  rw [f.field.declaration.max_eq, f.min_eq]
  omega

theorem not_roundsInto_of_not_finite {value : Float} (h : value.isNaN ∨ value.isInf) :
    ¬ f.RoundsInto value := by
  rintro ⟨q, hq, -⟩
  rw [Decimal.value?_div_of_not_finite f.factor_fits.1 f.factor_fits.2 h] at hq
  cases hq

/-- Every decimal from zero to the largest one rounds into the field, whatever is lost when the
    largest one is multiplied and the decimal is divided. -/
theorem roundsInto_of_not_outside {value : Float} (h : ¬ f.Outside value) : f.RoundsInto value := by
  obtain ⟨hneg, hnan, hinf, hmax⟩ : ¬ value < 0 ∧ ¬ value.isNaN ∧ ¬ value.isInf ∧
      ¬ f.max < value := by
    simpa only [Outside, not_or] using h
  obtain ⟨n, hn, hpos, hlt⟩ := f.exists_max_eq
  rw [DecimalField.max, hn] at hmax
  rw [RoundsInto, hn]
  exact Decimal.value?_div_of_le_mul hpos hlt f.factor_fits.1 f.factor_fits.2 hneg hnan hinf hmax

/-- What rounds into a field has a nearest integer in its range. -/
theorem roundsInto_iff {value : Float} : f.RoundsInto value ↔
    ∃ n, Decimal.nearestInt? (value / f.factor) = some n ∧ f.field.declaration.InRange n := by
  obtain ⟨top, htop, -⟩ := f.exists_max_eq
  have hmem (q : ℚ) : f.field.declaration.InRange (Decimal.nearest q) ↔
      -(1 / 2) < q ∧ q < f.field.declaration.max + 1 / 2 := by
    rw [Declaration.InRange, f.min_eq]
    exact Decimal.nearest_mem_iff (by omega)
  rw [RoundsInto, Decimal.nearestInt?_eq]
  constructor
  · rintro ⟨q, hq, hbounds⟩
    exact ⟨Decimal.nearest q, by rw [hq]; rfl, (hmem q).2 hbounds⟩
  · rintro ⟨n, hn, hrange⟩
    obtain ⟨q, hq, rfl⟩ := Option.map_eq_some_iff.1 hn
    exact ⟨q, hq, (hmem q).1 hrange⟩

variable {width : Nat} {reverse : Bool}

/-- A decimal with a nearest integer in range is stored as that, and read back as its multiple. -/
private theorem exists_set {ds : List Declaration} (hf : f.field ∈ (Cursor.start.placeAll ds).1)
    (hindex : (f.field.slot reverse).index < width) (s : EdgeStorage width) (edge : Nat)
    {value : Float} {n : Int} (hn : Decimal.nearestInt? (value / f.factor) = some n)
    (hrange : f.field.declaration.InRange n) :
    ∃ s', ∃ p : UInt32, f.set edge reverse value s = .ok () s' ∧
      f.field.pattern s' edge reverse = .ok p ∧ (p.toNat : Int) = n ∧
      f.get s' edge reverse = .ok (p.toFloat * f.factor) := by
  have hpos : 0 ≤ n := f.min_eq ▸ hrange.1
  obtain ⟨p, -, s', hp, -, hset, hpattern, -⟩ :=
    ((Field.placed_of_mem hf).keepsIntegers hindex s edge).set n hrange
  rw [f.min_eq, Int.sub_zero] at hp
  refine ⟨s', p, ?_, hpattern, hp, ?_⟩
  · rw [f.set_eq_setInt edge reverse hn hpos hrange.2, hset]
  · rw [get, hpattern]
    rfl

/-- The range of a field of decimals is looked at after the division and the rounding. So a decimal
    is refused, with storage as it was, exactly if it is outside of the range and does not round
    into it either, which nothing does that is not finite. Every other decimal is stored as the
    integer nearest to its quotient, and the multiple of that is read back. Among these are all from
    zero to the largest, but also those that are negative or too large by less than half a
    factor. -/
theorem set_exact {ds : List Declaration} (hf : f.field ∈ (Cursor.start.placeAll ds).1)
    (hindex : (f.field.slot reverse).index < width) (s : EdgeStorage width) (edge : Nat)
    (value : Float) :
    (f.set edge reverse value s = .error (.error (.valueOutOfRange f.field.name
        (reported (Decimal.nearestInt? (value / f.factor))) 0 f.field.declaration.max)) s ↔
      f.Outside value ∧ ¬ f.RoundsInto value) ∧
    (value.isNaN ∨ value.isInf → ¬ f.RoundsInto value) ∧
    (¬ (f.Outside value ∧ ¬ f.RoundsInto value) → ∃ s', ∃ p : UInt32, ∃ q,
      f.set edge reverse value s = .ok () s' ∧ f.field.pattern s' edge reverse = .ok p ∧
      Decimal.value? (value / f.factor) = some q ∧ (p.toNat : Int) = Decimal.nearest q ∧
      (p.toNat : Int) ≤ f.field.declaration.max ∧
      f.get s' edge reverse = .ok (p.toFloat * f.factor)) := by
  have hout (hnot : ¬ f.RoundsInto value) : f.Outside value :=
    not_not.1 (mt f.roundsInto_of_not_outside hnot)
  refine ⟨⟨fun hrefused => ?_, fun ⟨_, hnot⟩ => ?_⟩, f.not_roundsInto_of_not_finite, fun h => ?_⟩
  · have hnot : ¬ f.RoundsInto value := by
      intro hrounds
      obtain ⟨n, hn, hrange⟩ := f.roundsInto_iff.1 hrounds
      obtain ⟨s', p, hset, -⟩ := f.exists_set hf hindex s edge hn hrange
      cases hset.symm.trans hrefused
    exact ⟨hout hnot, hnot⟩
  · refine f.set_of_not_inRange edge reverse (fun n hn hrange => ?_) s
    exact hnot (f.roundsInto_iff.2 ⟨n, hn, hrange⟩)
  · have hrounds : f.RoundsInto value := by
      by_contra hnot
      exact h ⟨hout hnot, hnot⟩
    obtain ⟨n, hn, hrange⟩ := f.roundsInto_iff.1 hrounds
    obtain ⟨s', p, hset, hpattern, rfl, hget⟩ := f.exists_set hf hindex s edge hn hrange
    have hq := hn
    rw [Decimal.nearestInt?_eq] at hq
    obtain ⟨q, hq, hnearest⟩ := Option.map_eq_some_iff.1 hq
    exact ⟨s', p, q, hset, hpattern, hq, hnearest.symm, hrange.2, hget⟩

private def speedDeclaration : Declaration :=
  (Declaration.decimal "speed" 7 2.0 true).toOption.get rfl

private def speed : DecimalField where
  field := (Cursor.start.place speedDeclaration).1
  factor := 2.0
  isDecimal := rfl

private theorem max_speed : speed.field.declaration.max = 127 := by
  rw [Declaration.max_eq]
  rfl

private theorem speed_mem : speed.field ∈ (Cursor.start.placeAll [speedDeclaration]).1 :=
  List.mem_singleton_self _

private theorem speed_index (reverse : Bool) : (speed.field.slot reverse).index < 1 := by
  cases reverse <;> decide

private theorem zero_speed : (0 : UInt32).toFloat * speed.factor = 0 := by decide

private theorem top_speed : (127 : UInt32).toFloat * speed.factor = 254 := by decide +kernel

/-- Of seven bits for multiples of two, 254 is the last. The next multiple is refused, and an odd
    number in between reads as the even one above. -/
theorem set_exact_speed :
    speed.set 3 true 256 (EdgeStorage.zeroed 1 0) =
      .error (.error (.valueOutOfRange "speed" 128 0 127)) (EdgeStorage.zeroed 1 0) ∧
    ∃ s', speed.set 3 true 253 (EdgeStorage.zeroed 1 0) = .ok () s' ∧
      speed.get s' 3 true = .ok 254 := by
  obtain ⟨hrefused, -, -⟩ :=
    speed.set_exact speed_mem (speed_index true) (EdgeStorage.zeroed 1 0) 3 256
  obtain ⟨-, -, haccepted⟩ :=
    speed.set_exact speed_mem (speed_index true) (EdgeStorage.zeroed 1 0) 3 253
  have hlarge : Decimal.nearestInt? (256 / speed.factor) = some 128 := rfl
  have hodd : Decimal.nearestInt? (253 / speed.factor) = some 127 := rfl
  have hout : speed.Outside 256 ∧ ¬ speed.RoundsInto 256 := by
    refine ⟨.inr (.inr (.inr ?_)), fun hrounds => ?_⟩
    · rw [DecimalField.max, max_speed]
      decide
    · obtain ⟨n, hn, hrange⟩ := speed.roundsInto_iff.1 hrounds
      obtain rfl := Option.some.inj (hn.symm.trans hlarge)
      have hle := hrange.2
      rw [max_speed] at hle
      omega
  have hin : ¬ (speed.Outside 253 ∧ ¬ speed.RoundsInto 253) := by
    rintro ⟨-, hnot⟩
    refine hnot (speed.roundsInto_iff.2 ⟨127, hodd, ?_⟩)
    rw [Declaration.InRange, max_speed]
    decide
  have hrefusal := hrefused.2 hout
  rw [hlarge, max_speed] at hrefusal
  obtain ⟨s', p, q, hset, -, hq, hp, -, hget⟩ := haccepted hin
  have hnearest := Decimal.nearestInt?_eq (253 / speed.factor)
  rw [hodd, hq] at hnearest
  have htop : p = 127 := by
    rw [← UInt32.toNat_inj]
    have hvalue : (127 : Int) = Decimal.nearest q := Option.some.inj hnearest
    change p.toNat = 127
    omega
  rw [htop, top_speed] at hget
  exact ⟨hrefusal, s', hset, hget⟩

/-- Half a unit below zero and half a unit above the largest decimal are accepted, although both are
    outside of the range. -/
theorem set_accepts_outside : speed.max = 254 ∧
    speed.Outside (-0.5) ∧ speed.Outside 254.5 ∧
    (∃ s', speed.set 0 false (-0.5) (EdgeStorage.zeroed 1 0) = .ok () s' ∧
      speed.get s' 0 false = .ok 0) ∧
    ∃ s', speed.set 0 false 254.5 (EdgeStorage.zeroed 1 0) = .ok () s' ∧
      speed.get s' 0 false = .ok 254 := by
  have htop : speed.max = 254 := by
    rw [DecimalField.max, max_speed]
    decide +kernel
  have hzero : speed.field.declaration.InRange 0 := by
    rw [Declaration.InRange, max_speed]
    decide
  have hlast : speed.field.declaration.InRange 127 := by
    rw [Declaration.InRange, max_speed]
    decide
  refine ⟨htop, .inl (by decide), .inr (.inr (.inr ?_)), ?_, ?_⟩
  · rw [htop]
    decide
  · have hrounds : Decimal.nearestInt? (-0.5 / speed.factor) = some 0 := rfl
    obtain ⟨s', p, hset, -, hp, hget⟩ :=
      speed.exists_set speed_mem (speed_index false) (EdgeStorage.zeroed 1 0) 0 hrounds hzero
    have hpattern : p = 0 := by
      rw [← UInt32.toNat_inj]
      change p.toNat = 0
      omega
    rw [hpattern, zero_speed] at hget
    exact ⟨s', hset, hget⟩
  · have hrounds : Decimal.nearestInt? (254.5 / speed.factor) = some 127 := rfl
    obtain ⟨s', p, hset, -, hp, hget⟩ :=
      speed.exists_set speed_mem (speed_index false) (EdgeStorage.zeroed 1 0) 0 hrounds hlast
    have hpattern : p = 127 := by
      rw [← UInt32.toNat_inj]
      change p.toNat = 127
      omega
    rw [hpattern, top_speed] at hget
    exact ⟨s', hset, hget⟩

end DecimalField

end EdgeAttributes
