import EdgeAttributes.Proofs.Decimal.Packing

open Float.Model Float.Model.UnpackedFloat

namespace EdgeAttributes.Decimal

-- Powers keep the meaning that they have without any further library.
attribute [local instance (high)] instPowNat

/-- What an unpacked double is. -/
def Class.ofUnpacked : UnpackedFloat → Class
  | .notANumber => .notANumber
  | .infinity s => .infinite (s == .negative)
  | .zero s => .finite ⟨s == .negative, 0, -1074, false⟩
  | .finite s m e _ => .finite ⟨s == .negative, m, e, m == 2 ^ 52 && decide (-1074 < e)⟩

private theorem toNat_unpackMantissa (b : BitVec 64) :
    (@unpackMantissa Format.binary64 b).toNat = b.toNat % 2 ^ 52 := by
  simp [unpackMantissa]

private theorem toNat_unpackExponent (b : BitVec 64) :
    (@unpackExponent Format.binary64 b).toNat = b.toNat / 2 ^ 52 % 2 ^ 11 := by
  simp [unpackExponent, Nat.shiftRight_eq_div_pow]

private theorem sign_eq_negative (b : BitVec 64) :
    (Sign.ofBitVec (@unpackSign Format.binary64 b) == .negative) =
      (b.toNat / 2 ^ (52 + 11) == 1) := by
  have hlt := b.isLt
  have hbit : (@unpackSign Format.binary64 b).toNat = b.toNat / 2 ^ 63 := by
    simp [unpackSign, Nat.shiftRight_eq_div_pow]
    omega
  rcases (by omega : b.toNat / 2 ^ 63 = 0 ∨ b.toNat / 2 ^ 63 = 1) with hzero | hone
  · have hsign : @unpackSign Format.binary64 b = 0#1 :=
      BitVec.eq_of_toNat_eq (hbit.trans hzero)
    rw [hsign, hzero]
    rfl
  · have hsign : @unpackSign Format.binary64 b = 1#1 :=
      BitVec.eq_of_toNat_eq (hbit.trans hone)
    rw [hsign, hone]
    rfl

/-- The mantissa with the bit that is not stored. -/
private theorem toNat_fullMantissa (b : BitVec 64) :
    (1#1 ++ @unpackMantissa Format.binary64 b).toNat =
      2 ^ 52 + (@unpackMantissa Format.binary64 b).toNat := by
  have hlt : (@unpackMantissa Format.binary64 b).toNat < 2 ^ 52 := BitVec.isLt _
  rw [BitVec.toNat_append, ← Nat.shiftLeft_add_eq_or_of_lt hlt]
  rfl

/-- Reading a double off its bits is unpacking it. -/
theorem classify_eq (x : Float) : classify x = .ofUnpacked x.toModel.unpack := by
  obtain ⟨⟨⟨b⟩, hvalid⟩⟩ := x
  change classify (.ofModel ⟨⟨b⟩, hvalid⟩) = .ofUnpacked (UnpackedFloat.unpack Format.binary64 b)
  have hbits : (Float.ofModel ⟨⟨b⟩, hvalid⟩).toBits.toNat = b.toNat := rfl
  have hbias : ((Format.binary64.exponentBias : Int) + (52 : Nat)) = 1075 := by decide
  have hfull : @unpackExponent Format.binary64 b = -1#11 ↔
      (@unpackExponent Format.binary64 b).toNat = 2047 := BitVec.toNat_inj.symm
  have hleast : @unpackExponent Format.binary64 b = 0#11 ↔
      (@unpackExponent Format.binary64 b).toNat = 0 := BitVec.toNat_inj.symm
  have hzero : @unpackMantissa Format.binary64 b = 0#52 ↔
      (@unpackMantissa Format.binary64 b).toNat = 0 := BitVec.toNat_inj.symm
  have hlt : (@unpackMantissa Format.binary64 b).toNat < 2 ^ 52 := BitVec.isLt _
  unfold classify UnpackedFloat.unpack
  simp only [hbits, fractionBits, exponentBits, ← sign_eq_negative, ← toNat_unpackMantissa,
    ← toNat_unpackExponent, hbias, hfull, hleast, hzero]
  split
  · split <;> rfl
  · split
    · next hexponent =>
      split
      · next hmantissa =>
        rw [hmantissa]
        rfl
      · have hnarrow : ((@unpackMantissa Format.binary64 b).toNat == 2 ^ 52) = false := by
          rw [beq_eq_false_iff_ne]
          omega
        rw [hexponent, Class.ofUnpacked, hnarrow]
        rfl
    · rw [Class.ofUnpacked, toNat_fullMantissa]
      congr 3
      · rw [Bool.eq_iff_iff]
        simp only [beq_iff_eq]
        omega
      · rw [decide_eq_decide]
        omega

/-- Packing a canonical number that is not too large and unpacking it again loses nothing. -/
theorem unpack_pack {m : Nat} {e : Int} (h : Canonical m e) (he : e ≤ 971) :
    (pack (.finite .positive m e h.pos)).unpack = .finite .positive m e h.pos := by
  obtain ⟨narrow, hclass⟩ := classify_pack h he
  rw [classify_eq] at hclass
  change Class.ofUnpacked (pack (.finite .positive m e h.pos)).unpack = _ at hclass
  have hpos := h.pos
  cases hunpack : (pack (.finite .positive m e h.pos)).unpack with
  | notANumber => rw [hunpack] at hclass; cases hclass
  | infinity s => rw [hunpack] at hclass; cases hclass
  | zero s =>
    rw [hunpack] at hclass
    have hmantissa := congrArg Binary.mantissa (Class.finite.inj hclass)
    simp only at hmantissa
    omega
  | finite s m' e' hpos' =>
    rw [hunpack] at hclass
    obtain ⟨hsign, rfl, rfl, -⟩ := Binary.mk.inj (Class.finite.inj hclass)
    cases s with
    | positive => rfl
    | negative => cases hsign

/-- The number itself. -/
def Binary.value (x : Binary) : ℚ :=
  (if x.negative then -1 else 1) * (x.mantissa * 2 ^ x.exponent)

/-- The number that a double is; none if it is infinite or not a number at all. -/
def value? (x : Float) : Option ℚ :=
  match classify x with
  | .finite b => some b.value
  | _ => none

/-- The integer nearest to a number, a half rounded away from zero. -/
def nearest (q : ℚ) : ℤ := if 0 ≤ q then ⌊q + 1 / 2⌋ else -⌊-q + 1 / 2⌋

/-- A number is rounded into a range from zero upwards exactly if it is less than a half away from
    the range: a half itself is rounded out of it at either end. -/
theorem nearest_mem_iff {q : ℚ} {n : ℤ} (hn : 0 ≤ n) :
    (0 ≤ nearest q ∧ nearest q ≤ n) ↔ -(1 / 2) < q ∧ q < n + 1 / 2 := by
  have hn' : (0 : ℚ) ≤ n := by exact_mod_cast hn
  rw [nearest]
  split
  · next hpos =>
    have hfloor : 0 ≤ ⌊q + 1 / 2⌋ := Int.floor_nonneg.2 (by linarith)
    rw [← Int.lt_add_one_iff (b := n), Int.floor_lt]
    push_cast
    constructor
    · rintro ⟨-, hlt⟩
      constructor <;> linarith
    · rintro ⟨-, hlt⟩
      exact ⟨hfloor, by linarith⟩
  · next hneg =>
    have hfloor : 0 ≤ ⌊-q + 1 / 2⌋ := Int.floor_nonneg.2 (by linarith)
    have hzero : 0 ≤ -⌊-q + 1 / 2⌋ ↔ -q + 1 / 2 < 1 := by
      have hlt := Int.floor_lt (a := -q + 1 / 2) (z := 1)
      push_cast at hlt
      rw [← hlt]
      omega
    rw [hzero]
    constructor
    · rintro ⟨hlt, -⟩
      constructor <;> linarith
    · rintro ⟨hlt, -⟩
      exact ⟨by linarith, by omega⟩

private theorem floor_eq_roundHalfUp (m k : Nat) :
    ⌊(m : ℚ) * 2 ^ (-(k : ℤ)) + 1 / 2⌋ = roundHalfUp m k := by
  obtain ⟨hle, hlt⟩ := roundHalfUp_bounds m k
  have hpow : (0 : ℚ) < 2 ^ k := by positivity
  have hle' : (2 : ℚ) * (roundHalfUp m k * 2 ^ k) ≤ 2 * m + 2 ^ k := by exact_mod_cast hle
  have hlt' : (2 : ℚ) * m + 2 ^ k < 2 * (roundHalfUp m k * 2 ^ k) + 2 ^ k * 2 := by
    have hcast : (2 : ℚ) * m + 2 ^ k < 2 * (roundHalfUp m k * 2 ^ k) + 2 ^ (k + 1) := by
      exact_mod_cast hlt
    rwa [pow_succ] at hcast
  have hscaled : (m : ℚ) * 2 ^ (-(k : ℤ)) * 2 ^ k = m := by
    rw [zpow_neg, zpow_natCast]
    field_simp
  rw [Int.floor_eq_iff]
  push_cast
  constructor
  · have hmul : (roundHalfUp m k : ℚ) * 2 ^ k ≤ (m * 2 ^ (-(k : ℤ)) + 1 / 2) * 2 ^ k := by
      rw [add_mul, hscaled]
      linarith
    exact le_of_mul_le_mul_right hmul hpow
  · have hmul : ((m : ℚ) * 2 ^ (-(k : ℤ)) + 1 / 2) * 2 ^ k < (roundHalfUp m k + 1) * 2 ^ k := by
      rw [add_mul, hscaled]
      linarith
    exact lt_of_mul_lt_mul_right hmul hpow.le

/-- Rounding the size of a number in integers is rounding the number. -/
theorem Binary.round_eq (x : Binary) : x.round = nearest x.value := by
  obtain ⟨negative, m, e, narrow⟩ := x
  have hsize : ⌊(m : ℚ) * 2 ^ e + 1 / 2⌋ =
      ((if 0 ≤ e then m * 2 ^ e.toNat else roundHalfUp m (-e).toNat : Nat) : ℤ) := by
    split
    · next hpos =>
      obtain ⟨k, rfl⟩ := Int.eq_ofNat_of_zero_le hpos
      rw [Int.floor_eq_iff]
      simp only [zpow_natCast, Int.toNat_natCast]
      push_cast
      constructor <;> linarith
    · next hneg =>
      have he : e = -((-e).toNat : ℤ) := by omega
      conv_lhs => rw [he]
      exact floor_eq_roundHalfUp m _
  have hnonneg : (0 : ℚ) ≤ m * 2 ^ e := by positivity
  cases negative with
  | false =>
    simp only [Binary.round, Binary.value, nearest, Bool.false_eq_true, if_false, one_mul,
      if_pos hnonneg, hsize]
  | true =>
    simp only [Binary.round, Binary.value, nearest, if_true, neg_one_mul, neg_neg, ← hsize]
    by_cases hzero : 0 ≤ -((m : ℚ) * 2 ^ e)
    · have hm : (m : ℚ) * 2 ^ e = 0 := by linarith
      rw [hm]
      norm_num
    · rw [if_neg hzero]

theorem nearestInt?_eq (x : Float) : nearestInt? x = (value? x).map nearest := by
  rw [nearestInt?, value?]
  cases classify x with
  | finite b => exact congrArg some b.round_eq
  | infinite negative => rfl
  | notANumber => rfl

theorem value?_pack_zero (s : Sign) : value? (.ofModel (pack (.zero s))) = some 0 := by
  have hclass : classify (.ofModel (pack (.zero s))) =
      .finite ⟨s == .negative, 0, -1074, false⟩ := by
    cases s <;> rfl
  rw [value?, hclass]
  simp [Binary.value]

theorem value?_pack_infinity (s : Sign) : value? (.ofModel (pack (.infinity s))) = none := by
  have hclass : classify (.ofModel (pack (.infinity s))) = .infinite (s == .negative) := by
    cases s <;> rfl
  rw [value?, hclass]

theorem value?_pack_notANumber : value? (.ofModel (pack .notANumber)) = none := by
  have hclass : classify (.ofModel (pack .notANumber)) = .notANumber := by rfl
  rw [value?, hclass]

namespace Canonical

variable {m m' : Nat} {e e' : Int}

theorem value_lt (h : Canonical m e) : (m : ℚ) * 2 ^ e < 2 ^ (e + 53) := by
  have hpow : (0 : ℚ) < 2 ^ e := by positivity
  have hlt : (m : ℚ) < 2 ^ 53 := by exact_mod_cast h.lt
  have hsplit : (2 : ℚ) ^ (e + 53) = 2 ^ (53 : Nat) * 2 ^ e := by
    rw [zpow_add₀ two_ne_zero, mul_comm]
    norm_cast
  rw [hsplit]
  exact mul_lt_mul_of_pos_right hlt hpow

theorem le_value (h : Canonical m e) (he : -1074 < e) : (2 : ℚ) ^ (e + 52) ≤ m * 2 ^ e := by
  have hfull : 2 ^ 52 ≤ m := h.full.resolve_right (by omega)
  have hpow : (0 : ℚ) < 2 ^ e := by positivity
  have hle : (2 : ℚ) ^ 52 ≤ m := by exact_mod_cast hfull
  have hsplit : (2 : ℚ) ^ (e + 52) = 2 ^ (52 : Nat) * 2 ^ e := by
    rw [zpow_add₀ two_ne_zero, mul_comm]
    norm_cast
  rw [hsplit]
  exact mul_le_mul_of_nonneg_right hle hpow.le

theorem value_lt_one_iff (h : Canonical m e) : (m : ℚ) * 2 ^ e < 1 ↔ e < -52 := by
  constructor
  · intro hlt
    by_contra hge
    have hlow := h.le_value (by omega)
    have hone : (1 : ℚ) ≤ 2 ^ (e + 52) := one_le_zpow₀ one_le_two (by omega)
    linarith
  · intro hlt
    have hone : (2 : ℚ) ^ (e + 53) ≤ 1 := zpow_le_one_of_nonpos₀ one_le_two (by omega)
    exact h.value_lt.trans_le hone

/-- Numbers in canonical form are ordered by their exponents first. -/
theorem value_le_of (h : Canonical m e) (h' : Canonical m' e') (hle : e < e' ∨ e = e' ∧ m ≤ m') :
    (m : ℚ) * 2 ^ e ≤ m' * 2 ^ e' := by
  rcases hle with hlt | ⟨rfl, hle⟩
  · have hleast := h.le_exponent
    calc (m : ℚ) * 2 ^ e ≤ 2 ^ (e + 53) := h.value_lt.le
      _ ≤ 2 ^ (e' + 52) := zpow_le_zpow_right₀ one_le_two (by omega)
      _ ≤ m' * 2 ^ e' := h'.le_value (by omega)
  · have hle' : (m : ℚ) ≤ m' := by exact_mod_cast hle
    exact mul_le_mul_of_nonneg_right hle' (by positivity)

end Canonical

end EdgeAttributes.Decimal
