import EdgeAttributes.Proofs.Decimal.Rounding

open Float.Model Float.Model.UnpackedFloat

namespace EdgeAttributes.Decimal

-- Powers keep the meaning that they have without any further library.
attribute [local instance (high)] instPowNat

/-- The mantissa of a natural number, filled up to 53 bits. -/
def fullMantissa (n : Nat) : Nat := n * 2 ^ (52 - n.log2)

theorem fullMantissa_value (n : Nat) :
    (fullMantissa n : ℚ) * 2 ^ (-((52 - n.log2 : Nat) : Int)) = n := by
  rw [fullMantissa, zpow_neg, zpow_natCast]
  push_cast
  field_simp

theorem canonical_fullMantissa {n : Nat} (hn : 0 < n) (hlt : n < 2 ^ 53) :
    Canonical (fullMantissa n) (-((52 - n.log2 : Nat) : Int)) := by
  have hlog : n.log2 ≤ 52 := Nat.le_of_lt_succ (log2_lt_of_lt hlt)
  have hlow := Nat.mul_le_mul_right (2 ^ (52 - n.log2)) (Nat.log2_self_le (Nat.ne_of_gt hn))
  have hhigh := Nat.mul_lt_mul_of_pos_right (Nat.lt_log2_self (n := n))
    (Nat.two_pow_pos (52 - n.log2))
  rw [← Nat.pow_add] at hlow hhigh
  have hfull : 2 ^ 52 ≤ fullMantissa n := by
    rwa [Nat.add_sub_cancel' hlog] at hlow
  have hbits : fullMantissa n < 2 ^ 53 := by
    rwa [Nat.add_right_comm, Nat.add_sub_cancel' hlog] at hhigh
  exact ⟨by omega, hbits, by omega, .inl hfull⟩

/-- A natural number of at most 53 bits is converted without rounding. -/
theorem ofNat_eq {n : Nat} (hn : 0 < n) (hlt : n < 2 ^ 53) :
    UnpackedFloat.ofNat Format.binary64 n = .finite .positive (fullMantissa n)
      (-((52 - n.log2 : Nat) : Int)) (canonical_fullMantissa hn hlt).pos := by
  have hlog := log2_lt_of_lt hlt
  have hcanonical := canonical_fullMantissa hn hlt
  have hshift : (0 - Format.binary64.targetExponent (totalExponent n 0)).toNat = 52 - n.log2 := by
    rw [targetExponent_eq, lastPlace]
    omega
  unfold UnpackedFloat.ofNat UnpackedFloat.ofInt UnpackedFloat.normalize
  rw [Int.compare_eq_gt.2 (Int.natCast_pos.2 hn)]
  unfold UnpackedFloat.round decreaseExponent
  simp only [Int.toNat_natCast, hshift, Nat.shiftLeft_eq]
  rw [Int.zero_sub]
  exact roundWithAccuracy_canonical hcanonical .positive

/-- Multiplying by one drops the zeros that it brought. -/
private theorem mul_one {m : Nat} {e : Int} (h : Canonical m e) :
    UnpackedFloat.mul Format.binary64 (.finite .positive m e h.pos)
      (.finite .positive (2 ^ 52) (-52) (by decide)) = .finite .positive m e h.pos :=
  roundWithAccuracy_padded h 52 .positive

/-- A natural number of at most 53 bits is a double. -/
theorem toFloat_toUInt64 {n : Nat} (hn : 0 < n) (hlt : n < 2 ^ 53) :
    n.toUInt64.toFloat = .ofModel (pack (.finite .positive (fullMantissa n)
      (-((52 - n.log2 : Nat) : Int)) (canonical_fullMantissa hn hlt).pos)) := by
  have hword : n.toUInt64.toNat = n := by
    rw [Nat.toUInt64_eq, UInt64.toNat_ofNat']
    omega
  change Float.ofModel (pack (UnpackedFloat.ofNat Format.binary64 n.toUInt64.toNat)) = _
  simp only [hword, ofNat_eq hn hlt]

/-- An integer is converted by way of a numeral, which changes nothing. -/
theorem unpack_ofInt {n : Nat} (hn : 0 < n) (hlt : n < 2 ^ 53) :
    (Float.ofInt n).toModel.unpack = .finite .positive (fullMantissa n)
      (-((52 - n.log2 : Nat) : Int)) (canonical_fullMantissa hn hlt).pos := by
  have hcanonical := canonical_fullMantissa hn hlt
  have hone : (Float.ofBits 0x3FF0000000000000).toModel.unpack =
      .finite .positive (2 ^ 52) (-52) (by decide) := rfl
  have hscientific : Float.ofInt n = n.toUInt64.toFloat * Float.ofBits 0x3FF0000000000000 := by
    change Float.ofScientific n false 0 = _
    rw [Float.ofScientific, dif_pos ⟨hlt, by decide⟩]
    rfl
  have hback := unpack_pack hcanonical (by omega)
  rw [hscientific, toFloat_toUInt64 hn hlt]
  change (pack (UnpackedFloat.mul Format.binary64 _
    (Float.ofBits 0x3FF0000000000000).toModel.unpack)).unpack = _
  rw [hback, hone, mul_one hcanonical, hback]

/-- What fills a double, or is at the least exponent, is not to be shifted back. -/
theorem le_lastPlace {m : Nat} {e : Int} (h : e ≤ -1074 ∨ 2 ^ 52 ≤ m) : e ≤ lastPlace m e := by
  rcases h with hleast | hfull
  · exact hleast.trans (le_max_right _ _)
  · have hlog := (Nat.le_log2 (by omega)).2 hfull
    rw [lastPlace]
    omega

/-- The product of a natural number and a double is hardly larger than it should be, however small
    the double is: at the least exponent nothing is rounded, since the zeros that the natural number
    was filled up with are all that is dropped. -/
theorem mul_upTo {n m : Nat} {e : Int} (hn : 0 < n) (hlt : n < 2 ^ 53) (h : Canonical m e) :
    UpTo (UnpackedFloat.mul Format.binary64 (.finite .positive (fullMantissa n)
      (-((52 - n.log2 : Nat) : Int)) (canonical_fullMantissa hn hlt).pos)
      (.finite .positive m e h.pos)) (n * (m * 2 ^ e) * (1 + 1 / 2 ^ 52)) := by
  have hcanonical := canonical_fullMantissa hn hlt
  have hle := h.le_exponent
  have hpos : 0 < fullMantissa n * m := Nat.mul_pos hcanonical.pos h.pos
  have hvalue : ((fullMantissa n * m : Nat) : ℚ) * 2 ^ (-((52 - n.log2 : Nat) : Int) + e) =
      n * (m * 2 ^ e) := by
    rw [zpow_add₀ two_ne_zero, Nat.cast_mul, mul_mul_mul_comm, fullMantissa_value]
  have hfull : 2 ^ 52 ≤ fullMantissa n := hcanonical.full.resolve_right (by omega)
  have hproduct : 2 ^ 52 ≤ fullMantissa n * m := hfull.trans (Nat.le_mul_of_pos_right _ h.pos)
  have hfit := le_lastPlace (e := -((52 - n.log2 : Nat) : Int) + e) (.inr hproduct)
  have hnonneg : (0 : ℚ) ≤ n * (m * 2 ^ e) := by positivity
  change UpTo (roundWithAccuracy Format.binary64 .positive (fullMantissa n * m)
    (-((52 - n.log2 : Nat) : Int) + e) .exact) _
  by_cases hleast : lastPlace (fullMantissa n * m) (-((52 - n.log2 : Nat) : Int) + e) = -1074
  · have hfew : surplus (fullMantissa n * m) (-((52 - n.log2 : Nat) : Int) + e) ≤ 52 - n.log2 := by
      rw [surplus, hleast]
      omega
    have hdvd : 2 ^ surplus (fullMantissa n * m) (-((52 - n.log2 : Nat) : Int) + e) ∣
        fullMantissa n * m :=
      (Nat.pow_dvd_pow 2 hfew).trans
        ((Nat.dvd_mul_left _ n).trans (Nat.dvd_mul_right (fullMantissa n) m))
    refine (upTo_exact hpos hfit hdvd).mono ?_
    rw [hvalue]
    linarith
  · have hround := roundWithAccuracy_upTo .exact hfit
    have hplace := lastPlace_le hpos hleast
    rw [hvalue] at hround hplace
    refine hround.mono ?_
    linarith

/-- A quotient is cut off, at an exponent that leaves it all the bits that a double keeps, and that
    is not below the least one without need. -/
theorem divCore_eq {m m' : Nat} (hm : 0 < m) (hm' : 0 < m') (e e' : Int) :
    ∃ E, ∃ k : Nat, E + k = e - e' ∧
      divCore Format.binary64 m e m' e' =
        (m * 2 ^ k / m', E, accuracyOfFraction (m * 2 ^ k % m') m') ∧
      (E ≤ -1074 ∨ 2 ^ 52 ≤ m * 2 ^ k / m') ∧ (-1074 ≤ e - e' → -1074 ≤ E) := by
  let E : Int := min (e - e')
    (Format.binary64.targetExponent (totalExponent m e - totalExponent m' e'))
  have hE : E = min (e - e')
      (max ((m.log2 : Int) + 1 + e - ((m'.log2 : Int) + 1 + e') - 53) (-1074)) := rfl
  let k := (e - e' - E).toNat
  refine ⟨E, k, by omega, ?_, ?_, by omega⟩
  · rw [← Nat.shiftLeft_eq]
    rfl
  · by_cases hleast : E ≤ -1074
    · exact .inl hleast
    · have hbits : 53 + m'.log2 ≤ m.log2 + k := by omega
      have hpow : 2 ^ (53 + m'.log2) ≤ 2 ^ (m.log2 + k) := Nat.pow_le_pow_right Nat.two_pos hbits
      have hlow := Nat.mul_le_mul_right (2 ^ k) (Nat.log2_self_le (Nat.ne_of_gt hm))
      have hhigh := Nat.lt_log2_self (n := m')
      right
      rw [Nat.le_div_iff_mul_le hm']
      rw [← Nat.pow_add] at hlow
      rw [Nat.pow_add] at hpow
      rw [Nat.pow_succ] at hhigh
      omega

/-- What a quotient is cut off to is no more than the quotient. -/
private theorem divCore_bounds {m m' : Nat} (hm : 0 < m) (hm' : 0 < m') (e e' : Int) :
    ∃ q E acc, divCore Format.binary64 m e m' e' = (q, E, acc) ∧ E ≤ lastPlace q E ∧
      (q : ℚ) * 2 ^ E ≤ m * 2 ^ e / (m' * 2 ^ e') := by
  obtain ⟨E, k, hk, hcore, hfull, -⟩ := divCore_eq hm hm' e e'
  refine ⟨_, E, _, hcore, le_lastPlace hfull, ?_⟩
  have hdiv : ((m * 2 ^ k / m' : Nat) : ℚ) * m' ≤ m * 2 ^ k := by
    exact_mod_cast Nat.div_mul_le_self (m * 2 ^ k) m'
  have hpow : (0 : ℚ) < 2 ^ (E + e') := by positivity
  have hden : (0 : ℚ) < m' * 2 ^ e' := by positivity
  rw [le_div_iff₀ hden]
  calc ((m * 2 ^ k / m' : Nat) : ℚ) * 2 ^ E * (m' * 2 ^ e')
      = ((m * 2 ^ k / m' : Nat) : ℚ) * m' * 2 ^ (E + e') := by
        rw [zpow_add₀ two_ne_zero]
        ring
    _ ≤ m * 2 ^ k * 2 ^ (E + e') := mul_le_mul_of_nonneg_right hdiv hpow.le
    _ = m * 2 ^ e := by
        rw [mul_assoc, ← zpow_natCast, ← zpow_add₀ two_ne_zero]
        congr 2
        omega

/-- The quotient of two doubles is hardly larger than it should be, or at the least exponent. -/
theorem div_upTo {m m' : Nat} {e e' : Int} (h : Canonical m e) (h' : Canonical m' e') :
    UpTo (UnpackedFloat.div Format.binary64 (.finite .positive m e h.pos)
      (.finite .positive m' e' h'.pos))
      (m * 2 ^ e / (m' * 2 ^ e') * (1 + 1 / 2 ^ 52) + 2 ^ (-1074 : Int)) := by
  obtain ⟨q, E, acc, hcore, hfit, hle⟩ := divCore_bounds h.pos h'.pos e e'
  have hsign : (.positive / .positive : Sign) = .positive := rfl
  rw [UnpackedFloat.div, hcore, hsign]
  refine (roundWithAccuracy_upTo acc hfit).mono ?_
  have hunit : (0 : ℚ) < 2 ^ (-1074 : Int) := by positivity
  have hnonneg : (0 : ℚ) ≤ q * 2 ^ E := by positivity
  by_cases hleast : lastPlace q E = -1074
  · rw [hleast]
    linarith
  · have hq : 0 < q := by
      apply Nat.pos_of_ne_zero
      rintro rfl
      rw [lastPlace, Nat.log2_zero] at hfit hleast
      omega
    have hplace := lastPlace_le hq hleast
    linarith

/-- A positive double is finite or infinite, and of positive sign. -/
theorem unpack_of_pos {x : Float} (hpos : 0 < x) : x.toModel.unpack = .infinity .positive ∨
    ∃ m e, ∃ h : Canonical m e, x.toModel.unpack = .finite .positive m e h.pos := by
  have hpos' : UnpackedFloat.lt (0 : Float).toModel.unpack x.toModel.unpack = true :=
    of_decide_eq_true hpos
  have hzero : (0 : Float).toModel.unpack = .zero .positive := rfl
  rw [hzero] at hpos'
  cases hx : x.toModel.unpack with
  | notANumber => rw [hx] at hpos'; cases hpos'
  | zero s => rw [hx] at hpos'; cases hpos'
  | infinity s =>
    rw [hx] at hpos'
    cases s with
    | positive => exact .inl rfl
    | negative => cases hpos'
  | finite s m e hm =>
    rw [hx] at hpos'
    cases s with
    | positive => exact .inr ⟨m, e, canonical_of_unpack hx, rfl⟩
    | negative => cases hpos'

theorem unpack_of_finite_pos {x : Float} (hfinite : x.isFinite) (hpos : 0 < x) :
    ∃ m e, ∃ h : Canonical m e, x.toModel.unpack = .finite .positive m e h.pos := by
  refine (unpack_of_pos hpos).resolve_left fun hinf => ?_
  have hfinite' : x.toModel.unpack.isFinite = true := hfinite
  rw [hinf] at hfinite'
  cases hfinite'

/-- A finite double that is not below zero is a zero of either sign, or positive. -/
private theorem unpack_of_nonneg {x : Float} (hneg : ¬ x < 0) (hnan : ¬ x.isNaN)
    (hinf : ¬ x.isInf) :
    (∃ s, x.toModel.unpack = .zero s) ∨
      ∃ m e, ∃ h : Canonical m e, x.toModel.unpack = .finite .positive m e h.pos := by
  have hneg' : ¬ UnpackedFloat.lt x.toModel.unpack (0 : Float).toModel.unpack = true :=
    fun hlt => hneg (decide_eq_true hlt)
  have hnan' : ¬ x.toModel.unpack.isNaN = true := hnan
  have hinf' : ¬ x.toModel.unpack.isInf = true := hinf
  have hzero : (0 : Float).toModel.unpack = .zero .positive := rfl
  rw [hzero] at hneg'
  cases hx : x.toModel.unpack with
  | notANumber => exact absurd (by rw [hx]; rfl) hnan'
  | infinity s => exact absurd (by rw [hx]; rfl) hinf'
  | zero s => exact .inl ⟨s, rfl⟩
  | finite s m e hm =>
    cases s with
    | positive => exact .inr ⟨m, e, canonical_of_unpack hx, rfl⟩
    | negative => exact absurd (by rw [hx]; rfl) hneg'

/-- The quotient of what is not finite by a number is not a number. -/
theorem value?_div_of_not_finite {x factor : Float} (hfinite : factor.isFinite)
    (hfactor : 0 < factor) (hx : x.isNaN ∨ x.isInf) : value? (x / factor) = none := by
  obtain ⟨m, e, hcanonical, hunpack⟩ := unpack_of_finite_pos hfinite hfactor
  have hdiv : x / factor = .ofModel (pack (UnpackedFloat.div Format.binary64 x.toModel.unpack
      factor.toModel.unpack)) := rfl
  have hx' : x.toModel.unpack.isNaN = true ∨ x.toModel.unpack.isInf = true := hx
  rw [hdiv, hunpack]
  cases hclass : x.toModel.unpack with
  | notANumber => rw [UnpackedFloat.div, value?_pack_notANumber]
  | infinity s => rw [UnpackedFloat.div, value?_pack_infinity]
  | zero s =>
    rw [hclass] at hx'
    rcases hx' with h | h <;> cases h
  | finite s m' e' hm =>
    rw [hclass] at hx'
    rcases hx' with h | h <;> cases h

/-- Two roundings of a 2^52nd each and the least unit do not add up to a half, above an integer of
    31 bits. -/
private theorem rounded_twice_lt {n : Nat} (hlt : n < 2 ^ 31) {q : ℚ}
    (hq : q ≤ n * (1 + 1 / 2 ^ 52)) :
    q * (1 + 1 / 2 ^ 52) + 2 ^ (-1074 : Int) < n + 1 / 2 := by
  have hn : (n : ℚ) < 2147483648 := by
    have hnat : n < 2147483648 := hlt
    exact_mod_cast hnat
  have hunit : (2 : ℚ) ^ (-1074 : Int) ≤ 1 / 4 := by
    calc (2 : ℚ) ^ (-1074 : Int) ≤ 2 ^ (-2 : Int) := zpow_le_zpow_right₀ one_le_two (by decide)
      _ = 1 / 4 := by norm_num
  have hstep : q * (1 + 1 / 2 ^ 52) ≤ n * (1 + 1 / 2 ^ 52) * (1 + 1 / 2 ^ 52) :=
    mul_le_mul_of_nonneg_right hq (by norm_num)
  have hslack : (n : ℚ) * (1 + 1 / 2 ^ 52) * (1 + 1 / 2 ^ 52) < n + 1 / 4 := by
    norm_num
    linarith
  linarith

/-- What lies between zero and the product of an integer and a factor is divided by the factor to
    less than a half above the integer. -/
theorem value?_div_of_le_mul {n : Nat} {factor x : Float} (hn : 0 < n) (hlt : n < 2 ^ 31)
    (hfinite : factor.isFinite) (hfactor : 0 < factor) (hneg : ¬ x < 0) (hnan : ¬ x.isNaN)
    (hinf : ¬ x.isInf) (hmax : ¬ Float.ofInt n * factor < x) :
    ∃ q, value? (x / factor) = some q ∧ -(1 / 2) < q ∧ q < n + 1 / 2 := by
  obtain ⟨m', e', hcanonical', hunpack'⟩ := unpack_of_finite_pos hfinite hfactor
  have hdiv : x / factor = .ofModel (pack (UnpackedFloat.div Format.binary64 x.toModel.unpack
      factor.toModel.unpack)) := rfl
  have hmul : Float.ofInt n * factor = .ofModel (pack (UnpackedFloat.mul Format.binary64
      (Float.ofInt n).toModel.unpack factor.toModel.unpack)) := rfl
  rw [hunpack'] at hdiv hmul
  obtain ⟨s, hunpack⟩ | ⟨m, e, hcanonical, hunpack⟩ := unpack_of_nonneg hneg hnan hinf
  · rw [hunpack, UnpackedFloat.div] at hdiv
    have hzero : value? (x / factor) = some 0 := by
      rw [hdiv, value?_pack_zero]
    exact ⟨0, hzero, by norm_num, by positivity⟩
  · have hbits : n < 2 ^ 53 := by omega
    rw [unpack_ofInt hn hbits] at hmul
    rw [hmul] at hmax
    rw [hunpack] at hdiv
    have hbound := (mul_upTo hn hbits hcanonical').value_le hunpack hmax
    have hpos : (0 : ℚ) < m' * 2 ^ e' := by
      have hmantissa : (0 : ℚ) < m' := by exact_mod_cast hcanonical'.pos
      positivity
    have hquotient : (m : ℚ) * 2 ^ e / (m' * 2 ^ e') ≤ n * (1 + 1 / 2 ^ 52) := by
      rw [div_le_iff₀ hpos]
      linarith
    have htotal := rounded_twice_lt hlt hquotient
    have hwide : (n : ℚ) + 1 / 2 < 2 ^ 64 := by
      calc (n : ℚ) + 1 / 2 < n + 1 := by norm_num
        _ ≤ 2 ^ 31 := by exact_mod_cast hlt
        _ < 2 ^ 64 := by norm_num
    obtain ⟨q, hq, hlow, hhigh⟩ :=
      (div_upTo hcanonical hcanonical').value?_eq (by positivity) (htotal.trans hwide)
    refine ⟨q, ?_, by linarith, by linarith⟩
    rw [hdiv]
    exact hq

end EdgeAttributes.Decimal
