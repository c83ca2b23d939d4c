import EdgeAttributes.Decimal.Reader
import EdgeAttributes.Proofs.Decimal.Arithmetic

open Float.Model Float.Model.UnpackedFloat

namespace EdgeAttributes.Decimal

-- Powers keep the meaning that they have without any further library.
attribute [local instance (high)] instPowNat

/-- A half of the least positive double. It is as near to zero, to which it is rounded. -/
def halfLeast : ℚ := 2 ^ (-1075 : Int)

theorem two_mul_halfLeast : 2 * halfLeast = 2 ^ (-1074 : Int) := by
  have hsplit : (-1074 : Int) = 1 + -1075 := by decide
  rw [halfLeast, hsplit, zpow_add₀ two_ne_zero, zpow_one]

theorem halfLeast_pos : 0 < halfLeast := by
  rw [halfLeast]
  positivity

theorem halfLeast_lt_least : halfLeast < 2 ^ (-1074 : Int) := by
  have hpos := halfLeast_pos
  rw [← two_mul_halfLeast]
  linarith

theorem halfLeast_lt_one : halfLeast < 1 := by
  have hle : (2 : ℚ) ^ (-1074 : Int) ≤ 1 := zpow_le_one_of_nonpos₀ one_le_two (by decide)
  exact halfLeast_lt_least.trans_le hle

/-- The result of an operation is more than zero: a canonical number, or infinite. -/
def Positive (u : UnpackedFloat) : Prop :=
  u = .infinity .positive ∨ ∃ m e, ∃ h : Canonical m e, u = .finite .positive m e h.pos

/-- The rounding of a number comes out at zero exactly if the number is at most a half of the least
    double, and at something positive above that. -/
def Lands (u : UnpackedFloat) (q : ℚ) : Prop :=
  u = .zero .positive ∧ q ≤ halfLeast ∨ Positive u ∧ halfLeast < q

theorem lands_zero : Lands (.zero .positive) 0 := .inl ⟨rfl, halfLeast_pos.le⟩

theorem Positive.unpack_pack {u : UnpackedFloat} (h : Positive u) : Positive (pack u).unpack := by
  obtain rfl | ⟨m, e, hcanonical, rfl⟩ := h
  · exact .inl rfl
  · by_cases he : e ≤ 971
    · exact .inr ⟨m, e, hcanonical, EdgeAttributes.Decimal.unpack_pack hcanonical he⟩
    · -- An exponent that is too large is packed as the infinity.
      have hlarge : 2 ^ Format.binary64.exponentBits ≤
          (e + (Format.binary64.exponentBias : Int) +
            (Format.binary64.mantissaBitsWithoutImplicit : Int)).toNat + 1 := by
        have hbias : (Format.binary64.exponentBias : Int) = 1023 := by decide
        simp only [hbias]
        omega
      left
      change UnpackedFloat.unpack Format.binary64 (UnpackedFloat.pack Format.binary64 _) = _
      rw [UnpackedFloat.pack]
      simp only [if_pos hlarge]
      rfl

theorem pos_iff_positive {x : Float} : 0 < x ↔ Positive x.toModel.unpack := by
  refine ⟨unpack_of_pos, fun h => ?_⟩
  have hlt : UnpackedFloat.lt (.zero .positive) x.toModel.unpack = true := by
    obtain hinf | ⟨m, e, hcanonical, hfinite⟩ := h
    · rw [hinf]
      rfl
    · rw [hfinite]
      rfl
  exact decide_eq_true hlt

theorem not_isNaN_of_pos {x : Float} (h : 0 < x) : ¬ x.isNaN := by
  change ¬ x.toModel.unpack.isNaN
  obtain hinf | ⟨m, e, hcanonical, hfinite⟩ := pos_iff_positive.1 h
  · rw [hinf]
    exact Bool.false_ne_true
  · rw [hfinite]
    exact Bool.false_ne_true

theorem Lands.positive_iff {u : UnpackedFloat} {q : ℚ} (h : Lands u q) :
    Positive u ↔ halfLeast < q := by
  obtain ⟨rfl, hle⟩ | ⟨hpos, hlt⟩ := h
  · refine iff_of_false (fun hpos => ?_) (not_lt.2 hle)
    obtain hinf | ⟨m, e, hcanonical, hfinite⟩ := hpos
    · cases hinf
    · cases hfinite
  · exact iff_of_true hpos hlt

/-- Packing a result and unpacking it again does not change where it lands. -/
theorem Lands.unpack_pack {u : UnpackedFloat} {q : ℚ} (h : Lands u q) :
    Lands (pack u).unpack q := by
  obtain ⟨rfl, hle⟩ | ⟨hpos, hlt⟩ := h
  · exact .inl ⟨rfl, hle⟩
  · exact .inr ⟨hpos.unpack_pack, hlt⟩

/-- A double that a number is rounded to is positive as far as the number is large enough. -/
theorem Lands.pos_iff {x : Float} {q : ℚ} (h : Lands x.toModel.unpack q) :
    0 < x ↔ halfLeast < q := by
  rw [pos_iff_positive, h.positive_iff]

/-- What is no less than the least double is rounded to something positive. -/
theorem positive_round {m : Nat} {e : Int} (acc : Accuracy) (hfit : e ≤ lastPlace m e)
    (hvalue : (2 : ℚ) ^ (-1074 : Int) ≤ m * 2 ^ e) :
    Positive (roundWithAccuracy Format.binary64 .positive m e acc) := by
  obtain ⟨hzero, -⟩ | ⟨-, m', e', hcanonical, hround, -⟩ := roundWithAccuracy_cases acc hfit
  · have hpos := rounded_pos acc hfit hvalue
    omega
  · exact .inr ⟨m', e', hcanonical, hround⟩

/-- A product with a factor of one or more does not vanish. -/
theorem positive_mul {m m' : Nat} {e e' : Int} (hm : 0 < m) (hm' : 0 < m')
    (hfull : 2 ^ 52 ≤ m * m') (hleast : (2 : ℚ) ^ (-1074 : Int) ≤ m * 2 ^ e * (m' * 2 ^ e')) :
    Positive (UnpackedFloat.mul Format.binary64 (.finite .positive m e hm)
      (.finite .positive m' e' hm')) := by
  change Positive (roundWithAccuracy Format.binary64 .positive (m * m') (e + e') .exact)
  refine positive_round .exact (le_lastPlace (.inr hfull)) (hleast.trans (le_of_eq ?_))
  rw [zpow_add₀ two_ne_zero]
  push_cast
  ring

/-- A positive number that a double is, in its canonical form. -/
theorem exists_canonical_of_value? {x : Float} {q : ℚ} (h : value? x = some q) (hq : 0 < q) :
    ∃ m e, ∃ hm : Canonical m e, x.toModel.unpack = .finite .positive m e hm.pos ∧
      (m : ℚ) * 2 ^ e = q := by
  rw [value?, classify_eq] at h
  cases hunpack : x.toModel.unpack with
  | notANumber => rw [hunpack] at h; cases h
  | infinity s => rw [hunpack] at h; cases h
  | zero s =>
    rw [hunpack] at h
    have hzero := Option.some.inj h
    simp only [Binary.value, Nat.cast_zero, zero_mul, mul_zero] at hzero
    exact absurd hzero hq.ne
  | finite s m e hm =>
    rw [hunpack] at h
    have hvalue : (if s == .negative then -1 else 1) * ((m : ℚ) * 2 ^ e) = q := Option.some.inj h
    cases s with
    | positive =>
      refine ⟨m, e, canonical_of_unpack hunpack, rfl, ?_⟩
      rw [← hvalue]
      exact (one_mul _).symm
    | negative =>
      have hnonneg : (0 : ℚ) ≤ m * 2 ^ e := by positivity
      have hneg : -1 * ((m : ℚ) * 2 ^ e) = q := hvalue
      linarith

/-- A factor of one or more does not change whether a number lands above zero. -/
theorem Lands.mul_pos_iff {x y : Float} {q r : ℚ} (h : Lands x.toModel.unpack q)
    (hy : value? y = some r) (hr : 1 ≤ r) : 0 < x * y ↔ halfLeast < q := by
  obtain ⟨m', e', hcanonical', hfactor, hvalue⟩ := exists_canonical_of_value? hy (by linarith)
  have hmul : x * y = .ofModel (pack (UnpackedFloat.mul Format.binary64 x.toModel.unpack
      y.toModel.unpack)) := rfl
  refine Lands.pos_iff ?_
  rw [hmul, hfactor]
  refine Lands.unpack_pack ?_
  obtain ⟨hzero, hle⟩ | ⟨hinf | ⟨m, e, hcanonical, hfinite⟩, hlt⟩ := h
  · rw [hzero]
    exact .inl ⟨rfl, hle⟩
  · rw [hinf]
    exact .inr ⟨.inl rfl, hlt⟩
  · have hfull : 2 ^ 52 ≤ m' := by
      refine hcanonical'.full.resolve_right fun hleast => ?_
      have hsmall := hcanonical'.value_lt_one_iff.2 (by omega)
      linarith
    have hproduct : 2 ^ 52 ≤ m * m' := hfull.trans (Nat.le_mul_of_pos_left m' hcanonical.pos)
    have hunit : (2 : ℚ) ^ (-1074 : Int) ≤ 2 ^ e :=
      zpow_le_zpow_right₀ one_le_two hcanonical.le_exponent
    have hone : (1 : ℚ) ≤ m := by exact_mod_cast hcanonical.pos
    have hleast : (2 : ℚ) ^ (-1074 : Int) ≤ m * 2 ^ e :=
      hunit.trans (le_mul_of_one_le_left (by positivity) hone)
    rw [hfinite]
    refine .inr ⟨positive_mul hcanonical.pos hcanonical'.pos hproduct ?_, hlt⟩
    rw [hvalue]
    exact hleast.trans (le_mul_of_one_le_right (by positivity) hr)

/-- A fraction of the least double is rounded up exactly if it is more than a half. -/
private theorem rounded_zero_of_fraction {n : Nat} (hn : 0 < n) (m' : Nat) :
    rounded 0 (-1074) (accuracyOfFraction n m') = 0 ↔ 2 * n ≤ m' := by
  have hsurplus : surplus 0 (-1074) = 0 := by decide
  rw [rounded, hsurplus, accuracyOfFraction, if_neg (Nat.ne_of_gt hn)]
  rcases lt_trichotomy (2 * n) m' with hless | heq | hmore
  · rw [Nat.compare_eq_lt.2 hless]
    exact iff_of_true rfl hless.le
  · rw [heq, Nat.compare_eq_eq.2 rfl]
    exact iff_of_true rfl (le_refl _)
  · rw [Nat.compare_eq_gt.2 hmore]
    refine iff_of_false ?_ (not_le.2 hmore)
    decide

/-- A fraction of the least double lands where it should. -/
private theorem lands_fraction {n m' : Nat} (hn : 0 < n) (hlt : n < m') :
    Lands (roundWithAccuracy Format.binary64 .positive 0 (-1074) (accuracyOfFraction n m'))
      (n / m' * 2 ^ (-1074 : Int)) := by
  have hhalf := halfLeast_pos
  have hden : (0 : ℚ) < m' := by exact_mod_cast hn.trans hlt
  have hround := rounded_zero_of_fraction hn m'
  have hbound : (n : ℚ) / m' * 2 ^ (-1074 : Int) ≤ halfLeast ↔ 2 * n ≤ m' := by
    rw [← two_mul_halfLeast, ← mul_assoc, mul_le_iff_le_one_left hhalf, div_mul_eq_mul_div,
      div_le_one hden, mul_comm]
    exact_mod_cast Iff.rfl
  obtain ⟨hzero, hresult⟩ | ⟨hpos, m₁, e₁, hcanonical, hresult, -⟩ :=
    roundWithAccuracy_cases (accuracyOfFraction n m') (le_lastPlace (m := 0) (.inl (le_refl _)))
  · exact .inl ⟨hresult, hbound.2 (hround.1 hzero)⟩
  · refine .inr ⟨.inr ⟨m₁, e₁, hcanonical, hresult⟩, not_le.1 fun hle => ?_⟩
    have hzero := hround.2 (hbound.1 hle)
    omega

/-- A quotient of integers lands where it should, if it is not cut off below the least double. -/
private theorem lands_quotient {n m' : Nat} {E : Int} (hn : 0 < n) (hm' : 0 < m')
    (hleast : -1074 ≤ E) (hfull : E ≤ -1074 ∨ 2 ^ 52 ≤ n / m') :
    Lands (roundWithAccuracy Format.binary64 .positive (n / m') E (accuracyOfFraction (n % m') m'))
      (n / m' * 2 ^ E) := by
  by_cases hnone : n / m' = 0
  · have hlt : n < m' := Nat.lt_of_div_eq_zero hm' hnone
    obtain rfl : E = -1074 := by omega
    rw [hnone, Nat.mod_eq_of_lt hlt]
    exact lands_fraction hn hlt
  · have hunit : (0 : ℚ) < 2 ^ E := by positivity
    have hone : (1 : ℚ) ≤ (n / m' : Nat) := by exact_mod_cast Nat.pos_of_ne_zero hnone
    have hcut : ((n / m' : Nat) : ℚ) ≤ n / m' := Nat.cast_div_le
    have hkept : (2 : ℚ) ^ (-1074 : Int) ≤ (n / m' : Nat) * 2 ^ E :=
      (zpow_le_zpow_right₀ one_le_two hleast).trans (le_mul_of_one_le_left hunit.le hone)
    refine .inr ⟨positive_round _ (le_lastPlace hfull) hkept, ?_⟩
    calc halfLeast < 2 ^ (-1074 : Int) := halfLeast_lt_least
      _ ≤ (n / m' : Nat) * 2 ^ E := hkept
      _ ≤ n / m' * 2 ^ E := mul_le_mul_of_nonneg_right hcut hunit.le

/-- A quotient lands where it should, if its exponent is not below the least one from the start. -/
theorem lands_div {m m' : Nat} {e e' : Int} (hm : 0 < m) (hm' : 0 < m') (hleast : -1074 ≤ e - e') :
    Lands (UnpackedFloat.div Format.binary64 (.finite .positive m e hm)
      (.finite .positive m' e' hm')) (m * 2 ^ e / (m' * 2 ^ e')) := by
  obtain ⟨E, k, hk, hcore, hfull, hE⟩ := divCore_eq hm hm' e e'
  have hsign : (.positive / .positive : Sign) = .positive := rfl
  have hvalue : (m : ℚ) * 2 ^ e / (m' * 2 ^ e') = (m * 2 ^ k : Nat) / m' * 2 ^ E := by
    have hexponent : e = E + (k : Int) + e' := by omega
    have hne : (m' : ℚ) ≠ 0 := by exact_mod_cast Nat.ne_of_gt hm'
    rw [hexponent, zpow_add₀ two_ne_zero, zpow_add₀ two_ne_zero, zpow_natCast]
    push_cast
    field_simp
  rw [UnpackedFloat.div, hcore, hsign, hvalue]
  exact lands_quotient (Nat.mul_pos hm (Nat.two_pow_pos k)) hm' (hE hleast) hfull

end EdgeAttributes.Decimal
