import EdgeAttributes.Proofs.Decimal.Value

open Float.Model Float.Model.UnpackedFloat

namespace EdgeAttributes.Decimal

-- Powers keep the meaning that they have without any further library.
attribute [local instance (high)] instPowNat

/-- The exponent of the last bit that a double keeps of a number. -/
def lastPlace (m : Nat) (e : Int) : Int := max ((m.log2 : Int) + 1 + e - 53) (-1074)

/-- How many bits of a mantissa a double does not keep. -/
def surplus (m : Nat) (e : Int) : Nat := (lastPlace m e - e).toNat

theorem targetExponent_eq (m : Nat) (e : Int) :
    Format.binary64.targetExponent (totalExponent m e) = lastPlace m e := by
  rfl

/-- No mantissa of at most 53 bits is shifted from an exponent that a double can have. -/
private theorem targetExponent_le {m : Nat} {e : Int} (hm : m < 2 ^ 53) (he : -1074 ≤ e) :
    Format.binary64.targetExponent (totalExponent m e) ≤ e := by
  have hlog := log2_lt_of_lt hm
  rw [targetExponent_eq, lastPlace]
  omega

private theorem shift_of_le {m : Nat} {e : Int} (hm : m < 2 ^ 53) (he : -1074 ≤ e)
    (acc : Accuracy) : shiftToTargetExponent Format.binary64 m e acc =
      (ExtendedMantissa.ofMantissaAndAccuracy m acc, e) := by
  have htarget := targetExponent_le hm he
  have hshift : (Format.binary64.targetExponent (totalExponent m e) - e).toNat = 0 := by omega
  rw [shiftToTargetExponent, shiftToExponent, hshift]
  simp only [Nat.cast_zero, Int.add_zero]
  rfl

private theorem mantissa_ofMantissaAndAccuracy (m : Nat) (acc : Accuracy) :
    (ExtendedMantissa.ofMantissaAndAccuracy m acc).mantissa = m := by
  cases acc with
  | exact => rfl
  | inexact o => cases o <;> rfl

private theorem mantissa_shiftRight (em : ExtendedMantissa) (k : Nat) :
    (em >>> k).mantissa = em.mantissa / 2 ^ k := by
  change (k.repeat ExtendedMantissa.shiftRightOne em).mantissa = _
  induction k with
  | zero => exact (Nat.div_one _).symm
  | succ k ih =>
    change (k.repeat ExtendedMantissa.shiftRightOne em).mantissa / 2 = _
    rw [ih, Nat.div_div_eq_div_mul, ← Nat.pow_succ]

/-- Bits that are dropped leave no trace if they are all zero. -/
private theorem shiftRight_exact {m k : Nat} (h : 2 ^ k ∣ m) :
    ExtendedMantissa.ofMantissaAndAccuracy m .exact >>> k = ⟨m / 2 ^ k, false, false⟩ := by
  change k.repeat ExtendedMantissa.shiftRightOne _ = _
  induction k with
  | zero =>
    rw [Nat.pow_zero, Nat.div_one]
    rfl
  | succ k ih =>
    obtain ⟨n, rfl⟩ := h
    have hsplit : 2 ^ (k + 1) * n = 2 ^ k * (2 * n) := by
      rw [Nat.pow_succ, Nat.mul_assoc]
    have hone : 2 ^ (k + 1) * n / 2 ^ (k + 1) = n := Nat.mul_div_cancel_left n (Nat.two_pow_pos _)
    have htwo : 2 ^ (k + 1) * n / 2 ^ k = 2 * n := by
      rw [hsplit, Nat.mul_div_cancel_left _ (Nat.two_pow_pos k)]
    have hprev := ih ⟨2 * n, hsplit⟩
    change ExtendedMantissa.shiftRightOne (k.repeat ExtendedMantissa.shiftRightOne _) = _
    rw [hprev, hone, htwo]
    have hhalf : 2 * n / 2 = n := by omega
    have heven : 2 * n % 2 = 0 := by omega
    simp [ExtendedMantissa.shiftRightOne, hhalf, heven]

private theorem roundToNearestEven_le (m : Nat) (acc : Accuracy) :
    acc.roundToNearestEven m ≤ m + 1 := by
  cases acc with
  | exact => exact Nat.le_succ m
  | inexact o =>
    cases o with
    | lt => exact Nat.le_succ m
    | eq =>
      have hlt := Nat.mod_lt m Nat.two_pos
      change m + m % 2 ≤ m + 1
      omega
    | gt => exact le_refl _

private theorem le_roundToNearestEven (m : Nat) (acc : Accuracy) :
    m ≤ acc.roundToNearestEven m := by
  cases acc with
  | exact => exact le_refl m
  | inexact o =>
    cases o with
    | lt => exact le_refl m
    | eq => exact Nat.le_add_right m _
    | gt => exact Nat.le_succ m

/-- A mantissa that was rounded up to a further bit gives that bit back. -/
private theorem shift_carry {t : Int} (ht : -1074 ≤ t) :
    shiftToTargetExponent Format.binary64 (2 ^ 53) t .exact = (⟨2 ^ 52, false, false⟩, t + 1) := by
  have hlog : (2 ^ 53).log2 = 53 := Nat.log2_two_pow
  have hshift : (Format.binary64.targetExponent (totalExponent (2 ^ 53) t) - t).toNat = 1 := by
    rw [targetExponent_eq, lastPlace, hlog]
    omega
  rw [shiftToTargetExponent, shiftToExponent, hshift]
  rfl

/-- The result of an operation is a number from zero up to a bound, in canonical form. -/
def UpTo (u : UnpackedFloat) (bound : ℚ) : Prop :=
  u = .zero .positive ∨
    ∃ m e, ∃ h : Canonical m e, u = .finite .positive m e h.pos ∧ (m : ℚ) * 2 ^ e ≤ bound

theorem UpTo.mono {u : UnpackedFloat} {q q' : ℚ} (h : UpTo u q) (hle : q ≤ q') : UpTo u q' := by
  obtain hzero | ⟨m, e, hcanonical, hu, hbound⟩ := h
  · exact .inl hzero
  · exact .inr ⟨m, e, hcanonical, hu, hbound.trans hle⟩

private theorem div_surplus_lt (m : Nat) (e : Int) : m / 2 ^ surplus m e < 2 ^ 53 := by
  have hbits : m.log2 + 1 ≤ surplus m e + 53 := by
    rw [surplus, lastPlace]
    omega
  have hpow : 2 ^ (m.log2 + 1) ≤ 2 ^ (surplus m e + 53) := Nat.pow_le_pow_right Nat.two_pos hbits
  have hlt := Nat.lt_log2_self (n := m)
  apply Nat.div_lt_of_lt_mul
  rw [← Nat.pow_add]
  omega

/-- What is kept of a mantissa has all its bits, unless the exponent is the least one. -/
private theorem div_surplus_full {m : Nat} {e : Int} (hfit : e ≤ lastPlace m e) :
    2 ^ 52 ≤ m / 2 ^ surplus m e ∨ lastPlace m e = -1074 := by
  by_cases hleast : lastPlace m e = -1074
  · exact .inr hleast
  · have hbits : m.log2 = 52 + surplus m e := by
      rw [surplus]
      rw [lastPlace] at hfit hleast ⊢
      omega
    have hne : m ≠ 0 := by
      rintro rfl
      rw [Nat.log2_zero] at hbits
      omega
    have hle : 2 ^ (52 + surplus m e) ≤ m := hbits ▸ Nat.log2_self_le hne
    left
    rw [Nat.le_div_iff_mul_le (Nat.two_pow_pos _), ← Nat.pow_add]
    exact hle

private theorem add_surplus {m : Nat} {e : Int} (hfit : e ≤ lastPlace m e) :
    e + (surplus m e : Int) = lastPlace m e := by
  rw [surplus]
  omega

private theorem first_shift {m : Nat} {e : Int} (hfit : e ≤ lastPlace m e) (acc : Accuracy) :
    shiftToTargetExponent Format.binary64 m e acc =
      (ExtendedMantissa.ofMantissaAndAccuracy m acc >>> surplus m e, lastPlace m e) := by
  rw [← add_surplus hfit]
  rfl

/-- A number that loses only zeros is not rounded at all. -/
theorem roundWithAccuracy_exact {m : Nat} {e : Int} (hm : 0 < m) (hfit : e ≤ lastPlace m e)
    (hdvd : 2 ^ surplus m e ∣ m) (s : Sign) :
    ∃ h : Canonical (m / 2 ^ surplus m e) (lastPlace m e),
      roundWithAccuracy Format.binary64 s m e .exact =
        .finite s (m / 2 ^ surplus m e) (lastPlace m e) h.pos := by
  have hpos : 0 < m / 2 ^ surplus m e :=
    Nat.div_pos (Nat.le_of_dvd hm hdvd) (Nat.two_pow_pos _)
  have hlt := div_surplus_lt m e
  have hleast : -1074 ≤ lastPlace m e := le_max_right _ _
  refine ⟨⟨hpos, hlt, hleast, div_surplus_full hfit⟩, ?_⟩
  have hrounded : ExtendedMantissa.roundedMantissa ⟨m / 2 ^ surplus m e, false, false⟩ =
      m / 2 ^ surplus m e := rfl
  unfold roundWithAccuracy
  simp only [first_shift hfit, shiftRight_exact hdvd, hrounded, shift_of_le hlt hleast,
    mantissa_ofMantissaAndAccuracy]
  exact dif_neg (Nat.ne_of_gt hpos)

/-- A double keeps its own bits, and drops zeros that are put behind them. -/
theorem roundWithAccuracy_padded {m : Nat} {e : Int} (h : Canonical m e) (k : Nat) (s : Sign) :
    roundWithAccuracy Format.binary64 s (m * 2 ^ k) (e - k) .exact = .finite s m e h.pos := by
  have hlog : (m * 2 ^ k).log2 = m.log2 + k := by
    have hlow := Nat.mul_le_mul_right (2 ^ k) (Nat.log2_self_le (Nat.ne_of_gt h.pos))
    have hhigh := Nat.mul_lt_mul_of_pos_right (Nat.lt_log2_self (n := m)) (Nat.two_pow_pos k)
    rw [← Nat.pow_add] at hlow hhigh
    rw [Nat.log2_eq_iff (Nat.ne_of_gt (Nat.mul_pos h.pos (Nat.two_pow_pos k)))]
    exact ⟨hlow, by rwa [Nat.add_right_comm]⟩
  have hplace : lastPlace (m * 2 ^ k) (e - k) = e := by
    have hle := h.le_exponent
    rw [lastPlace, hlog]
    rcases h.full with hfull | hleast
    · rw [log2_eq_of_full hfull h.lt]
      omega
    · have hfew := log2_lt_of_lt h.lt
      omega
  have hsurplus : surplus (m * 2 ^ k) (e - k) = k := by
    rw [surplus, hplace]
    omega
  have hdvd : 2 ^ surplus (m * 2 ^ k) (e - k) ∣ m * 2 ^ k := by
    rw [hsurplus]
    exact Nat.dvd_mul_left _ _
  obtain ⟨hcanonical, hround⟩ :=
    roundWithAccuracy_exact (Nat.mul_pos h.pos (Nat.two_pow_pos k)) (by omega) hdvd s
  have hquotient : m * 2 ^ k / 2 ^ surplus (m * 2 ^ k) (e - k) = m := by
    rw [hsurplus]
    exact Nat.mul_div_cancel m (Nat.two_pow_pos k)
  rw [hround]
  simp only [hquotient, hplace]

theorem roundWithAccuracy_canonical {m : Nat} {e : Int} (h : Canonical m e) (s : Sign) :
    roundWithAccuracy Format.binary64 s m e .exact = .finite s m e h.pos := by
  simpa using roundWithAccuracy_padded h 0 s

/-- What rounding to nearest makes of a mantissa, in units of the last place. -/
def rounded (m : Nat) (e : Int) (acc : Accuracy) : Nat :=
  (ExtendedMantissa.ofMantissaAndAccuracy m acc >>> surplus m e).roundedMantissa

/-- Rounding keeps a mantissa or raises it by one. -/
theorem rounded_bounds (m : Nat) (e : Int) (acc : Accuracy) :
    m / 2 ^ surplus m e ≤ rounded m e acc ∧ rounded m e acc ≤ m / 2 ^ surplus m e + 1 := by
  let kept := ExtendedMantissa.ofMantissaAndAccuracy m acc >>> surplus m e
  have hkept : kept.mantissa = m / 2 ^ surplus m e := by
    rw [mantissa_shiftRight, mantissa_ofMantissaAndAccuracy]
  exact ⟨hkept ▸ le_roundToNearestEven kept.mantissa kept.accuracy,
    hkept ▸ roundToNearestEven_le kept.mantissa kept.accuracy⟩

/-- Rounding comes out at zero, or at a canonical number. -/
theorem roundWithAccuracy_cases {m : Nat} {e : Int} (acc : Accuracy) (hfit : e ≤ lastPlace m e) :
    (rounded m e acc = 0 ∧
      roundWithAccuracy Format.binary64 .positive m e acc = .zero .positive) ∨
    (0 < rounded m e acc ∧ ∃ m' e', ∃ h : Canonical m' e',
      roundWithAccuracy Format.binary64 .positive m e acc = .finite .positive m' e' h.pos ∧
      (m' : ℚ) * 2 ^ e' = rounded m e acc * 2 ^ lastPlace m e) := by
  have hleast : -1074 ≤ lastPlace m e := le_max_right _ _
  have hfirst := first_shift hfit acc
  have hbits := div_surplus_lt m e
  obtain ⟨hlow, hhigh⟩ := rounded_bounds m e acc
  have hrounded : (ExtendedMantissa.ofMantissaAndAccuracy m acc >>> surplus m e).roundedMantissa =
      rounded m e acc := rfl
  unfold roundWithAccuracy
  simp only [hfirst, hrounded]
  rcases (by omega : rounded m e acc < 2 ^ 53 ∨ rounded m e acc = 2 ^ 53) with hlt | hcarry
  · simp only [shift_of_le hlt hleast, mantissa_ofMantissaAndAccuracy]
    by_cases hzero : rounded m e acc = 0
    · exact .inl ⟨hzero, dif_pos hzero⟩
    · have hpos := Nat.pos_of_ne_zero hzero
      have hcanonical : Canonical (rounded m e acc) (lastPlace m e) :=
        ⟨hpos, hlt, hleast, (div_surplus_full hfit).imp_left fun hfull => hfull.trans hlow⟩
      exact .inr ⟨hpos, _, _, hcanonical, dif_neg hzero, rfl⟩
  · have hcanonical : Canonical (2 ^ 52) (lastPlace m e + 1) :=
      ⟨by omega, by omega, by omega, .inl (le_refl _)⟩
    simp only [hcarry, shift_carry hleast]
    refine .inr ⟨by omega, _, _, hcanonical, dif_neg (by omega), ?_⟩
    rw [zpow_add_one₀ two_ne_zero]
    push_cast
    ring

/-- A number that is no less than the least double is not rounded to zero. -/
theorem rounded_pos {m : Nat} {e : Int} (acc : Accuracy) (hfit : e ≤ lastPlace m e)
    (hvalue : (2 : ℚ) ^ (-1074 : Int) ≤ m * 2 ^ e) : 0 < rounded m e acc := by
  have hkept : 0 < m / 2 ^ surplus m e := by
    rcases div_surplus_full hfit with hfull | hleast
    · omega
    · have hplace : (2 : ℚ) ^ (-1074 : Int) = 2 ^ surplus m e * 2 ^ e := by
        rw [← hleast, ← add_surplus hfit, zpow_add₀ two_ne_zero, zpow_natCast, mul_comm]
      rw [hplace] at hvalue
      have hle : (2 : ℚ) ^ surplus m e ≤ m := le_of_mul_le_mul_right hvalue (by positivity)
      exact Nat.div_pos (by exact_mod_cast hle) (Nat.two_pow_pos _)
  exact hkept.trans_le (rounded_bounds m e acc).1

/-- The last place of a number is a small part of it, unless it is the last place of all. -/
theorem lastPlace_le {m : Nat} {e : Int} (hm : 0 < m) (h : lastPlace m e ≠ -1074) :
    (2 : ℚ) ^ lastPlace m e ≤ m * 2 ^ e / 2 ^ 52 := by
  have hplace : lastPlace m e = m.log2 + e - (52 : Nat) := by
    rw [lastPlace] at h ⊢
    omega
  have hlog : (2 : ℚ) ^ m.log2 ≤ m := by exact_mod_cast Nat.log2_self_le (Nat.ne_of_gt hm)
  have hpow : (0 : ℚ) < 2 ^ e := by positivity
  rw [hplace, zpow_sub₀ two_ne_zero, zpow_add₀ two_ne_zero, zpow_natCast, zpow_natCast]
  gcongr

/-- What rounding makes of a number is at most a last place above it. -/
theorem roundWithAccuracy_upTo {m : Nat} {e : Int} (acc : Accuracy) (hfit : e ≤ lastPlace m e) :
    UpTo (roundWithAccuracy Format.binary64 .positive m e acc)
      (m * 2 ^ e + 2 ^ lastPlace m e) := by
  have hbound : (rounded m e acc : ℚ) * 2 ^ lastPlace m e ≤ m * 2 ^ e + 2 ^ lastPlace m e := by
    have hpow : (0 : ℚ) < 2 ^ e := by positivity
    have hnat : rounded m e acc * 2 ^ surplus m e ≤ m + 2 ^ surplus m e := by
      have hmul := Nat.mul_le_mul_right (2 ^ surplus m e) (rounded_bounds m e acc).2
      have hdiv := Nat.div_mul_le_self m (2 ^ surplus m e)
      rw [Nat.succ_mul] at hmul
      omega
    have hcast : (rounded m e acc : ℚ) * 2 ^ surplus m e ≤ m + 2 ^ surplus m e := by
      exact_mod_cast hnat
    rw [← add_surplus hfit, zpow_add₀ two_ne_zero, zpow_natCast]
    calc (rounded m e acc : ℚ) * (2 ^ e * 2 ^ surplus m e)
        = rounded m e acc * 2 ^ surplus m e * 2 ^ e := by ring
      _ ≤ (m + 2 ^ surplus m e) * 2 ^ e := mul_le_mul_of_nonneg_right hcast hpow.le
      _ = m * 2 ^ e + 2 ^ e * 2 ^ surplus m e := by ring
  obtain ⟨-, hzero⟩ | ⟨-, m', e', hcanonical, hround, hvalue⟩ := roundWithAccuracy_cases acc hfit
  · exact .inl hzero
  · exact .inr ⟨m', e', hcanonical, hround, hvalue.trans_le hbound⟩

theorem upTo_exact {m : Nat} {e : Int} (hm : 0 < m) (hfit : e ≤ lastPlace m e)
    (hdvd : 2 ^ surplus m e ∣ m) :
    UpTo (roundWithAccuracy Format.binary64 .positive m e .exact) (m * 2 ^ e) := by
  obtain ⟨hcanonical, hround⟩ := roundWithAccuracy_exact hm hfit hdvd .positive
  refine .inr ⟨_, _, hcanonical, hround, le_of_eq ?_⟩
  have hcast : ((m / 2 ^ surplus m e : Nat) : ℚ) * 2 ^ surplus m e = m := by
    exact_mod_cast Nat.div_mul_cancel hdvd
  have hplace : (2 : ℚ) ^ lastPlace m e = 2 ^ surplus m e * 2 ^ e := by
    rw [← add_surplus hfit, zpow_add₀ two_ne_zero, zpow_natCast, mul_comm]
  rw [hplace, ← mul_assoc, hcast]

/-- A result that is not too large is a number, and no more than its bound. -/
theorem UpTo.value?_eq {u : UnpackedFloat} {bound : ℚ} (h : UpTo u bound) (hnonneg : 0 ≤ bound)
    (hlt : bound < 2 ^ 64) :
    ∃ q, value? (.ofModel (pack u)) = some q ∧ 0 ≤ q ∧ q ≤ bound := by
  obtain rfl | ⟨m, e, hcanonical, rfl, hle⟩ := h
  · exact ⟨0, value?_pack_zero .positive, le_refl _, hnonneg⟩
  · have he : e ≤ 971 := by
      by_contra hlarge
      have hlow := hcanonical.le_value (by omega)
      have hpow : (2 : ℚ) ^ (64 : Int) ≤ 2 ^ (e + 52) :=
        zpow_le_zpow_right₀ one_le_two (by omega)
      have hcast : (2 : ℚ) ^ (64 : Int) = 2 ^ 64 := by norm_cast
      rw [hcast] at hpow
      linarith
    obtain ⟨narrow, hclass⟩ := classify_pack hcanonical he
    refine ⟨m * 2 ^ e, ?_, by positivity, hle⟩
    rw [value?, hclass]
    simp [Binary.value]

/-- A double that a result is not below is no more than the bound of the result, even if the result
    is packed as an infinity. -/
theorem UpTo.value_le {u : UnpackedFloat} {bound : ℚ} (h : UpTo u bound) {x : Float} {m : Nat}
    {e : Int} {hm : 0 < m} (hx : x.toModel.unpack = .finite .positive m e hm)
    (hle : ¬ Float.ofModel (pack u) < x) : (m : ℚ) * 2 ^ e ≤ bound := by
  have hcanonical := canonical_of_unpack hx
  have hlarge := exponent_le_of_unpack hx
  have hle' : ¬ UnpackedFloat.lt (pack u).unpack (.finite .positive m e hm) = true := by
    rw [← hx]
    exact fun hlt => hle (decide_eq_true hlt)
  obtain rfl | ⟨m', e', hcanonical', rfl, hbound⟩ := h
  · exact absurd rfl hle'
  · refine le_trans ?_ hbound
    by_cases he' : e' ≤ 971
    · rw [unpack_pack hcanonical' he'] at hle'
      have hcompare : ¬ (compare e' e).then (compare m' m) = .lt := by
        intro hlt
        apply hle'
        simp [UnpackedFloat.lt, UnpackedFloat.compare, hlt]
      apply hcanonical.value_le_of hcanonical'
      rcases lt_trichotomy e e' with hlt | rfl | hgt
      · exact .inl hlt
      · refine .inr ⟨rfl, ?_⟩
        by_contra hmantissa
        apply hcompare
        simp [Nat.compare_eq_lt.2 (Nat.lt_of_not_le hmantissa)]
      · exact absurd (by simp [Int.compare_eq_lt.2 hgt]) hcompare
    · calc (m : ℚ) * 2 ^ e ≤ 2 ^ (e + 53) := hcanonical.value_lt.le
        _ ≤ 2 ^ (e' + 52) := zpow_le_zpow_right₀ one_le_two (by omega)
        _ ≤ m' * 2 ^ e' := hcanonical'.le_value (by omega)

end EdgeAttributes.Decimal
