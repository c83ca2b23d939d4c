import EdgeAttributes.Proofs.Decimal.Arithmetic

open Float.Model Float.Model.UnpackedFloat

namespace EdgeAttributes.Decimal

-- Powers keep the meaning that they have without any further library.
attribute [local instance (high)] instPowNat

private theorem accuracyOfFraction_zero (den : Nat) : accuracyOfFraction 0 den = .exact := rfl

/-- The quotient by two, before it is rounded: exact wherever there is an exponent to take it
    from. -/
private theorem divCore_two {m : Nat} {e : Int} (h : Canonical m e) :
    (-1072 ≤ e ∧ divCore Format.binary64 m e (2 ^ 52) (-51) = (2 * m, e - 2, .exact)) ∨
    (e = -1073 ∧ divCore Format.binary64 m e (2 ^ 52) (-51) = (m, -1074, .exact)) ∨
    (e = -1074 ∧ ∃ acc, divCore Format.binary64 m e (2 ^ 52) (-51) = (m / 2, -1074, acc)) := by
  have hlog := log2_lt_of_lt h.lt
  have htotal : totalExponent (2 ^ 52) (-51) = 2 := by decide
  have htarget : min (e - -51) (Format.binary64.targetExponent (totalExponent m e - 2)) =
      max (e - 2) (-1074) := by
    change min (e - -51) (max ((m.log2 : Int) + 1 + e - 2 - 53) (-1074)) = _
    have hle := h.le_exponent
    rcases h.full with hfull | hleast
    · rw [log2_eq_of_full hfull h.lt]
      omega
    · omega
  unfold divCore
  rw [htotal]
  simp only [htarget, Nat.shiftLeft_eq]
  have hle := h.le_exponent
  rcases (by omega : -1072 ≤ e ∨ e = -1073 ∨ e = -1074) with hlarge | rfl | rfl
  · have hexponent : max (e - 2) (-1074) = e - 2 := by omega
    have hshift : (e - -51 - (e - 2)).toNat = 53 := by omega
    have hdiv : m * 2 ^ 53 / 2 ^ 52 = 2 * m := by omega
    have hmod : m * 2 ^ 53 % 2 ^ 52 = 0 := by omega
    left
    rw [hexponent, hshift, hdiv, hmod, accuracyOfFraction_zero]
    exact ⟨hlarge, rfl⟩
  · have hexponent : max (-1073 - 2 : Int) (-1074) = -1074 := by omega
    have hshift : (-1073 - -51 - -1074 : Int).toNat = 52 := by omega
    have hdiv : m * 2 ^ 52 / 2 ^ 52 = m := by omega
    have hmod : m * 2 ^ 52 % 2 ^ 52 = 0 := by omega
    right; left
    rw [hexponent, hshift, hdiv, hmod, accuracyOfFraction_zero]
    exact ⟨rfl, rfl⟩
  · have hexponent : max (-1074 - 2 : Int) (-1074) = -1074 := by omega
    have hshift : (-1074 - -51 - -1074 : Int).toNat = 51 := by omega
    have hdiv : m * 2 ^ 51 / 2 ^ 52 = m / 2 := by omega
    right; right
    rw [hexponent, hshift, hdiv]
    exact ⟨rfl, _, rfl⟩

/-- Halving lowers the exponent, unless it is the least one: there the half is rounded, and it stays
    far below one. -/
private theorem div_two {m : Nat} {e : Int} (h : Canonical m e) :
    (-1074 < e ∧ UnpackedFloat.div Format.binary64 (.finite .positive m e h.pos)
      (.finite .positive (2 ^ 52) (-51) (by decide)) = .finite .positive m (e - 1) h.pos) ∨
    (e = -1074 ∧ UpTo (UnpackedFloat.div Format.binary64 (.finite .positive m e h.pos)
      (.finite .positive (2 ^ 52) (-51) (by decide))) (1 / 4)) := by
  have hlt := h.lt
  have hsign : (.positive / .positive : Sign) = .positive := rfl
  rw [UnpackedFloat.div, hsign]
  rcases divCore_two h with ⟨hlarge, hcore⟩ | ⟨rfl, hcore⟩ | ⟨rfl, acc, hcore⟩
  · have hcanonical : Canonical m (e - 1) :=
      ⟨h.pos, hlt, by omega, .inl (h.full.resolve_right (by omega))⟩
    have hmantissa : 2 * m = m * 2 ^ 1 := by omega
    have hexponent : e - 2 = e - 1 - (1 : Nat) := by omega
    rw [hcore, hmantissa, hexponent]
    exact .inl ⟨by omega, roundWithAccuracy_padded hcanonical 1 .positive⟩
  · have hcanonical : Canonical m (-1073 - 1) := ⟨h.pos, hlt, by decide, .inr rfl⟩
    rw [hcore]
    exact .inl ⟨by decide, roundWithAccuracy_canonical hcanonical .positive⟩
  · have hlog := log2_lt_of_lt (show m / 2 < 2 ^ 53 by omega)
    have hplace : lastPlace (m / 2) (-1074) = -1074 := by
      rw [lastPlace]
      omega
    rw [hcore]
    refine .inr ⟨rfl, (roundWithAccuracy_upTo acc (le_of_eq hplace.symm)).mono ?_⟩
    have hhalf : ((m / 2 : Nat) : ℚ) + 1 ≤ 2 ^ 53 := by
      have hnat : m / 2 + 1 ≤ 2 ^ 53 := by omega
      exact_mod_cast hnat
    have hunit : (0 : ℚ) < 2 ^ (-1074 : Int) := by positivity
    rw [hplace]
    calc ((m / 2 : Nat) : ℚ) * 2 ^ (-1074 : Int) + 2 ^ (-1074 : Int)
        = ((m / 2 : Nat) + 1) * 2 ^ (-1074 : Int) := by ring
      _ ≤ 2 ^ 53 * 2 ^ (-1074 : Int) := mul_le_mul_of_nonneg_right hhalf hunit.le
      _ = 2 ^ (-1021 : Int) := by
          rw [← zpow_natCast, ← zpow_add₀ two_ne_zero]
          norm_num
      _ ≤ 2 ^ (-2 : Int) := zpow_le_zpow_right₀ one_le_two (by decide)
      _ = 1 / 4 := by norm_num

/-- Half of a positive double is half its number, unless that is too small to be told from it. -/
private theorem value?_half {y : Float} {m : Nat} {e : Int} (h : Canonical m e)
    (hunpack : y.toModel.unpack = .finite .positive m e h.pos) :
    ∃ q, value? (y / 2.0) = some q ∧ 0 ≤ q ∧ (q = m * 2 ^ e / 2 ∨ e = -1074 ∧ q ≤ 1 / 4) := by
  have htwo : (2.0 : Float).toModel.unpack = .finite .positive (2 ^ 52) (-51) (by decide) := rfl
  have hdiv : y / 2.0 = .ofModel (pack (UnpackedFloat.div Format.binary64
      (.finite .positive m e h.pos) (.finite .positive (2 ^ 52) (-51) (by decide)))) := by
    rw [← hunpack, ← htwo]
    rfl
  rw [hdiv]
  rcases div_two h with ⟨hlarge, hhalf⟩ | ⟨hleast, hupTo⟩
  · have hcanonical : Canonical m (e - 1) :=
      ⟨h.pos, h.lt, by omega, .inl (h.full.resolve_right (by omega))⟩
    have hle := exponent_le_of_unpack hunpack
    obtain ⟨narrow, hclass⟩ := classify_pack hcanonical (by omega)
    refine ⟨m * 2 ^ (e - 1), ?_, by positivity, .inl ?_⟩
    · rw [hhalf, value?, hclass]
      simp [Binary.value]
    · rw [zpow_sub_one₀ two_ne_zero]
      ring
  · obtain ⟨q, hq, hnonneg, hsmall⟩ := hupTo.value?_eq (by norm_num) (by norm_num)
    exact ⟨q, hq, hnonneg, .inr ⟨hleast, hsmall⟩⟩

/-- A positive double that is at most twice 127 is finite, and its mantissa and exponent are no
    larger than those of that bound. -/
private theorem unpack_of_pos_of_le {y : Float} (hpos : 0 < y) (hle : y ≤ Float.ofInt 127 * 2.0) :
    ∃ m e, ∃ h : Canonical m e, y.toModel.unpack = .finite .positive m e h.pos ∧
      (e < -45 ∨ e = -45 ∧ m ≤ 254 * 2 ^ 45) := by
  have hbound : (Float.ofInt 127 * 2.0).toModel.unpack =
      .finite .positive (254 * 2 ^ 45) (-45) (by decide) := rfl
  replace hle : UnpackedFloat.le y.toModel.unpack (Float.ofInt 127 * 2.0).toModel.unpack = true :=
    of_decide_eq_true hle
  rw [hbound] at hle
  obtain hinf | ⟨m, e, hcanonical, hunpack⟩ := unpack_of_pos hpos
  · rw [hinf] at hle
    cases hle
  · rw [hunpack] at hle
    refine ⟨m, e, hcanonical, hunpack, ?_⟩
    have hcompare : ((compare e (-45)).then (compare m (254 * 2 ^ 45))).isLE = true := hle
    rcases lt_trichotomy e (-45) with hlt | heq | hgt
    · exact .inl hlt
    · rw [heq] at hcompare
      exact .inr ⟨heq, Nat.isLE_compare.1 hcompare⟩
    · rw [Int.compare_eq_gt.2 hgt] at hcompare
      cases hcompare

/-- Half of a positive double that is at most twice 127 is finite and rounds to an integer of seven
    bits. The double may be subnormal, and its half may be zero. -/
theorem nearestInt?_half {y : Float} (hpos : 0 < y) (hle : y ≤ Float.ofInt 127 * 2.0) :
    ∃ n, nearestInt? (y / 2.0) = some n ∧ 0 ≤ n ∧ n ≤ 127 := by
  obtain ⟨m, e, hcanonical, hunpack, hbound⟩ := unpack_of_pos_of_le hpos hle
  obtain ⟨q, hq, hnonneg, hhalf⟩ := value?_half hcanonical hunpack
  have htop : Canonical (254 * 2 ^ 45) (-45) := ⟨by omega, by omega, by omega, .inl (by omega)⟩
  have hsize : (m : ℚ) * 2 ^ e ≤ 254 := by
    refine (hcanonical.value_le_of htop hbound).trans (le_of_eq ?_)
    norm_num
  have hsmall : q < (127 : Int) + 1 / 2 := by
    rcases hhalf with rfl | ⟨-, hsmall⟩
    · push_cast
      linarith
    · push_cast
      linarith
  refine ⟨nearest q, ?_, (nearest_mem_iff (by decide)).2 ⟨by linarith, hsmall⟩⟩
  rw [nearestInt?_eq, hq, Option.map_some]

private theorem lt_one_iff {x : Float} {m : Nat} {e : Int} (h : Canonical m e)
    (hx : x.toModel.unpack = .finite .positive m e h.pos) : x < 1 ↔ e < -52 := by
  have hone : (1 : Float).toModel.unpack = .finite .positive (2 ^ 52) (-52) (by decide) := rfl
  have hlt : x < 1 ↔ UnpackedFloat.lt x.toModel.unpack (1 : Float).toModel.unpack = true :=
    decide_eq_true_iff
  rw [hlt, hone, hx, UnpackedFloat.lt, UnpackedFloat.compare]
  rcases lt_trichotomy e (-52) with hlow | rfl | hhigh
  · simp [Int.compare_eq_lt.2 hlow, hlow]
  · have hfull : 2 ^ 52 ≤ m := h.full.resolve_right (by decide)
    have hcompare : compare m (2 ^ 52) ≠ .lt := by
      rw [Ne, Nat.compare_eq_lt]
      omega
    simpa using hcompare
  · simp [Int.compare_eq_gt.2 hhigh, Int.le_of_lt hhigh]

/-- A positive double that is less than one is no more than twice 127. -/
theorem le_of_lt_one {y : Float} (hpos : 0 < y) (hlt : y < 1) : y ≤ Float.ofInt 127 * 2.0 := by
  have hone : (1 : Float).toModel.unpack = .finite .positive (2 ^ 52) (-52) (by decide) := rfl
  have hbound : (Float.ofInt 127 * 2.0).toModel.unpack =
      .finite .positive (254 * 2 ^ 45) (-45) (by decide) := rfl
  have hlt' : UnpackedFloat.lt y.toModel.unpack (1 : Float).toModel.unpack = true :=
    of_decide_eq_true hlt
  obtain hinf | ⟨m, e, hcanonical, hunpack⟩ := unpack_of_pos hpos
  · rw [hinf, hone] at hlt'
    cases hlt'
  · have he := (lt_one_iff hcanonical hunpack).1 hlt
    have hle : UnpackedFloat.le y.toModel.unpack (Float.ofInt 127 * 2.0).toModel.unpack = true := by
      rw [hbound, hunpack, UnpackedFloat.le, UnpackedFloat.compare,
        Int.compare_eq_lt.2 (by omega : e < -45)]
      rfl
    exact decide_eq_true hle

/-- Half of a positive double that is at most twice 127 rounds to zero exactly if the double is less
    than one. -/
theorem nearestInt?_half_eq_zero_iff {y : Float} (hpos : 0 < y) (hle : y ≤ Float.ofInt 127 * 2.0) :
    nearestInt? (y / 2.0) = some 0 ↔ y < 1 := by
  obtain ⟨m, e, hcanonical, hunpack, -⟩ := unpack_of_pos_of_le hpos hle
  obtain ⟨q, hq, hnonneg, hhalf⟩ := value?_half hcanonical hunpack
  have hsmall : q < 1 / 2 ↔ e < -52 := by
    rw [← hcanonical.value_lt_one_iff]
    rcases hhalf with rfl | ⟨rfl, hsmall⟩
    · constructor <;> intro hlt <;> linarith
    · exact iff_of_true (by linarith) (hcanonical.value_lt_one_iff.2 (by decide))
  have hmem := nearest_mem_iff (q := q) (n := 0) (le_refl 0)
  have hzero : nearest q = 0 ↔ q < 1 / 2 := by
    rw [le_antisymm_iff, and_comm, hmem]
    constructor
    · rintro ⟨-, hlt⟩
      push_cast at hlt
      linarith
    · intro hlt
      push_cast
      constructor <;> linarith
  rw [nearestInt?_eq, hq, Option.map_some, Option.some_inj, hzero, hsmall,
    lt_one_iff hcanonical hunpack]

end EdgeAttributes.Decimal
