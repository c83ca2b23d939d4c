import EdgeAttributes.Proofs.Decimal.Underflow
import EdgeAttributes.Proofs.Text.Split

open Float.Model Float.Model.UnpackedFloat

namespace EdgeAttributes.Decimal

-- Powers keep the meaning that they have without any further library.
attribute [local instance (high)] instPowNat

/-- Every power of ten in the table is exact. -/
theorem value?_powersOfTen : ∀ k, ∀ hk : k < 23,
    value? Float.exactlyRepresentablePowersOfTen[k] = some (10 ^ k) := by
  decide +kernel

/-- A power of ten in the table, in a form whose exponent is not large. -/
private theorem unpack_powersOfTen {k : Nat} (hk : k < 23) :
    ∃ m e, ∃ hm : 0 < m, Float.exactlyRepresentablePowersOfTen[k].toModel.unpack =
      .finite .positive m e hm ∧ (m : ℚ) * 2 ^ e = 10 ^ k ∧ e ≤ 100 := by
  obtain ⟨m, e, hcanonical, hunpack, hvalue⟩ :=
    exists_canonical_of_value? (value?_powersOfTen k hk) (by positivity)
  refine ⟨m, e, hcanonical.pos, hunpack, hvalue, ?_⟩
  by_contra hlarge
  have hexceeds : (10 : ℚ) ^ 22 < 10 ^ k :=
    calc (10 : ℚ) ^ 22 < 2 ^ (100 : Int) := by norm_num
      _ ≤ 2 ^ (e + 52) := zpow_le_zpow_right₀ one_le_two (by omega)
      _ ≤ m * 2 ^ e := hcanonical.le_value (by omega)
      _ = 10 ^ k := hvalue
  have hlt := (pow_lt_pow_iff_right₀ (by norm_num)).1 hexceeds
  omega

/-- Short numerals are read with one division of two exact doubles. -/
private theorem lands_short {m k : Nat} (hm : m < 2 ^ 53) (hk : k < 23) :
    Lands (m.toUInt64.toFloat / Float.exactlyRepresentablePowersOfTen[k]).toModel.unpack
      (m / 10 ^ k) := by
  obtain ⟨m', e', hm', hunpack, hvalue, he'⟩ := unpack_powersOfTen hk
  change Lands (pack (UnpackedFloat.div Format.binary64 m.toUInt64.toFloat.toModel.unpack
    Float.exactlyRepresentablePowersOfTen[k].toModel.unpack)).unpack _
  refine Lands.unpack_pack ?_
  rw [hunpack]
  obtain rfl | hpos := Nat.eq_zero_or_pos m
  · rw [Nat.cast_zero, zero_div]
    exact lands_zero
  · have hcanonical := canonical_fullMantissa hpos hm
    have hland := lands_div hcanonical.pos hm'
      (by omega : -1074 ≤ -((52 - m.log2 : Nat) : Int) - e')
    rw [toFloat_toUInt64 hpos hm]
    change Lands (UnpackedFloat.div Format.binary64 (Float.Model.pack _).unpack _) _
    rwa [unpack_pack hcanonical (by omega), ← hvalue, ← fullMantissa_value]

/-- A numeral with so many digits behind the point that it is cut off to zero at once is no more
    than a half of the least double. -/
private theorem le_halfLeast_of_many {m k : Nat} (hmany : 2048 + m.log2 < k) :
    (m : ℚ) / 10 ^ k ≤ halfLeast := by
  have hhalf : halfLeast = 1 / 2 ^ 1075 := by
    have hexponent : (-1075 : Int) = -((1075 : Nat) : Int) := rfl
    rw [halfLeast, hexponent, zpow_neg, zpow_natCast, one_div]
  have hm : (m : ℚ) ≤ 2 ^ (m.log2 + 1) := by exact_mod_cast Nat.lt_log2_self.le
  rw [hhalf, div_le_div_iff₀ (by positivity) (by positivity), one_mul]
  calc (m : ℚ) * 2 ^ 1075 ≤ 2 ^ (m.log2 + 1) * 2 ^ 1075 :=
        mul_le_mul_of_nonneg_right hm (by positivity)
    _ = 2 ^ (m.log2 + 1 + 1075) := (pow_add 2 (m.log2 + 1) 1075).symm
    _ ≤ 2 ^ k := pow_le_pow_right₀ one_le_two (by omega)
    _ ≤ 10 ^ k := pow_le_pow_left₀ (by norm_num) (by norm_num) k

/-- No whole number vanishes. -/
theorem halfLeast_lt_natCast {n : Nat} (hn : 0 < n) : halfLeast < n :=
  halfLeast_lt_one.trans_le (by exact_mod_cast hn)

/-- Long numerals are read with one operation on integers, unless they vanish at once. -/
private theorem lands_long (m k : Nat) :
    Lands (UnpackedFloat.ofScientific Format.binary64 m (-k)) (m / 10 ^ k) := by
  obtain rfl | hm := Nat.eq_zero_or_pos m
  · rw [Nat.cast_zero, zero_div]
    exact lands_zero
  have hrange : (2 ^ Format.binary64.exponentBits : Int) = 2048 := rfl
  have hsmall : ¬ -(k : Int) > 2048 := by omega
  rw [UnpackedFloat.ofScientific, dif_neg (Nat.ne_of_gt hm), hrange, if_neg hsmall]
  split
  · next hmany => exact .inl ⟨rfl, le_halfLeast_of_many (by omega)⟩
  · have hten : 0 < 10 ^ k := Nat.pow_pos (by decide)
    split
    · next hwhole =>
      obtain rfl : k = 0 := by omega
      have hwide : 2 ^ 52 ≤ m <<< 53 * 10 ^ 0 := by
        rw [Nat.shiftLeft_eq]
        omega
      have hone : (1 : ℚ) ≤ m := by exact_mod_cast hm
      have hvalue : ((m <<< 53 : Nat) : ℚ) * 2 ^ (-53 : Int) * ((10 ^ 0 : Nat) * 2 ^ (0 : Int)) =
          m := by
        rw [Nat.shiftLeft_eq]
        norm_num
        ring
      rw [pow_zero, div_one]
      refine .inr ⟨positive_mul _ hten hwide ?_, halfLeast_lt_natCast hm⟩
      exact (zpow_le_one_of_nonpos₀ one_le_two (by decide)).trans (hone.trans_eq hvalue.symm)
    · have hk : (- -(k : Int)).toNat = k := by omega
      have hvalue : (m : ℚ) / 10 ^ k = m * 2 ^ (0 : Int) / ((10 ^ k : Nat) * 2 ^ (0 : Int)) := by
        simp
      simp only [hk]
      rw [hvalue]
      exact lands_div hm hten (by decide)

/-- Whole numerals are read without a division. -/
private theorem lands_whole (m : Nat) : Lands (Float.ofScientific m false 0).toModel.unpack m := by
  have hlong := (lands_long m 0).unpack_pack
  rw [pow_zero, div_one] at hlong
  by_cases hbits : m < 2 ^ 53
  · obtain rfl | hm := Nat.eq_zero_or_pos m
    · rw [Nat.cast_zero]
      exact lands_zero
    · have hunpack := unpack_ofInt hm hbits
      change (Float.ofScientific m false 0).toModel.unpack = _ at hunpack
      rw [hunpack]
      exact .inr ⟨.inr ⟨_, _, canonical_fullMantissa hm hbits, rfl⟩, halfLeast_lt_natCast hm⟩
  · rw [Float.ofScientific, dif_neg fun hfast => hbits hfast.1]
    exact hlong

/-- The double that is nearest to a numeral is zero up to a half of the least double. -/
theorem lands_ofScale (m k : Nat) : Lands (ofScale m (-k)).toModel.unpack (m / 10 ^ k) := by
  obtain rfl | hk := Nat.eq_zero_or_pos k
  · rw [pow_zero, div_one]
    exact lands_whole m
  · have hfraction : ofScale m (-k) = Float.ofScientific m true k := by
      rw [ofScale, if_neg (by omega), neg_neg, Int.toNat_natCast]
    rw [hfraction, Float.ofScientific]
    split
    · next hfast => exact lands_short hfast.1 (Nat.lt_succ_of_le hfast.2)
    · have hexponent : Int.negOfNat k = -(k : Int) := Int.negOfNat_eq
      simp only [if_true, hexponent]
      exact (lands_long m k).unpack_pack

/-- A run of digits with at most one point in or beside it and at least one digit. -/
structure IsNumeral (cs : List Char) : Prop where
  digit : ∃ c ∈ cs, c.isDigit
  point : cs.count '.' ≤ 1
  only : ∀ c ∈ cs, c.isDigit ∨ c = '.'

/-- How many digits are behind the point; none if there is no point. -/
def places (cs : List Char) : Nat := (cs.dropWhile (· != '.')).tail.length

/-- The number that a numeral denotes. -/
def denoted (cs : List Char) : ℚ := digitsValue (cs.filter Char.isDigit) / 10 ^ places cs

section Parts

variable {whole fraction rest : List Char}

private theorem notMem_digits (h : ∀ c ∈ whole, c.isDigit) : '.' ∉ whole :=
  fun hmem => absurd (h '.' hmem) (by decide)

private theorem ne_point_of_digits (h : ∀ c ∈ whole, c.isDigit) : ∀ c ∈ whole, c != '.' := by
  intro c hc
  rw [bne_iff_ne]
  rintro rfl
  exact notMem_digits h hc

theorem isNumeral_whole_iff (hwhole : ∀ c ∈ whole, c.isDigit) : IsNumeral whole ↔ whole ≠ [] := by
  constructor
  · rintro h rfl
    obtain ⟨c, hc, -⟩ := h.digit
    cases hc
  · intro hne
    obtain ⟨c, hc⟩ := List.exists_mem_of_ne_nil whole hne
    refine ⟨⟨c, hc, hwhole c hc⟩, ?_, fun c hc => .inl (hwhole c hc)⟩
    rw [List.count_eq_zero.2 (notMem_digits hwhole)]
    exact Nat.zero_le 1

theorem isNumeral_point_iff (hwhole : ∀ c ∈ whole, c.isDigit)
    (hfraction : ∀ c ∈ fraction, c.isDigit) (hrest : ∀ c ∈ rest.head?, ¬ c.isDigit) :
    IsNumeral (whole ++ '.' :: (fraction ++ rest)) ↔ rest = [] ∧ whole ++ fraction ≠ [] := by
  have hcount : (whole ++ '.' :: (fraction ++ rest)).count '.' = 1 + rest.count '.' := by
    rw [List.count_append, List.count_cons_self, List.count_append,
      List.count_eq_zero.2 (notMem_digits hwhole), List.count_eq_zero.2 (notMem_digits hfraction)]
    omega
  constructor
  · intro h
    have hend : rest = [] := by
      cases rest with
      | nil => rfl
      | cons c cs =>
        -- What ends the digits behind the point could only be a second point.
        have hpoint := (h.only c (by simp)).resolve_left (hrest c rfl)
        have hone := h.point
        rw [hcount, hpoint, List.count_cons_self] at hone
        omega
    refine ⟨hend, fun hnone => ?_⟩
    obtain ⟨rfl, rfl⟩ := List.append_eq_nil_iff.1 hnone
    obtain ⟨c, hc, hdigit⟩ := h.digit
    rw [hend, List.nil_append, List.nil_append, List.mem_singleton] at hc
    rw [hc] at hdigit
    exact absurd hdigit (by decide)
  · rintro ⟨rfl, hne⟩
    rw [List.append_nil] at hcount ⊢
    obtain ⟨c, hc⟩ := List.exists_mem_of_ne_nil _ hne
    have hdigit : c.isDigit := (List.mem_append.1 hc).elim (hwhole c) (hfraction c)
    have hsub : whole ++ fraction ⊆ whole ++ '.' :: fraction :=
      List.append_subset.2 ⟨List.subset_append_left _ _, fun c hc => by simp [hc]⟩
    refine ⟨⟨c, hsub hc, hdigit⟩, hcount.le, fun c hc => ?_⟩
    obtain hc | hc := List.mem_append.1 hc
    · exact .inl (hwhole c hc)
    · exact (List.mem_cons.1 hc).symm.imp_left (hfraction c)

/-- A character that is neither a digit nor a point is in no numeral. -/
theorem not_isNumeral_of_other {c : Char} (hdigit : ¬ c.isDigit) (hpoint : c ≠ '.') :
    ¬ IsNumeral (whole ++ c :: rest) := fun h =>
  (h.only c (by simp)).elim hdigit hpoint

theorem places_whole (hwhole : ∀ c ∈ whole, c.isDigit) : places whole = 0 := by
  rw [places, List.dropWhile_eq_nil_iff.2 (ne_point_of_digits hwhole)]
  rfl

theorem places_point (hwhole : ∀ c ∈ whole, c.isDigit) (fraction : List Char) :
    places (whole ++ '.' :: fraction) = fraction.length := by
  have hstop : ∀ c ∈ ('.' :: fraction).head?, ¬ (c != '.') = true := by simp
  rw [places, (Text.takeWhile_dropWhile_append (ne_point_of_digits hwhole) hstop).2]
  rfl

theorem readNumeral?_whole (hwhole : ∀ c ∈ whole, c.isDigit) :
    readNumeral? whole = if whole ≠ [] then some (ofScale (digitsValue whole) 0) else none := by
  have hnone : ∀ c ∈ ([] : List Char).head?, ¬ c.isDigit := by simp
  obtain ⟨htake, hdrop⟩ := Text.takeWhile_dropWhile_append hwhole hnone
  rw [List.append_nil] at htake hdrop
  rw [readNumeral?, Numeral.read?, htake, hdrop]
  cases whole <;> simp [Numeral.value]

theorem readNumeral?_point (hwhole : ∀ c ∈ whole, c.isDigit)
    (hfraction : ∀ c ∈ fraction, c.isDigit) (hrest : ∀ c ∈ rest.head?, ¬ c.isDigit) :
    readNumeral? (whole ++ '.' :: (fraction ++ rest)) =
      if rest = [] ∧ whole ++ fraction ≠ [] then
        some (ofScale (digitsValue (whole ++ fraction)) (-fraction.length))
      else none := by
  have hpoint : ∀ c ∈ ('.' :: (fraction ++ rest)).head?, ¬ c.isDigit := by simp
  obtain ⟨htake, hdrop⟩ := Text.takeWhile_dropWhile_append hwhole hpoint
  obtain ⟨htake', hdrop'⟩ := Text.takeWhile_dropWhile_append hfraction hrest
  rw [readNumeral?, Numeral.read?, htake, hdrop]
  simp only [htake', hdrop', Bool.and_eq_true, List.isEmpty_iff, ← List.append_eq_nil_iff]
  by_cases hnone : whole ++ fraction = []
  · simp [hnone]
  · cases rest <;> simp [hnone, Numeral.value]

/-- Nothing is read if another character than a point follows the first digits. -/
theorem readNumeral?_other {c : Char} (hwhole : ∀ c ∈ whole, c.isDigit) (hdigit : ¬ c.isDigit)
    (hpoint : c ≠ '.') : readNumeral? (whole ++ c :: rest) = none := by
  have hstop : ∀ d ∈ (c :: rest).head?, ¬ d.isDigit := by simpa using hdigit
  obtain ⟨htake, hdrop⟩ := Text.takeWhile_dropWhile_append hwhole hstop
  rw [readNumeral?, Numeral.read?, htake, hdrop]
  by_cases hnone : whole = [] <;> simp [hnone, hpoint]

end Parts

/-- Exactly the numerals are read. The digits make up one integer, scaled by the place of the last
    of them. -/
theorem readNumeral?_eq_some_iff {cs : List Char} {x : Float} : readNumeral? cs = some x ↔
    IsNumeral cs ∧ x = ofScale (digitsValue (cs.filter Char.isDigit)) (-places cs) := by
  obtain ⟨whole, rest, rfl, hwhole, hrest⟩ := Text.exists_run Char.isDigit cs
  cases rest with
  | nil =>
    rw [List.append_nil, readNumeral?_whole hwhole, isNumeral_whole_iff hwhole,
      places_whole hwhole, List.filter_eq_self.2 hwhole]
    simp [eq_comm]
  | cons c more =>
    by_cases hpoint : c = '.'
    · subst hpoint
      obtain ⟨fraction, rest, rfl, hfraction, hend⟩ := Text.exists_run Char.isDigit more
      rw [readNumeral?_point hwhole hfraction hend, isNumeral_point_iff hwhole hfraction hend,
        Option.ite_none_right_eq_some]
      refine and_congr_right fun ⟨hnone, _⟩ => ?_
      rw [hnone, List.append_nil, places_point hwhole, List.filter_append,
        List.filter_cons_of_neg (by decide), List.filter_eq_self.2 hwhole,
        List.filter_eq_self.2 hfraction, Option.some.injEq, eq_comm]
    · have hother := hrest c rfl
      rw [readNumeral?_other hwhole hother hpoint]
      exact iff_of_false nofun fun h => not_isNumeral_of_other hother hpoint h.1

/-- What is read of a numeral is zero up to a half of the least double. -/
theorem lands_of_readNumeral? {cs : List Char} {x : Float} (h : readNumeral? cs = some x) :
    Lands x.toModel.unpack (denoted cs) := by
  rw [(readNumeral?_eq_some_iff.1 h).2]
  exact lands_ofScale _ _

end EdgeAttributes.Decimal
