import EdgeAttributes.Decimal.Binary
import Mathlib

open Float.Model Float.Model.UnpackedFloat

namespace EdgeAttributes.Decimal

-- Powers keep the meaning that they have without any further library.
attribute [local instance (high)] instPowNat

/-- The mantissa and exponent of a finite double that is not zero: a mantissa of 53 bits, or of
    fewer at the least exponent. -/
structure Canonical (m : Nat) (e : Int) : Prop where
  pos : 0 < m
  lt : m < 2 ^ 53
  le_exponent : -1074 ≤ e
  full : 2 ^ 52 ≤ m ∨ e = -1074

theorem log2_lt_of_lt {m : Nat} (h : m < 2 ^ 53) : m.log2 < 53 := by
  by_cases hzero : m = 0
  · rw [hzero]
    decide
  · exact (Nat.log2_lt hzero).2 h

theorem log2_eq_of_full {m : Nat} (hfull : 2 ^ 52 ≤ m) (hlt : m < 2 ^ 53) :
    m.log2 = 52 := by
  have hne : m ≠ 0 := by omega
  have hle := (Nat.le_log2 hne).2 hfull
  have hlt := log2_lt_of_lt hlt
  omega

/-- What is unpacked from the bits of a double is canonical. -/
theorem canonical_of_unpack {b : BitVec 64} {s : Sign} {m : Nat} {e : Int} {hpos : 0 < m}
    (h : UnpackedFloat.unpack Format.binary64 b = .finite s m e hpos) : Canonical m e := by
  have hmantissa : (@unpackMantissa Format.binary64 b).toNat < 2 ^ 52 := BitVec.isLt _
  rw [UnpackedFloat.unpack] at h
  simp only at h
  split at h
  · split at h <;> cases h
  · split at h
    · next hzero =>
      split at h
      · cases h
      · next hne =>
        obtain ⟨-, rfl, rfl⟩ := UnpackedFloat.finite.inj h
        rw [hzero]
        exact ⟨hpos, by omega, by decide, .inr (by decide)⟩
    · next hexponent =>
      obtain ⟨-, rfl, rfl⟩ := UnpackedFloat.finite.inj h
      have hnat : (1#1 ++ @unpackMantissa Format.binary64 b).toNat =
          2 ^ 52 + (@unpackMantissa Format.binary64 b).toNat := by
        rw [BitVec.toNat_append, ← Nat.shiftLeft_add_eq_or_of_lt hmantissa]
        rfl
      have hbias : ((Format.binary64.exponentBias : Int) + (52 : Nat)) = 1075 := by decide
      have hone : 0 < (@unpackExponent Format.binary64 b).toNat := by
        apply Nat.pos_of_ne_zero
        intro hzero
        exact hexponent (BitVec.eq_of_toNat_eq hzero)
      refine ⟨hpos, ?_, ?_, .inl ?_⟩
      · rw [hnat]
        omega
      · rw [hbias]
        omega
      · rw [hnat]
        omega

/-- The exponent of a finite double is not the one that is kept for what is not finite. -/
theorem exponent_le_of_unpack {b : BitVec 64} {s : Sign} {m : Nat} {e : Int} {hpos : 0 < m}
    (h : UnpackedFloat.unpack Format.binary64 b = .finite s m e hpos) : e ≤ 971 := by
  have hlt : (@unpackExponent Format.binary64 b).toNat < 2 ^ 11 := BitVec.isLt _
  have hbias : ((Format.binary64.exponentBias : Int) + (52 : Nat)) = 1075 := by decide
  rw [UnpackedFloat.unpack] at h
  simp only at h
  split at h
  · split at h <;> cases h
  · next hexponent =>
    have hones : (@unpackExponent Format.binary64 b).toNat ≠ 2047 :=
      fun hnat => hexponent (BitVec.eq_of_toNat_eq hnat)
    split at h
    · next hzero =>
      split at h
      · cases h
      · obtain ⟨-, -, rfl⟩ := UnpackedFloat.finite.inj h
        rw [hzero]
        decide
    · obtain ⟨-, -, rfl⟩ := UnpackedFloat.finite.inj h
      rw [hbias]
      omega

private theorem toNat_packComponents (exponent : BitVec 11) (mantissa : BitVec 52) :
    (packComponents Format.binary64 .positive exponent mantissa).toNat =
      exponent.toNat * 2 ^ 52 + mantissa.toNat := by
  have hsign : (Sign.toBitVec .positive).toNat = 0 := rfl
  rw [packComponents, BitVec.toNat_append, BitVec.toNat_append, hsign, Nat.zero_shiftLeft,
    Nat.zero_or, ← Nat.shiftLeft_add_eq_or_of_lt mantissa.isLt, Nat.shiftLeft_eq]

/-- A double is read off its bits as exponent and fraction stand there. -/
private theorem classify_of_bits {x : Float} {biased fraction : Nat}
    (hbits : x.toBits.toNat = biased * 2 ^ 52 + fraction) (hfraction : fraction < 2 ^ 52)
    (hbiased : biased < 2047) :
    ∃ narrow, classify x = .finite (if biased = 0 then ⟨false, fraction, -1074, narrow⟩
      else ⟨false, 2 ^ 52 + fraction, (biased : Int) - 1075, narrow⟩) := by
  have hsign : x.toBits.toNat / 2 ^ (fractionBits + exponentBits) = 0 := by
    simp only [fractionBits, exponentBits]
    omega
  have hexponent : x.toBits.toNat / 2 ^ fractionBits % 2 ^ exponentBits = biased := by
    simp only [fractionBits, exponentBits]
    omega
  have hrest : x.toBits.toNat % 2 ^ fractionBits = fraction := by
    simp only [fractionBits]
    omega
  unfold classify
  simp only [hsign, hexponent, hrest, if_neg (by omega : ¬ biased = 2047)]
  by_cases hzero : biased = 0
  · refine ⟨false, ?_⟩
    rw [if_pos hzero, if_pos hzero]
    rfl
  · refine ⟨fraction == 0 && 1 < biased, ?_⟩
    rw [if_neg hzero, if_neg hzero]
    rfl

/-- Packing a canonical number that is not too large loses nothing. -/
theorem classify_pack {m : Nat} {e : Int} (h : Canonical m e) (he : e ≤ 971) :
    ∃ narrow, classify (.ofModel (pack (.finite .positive m e h.pos))) =
      .finite ⟨false, m, e, narrow⟩ := by
  have hlt := h.lt
  have hle := h.le_exponent
  have hbits : (Float.ofModel (pack (.finite .positive m e h.pos))).toBits.toNat =
      (UnpackedFloat.pack Format.binary64 (.finite .positive m e h.pos)).toNat := rfl
  have hbiased : (e + (Format.binary64.exponentBias : Int) + (52 : Nat)).toNat
      = (e + 1075).toNat := by
    have hbias : (Format.binary64.exponentBias : Int) = 1023 := by decide
    rw [hbias]
    omega
  rw [UnpackedFloat.pack] at hbits
  simp only [hbiased] at hbits
  rw [if_neg (by omega)] at hbits
  by_cases hfull : 2 ^ 52 ≤ m
  · have hlog : m.log2 + 1 = Format.binary64.mantissaBits := by
      rw [log2_eq_of_full hfull hlt]
      rfl
    have hexponent : (BitVec.ofNat 11 (e + 1075).toNat).toNat = (e + 1075).toNat := by
      rw [BitVec.toNat_ofNat]
      omega
    have hfraction : (BitVec.ofNat 52 m).toNat = m - 2 ^ 52 := by
      rw [BitVec.toNat_ofNat]
      omega
    rw [if_pos hlog, toNat_packComponents, hexponent, hfraction] at hbits
    obtain ⟨narrow, hclass⟩ := classify_of_bits hbits (by omega) (by omega)
    refine ⟨narrow, ?_⟩
    rw [hclass, if_neg (by omega), Nat.add_sub_cancel' hfull]
    have hback : ((e + 1075).toNat : Int) - 1075 = e := by omega
    rw [hback]
  · have hlog : ¬ m.log2 + 1 = Format.binary64.mantissaBits := by
      have hlog := (Nat.log2_lt (Nat.ne_of_gt h.pos)).2 (Nat.lt_of_not_le hfull)
      change ¬ m.log2 + 1 = 53
      omega
    have hfraction : (BitVec.ofNat 52 m).toNat = m := by
      rw [BitVec.toNat_ofNat]
      omega
    rw [if_neg hlog, toNat_packComponents, hfraction] at hbits
    obtain ⟨narrow, hclass⟩ := classify_of_bits hbits (by omega) (by decide)
    refine ⟨narrow, ?_⟩
    rw [hclass, h.full.resolve_left hfull]
    rfl

end EdgeAttributes.Decimal
