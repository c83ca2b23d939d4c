import EdgeAttributes.Slot
import Mathlib

namespace EdgeAttributes.Slot

-- Powers keep the meaning that they have without any further library.
attribute [local instance (high)] instPowNat

/-- The slot has bits and none of them lies past the end of its word. Nothing is assumed about the
    word that it lies in. -/
structure Inside (s : Slot) : Prop where
  bits_pos : 0 < s.bits
  end_le : s.shift + s.bits ≤ wordBits

/-- Two slots have no bit of an edge in common. -/
def Disjoint (a b : Slot) : Prop :=
  a.index ≠ b.index ∨ a.shift + a.bits ≤ b.shift ∨ b.shift + b.bits ≤ a.shift

theorem Disjoint.symm {a b : Slot} (h : Disjoint a b) : Disjoint b a := by
  rcases h with h | h | h
  · exact Or.inl (Ne.symm h)
  · exact Or.inr (Or.inr h)
  · exact Or.inr (Or.inl h)

variable {s : Slot}

private theorem toNat_shift_mod (hs : s.Inside) :
    ((UInt32.ofNat s.shift).toBitVec % 32).toNat = s.shift := by
  have hpos := hs.bits_pos
  have hend := hs.end_le
  simp only [wordBits] at hend
  have hshift : s.shift < 32 := by omega
  simp only [UInt32.toBitVec_ofNat', BitVec.toNat_umod, BitVec.toNat_ofNat]
  rw [Nat.mod_eq_of_lt (by omega : s.shift < 2 ^ 32)]
  exact Nat.mod_eq_of_lt hshift

/-- The mask of a slot covers the run of the slot and nothing else of its word. -/
theorem getLsbD_mask (hs : s.Inside) (i : Nat) :
    s.mask.toBitVec.getLsbD i = decide (s.shift ≤ i ∧ i < s.shift + s.bits) := by
  have hend := hs.end_le
  simp only [wordBits] at hend
  rw [mask, UInt32.toBitVec_shiftLeft, BitVec.shiftLeft_eq', toNat_shift_mod hs,
    BitVec.getLsbD_shiftLeft, UInt32.toBitVec_ofNat', BitVec.getLsbD_ofNat, Nat.one_shiftLeft,
    Nat.testBit_two_pow_sub_one]
  rw [Bool.eq_iff_iff]
  simp only [Bool.and_eq_true, Bool.not_eq_true', decide_eq_true_eq, decide_eq_false_iff_not]
  omega

/-- Reading a slot shifts its run down to bit 0 and drops everything else. -/
theorem getLsbD_extract (hs : s.Inside) (word : UInt32) (i : Nat) :
    (s.extract word).toBitVec.getLsbD i =
      (decide (i < s.bits) && word.toBitVec.getLsbD (s.shift + i)) := by
  rw [extract, UInt32.toBitVec_shiftRight, BitVec.ushiftRight_eq', toNat_shift_mod hs,
    BitVec.getLsbD_ushiftRight, UInt32.toBitVec_and, BitVec.getLsbD_and, getLsbD_mask hs]
  by_cases hi : i < s.bits
  · simp [hi, show s.shift + i < s.shift + s.bits by omega]
  · simp [hi]

/-- Writing a slot puts the pattern into its run and keeps every other bit of the word. -/
theorem getLsbD_deposit (hs : s.Inside) (pattern word : UInt32) (i : Nat) :
    (s.deposit pattern word).toBitVec.getLsbD i =
      if s.shift ≤ i ∧ i < s.shift + s.bits then pattern.toBitVec.getLsbD (i - s.shift)
      else word.toBitVec.getLsbD i := by
  have hend := hs.end_le
  simp only [wordBits] at hend
  rw [deposit, UInt32.toBitVec_or, UInt32.toBitVec_and, UInt32.toBitVec_and, UInt32.toBitVec_not,
    UInt32.toBitVec_shiftLeft, BitVec.shiftLeft_eq', toNat_shift_mod hs]
  simp only [BitVec.getLsbD_or, BitVec.getLsbD_and, BitVec.getLsbD_not, BitVec.getLsbD_shiftLeft,
    getLsbD_mask hs]
  by_cases hi : s.shift ≤ i ∧ i < s.shift + s.bits
  · simp [hi, show i < 32 by omega, show ¬ i < s.shift by omega]
  · by_cases hword : i < 32
    · simp [hi, hword]
    · simp [hi, hword, BitVec.getLsbD_of_ge word.toBitVec i (by omega)]

theorem extract_lt (hs : s.Inside) (word : UInt32) : (s.extract word).toNat < 2 ^ s.bits := by
  apply Nat.lt_pow_two_of_testBit
  intro i hi
  have hbit := getLsbD_extract hs word i
  rw [decide_eq_false (by omega : ¬ i < s.bits), Bool.false_and] at hbit
  exact hbit

/-- The pattern of a slot as a number: what its run of bits amounts to on its own. -/
theorem toNat_extract (hs : s.Inside) (word : UInt32) :
    (s.extract word).toNat = word.toNat / 2 ^ s.shift % 2 ^ s.bits := by
  apply Nat.eq_of_testBit_eq
  intro i
  have hbit := getLsbD_extract hs word i
  rw [Nat.testBit_mod_two_pow, Nat.testBit_div_two_pow, Nat.add_comm]
  exact hbit

theorem extract_zero (s : Slot) : s.extract 0 = 0 := by
  simp [extract]

/-- A pattern that fits a slot is read back from it. -/
theorem extract_deposit (hs : s.Inside) {pattern : UInt32} (hpattern : pattern.toNat < 2 ^ s.bits)
    (word : UInt32) : s.extract (s.deposit pattern word) = pattern := by
  apply UInt32.toBitVec_inj.1
  apply BitVec.eq_of_getLsbD_eq
  intro i _
  rw [getLsbD_extract hs, getLsbD_deposit hs]
  by_cases hi : i < s.bits
  · simp [hi]
  · have hzero : pattern.toBitVec.getLsbD i = false := by
      apply Nat.testBit_lt_two_pow
      exact Nat.lt_of_lt_of_le hpattern (Nat.pow_le_pow_right Nat.two_pos (by omega))
    simp [hi, hzero]

/-- A word that is given what it holds in a slot stays as it is. -/
theorem deposit_extract (hs : s.Inside) (word : UInt32) :
    s.deposit (s.extract word) word = word := by
  apply UInt32.toBitVec_inj.1
  apply BitVec.eq_of_getLsbD_eq
  intro i _
  rw [getLsbD_deposit hs, getLsbD_extract hs]
  split
  · next hi => simp [show i - s.shift < s.bits by omega, show s.shift + (i - s.shift) = i by omega]
  · rfl

/-- Writing a slot does not show in a slot that shares no bit with it, even in the same word. -/
theorem extract_deposit_of_disjoint {a b : Slot} (ha : a.Inside) (hb : b.Inside)
    (hindex : a.index = b.index) (hab : Disjoint a b) (pattern word : UInt32) :
    b.extract (a.deposit pattern word) = b.extract word := by
  apply UInt32.toBitVec_inj.1
  apply BitVec.eq_of_getLsbD_eq
  intro i _
  rw [getLsbD_extract hb, getLsbD_extract hb, getLsbD_deposit ha]
  by_cases hi : i < b.bits
  · have hout : ¬ (a.shift ≤ b.shift + i ∧ b.shift + i < a.shift + a.bits) := by
      rcases hab with h | h | h
      · exact absurd hindex h
      · omega
      · omega
    rw [if_neg hout]
  · simp [hi]

/-- Masks of slots that share no bit have no bit in common within one word. -/
theorem mask_and_mask_of_disjoint {a b : Slot} (ha : a.Inside) (hb : b.Inside)
    (hindex : a.index = b.index) (hab : Disjoint a b) : a.mask &&& b.mask = 0 := by
  apply UInt32.toBitVec_inj.1
  apply BitVec.eq_of_getLsbD_eq
  intro i _
  rw [UInt32.toBitVec_and, BitVec.getLsbD_and, getLsbD_mask ha, getLsbD_mask hb]
  have hout : ¬ (a.shift ≤ i ∧ i < a.shift + a.bits ∧ b.shift ≤ i ∧ i < b.shift + b.bits) := by
    rcases hab with h | h | h
    · exact absurd hindex h
    · omega
    · omega
  simp only [UInt32.toBitVec_zero, BitVec.getLsbD_zero]
  rw [← Bool.decide_and, decide_eq_false_iff_not]
  omega

end EdgeAttributes.Slot
