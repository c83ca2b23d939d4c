import EdgeAttributes.Declaration

namespace EdgeAttributes.Declaration

-- Powers keep the meaning that they have without any further library. A literal exponent needs its
-- type for that.
attribute [local instance (high)] instPowNat

/-- The least value as a word of 32 bits. -/
def minWord (d : Declaration) : Int32 := Int32.ofInt d.min

/-- The least value as a word of 64 bits. -/
def wideMin (d : Declaration) : Int64 := d.minWord.toInt64

theorem toInt_minWord (d : Declaration) : d.minWord.toInt = d.min := by
  have hle := d.le_min
  have hlt := d.min_le
  rw [maxBits] at hle
  exact Int32.toInt_ofInt_of_le hle (by omega)

theorem toInt_wideMin (d : Declaration) : d.wideMin.toInt = d.min := by
  rw [wideMin, Int32.toInt_toInt64, d.toInt_minWord]

theorem last_gives (d : Declaration) :
    Checked.Gives (lastInteger? d.bits d.minWord) (d.min + 2 ^ d.bits - 1) := by
  rw [← d.toInt_minWord]
  exact lastInteger?_gives d.bits_le d.minWord

/-- Largest storable value. -/
def max (d : Declaration) : Int :=
  ((lastInteger? d.bits d.minWord).get d.last_gives.isSome).toInt32.toInt

theorem max_eq (d : Declaration) : d.max = d.min + 2 ^ d.bits - 1 := by
  have hle := d.le_min
  have hlt := d.max_lt
  have hpos : (0 : Int) < 2 ^ d.bits := Int.pow_pos (by decide)
  have hlast := d.last_gives.toInt_get d.last_gives.isSome
  rw [maxBits] at hle hlt
  rw [max, Checked.toInt_toInt32 (by omega) (by omega), hlast]

theorem sum_gives (d : Declaration) (offset : UInt32) :
    Checked.Gives (Checked.add? (Int64.ofNat offset.toNat) d.wideMin) (offset.toNat + d.min) := by
  have hoffset := offset.toNat_lt
  have hle := d.le_min
  have hlt := d.min_le
  rw [maxBits] at hle
  have hwide : (Int64.ofNat offset.toNat).toInt = offset.toNat :=
    Int64.toInt_ofNat_of_lt (by omega)
  have hmin := d.toInt_wideMin
  have hsum := Checked.add?_gives (a := Int64.ofNat offset.toNat) (b := d.wideMin)
    (by omega) (by omega)
  rwa [hwide, hmin] at hsum

/-- The integer at an offset from the least value. -/
def atOffset (d : Declaration) (offset : UInt32) : Int :=
  ((Checked.add? (Int64.ofNat offset.toNat) d.wideMin).get
    (d.sum_gives offset).isSome).toInt32.toInt

theorem atOffset_eq_bmod (d : Declaration) (offset : UInt32) :
    d.atOffset offset = (offset.toNat + d.min).bmod (2 ^ (32 : Nat)) := by
  rw [atOffset, Int64.toInt_toInt32, (d.sum_gives offset).toInt_get]

/-- An offset within the declared width leads to the exact integer. -/
theorem atOffset_eq (d : Declaration) {offset : UInt32} (h : offset.toNat < 2 ^ d.bits) :
    d.atOffset offset = offset.toNat + d.min := by
  have hle := d.le_min
  have hlt := d.max_lt
  have hcast : ((2 ^ d.bits : Nat) : Int) = 2 ^ d.bits := Int.natCast_pow 2 d.bits
  rw [maxBits] at hle hlt
  rw [atOffset_eq_bmod]
  apply Int.bmod_eq_of_le <;> omega

/-- An integer below or above the range. -/
def Excludes (d : Declaration) (value : Int) : Prop := value < d.min ∨ d.max < value

instance (d : Declaration) (value : Int) : Decidable (d.Excludes value) :=
  inferInstanceAs (Decidable (_ ∨ _))

theorem difference_gives (d : Declaration) {value : Int} (h : ¬ d.Excludes value) :
    Checked.Gives (Checked.sub? (Int64.ofInt value) d.wideMin) (value - d.min) := by
  have hle := d.le_min
  have hlt := d.max_lt
  rw [Excludes, d.max_eq] at h
  rw [maxBits] at hle hlt
  have hwide : (Int64.ofInt value).toInt = value := Int64.toInt_ofInt_of_le (by omega) (by omega)
  have hmin := d.toInt_wideMin
  have hdifference := Checked.sub?_gives (a := Int64.ofInt value) (b := d.wideMin)
    (by omega) (by omega)
  rwa [hwide, hmin] at hdifference

/-- How far an integer of the range is from the least value. -/
def offset (d : Declaration) (value : Int) (h : ¬ d.Excludes value) : UInt32 :=
  ((Checked.sub? (Int64.ofInt value) d.wideMin).get
    (d.difference_gives h).isSome).toUInt64.toUInt32

theorem toNat_offset (d : Declaration) {value : Int} (h : ¬ d.Excludes value) :
    (d.offset value h).toNat = (value - d.min).toNat := by
  have hle := d.le_min
  have hlt := d.max_lt
  have hexact := (d.difference_gives h).toInt_get (d.difference_gives h).isSome
  rw [Excludes, d.max_eq] at h
  rw [maxBits] at hle hlt
  rw [offset, Checked.toNat_toUInt32 (by omega) (by omega), hexact]

end EdgeAttributes.Declaration
