import EdgeAttributes.Checked
import EdgeAttributes.Error
import EdgeAttributes.TagEnum

namespace EdgeAttributes

-- Powers keep the meaning that they have without any further library.
attribute [local instance (high)] instPowNat

/-- What the bits of an encoded value mean. -/
inductive Kind where
  | int
  | boolean
  | decimal (factor : Float)
  | enum (shape : EnumShape)
deriving DecidableEq

namespace Kind

/-- The kind in words, without its particulars. -/
def label : Kind → String
  | int => "an integer value"
  | boolean => "a boolean value"
  | decimal _ => "a decimal value"
  | enum _ => "an enum value"

/-- The kind in words, with the title of a set of tag values. -/
def describe : Kind → String
  | enum shape => s!"an enum value of {shape.title}"
  | k => k.label

end Kind

/-- Least width that holds the ordinals of `count` values. -/
def bitsForCount (count : Nat) : Nat :=
  if count ≤ 2 then 1 else Nat.log2 (count - 1) + 1

/-- What a kind asks of width and least value: only plain integers choose both, and a decimal needs
    a finite positive factor. -/
def Kind.Fits (kind : Kind) (bits : Nat) (min : Int) : Prop :=
  match kind with
  | int => True
  | boolean => bits = 1 ∧ min = 0
  | decimal factor => min = 0 ∧ factor.isFinite ∧ 0 < factor
  | enum shape => bits = bitsForCount shape.spellings.length ∧ min = 0

/-- Characters that a name is made of. -/
def isNameChar (c : Char) : Bool := ('a' ≤ c && c ≤ 'z') || ('0' ≤ c && c ≤ '9') || c == '_'

/-- The last of the integers that `bits` bits count from `min` upwards. -/
def lastInteger? (bits : Nat) (min : Int32) : Option Int64 := do
  let count ← Checked.shiftLeft? 1 bits
  let stop ← Checked.add? min.toInt64 count
  Checked.sub? stop 1

/-- A width that may be declared is not too far to shift, and no sum that it leads to is too
    large. -/
theorem lastInteger?_gives {bits : Nat} (hbits : bits ≤ maxBits) (min : Int32) :
    Checked.Gives (lastInteger? bits min) (min.toInt + 2 ^ bits - 1) := by
  have hmin := min.le_toInt
  have hmax := min.toInt_lt
  have hpos : 0 < 2 ^ bits := Nat.two_pow_pos bits
  have hpow : 2 ^ bits ≤ 2 ^ maxBits := Nat.pow_le_pow_right Nat.two_pos hbits
  have hcast : ((2 ^ bits : Nat) : Int) = 2 ^ bits := Int.natCast_pow 2 bits
  have hone : (1 : Int64).toInt = 1 := rfl
  obtain ⟨count, hshift, hcount⟩ := Checked.shiftLeft?_one_gives (Nat.lt_succ_of_le hbits)
  simp only [maxBits] at hpow
  rw [← hcount] at hcast ⊢
  rw [← min.toInt_toInt64] at hmin hmax ⊢
  obtain ⟨stop, hadd, hstop⟩ :=
    Checked.add?_gives (a := min.toInt64) (b := count) (by omega) (by omega)
  obtain ⟨last, hsub, hlast⟩ :=
    Checked.sub?_gives (a := stop) (b := 1) (by omega) (by omega)
  exact ⟨last, by simp [lastInteger?, hshift, hadd, hsub], by omega⟩

/-- A valid declaration of an encoded value. -/
structure Declaration where
  name : String
  bits : Nat
  min : Int
  twoDirections : Bool
  kind : Kind
  name_ne : name ≠ ""
  name_chars : name.toList.all isNameChar
  bits_pos : 0 < bits
  bits_le : bits ≤ maxBits
  le_min : -2 ^ maxBits ≤ min
  min_le : min ≤ 0
  max_lt : min + 2 ^ bits ≤ 2 ^ maxBits
  kind_fits : kind.Fits bits min

namespace Declaration

/-- The last integer fits 32 bits exactly if the range ends below the widest one. -/
theorem last_le_iff {bits : Nat} {min : Int32} {last : Int64} (hbits : bits ≤ maxBits)
    (hlast : lastInteger? bits min = some last) :
    last ≤ Int32.maxValue.toInt64 ↔ min.toInt + 2 ^ bits ≤ 2 ^ maxBits := by
  have hexact := (lastInteger?_gives hbits min).toInt_eq hlast
  have htop : Int32.maxValue.toInt64.toInt = 2 ^ maxBits - 1 := rfl
  rw [Int64.le_iff_toInt_le, hexact, htop]
  omega

/-- Check a declaration, and refuse it with the first cause among name, width and range. None is a
    check without a result: the range is worked out in 64 bits. -/
def make? (name : String) (bits : Nat) (min : Int32) (twoDirections : Bool) (kind : Kind)
    (kind_fits : kind.Fits bits min.toInt) : Option (Except Error Declaration) :=
  let refuse (fault : DefinitionFault) : Option (Except Error Declaration) :=
    some (.error (.invalidDefinition name fault))
  if name_ne : name = "" then refuse .emptyName
  else if name_chars : name.toList.all isNameChar then
    if hbits : 0 < bits ∧ bits ≤ maxBits then
      match hlast : lastInteger? bits min with
      | none => none
      | some last =>
        if hrange : min ≤ 0 ∧ last ≤ Int32.maxValue.toInt64 then
          some (.ok { name, bits, twoDirections, kind, name_ne, name_chars, kind_fits
                      min := min.toInt
                      bits_pos := hbits.1
                      bits_le := hbits.2
                      le_min := min.le_toInt
                      min_le := Int32.le_iff_toInt_le.1 hrange.1
                      max_lt := (last_le_iff hbits.2 hlast).1 hrange.2 })
        else refuse (.badRange min.toInt last.toInt)
    else refuse (.badWidth bits)
  else refuse .badName

/-- All that a check can do: it declares what was asked for, or it refuses because of the name, the
    width or the range. It has a result whatever the width, since the range is looked at last. -/
theorem make?_cases (name : String) (bits : Nat) (min : Int32) (twoDirections : Bool) (kind : Kind)
    (kind_fits : kind.Fits bits min.toInt) :
    (∃ d, make? name bits min twoDirections kind kind_fits = some (.ok d) ∧ d.name = name ∧
      d.bits = bits ∧ d.min = min.toInt ∧ d.twoDirections = twoDirections ∧ d.kind = kind) ∨
    ∃ fault, make? name bits min twoDirections kind kind_fits =
        some (.error (.invalidDefinition name fault)) ∧
      ¬ (name ≠ "" ∧ name.toList.all isNameChar ∧ (0 < bits ∧ bits ≤ maxBits) ∧
        (min.toInt ≤ 0 ∧ min.toInt + 2 ^ bits ≤ 2 ^ maxBits)) := by
  simp only [make?]
  split
  · next hempty => exact .inr ⟨_, rfl, fun h => h.1 hempty⟩
  · split
    · split
      · next hbits =>
        split
        · next hnone =>
          have hsome := (lastInteger?_gives hbits.2 min).isSome
          rw [hnone] at hsome
          cases hsome
        · next last hlast =>
          split
          · exact .inl ⟨_, rfl, rfl, rfl, rfl, rfl, rfl⟩
          · next hrange =>
            refine .inr ⟨_, rfl, fun h => hrange ?_⟩
            exact ⟨Int32.le_iff_toInt_le.2 h.2.2.2.1, (last_le_iff hbits.2 hlast).2 h.2.2.2.2⟩
      · next hbits => exact .inr ⟨_, rfl, fun h => hbits h.2.2.1⟩
    · next hchars => exact .inr ⟨_, rfl, fun h => hchars h.2.1⟩

theorem isSome_make? (name : String) (bits : Nat) (min : Int32) (twoDirections : Bool) (kind : Kind)
    (kind_fits : kind.Fits bits min.toInt) :
    (make? name bits min twoDirections kind kind_fits).isSome := by
  obtain ⟨d, hd, -⟩ | ⟨fault, hfault, -⟩ := make?_cases name bits min twoDirections kind kind_fits
  · rw [hd]
    rfl
  · rw [hfault]
    rfl

/-- Accept a declaration, or refuse it. -/
def make (name : String) (bits : Nat) (min : Int32) (twoDirections : Bool) (kind : Kind)
    (kind_fits : kind.Fits bits min.toInt) : Except Error Declaration :=
  (make? name bits min twoDirections kind kind_fits).get
    (isSome_make? name bits min twoDirections kind kind_fits)

theorem make?_eq (name : String) (bits : Nat) (min : Int32) (twoDirections : Bool) (kind : Kind)
    (kind_fits : kind.Fits bits min.toInt) :
    make? name bits min twoDirections kind kind_fits =
      some (make name bits min twoDirections kind kind_fits) :=
  (Option.some_get _).symm

section

variable {name : String} {bits : Nat} {min : Int32} {twoDirections : Bool} {kind : Kind}
  {kind_fits : kind.Fits bits min.toInt} {d : Declaration}

/-- An accepted declaration is what was asked for. -/
theorem make_eq_ok (h : make name bits min twoDirections kind kind_fits = .ok d) :
    d.name = name ∧ d.bits = bits ∧ d.min = min.toInt ∧ d.twoDirections = twoDirections ∧
      d.kind = kind := by
  have hmake := make?_eq name bits min twoDirections kind kind_fits
  rw [h] at hmake
  obtain ⟨d', hd', hfields⟩ | ⟨fault, hfault, -⟩ :=
    make?_cases name bits min twoDirections kind kind_fits
  · cases hmake.symm.trans hd'
    exact hfields
  · cases hmake.symm.trans hfault

theorem make_isOk_iff : (make name bits min twoDirections kind kind_fits).isOk ↔
    name ≠ "" ∧ name.toList.all isNameChar ∧ (0 < bits ∧ bits ≤ maxBits) ∧
      (min.toInt ≤ 0 ∧ min.toInt + 2 ^ bits ≤ 2 ^ maxBits) := by
  have hmake := make?_eq name bits min twoDirections kind kind_fits
  obtain ⟨d, hd, hname, hbits, hmin, -⟩ | ⟨fault, hfault, hinvalid⟩ :=
    make?_cases name bits min twoDirections kind kind_fits
  · rw [← Option.some.inj (hd.symm.trans hmake), ← hname, ← hbits, ← hmin]
    exact iff_of_true rfl ⟨d.name_ne, d.name_chars, ⟨d.bits_pos, d.bits_le⟩, d.min_le, d.max_lt⟩
  · rw [← Option.some.inj (hfault.symm.trans hmake)]
    exact iff_of_false Bool.false_ne_true hinvalid

end

/-- Integers from `min` upwards, with `min` at most zero. -/
def signedInt (name : String) (bits : Nat) (min : Int32) (twoDirections : Bool) :
    Except Error Declaration :=
  make name bits min twoDirections .int trivial

/-- Integers from zero upwards. -/
def int (name : String) (bits : Nat) (twoDirections : Bool) : Except Error Declaration :=
  signedInt name bits 0 twoDirections

/-- A flag. -/
def boolean (name : String) (twoDirections : Bool) : Except Error Declaration :=
  make name 1 0 twoDirections .boolean ⟨rfl, rfl⟩

/-- Decimals from zero upwards, stored as multiples of `factor`. The factor is checked before
    anything else is. -/
def decimal (name : String) (bits : Nat) (factor : Float) (twoDirections : Bool) :
    Except Error Declaration :=
  if hfactor : factor.isFinite ∧ 0 < factor then
    make name bits 0 twoDirections (.decimal factor) ⟨rfl, hfactor⟩
  else .error (.invalidDefinition name (.badFactor factor))

/-- The tag values of `α`, under the name that `α` itself gives. -/
def enum (α : Type) [DecidableEq α] [TagEnum α] (twoDirections : Bool) : Except Error Declaration :=
  make (TagEnum.key α) (bitsForCount (TagEnum.values α).length) 0 twoDirections
    (.enum (TagEnum.shape α)) ⟨by simp [TagEnum.shape, TagEnum.spellings], rfl⟩

end Declaration

end EdgeAttributes
