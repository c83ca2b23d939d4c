import EdgeAttributes.Proofs.Field.Integers
import EdgeAttributes.Proofs.Layout.Cells
import EdgeAttributes.Proofs.Layout.Lookup

namespace EdgeAttributes

-- Powers keep the meaning that they have without any further library.
attribute [local instance (high)] instPowNat

theorem isNameChar_iff {c : Char} :
    isNameChar c = true ↔ ('a' ≤ c ∧ c ≤ 'z') ∨ ('0' ≤ c ∧ c ≤ '9') ∨ c = '_' := by
  simp [isNameChar, or_assoc]

namespace Declaration

/-- Integers are declared with a name of the admissible characters, a width that leaves a bit of the
    word for the sign, and a range that is not above zero at its start nor too large at its end. -/
structure Admissible (name : String) (bits : Nat) (min : Int32) : Prop where
  name_ne : name ≠ ""
  name_chars : ∀ c ∈ name.toList, ('a' ≤ c ∧ c ≤ 'z') ∨ ('0' ≤ c ∧ c ≤ '9') ∨ c = '_'
  one_le_bits : 1 ≤ bits
  bits_le : bits ≤ 31
  min_le : min.toInt ≤ 0
  max_le : min.toInt + 2 ^ bits - 1 ≤ Int32.maxValue.toInt

theorem signedInt_isOk_iff {name : String} {bits : Nat} {min : Int32} {twoDirections : Bool} :
    (signedInt name bits min twoDirections).isOk ↔ Admissible name bits min := by
  have htop : Int32.maxValue.toInt = 2 ^ maxBits - 1 := rfl
  have hchars : name.toList.all isNameChar ↔
      ∀ c ∈ name.toList, ('a' ≤ c ∧ c ≤ 'z') ∨ ('0' ≤ c ∧ c ≤ '9') ∨ c = '_' := by
    simp only [List.all_eq_true, isNameChar_iff]
  refine make_isOk_iff.trans ?_
  rw [hchars]
  constructor
  · rintro ⟨hname, hall, ⟨hpos, hle⟩, hmin, hmax⟩
    exact ⟨hname, hall, hpos, hle, hmin, by omega⟩
  · rintro ⟨hname, hall, hpos, hle, hmin, hmax⟩
    exact ⟨hname, hall, ⟨hpos, hle⟩, hmin, by omega⟩

end Declaration

namespace Field

variable {width : Nat} {f : Field} {reverse : Bool}

/-- The slots of a field are as wide as it was declared, and do not leave their words. -/
structure Placed (f : Field) : Prop where
  sized : f.Sized
  inside : ∀ reverse, (f.slot reverse).Inside

theorem placed_of_mem {ds : List Declaration} (hf : f ∈ (Cursor.start.placeAll ds).1) : f.Placed :=
  ⟨Cursor.sized_placeAll _ ds f hf,
    fun reverse => (Cursor.filled_placeAll_start ds).inside _ (mem_slotsOf hf reverse)⟩

/-- The patterns that are no wider than the field. -/
def Patterns (f : Field) : Set UInt32 := {p | p.toNat < 2 ^ f.declaration.bits}

/-- The integers of the declared range. -/
def Integers (f : Field) : Set Int := Set.Icc f.declaration.min f.declaration.max

theorem decode_eq {p : UInt32} (hp : p ∈ f.Patterns) :
    f.decode p = p.toNat + f.declaration.min :=
  f.declaration.atOffset_eq hp

/-- Patterns stand for the integers of the range, each for one of its own. -/
theorem bijOn_decode (f : Field) : Set.BijOn f.decode f.Patterns f.Integers := by
  have hcast : ((2 ^ f.declaration.bits : Nat) : Int) = 2 ^ f.declaration.bits :=
    Int.natCast_pow 2 f.declaration.bits
  refine ⟨fun p hp => ?_, fun p hp q hq hsame => ?_, fun value hvalue => ?_⟩
  · have hlt : p.toNat < 2 ^ f.declaration.bits := hp
    rw [Integers, Set.mem_Icc, decode_eq hp, f.declaration.max_eq]
    omega
  · rw [decode_eq hp, decode_eq hq] at hsame
    apply UInt32.toNat_inj.1
    omega
  · exact ⟨f.declaration.encode value, f.declaration.encode_lt hvalue, f.decode_encode hvalue⟩

namespace Placed

theorem exists_pattern (h : f.Placed) (hindex : (f.slot reverse).index < width)
    (s : EdgeStorage width) (edge : Nat) : ∃ p ∈ f.Patterns, f.pattern s edge reverse = .ok p := by
  refine ⟨_, ?_, f.pattern_eq s edge reverse hindex⟩
  change _ < 2 ^ f.declaration.bits
  rw [← h.sized.bits_slot reverse]
  exact Slot.extract_lt (h.inside reverse) _

/-- A pattern that is no wider than the field is stored as it is. -/
theorem pattern_setPattern (h : f.Placed) (hindex : (f.slot reverse).index < width)
    (s : EdgeStorage width) (edge : Nat) {p : UInt32} (hp : p ∈ f.Patterns) :
    ∃ s', f.setPattern edge reverse p s = .ok () s' ∧ f.pattern s' edge reverse = .ok p := by
  refine ⟨_, f.setPattern_eq s edge reverse p hindex, ?_⟩
  rw [f.pattern_eq _ edge reverse hindex, EdgeStorage.cell_put]
  simp only [if_true, Vector.getElem_set_self]
  rw [Slot.extract_deposit (h.inside reverse) (h.sized.bits_slot reverse ▸ hp)]

/-- Storing the pattern that is there already changes no word of any edge. -/
theorem setPattern_of_pattern (h : f.Placed) (hindex : (f.slot reverse).index < width)
    {s : EdgeStorage width} {edge : Nat} {p : UInt32} (hp : f.pattern s edge reverse = .ok p) :
    ∃ s', f.setPattern edge reverse p s = .ok () s' ∧ ∀ other, s'.cell other = s.cell other := by
  refine ⟨_, f.setPattern_eq s edge reverse p hindex, fun other => ?_⟩
  rw [f.pattern_eq s edge reverse hindex] at hp
  rw [← Except.ok.inj hp, Slot.deposit_extract (h.inside reverse), EdgeStorage.cell_put]
  split
  · next hedge => rw [Vector.set_getElem_self, hedge]
  · rfl

end Placed

/-- How the integers of a field are kept in storage that has the word of its slot. What is read is
    the least integer and the pattern together, and lies in the range. What lies in the range is
    stored as its distance from the least integer, which the slot holds in full, and read back; what
    does not is refused, and storage stays as it is. To store what was read changes no word. -/
structure KeepsIntegers (f : Field) (s : EdgeStorage width) (edge : Nat) (reverse : Bool) :
    Prop where
  get : ∃ p ∈ f.Patterns, f.pattern s edge reverse = .ok p ∧
    f.getInt s edge reverse = .ok (p.toNat + f.declaration.min) ∧
    (p.toNat + f.declaration.min : Int) ∈ f.Integers
  set : ∀ value ∈ f.Integers, ∃ p ∈ f.Patterns, ∃ s',
    (p.toNat : Int) = value - f.declaration.min ∧
    f.setInt edge reverse value s = f.setPattern edge reverse p s ∧
    f.setInt edge reverse value s = .ok () s' ∧ f.pattern s' edge reverse = .ok p ∧
    f.getInt s' edge reverse = .ok value
  refuse : ∀ value ∉ f.Integers, f.setInt edge reverse value s = .error
    (.error (.valueOutOfRange f.name value f.declaration.min f.declaration.max)) s
  set_get : ∀ value, f.getInt s edge reverse = .ok value → ∃ s',
    f.setInt edge reverse value s = .ok () s' ∧ ∀ other, s'.cell other = s.cell other

theorem Placed.keepsIntegers (h : f.Placed) (hindex : (f.slot reverse).index < width)
    (s : EdgeStorage width) (edge : Nat) : f.KeepsIntegers s edge reverse := by
  obtain ⟨p, hp, hpattern⟩ := h.exists_pattern hindex s edge
  have hinside := f.bijOn_decode.mapsTo hp
  have hget : f.getInt s edge reverse = .ok (f.decode p) := by
    rw [getInt, hpattern]
    rfl
  refine ⟨⟨p, hp, hpattern, ?_, ?_⟩, fun value hvalue => ?_, fun value hvalue => ?_,
    fun value hvalue => ?_⟩
  · rw [hget, decode_eq hp]
  · rwa [decode_eq hp] at hinside
  · have hfits := f.declaration.encode_lt hvalue
    have hmin := hvalue.1
    obtain ⟨s', hset, hread⟩ := h.pattern_setPattern hindex s edge hfits
    have hsame : (f.setInt edge reverse value : Edit width Unit) = _ :=
      f.setInt_of_inRange edge reverse hvalue
    refine ⟨f.declaration.encode value, hfits, s', ?_, by rw [hsame], by rw [hsame, hset], hread,
      ?_⟩
    · rw [f.declaration.toNat_encode hvalue]
      omega
    · rw [getInt, hread]
      exact congrArg Except.ok (f.decode_encode hvalue)
  · exact f.setInt_of_not_inRange edge reverse hvalue s
  · obtain rfl : f.decode p = value := Except.ok.inj (hget.symm.trans hvalue)
    have hencode : f.declaration.encode (f.decode p) = p :=
      f.bijOn_decode.injOn (f.declaration.encode_lt hinside) hp (f.decode_encode hinside)
    rw [f.setInt_of_inRange edge reverse hinside, hencode]
    exact h.setPattern_of_pattern hindex hpattern

/-- The arithmetic of integer ranges is exact, for every declaration that is accepted and whatever
    is stored. Integers are accepted exactly if their name, width and range are admissible, and
    declared as asked for; no width at all leaves a check of them without a result. The largest
    value of a field is the exact one, although it is cut down to 32 bits; patterns and integers of
    the range correspond one to one; and in storage that has the word of the slot, reading and
    storing follow this correspondence both ways. -/
theorem integers_exact :
    (∀ name bits min twoDirections,
      Declaration.make? name bits min twoDirections .int trivial =
        some (Declaration.signedInt name bits min twoDirections) ∧
      ((Declaration.signedInt name bits min twoDirections).isOk ↔
        Declaration.Admissible name bits min) ∧
      ∀ d, Declaration.signedInt name bits min twoDirections = .ok d → d.name = name ∧
        d.bits = bits ∧ d.min = min.toInt ∧ d.twoDirections = twoDirections ∧ d.kind = .int) ∧
    ∀ ds, ∀ f ∈ (Cursor.start.placeAll ds).1,
      f.declaration.max = f.declaration.min + 2 ^ f.declaration.bits - 1 ∧
      Set.BijOn f.decode f.Patterns f.Integers ∧
      ∀ width (s : EdgeStorage width) edge reverse, (f.slot reverse).index < width →
        f.KeepsIntegers s edge reverse := by
  refine ⟨fun name bits min twoDirections => ⟨?_,
      Declaration.signedInt_isOk_iff, fun d hd => Declaration.make_eq_ok hd⟩,
    fun ds f hf => ⟨f.declaration.max_eq, f.bijOn_decode, fun width s edge reverse hindex => ?_⟩⟩
  · exact Declaration.make?_eq name bits min twoDirections .int trivial
  · exact (placed_of_mem hf).keepsIntegers hindex s edge

-- The lowest range there is, a range above zero, and a width that nothing can be shifted by.
example :
    (Declaration.signedInt "depth" 31 Int32.minValue false).map Declaration.max = .ok (-1) ∧
    ¬ (Declaration.signedInt "depth" 31 1 false).isOk ∧
    ¬ (Declaration.signedInt "depth" 64 0 false).isOk := by
  refine ⟨rfl, ?_, ?_⟩ <;> decide

end Field

end EdgeAttributes
