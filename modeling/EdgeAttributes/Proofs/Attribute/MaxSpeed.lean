import EdgeAttributes.Attribute.MaxSpeed
import EdgeAttributes.Proofs.Decimal.Halving
import EdgeAttributes.Proofs.Field.Integers
import EdgeAttributes.Proofs.Layout.Lookup
import EdgeAttributes.Proofs.Pipeline.Behaviour

namespace EdgeAttributes

variable {width : Nat}

/-- Nothing that is no more than zero is a speed. -/
theorem Speed.pos_of_parse? {value : String} {speed : Float} (h : Speed.parse? value = some speed) :
    0 < speed := by
  rw [Speed.parse?] at h
  split at h
  · cases h
    decide
  · split at h
    · cases h
      decide
    · unfold Speed.ofNumber? at h
      simp only [Option.bind_eq_bind, Option.bind_eq_some_iff] at h
      obtain ⟨number, _, unit, _, h⟩ := h
      split at h
      · next hpos =>
        cases h
        exact hpos
      · cases h

theorem Way.pos_of_speedLimit? {way : Way} {reverse : Bool} {speed : Float}
    (h : way.speedLimit? reverse = some speed) : 0 < speed := by
  have hpos : ∀ key, way.speed? key = some speed → 0 < speed := by
    intro key hkey
    obtain ⟨value, _, hvalue⟩ := Option.bind_eq_some_iff.1 hkey
    exact Speed.pos_of_parse? hvalue
  rw [speedLimit?, Option.or_eq_some_iff] at h
  rcases h with h | ⟨_, h⟩
  · exact hpos _ h
  · exact hpos _ h

/-- The largest speed that can be stored. -/
def Behaviour.topSpeed : Float := Float.ofInt 127 * 2.0

/-- The pattern of the limit of a direction, if there is a limit. -/
def Behaviour.limit (way : Way) (reverse : Bool) : List (Bool × UInt32) :=
  match way.speedLimit? reverse with
  | some speed =>
    let clamped := if speed ≤ topSpeed then speed else topSpeed
    [(reverse, UInt32.ofNat ((Decimal.nearestInt? (clamped / 2.0)).getD 0).toNat)]
  | none => []

/-- Both limits of a way, the forward one first. -/
def Behaviour.maxSpeed : Behaviour where
  twoDirections := true
  patterns way _ := limit way false ++ limit way true
  decision _ := none

theorem Declaration.maxSpeed_eq_ok {d : Declaration} (h : maxSpeed = .ok d) :
    d.name = maxSpeedKey ∧ d.bits = 7 ∧ d.min = 0 ∧ d.twoDirections = true ∧
      d.kind = .decimal 2.0 := by
  rw [maxSpeed, decimal] at h
  split at h
  · exact make_eq_ok h
  · cases h

/-- A clamped limit is stored without refusal. The limit itself may be as large as a double can be,
    or infinite. -/
private theorem nearestInt?_clamped {speed : Float} (hpos : 0 < speed) :
    ∃ n, Decimal.nearestInt? ((if speed ≤ Behaviour.topSpeed then speed
      else Behaviour.topSpeed) / 2.0) = some n ∧ 0 ≤ n ∧ n ≤ 127 := by
  split
  · next hle => exact Decimal.nearestInt?_half hpos hle
  · exact Decimal.nearestInt?_half (by decide) (by decide)

namespace TagParser

variable {f : DecimalField}

/-- The limit of one direction is stored as the pattern that stands for it. -/
private theorem stores_assignLimit (hdeclared : Declaration.maxSpeed = .ok f.field.declaration)
    (way : Way) (reverse : Bool) :
    List.Forall₂ (Assignment.Stores f.field) (f.assignLimit way reverse)
      (Behaviour.limit way reverse) := by
  obtain ⟨-, hbits, hmin, -, hkind⟩ := Declaration.maxSpeed_eq_ok hdeclared
  have hfactor : f.factor = 2.0 := by
    have hdecimal : f.field.declaration.kind = .decimal f.factor := f.isDecimal
    exact Kind.decimal.inj (hdecimal.symm.trans hkind)
  have hmax : f.field.declaration.max = 127 := by
    rw [Declaration.max_eq, hmin, hbits]
    rfl
  have htop : f.max = Behaviour.topSpeed := by
    rw [DecimalField.max, hmax, hfactor]
    rfl
  rw [DecimalField.assignLimit, Behaviour.limit, htop]
  cases hlimit : way.speedLimit? reverse with
  | none => exact .nil
  | some speed =>
    obtain ⟨n, hnearest, hpos, hle⟩ := nearestInt?_clamped (Way.pos_of_speedLimit? hlimit)
    have hrange : f.field.declaration.InRange n := by
      rw [Declaration.InRange, hmin, hmax]
      exact ⟨hpos, hle⟩
    have hencode : f.field.declaration.encode n = UInt32.ofNat n.toNat := by
      rw [Declaration.encode, hmin, Int.sub_zero]
    simp only [hnearest, Option.getD_some]
    rw [← hfactor] at hnearest
    refine .cons ⟨fun width edge => ?_, ?_⟩ .nil
    · rw [Assignment.apply, f.set_eq_setInt edge reverse hnearest hpos (by rwa [hmax]),
        f.field.setInt_of_inRange edge reverse hrange, hencode]
    · rw [← hencode]
      exact f.field.declaration.encode_lt hrange

/-- The speed limit parser never refuses a way, whatever its tags say. -/
theorem maxSpeed_follows (hdeclared : Declaration.maxSpeed = .ok f.field.declaration) :
    (TagParser.maxSpeed f).Follows Behaviour.maxSpeed f.field := by
  obtain ⟨-, -, -, htwo, -⟩ := Declaration.maxSpeed_eq_ok hdeclared
  refine TagParser.follows_of_stores htwo rfl fun way _ => ?_
  exact List.rel_append (stores_assignLimit hdeclared way false)
    (stores_assignLimit hdeclared way true)

end TagParser

end EdgeAttributes
