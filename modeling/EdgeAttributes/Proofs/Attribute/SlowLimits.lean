import EdgeAttributes.Proofs.Attribute.MaxSpeed

namespace EdgeAttributes

variable {width : Nat}

/-- Neither the tag of the direction alone nor the one for both directions is a speed. -/
def Way.Unposted (way : Way) (reverse : Bool) : Prop :=
  way.speed? (if reverse then "maxspeed:backward" else "maxspeed:forward") = none ∧
    way.speed? "maxspeed" = none

theorem Way.speedLimit?_eq_none_iff {way : Way} {reverse : Bool} :
    way.speedLimit? reverse = none ↔ way.Unposted reverse :=
  Option.or_eq_none_iff

namespace Behaviour

/-- The pattern of a limit. -/
def limitPattern (speed : Float) : UInt32 :=
  UInt32.ofNat ((Decimal.nearestInt?
    ((if speed ≤ topSpeed then speed else topSpeed) / 2.0)).getD 0).toNat

/-- A value that was zero is the pattern of the limit that applies, and still zero if none does. The
    limit of the other direction is stored elsewhere. -/
theorem overlay_maxSpeed (way : Way) (flags : RelationFlags) (reverse : Bool) :
    maxSpeed.overlay reverse (maxSpeed.patterns way flags) 0 =
      ((way.speedLimit? reverse).map limitPattern).getD 0 := by
  have hlimit (direction : Bool) : limit way direction =
      ((way.speedLimit? direction).map fun speed => (direction, limitPattern speed)).toList := by
    rw [limit]
    cases way.speedLimit? direction <;> rfl
  simp only [maxSpeed, hlimit]
  cases reverse <;> cases way.speedLimit? false <;> cases way.speedLimit? true <;> rfl

/-- The pattern of a limit has seven bits. It is zero for limits below one, which a step of two
    rounds down to nothing. -/
theorem limitPattern_spec {speed : Float} (hpos : 0 < speed) :
    (limitPattern speed).toNat ≤ 127 ∧ (limitPattern speed = 0 ↔ speed < 1) := by
  have hpattern {x : Float} (hx : 0 < x) (hle : x ≤ topSpeed) :
      (UInt32.ofNat ((Decimal.nearestInt? (x / 2.0)).getD 0).toNat).toNat ≤ 127 ∧
        (UInt32.ofNat ((Decimal.nearestInt? (x / 2.0)).getD 0).toNat = 0 ↔ x < 1) := by
    obtain ⟨n, hn, hlow, hhigh⟩ := Decimal.nearestInt?_half hx hle
    have hzero := Decimal.nearestInt?_half_eq_zero_iff hx hle
    have hword : (UInt32.ofNat n.toNat).toNat = n.toNat := by
      rw [UInt32.toNat_ofNat']
      omega
    rw [hn, Option.some_inj] at hzero
    rw [hn, Option.getD_some, ← hzero, ← UInt32.toNat_inj, hword, UInt32.toNat_zero]
    omega
  rw [limitPattern]
  split
  · next hle => exact hpattern hpos hle
  · next hlarge =>
    obtain ⟨hfits, hzero⟩ := hpattern (x := topSpeed) (by decide) (by decide)
    refine ⟨hfits, iff_of_false (fun h => ?_) fun hlt => hlarge (Decimal.le_of_lt_one hpos hlt)⟩
    exact absurd (hzero.1 h) (by decide)

end Behaviour

/-- Only the zero pattern of seven bits has a double of zero. -/
private theorem Decimal.double_eq_zero_iff {p : UInt32} (hp : p.toNat ≤ 127) :
    p.toFloat * 2.0 = 0 ↔ p = 0 := by
  have hall : ∀ n < 128, (UInt32.ofNat n).toFloat * 2.0 = 0 ↔ n = 0 := by decide +kernel
  have hword := hall p.toNat (by omega)
  rw [UInt32.ofNat_toNat] at hword
  rw [hword, ← UInt32.toNat_inj]
  rfl

namespace TagParser

variable {f : DecimalField}

/-- Both directions of an edge that was zero read the limits of a way, in steps of two. -/
theorem maxSpeed_reads (hdeclared : Declaration.maxSpeed = .ok f.field.declaration)
    {d : Layout.Draft} (hf : f.field ∈ d.freeze.fields) (hwidth : d.freeze.intsPerEdge ≤ width)
    {s : EdgeStorage width} {edge : Nat} (hzero : ∀ reverse, f.field.pattern s edge reverse = .ok 0)
    (way : Way) (flags : RelationFlags) :
    ∃ s', (TagParser.maxSpeed f).run edge way flags s = .ok () s' ∧
      ∀ reverse, f.get s' edge reverse =
        .ok ((((way.speedLimit? reverse).map Behaviour.limitPattern).getD 0).toFloat * 2.0) := by
  obtain ⟨-, -, -, -, hkind⟩ := Declaration.maxSpeed_eq_ok hdeclared
  have hfactor : f.factor = 2.0 := by
    have hdecimal : f.field.declaration.kind = .decimal f.factor := f.isDecimal
    exact Kind.decimal.inj (hdecimal.symm.trans hkind)
  obtain ⟨s', hrun, hread⟩ :=
    (maxSpeed_follows hdeclared).pattern_run hf hwidth hzero way flags
  refine ⟨s', hrun, fun reverse => ?_⟩
  have hpattern := hread reverse
  rw [Behaviour.overlay_maxSpeed] at hpattern
  rw [DecimalField.get, hpattern, hfactor]
  rfl

/-- On an edge where the speed limit was zero, a direction reads zero after the limits of a way were
    stored exactly if no tag of the way is a speed for that direction, or if the speed that applies
    is less than one: that is posted, and rounded away. -/
theorem maxSpeed_zero_iff (hdeclared : Declaration.maxSpeed = .ok f.field.declaration)
    {d : Layout.Draft} (hf : f.field ∈ d.freeze.fields) (hwidth : d.freeze.intsPerEdge ≤ width)
    {s : EdgeStorage width} {edge : Nat} (hzero : ∀ reverse, f.field.pattern s edge reverse = .ok 0)
    (way : Way) (flags : RelationFlags) :
    ∃ s', (TagParser.maxSpeed f).run edge way flags s = .ok () s' ∧
      ∀ reverse, ∃ x, f.get s' edge reverse = .ok x ∧
        (x = 0 ↔ way.Unposted reverse ∨
          ∃ speed, way.speedLimit? reverse = some speed ∧ speed < 1) := by
  obtain ⟨s', hrun, hget⟩ := maxSpeed_reads hdeclared hf hwidth hzero way flags
  refine ⟨s', hrun, fun reverse => ⟨_, hget reverse, ?_⟩⟩
  rw [← Way.speedLimit?_eq_none_iff]
  cases hlimit : way.speedLimit? reverse with
  | none =>
    rw [Option.map_none, Option.getD_none, Decimal.double_eq_zero_iff (Nat.zero_le _)]
    exact iff_of_true rfl (.inl rfl)
  | some speed =>
    obtain ⟨hfits, hslow⟩ := Behaviour.limitPattern_spec (Way.pos_of_speedLimit? hlimit)
    rw [Option.map_some, Option.getD_some, Decimal.double_eq_zero_iff hfits, hslow]
    simp

private def limits : Declaration := Declaration.maxSpeed.toOption.get rfl

private def limitsAlone : Layout.Draft := ⟨[limits], by decide⟩

private def limitsField : DecimalField := ⟨⟨limits, ⟨0, 0, 7⟩, some ⟨0, 7, 7⟩⟩, 2.0, rfl⟩

private theorem limits_declared : Declaration.maxSpeed = .ok limitsField.field.declaration := rfl

private theorem limitsField_mem : limitsField.field ∈ limitsAlone.freeze.fields :=
  List.mem_singleton_self _

private theorem limits_unwritten (edge : Nat) (reverse : Bool) :
    limitsField.field.pattern (EdgeStorage.zeroed 1 0) edge reverse = .ok 0 :=
  limitsAlone.pattern_zeroed (by decide) limitsField_mem 0 edge reverse

private def signalled : Way :=
  .ofTags 1 [("maxspeed:backward", "signals"), ("maxspeed:forward", "30 mph")]

/-- Signals are no limit, so backward the way has none; forward it has that of its own direction. -/
theorem maxSpeed_zero_iff_signalled :
    ∃ s', (TagParser.maxSpeed limitsField).run 3 signalled Layout.createRelationFlags
      (EdgeStorage.zeroed 1 0) = .ok () s' ∧ limitsField.get s' 3 true = .ok 0 ∧
      ∃ x, limitsField.get s' 3 false = .ok x ∧ x ≠ 0 := by
  obtain ⟨s', hrun, hread⟩ := maxSpeed_zero_iff limits_declared limitsField_mem (by decide)
    (limits_unwritten 3) signalled Layout.createRelationFlags
  obtain ⟨backward, hbackward, hzero⟩ := hread true
  obtain ⟨forward, hforward, hposted⟩ := hread false
  have hunposted : signalled.Unposted true := by
    constructor <;> decide +kernel
  have hlimit : signalled.speedLimit? false = some 48.28032 := by decide +kernel
  have hfast : ¬ (48.28032 : Float) < 1 := by decide +kernel
  rw [hzero.2 (.inl hunposted)] at hbackward
  refine ⟨s', hrun, hbackward, forward, hforward, fun h => ?_⟩
  rcases hposted.1 h with hnone | ⟨speed, hspeed, hlt⟩
  · rw [← Way.speedLimit?_eq_none_iff, hlimit] at hnone
    cases hnone
  · obtain rfl := Option.some.inj (hlimit.symm.trans hspeed)
    exact hfast hlt

private def crawling : Way := .ofTags 1 [("maxspeed", "0.5")]

/-- A limit of half a kilometre per hour reads as if there were none. -/
theorem maxSpeed_hides_limit : crawling.speed? "maxspeed" = some 0.5 ∧
    ∃ s', (TagParser.maxSpeed limitsField).run 0 crawling Layout.createRelationFlags
      (EdgeStorage.zeroed 1 0) = .ok () s' ∧ ∀ reverse, limitsField.get s' 0 reverse = .ok 0 := by
  obtain ⟨s', hrun, hread⟩ := maxSpeed_reads limits_declared limitsField_mem (by decide)
    (limits_unwritten 0) crawling Layout.createRelationFlags
  refine ⟨by decide +kernel, s', hrun, fun reverse => ?_⟩
  have hlimit : crawling.speedLimit? reverse = some 0.5 := by
    cases reverse <;> decide +kernel
  have hpattern : Behaviour.limitPattern 0.5 = 0 :=
    (Behaviour.limitPattern_spec (by decide)).2.2 (by decide)
  rw [hread reverse, hlimit, Option.map_some, Option.getD_some, hpattern]
  rfl

end TagParser

end EdgeAttributes
