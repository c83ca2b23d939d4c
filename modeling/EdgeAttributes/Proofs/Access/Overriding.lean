import EdgeAttributes.Access.MotorVehicles
import EdgeAttributes.Proofs.Registry.Assembly

namespace EdgeAttributes

/-- The tag is present, and its value is a permitted one up to the case of ASCII letters. -/
def PermissionTag.Allows (p : PermissionTag) (way : Way) : Prop :=
  ∃ value, way.tag p.tag = some value ∧ ∃ word ∈ p.permitted, Text.sameIgnoringCase word value

theorem PermissionTag.permits_iff {p : PermissionTag} {way : Way} :
    p.permits way = true ↔ p.Allows way := by
  simp only [permits, Allows, Option.any_eq_true, List.any_eq_true]

theorem PermissionTag.permits_congr {p : PermissionTag} {way way' : Way}
    (h : way'.tag p.tag = way.tag p.tag) : p.permits way' = p.permits way := by
  rw [permits, permits, h]

/-- A decision by permission is to use a way that is allowed and to skip any other. -/
theorem PermissionTag.decision_iff {p : PermissionTag} {way : Way} {d : Decision}
    (h : d = if p.permits way then .usable else .skip) :
    (d = .usable ↔ p.Allows way) ∧ (d = .skip ↔ ¬ p.Allows way) := by
  rw [← permits_iff, h]
  by_cases hpermits : p.permits way = true
  · simp [hpermits]
  · simp [hpermits]

/-- Of several permissions, the earliest that claims a road category. -/
def PermissionTag.Earliest (permissions : List PermissionTag) (highway : String)
    (p : PermissionTag) : Prop :=
  ∃ before behind, permissions = before ++ p :: behind ∧ highway ∈ p.highways ∧
    ∀ q ∈ before, highway ∉ q.highways

theorem PermissionTag.earliest_iff {permissions : List PermissionTag} {highway : String}
    {p : PermissionTag} : Earliest permissions highway p ↔
      permissions.find? (·.highways.contains highway) = some p := by
  rw [List.find?_eq_some_iff_append, Earliest]
  constructor
  · rintro ⟨before, behind, hsplit, hclaims, hbefore⟩
    exact ⟨List.contains_iff_mem.2 hclaims, before, behind, hsplit, fun q hq => by
      simpa using hbefore q hq⟩
  · rintro ⟨hclaims, before, behind, hsplit, hbefore⟩
    exact ⟨before, behind, hsplit, List.contains_iff_mem.1 hclaims, fun q hq => by
      simpa using hbefore q hq⟩

namespace RuleTable

variable {r : RuleTable} {highways : List String} {way : Way}

theorem verdict_withHighways (entries : List String) :
    (r.withHighways highways).verdict entries = r.verdict entries := by
  induction entries with
  | nil => rfl
  | cons e entries ih =>
    rw [verdict, verdict, ih]
    rfl

/-- A table with more road categories decides as before wherever the category is none of these. -/
theorem decide_withHighways
    (h : ∀ highway, way.tag "highway" = some highway → highway ∉ highways) :
    (r.withHighways highways).decide way = r.decide way := by
  have hrestriction : (r.withHighways highways).restriction way = r.restriction way := by
    simp only [restriction, verdict_withHighways]
    rfl
  have hbarred : (r.withHighways highways).isBarred way = r.isBarred way := rfl
  rw [decide, decide, hrestriction, hbarred]
  cases htag : way.tag "highway" with
  | none => rfl
  | some highway => simp [allowsHighway, withHighways, h highway htag]

end RuleTable

namespace Vehicle

/-- What the rules of a vehicle are followed by: more road categories, or a permission behind those
    already there. -/
inductive Change where
  | widen (highways : List String)
  | permit (p : PermissionTag)

/-- The road categories that a change adds. -/
def Change.highways : Change → List String
  | widen highways => highways
  | permit _ => []

/-- The permission that a change adds. -/
def Change.permission? : Change → Option PermissionTag
  | widen _ => none
  | permit p => some p

/-- A vehicle with one more change. -/
def change (v : Vehicle) : Change → Vehicle
  | .widen highways => v.widen highways
  | .permit p => v.withOverride p.toOverride

/-- A vehicle made of rules and of changes in any order. -/
def ofChanges (name : String) (r : RuleTable) (changes : List Change) : Vehicle :=
  changes.foldl change (ofRules name r)

variable {name : String} {r : RuleTable} {changes : List Change} {way : Way} {highway : String}
  {p : PermissionTag}

private theorem foldl_change (v : Vehicle) (changes : List Change) : changes.foldl change v =
    { v with
      rules := v.rules.withHighways (changes.flatMap Change.highways)
      overrides := v.overrides ++
        (changes.filterMap Change.permission?).map PermissionTag.toOverride } := by
  induction changes generalizing v with
  | nil => simp [RuleTable.withHighways]
  | cons c changes ih =>
    rw [List.foldl_cons, ih]
    cases c <;> simp [change, widen, withOverride, RuleTable.withHighways, Change.highways,
      List.filterMap_cons, Change.permission?]

theorem rules_ofChanges :
    (ofChanges name r changes).rules = r.withHighways (changes.flatMap Change.highways) := by
  rw [ofChanges, foldl_change]
  rfl

theorem overrides_ofChanges : (ofChanges name r changes).overrides =
    (changes.filterMap Change.permission?).map PermissionTag.toOverride := by
  rw [ofChanges, foldl_change]
  exact List.nil_append _

/-- The earliest permission that claims the category of a road decides it, by its own tag alone. -/
theorem decide_of_earliest (htag : way.tag "highway" = some highway)
    (hp : PermissionTag.Earliest (changes.filterMap Change.permission?) highway p) :
    (ofChanges name r changes).decide way = if p.permits way then .usable else .skip := by
  have hclaimant : (ofChanges name r changes).claimant? way = some p.toOverride := by
    rw [claimant?, htag, Option.bind_some, overrides_ofChanges, List.find?_map]
    exact congrArg (Option.map _) (PermissionTag.earliest_iff.1 hp)
  rw [decide, hclaimant]
  rfl

/-- A way whose category was neither claimed nor added is left to the rules as they were. -/
theorem decide_of_unchanged (hfree : ∀ highway, way.tag "highway" = some highway →
    (∀ p ∈ changes.filterMap Change.permission?, highway ∉ p.highways) ∧
      highway ∉ changes.flatMap Change.highways) :
    (ofChanges name r changes).decide way = r.decide way := by
  have hclaimant : (ofChanges name r changes).claimant? way = none := by
    rw [claimant?, Option.bind_eq_none_iff, overrides_ofChanges]
    intro highway htag
    rw [List.find?_eq_none]
    intro o ho
    obtain ⟨p, hp, rfl⟩ := List.mem_map.1 ho
    simpa [PermissionTag.toOverride] using (hfree highway htag).1 p hp
  rw [decide, hclaimant, rules_ofChanges]
  exact RuleTable.decide_withHighways fun highway htag => (hfree highway htag).2

/-- A vehicle known by name is made as the properties say, if it is found at all. -/
theorem withField_eq_ok {make : Bool → Vehicle} {key : String} {l : Layout} {props : Properties}
    {v : Vehicle} {f : BooleanField} (h : withField make key l props = .ok (v, f)) :
    ∃ blockFords, props.getFlag blockFordsKey false = .ok blockFords ∧ make blockFords = v := by
  obtain ⟨field, -, h⟩ := bind_eq_ok_iff.1 h
  obtain ⟨blockFords, hflag, h⟩ := bind_eq_ok_iff.1 h
  cases h
  exact ⟨blockFords, hflag, rfl⟩

/-- The `moped` tag has one of the two values that open cycleways. -/
def OpensCycleways (way : Way) : Prop :=
  ∃ value, way.tag "moped" = some value ∧
    (Text.sameIgnoringCase "yes" value ∨ Text.sameIgnoringCase "designated" value)

theorem allows_mopedCycleways : mopedCycleways.Allows way ↔ OpensCycleways way := by
  have hpermitted : mopedCycleways.permitted = ["yes", "designated"] := rfl
  simp only [PermissionTag.Allows, OpensCycleways, hpermitted, List.mem_cons, List.not_mem_nil,
    or_false, exists_eq_or_imp, exists_eq_left]
  rfl

/-- A car is made of its rules without changes. -/
theorem car_eq_ofChanges (blockFords : Bool) :
    car blockFords = ofChanges "car" (RuleTable.car.withBlockFords blockFords) [] := rfl

/-- A moped is made of the rules of a car, cycleways and the permission that they need. -/
theorem moped_eq_ofChanges (blockFords : Bool) : moped blockFords =
    ofChanges "moped" (RuleTable.car.withBlockFords blockFords)
      [.widen ["cycleway"], .permit mopedCycleways] := rfl

theorem decide_moped_of_ne (blockFords : Bool) (h : way.tag "highway" ≠ some "cycleway") :
    (moped blockFords).decide way = (car blockFords).decide way := by
  have hcar : (car blockFords).decide way =
      (RuleTable.car.withBlockFords blockFords).decide way := by
    rw [car_eq_ofChanges]
    exact decide_of_unchanged fun _ _ => ⟨nofun, nofun⟩
  rw [hcar, moped_eq_ofChanges]
  apply decide_of_unchanged
  intro highway htag
  have hne : highway ≠ "cycleway" := by
    rintro rfl
    exact h htag
  simp [Change.permission?, Change.highways, mopedCycleways, hne]

theorem decide_moped_of_cycleway (blockFords : Bool) (h : way.tag "highway" = some "cycleway") :
    (moped blockFords).decide way = if mopedCycleways.permits way then .usable else .skip := by
  rw [moped_eq_ofChanges]
  exact decide_of_earliest h ⟨[], [], rfl, by simp [mopedCycleways], by simp⟩

/-- How rules, added road categories and permissions work together, for every list of them and every
    way. If some permission claims the category of a road, the earliest such decides: the way is
    usable if the tag of that permission has a permitted value, and skipped if not. Neither the
    rules, the added categories, later permissions nor any other tag have a say in it. A way of
    which no permission claims the category, and to which none was added, is decided by the rules as
    they were. So a moped decides as a car with the same properties wherever the road is no
    cycleway, and may use exactly those cycleways that are open to it by its own tag. -/
theorem decide_composition (name : String) (r : RuleTable) (changes : List Change) (way : Way) :
    (∀ highway, way.tag "highway" = some highway →
      (∃ p ∈ changes.filterMap Change.permission?, highway ∈ p.highways) →
      ∃ p, PermissionTag.Earliest (changes.filterMap Change.permission?) highway p ∧
        ((ofChanges name r changes).decide way = .usable ↔ p.Allows way) ∧
        ((ofChanges name r changes).decide way = .skip ↔ ¬ p.Allows way) ∧
        ∀ name' r' changes' way',
          PermissionTag.Earliest (changes'.filterMap Change.permission?) highway p →
          way'.tag "highway" = some highway → way'.tag p.tag = way.tag p.tag →
          (ofChanges name' r' changes').decide way' = (ofChanges name r changes).decide way) ∧
    ((∀ highway, way.tag "highway" = some highway →
        (∀ p ∈ changes.filterMap Change.permission?, highway ∉ p.highways) ∧
          highway ∉ changes.flatMap Change.highways) →
      (ofChanges name r changes).decide way = r.decide way) ∧
    ∀ l l' props car carAccess moped mopedAccess, carOf l props = .ok (car, carAccess) →
      mopedOf l' props = .ok (moped, mopedAccess) →
      (way.tag "highway" ≠ some "cycleway" → moped.decide way = car.decide way) ∧
      (way.tag "highway" = some "cycleway" →
        (moped.decide way = .usable ↔ OpensCycleways way) ∧
        (moped.decide way = .skip ↔ ¬ OpensCycleways way)) := by
  refine ⟨fun highway htag ⟨q, hq, hclaims⟩ => ?_, decide_of_unchanged, ?_⟩
  · have hsome : ((changes.filterMap Change.permission?).find?
        (·.highways.contains highway)).isSome := by
      rw [List.find?_isSome]
      exact ⟨q, hq, List.contains_iff_mem.2 hclaims⟩
    obtain ⟨p, hfind⟩ := Option.isSome_iff_exists.1 hsome
    have hp := PermissionTag.earliest_iff.2 hfind
    have hdecide : (ofChanges name r changes).decide way = _ := decide_of_earliest htag hp
    obtain ⟨husable, hskip⟩ := PermissionTag.decision_iff hdecide
    refine ⟨p, hp, husable, hskip, fun name' r' changes' way' hp' htag' hsame => ?_⟩
    rw [hdecide, decide_of_earliest htag' hp', PermissionTag.permits_congr hsame]
  · intro l l' props v f v' f' hcar hmoped
    obtain ⟨blockFords, hflag, rfl⟩ := withField_eq_ok hcar
    obtain ⟨blockFords', hflag', rfl⟩ := withField_eq_ok hmoped
    cases hflag.symm.trans hflag'
    refine ⟨decide_moped_of_ne blockFords, fun hcycleway => ?_⟩
    rw [← allows_mopedCycleways]
    exact PermissionTag.decision_iff (decide_moped_of_cycleway blockFords hcycleway)

private def quadsOnly : PermissionTag := ⟨["footway"], "atv", ["yes"]⟩

private def mopedsToo : PermissionTag := ⟨["footway", "cycleway"], "moped", ["yes"]⟩

private def footway : Way := .ofTags 1 [("highway", "footway"), ("atv", "no"), ("moped", "YES")]

private def bothAccesses : Layout.Draft :=
  ⟨["car", "moped"].filterMap fun name => (Declaration.vehicleAccess name).toOption, by decide⟩

/-- Two permissions claim footways. The later one is met, and the earlier one skips the way. -/
theorem decide_composition_footway :
    (ofChanges "atv" RuleTable.car [.permit quadsOnly, .widen ["footway"],
      .permit mopedsToo]).decide footway = .skip ∧
    mopedsToo.Allows footway ∧
    ∃ car carAccess moped mopedAccess,
      carOf bothAccesses.freeze .empty = .ok (car, carAccess) ∧
      mopedOf bothAccesses.freeze .empty = .ok (moped, mopedAccess) ∧
      moped.decide footway = car.decide footway := by
  obtain ⟨hclaimed, -, hmotor⟩ := decide_composition "atv" RuleTable.car
    [.permit quadsOnly, .widen ["footway"], .permit mopedsToo] footway
  obtain ⟨p, hp, -, hskip, -⟩ := hclaimed "footway" rfl ⟨quadsOnly, List.mem_cons_self, by decide⟩
  obtain rfl : quadsOnly = p := Option.some.inj (PermissionTag.earliest_iff.1 hp)
  refine ⟨hskip.2 ?_, PermissionTag.permits_iff.1 (by decide), _, _, _, _, rfl, rfl, ?_⟩
  · rw [← PermissionTag.permits_iff]
    decide
  · obtain ⟨hothers, -⟩ := hmotor bothAccesses.freeze bothAccesses.freeze .empty _ _ _ _ rfl rfl
    exact hothers (by decide)

end Vehicle

end EdgeAttributes
