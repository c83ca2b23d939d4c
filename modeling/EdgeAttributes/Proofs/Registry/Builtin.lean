import EdgeAttributes.Proofs.Attribute.MaxSpeed
import EdgeAttributes.Proofs.Registry.Assembly
import EdgeAttributes.Registry.Builtin

namespace EdgeAttributes

namespace Behaviour

/-- A tag value is stored unless it is missing. -/
def tag {α : Type} [DecidableEq α] [TagEnum α] (ofWay : Way → α) : Behaviour where
  twoDirections := false
  patterns way _ :=
    if ofWay way = TagEnum.missing then []
    else [(false, UInt32.ofNat (TagEnum.ordinal (ofWay way)))]
  decision _ := none

/-- Roundabouts are marked, and no mark is taken back. -/
def roundabout : Behaviour where
  twoDirections := false
  patterns way _ := if way.isRoundabout then [(false, 1)] else []
  decision _ := none

/-- Open directions are stored for every way that the vehicle does not skip. -/
def vehicle (v : Vehicle) : Behaviour where
  twoDirections := true
  patterns way _ :=
    match v.open? way with
    | some (forward, backward) =>
      [(false, if forward then 1 else 0), (true, if backward then 1 else 0)]
    | none => []
  decision way := some (v.decide way)

end Behaviour

/-- A tag value is assigned as it is stored. -/
theorem EnumField.stores_tag {α : Type} [DecidableEq α] [TagEnum α] (f : EnumField α)
    (ofWay : Way → α) (way : Way) (flags : RelationFlags) :
    List.Forall₂ (Assignment.Stores f.field)
      (if ofWay way = TagEnum.missing then [] else [f.assign false (ofWay way)])
      ((Behaviour.tag ofWay).patterns way flags) := by
  simp only [Behaviour.tag]
  split
  · exact .nil
  · exact .cons (f.stores_assign false (ofWay way)) .nil

namespace Recipe

variable {p : Properties}

/-- Every recipe that stores a tag value of ways is portable. -/
theorem portable_tag {α : Type} [DecidableEq α] [TagEnum α] (ofWay : Way → α)
    {parser : EnumField α → TagParser} {type : String}
    (hparser : ∀ f, parser f = .ofField type f.field fun way _ =>
      if ofWay way = TagEnum.missing then [] else [f.assign false (ofWay way)]) :
    (plain (Declaration.enum α false)
      fun l => (l.enumField α (TagEnum.key α)).map parser).Portable p (TagEnum.key α)
        (.tag ofWay) where
  name_eq decl hdecl := (Declaration.make_eq_ok hdecl).1
  follows := by
    intro l q hq
    obtain ⟨f, hf, rfl⟩ := map_eq_ok hq
    obtain ⟨hmem, hname⟩ := Layout.enumField_eq_ok hf
    refine ⟨f.field, hmem, hname, fun hdecl => ?_⟩
    obtain ⟨-, -, -, htwo, -⟩ := Declaration.make_eq_ok hdecl
    rw [hparser]
    exact TagParser.follows_of_stores htwo rfl fun way flags => f.stores_tag ofWay way flags

theorem portable_roundabout :
    (plain Declaration.roundabout TagParser.roundaboutOf).Portable p Declaration.roundaboutKey
      .roundabout where
  name_eq decl hdecl := by
    replace hdecl : Declaration.boolean Declaration.roundaboutKey false = .ok decl := hdecl
    exact (Declaration.boolean_eq_ok hdecl).1
  follows := by
    intro l q hq
    obtain ⟨f, hf, rfl⟩ := map_eq_ok hq
    obtain ⟨hmem, hname⟩ := Layout.booleanField_eq_ok hf
    refine ⟨f.field, hmem, hname, fun hdecl => ?_⟩
    replace hdecl : Declaration.boolean Declaration.roundaboutKey false = .ok f.field.declaration :=
      hdecl
    obtain ⟨-, htwo⟩ := Declaration.boolean_eq_ok hdecl
    refine TagParser.follows_of_stores htwo rfl fun way _ => ?_
    simp only [Behaviour.roundabout]
    split
    · exact .cons (f.stores_flag false true) .nil
    · exact .nil

theorem portable_maxSpeed :
    (plain Declaration.maxSpeed TagParser.maxSpeedOf).Portable p Declaration.maxSpeedKey
      .maxSpeed where
  name_eq decl hdecl := (Declaration.maxSpeed_eq_ok hdecl).1
  follows := by
    intro l q hq
    obtain ⟨f, hf, rfl⟩ := map_eq_ok hq
    obtain ⟨hmem, hname⟩ := Layout.decimalField_eq_ok hf
    exact ⟨f.field, hmem, hname, TagParser.maxSpeed_follows⟩

private theorem vehicle_follows {f : BooleanField} (v : Vehicle)
    (htwo : f.field.declaration.twoDirections = true) :
    (v.parser f).Follows (.vehicle v) f.field := by
  refine TagParser.follows_of_stores htwo rfl fun way _ => ?_
  simp only [Behaviour.vehicle]
  rcases v.open? way with _ | ⟨forward, backward⟩
  · exact .nil
  · exact .cons (f.stores_flag false forward) (.cons (f.stores_flag true backward) .nil)

/-- The access of a vehicle is portable. Its properties settle whether fords bar a way, and no
    parser is made if they do not. -/
theorem portable_access (vehicle : String) (make : Bool → Vehicle) (required : List String) :
    (access vehicle (Vehicle.withField make (Declaration.accessKey vehicle))
      required).Portable p (Declaration.accessKey vehicle)
        (.vehicle (make ((p.getFlag Vehicle.blockFordsKey false).toOption.getD false))) where
  name_eq decl hdecl := (Declaration.boolean_eq_ok hdecl).1
  follows := by
    intro l q hq
    obtain ⟨⟨v, f⟩, hfind, rfl⟩ := map_eq_ok hq
    obtain ⟨found, hf, hfind⟩ := bind_eq_ok_iff.1 hfind
    obtain ⟨blockFords, hflag, hfind⟩ := bind_eq_ok_iff.1 hfind
    cases hfind
    obtain ⟨hmem, hname⟩ := Layout.booleanField_eq_ok hf
    refine ⟨f.field, hmem, hname, fun hdecl => ?_⟩
    rw [hflag]
    exact vehicle_follows _ (Declaration.boolean_eq_ok hdecl).2

end Recipe

namespace Registry

/-- The keys of the built-in vehicles. -/
def vehicleKeys : List String := [Declaration.accessKey "car", Declaration.accessKey "moped"]

/-- What the built-in parsers do, by their keys. -/
def builtinBehaviour (p : Properties) (key : String) : Behaviour :=
  let blockFords := (p.getFlag Vehicle.blockFordsKey false).toOption.getD false
  match key with
  | "moped" => .tag Moped.ofWay
  | "road_class" => .tag RoadClass.ofWay
  | "road_access" => .tag RoadAccess.ofWay
  | "max_speed" => .maxSpeed
  | "car_access" => .vehicle (Vehicle.car blockFords)
  | "moped_access" => .vehicle (Vehicle.moped blockFords)
  -- Only `roundabout` is left. No recipe has any other key.
  | _ => .roundabout

theorem portable_builtinBehaviour (p : Properties) : builtin.Portable p (builtinBehaviour p) := by
  intro key recipe h
  have hmem := SortedMap.mem_of_get?_ofList h
  simp only [List.mem_cons, List.not_mem_nil, or_false, Prod.mk.injEq] at hmem
  obtain ⟨rfl, rfl⟩ | ⟨rfl, rfl⟩ | ⟨rfl, rfl⟩ | ⟨rfl, rfl⟩ | ⟨rfl, rfl⟩ | ⟨rfl, rfl⟩ |
    ⟨rfl, rfl⟩ := hmem
  · exact Recipe.portable_tag Moped.ofWay fun _ => rfl
  · exact Recipe.portable_tag RoadClass.ofWay fun _ => rfl
  · exact Recipe.portable_tag RoadAccess.ofWay fun _ => rfl
  · exact Recipe.portable_roundabout
  · exact Recipe.portable_maxSpeed
  · exact Recipe.portable_access "car" Vehicle.car []
  · exact Recipe.portable_access "moped" Vehicle.moped [TagEnum.key Moped]

theorem decision_builtinBehaviour (p : Properties) {key : String} (hkey : key ∉ vehicleKeys) :
    (builtinBehaviour p key).decision = fun _ => none := by
  unfold builtinBehaviour
  split
  · rfl
  · rfl
  · rfl
  · rfl
  · exact absurd (by decide) hkey
  · exact absurd (by decide) hkey
  · rfl

/-- The built-in recipes are portable, and only those of vehicles decide ways. -/
theorem builtin_portable (p : Properties) : ∃ behaviour : String → Behaviour,
    builtin.Portable p behaviour ∧
      ∀ key ∉ vehicleKeys, (behaviour key).decision = fun _ => none :=
  ⟨builtinBehaviour p, portable_builtinBehaviour p, fun _ => decision_builtinBehaviour p⟩

end Registry

end EdgeAttributes
