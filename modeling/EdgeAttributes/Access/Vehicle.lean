import EdgeAttributes.Access.Override
import EdgeAttributes.TagParser

namespace EdgeAttributes

namespace Declaration

/-- Name of the access flags of a vehicle. -/
def accessKey (vehicle : String) : String := vehicle ++ "_access"

/-- Access flags of a vehicle, one per direction. -/
def vehicleAccess (vehicle : String) : Except Error Declaration :=
  boolean (accessKey vehicle) true

end Declaration

/-- How a vehicle decides ways. Of two overrides that claim one road category the earlier counts. -/
structure Vehicle where
  name : String
  rules : RuleTable
  overrides : List AccessOverride

namespace Vehicle

/-- A vehicle without overrides. -/
def ofRules (name : String) (rules : RuleTable) : Vehicle := ⟨name, rules, []⟩

/-- Add an override behind those already there. -/
def withOverride (v : Vehicle) (o : AccessOverride) : Vehicle :=
  { v with overrides := v.overrides ++ [o] }

/-- Make more road categories usable by default. -/
def widen (v : Vehicle) (highways : List String) : Vehicle :=
  { v with rules := v.rules.withHighways highways }

/-- The override that claims the road category of a way. -/
def claimant? (v : Vehicle) (way : Way) : Option AccessOverride :=
  (way.tag "highway").bind fun highway => v.overrides.find? (·.claims highway)

/-- The decision for a way. -/
def decide (v : Vehicle) (way : Way) : Decision :=
  match v.claimant? way with
  | some o => o.decide way
  | none => v.rules.decide way

/-- The keys that say whether a way is one-way for the vehicle, its own before the general one. -/
def onewayKeys (v : Vehicle) : List String := ["oneway:" ++ v.name, "oneway"]

/-- Ways that are one-way unless a tag says something else. -/
def impliesOneway (way : Way) : Bool :=
  way.hasTagIn "junction" ["roundabout", "circular"] ||
    way.hasTagIn "highway" ["motorway", "motorway_link"]

/-- Whether a usable way is open forward and backward. A tag value that says neither counts as no
    tag at all. -/
def directions (v : Vehicle) (way : Way) : Bool × Bool :=
  match (way.firstValue v.onewayKeys).map Prod.snd with
  | some "yes" | some "true" | some "1" => (true, false)
  | some "-1" | some "reverse" => (false, true)
  | some "no" | some "false" | some "0" => (true, true)
  | _ => if impliesOneway way then (true, false) else (true, true)

/-- The directions in which a way is open; none at all for a way that is skipped. -/
def open? (v : Vehicle) (way : Way) : Option (Bool × Bool) :=
  match v.decide way with
  | .skip => none
  | .special => some (true, true)
  | .usable => some (v.directions way)

/-- Stores the open directions of a way in a field. -/
def parser (v : Vehicle) (f : BooleanField) : TagParser :=
  .ofAssignments "VehicleAccessParser" [f.field.name]
    (fun way _ =>
      match v.open? way with
      | some (forward, backward) => [.flag f false forward, .flag f true backward]
      | none => [])
    fun way => some (v.decide way)

end Vehicle

end EdgeAttributes
