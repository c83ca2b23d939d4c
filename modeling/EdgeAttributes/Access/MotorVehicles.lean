import EdgeAttributes.Access.Vehicle
import EdgeAttributes.Attribute.Moped
import EdgeAttributes.Layout
import EdgeAttributes.Properties

namespace EdgeAttributes

/-- The rules of cars. -/
def RuleTable.car : RuleTable :=
  ((RuleTable.ofKeys ["motorcar", "motor_vehicle", "vehicle", "access"]).withRestricted
    ["agricultural", "forestry", "delivery"]).withHighways
    ["motorway", "motorway_link", "trunk", "trunk_link", "primary", "primary_link", "secondary",
      "secondary_link", "tertiary", "tertiary_link", "unclassified", "residential",
      "living_street", "service", "road", "track"]

namespace Vehicle

/-- The property that makes fords bar a way. -/
def blockFordsKey : String := "block_fords"

/-- A car. -/
def car (blockFords : Bool) : Vehicle :=
  ofRules "car" (RuleTable.car.withBlockFords blockFords)

/-- Cycleways are open to mopeds only where the moped tag says so. -/
def mopedCycleways : PermissionTag where
  highways := ["cycleway"]
  tag := TagEnum.key Moped
  permitted := [Moped.yes.spelling, Moped.designated.spelling]

/-- A moped. -/
def moped (blockFords : Bool) : Vehicle :=
  ((ofRules "moped" (RuleTable.car.withBlockFords blockFords)).widen
    mopedCycleways.highways).withOverride mopedCycleways.toOverride

/-- A vehicle known by name, and the field that its access is stored in. The field is looked up
    before the properties are read. -/
def withField [Measures] (make : Bool → Vehicle) (key : String) (l : Layout) (p : Properties) :
    Except Error (Vehicle × BooleanField) := do
  let field ← l.booleanField key
  let blockFords ← p.getFlag blockFordsKey false
  return (make blockFords, field)

/-- The car of a layout. -/
def carOf [Measures] (l : Layout) (p : Properties) : Except Error (Vehicle × BooleanField) :=
  withField car (Declaration.accessKey "car") l p

/-- The moped of a layout. -/
def mopedOf [Measures] (l : Layout) (p : Properties) : Except Error (Vehicle × BooleanField) :=
  withField moped (Declaration.accessKey "moped") l p

end Vehicle

end EdgeAttributes
