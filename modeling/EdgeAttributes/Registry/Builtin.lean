import EdgeAttributes.Access.MotorVehicles
import EdgeAttributes.Attribute.MaxSpeed
import EdgeAttributes.Attribute.Moped
import EdgeAttributes.Attribute.RoadAccess
import EdgeAttributes.Attribute.RoadClass
import EdgeAttributes.Attribute.Roundabout
import EdgeAttributes.Registry

namespace EdgeAttributes

namespace Recipe

/-- A recipe whose factories do not look at properties. -/
def plain (declaration : Except Error Declaration) (parser : Layout → Except Error TagParser) :
    Recipe where
  declare _ := declaration
  makeParser l _ := parser l
  required := []

/-- A recipe for the access of a vehicle. -/
def access (vehicle : String) (find : Layout → Properties → Except Error (Vehicle × BooleanField))
    (required : List String) : Recipe where
  declare _ := Declaration.vehicleAccess vehicle
  makeParser l p := (find l p).map fun (v, f) => v.parser f
  required := required

end Recipe

namespace Registry

/-- Every built-in recipe under its key. -/
def builtin [Measures] : Registry where
  recipes := .ofList [
    (TagEnum.key Moped, .plain (Declaration.enum Moped false) TagParser.mopedOf),
    (TagEnum.key RoadClass, .plain (Declaration.enum RoadClass false) TagParser.roadClassOf),
    (TagEnum.key RoadAccess, .plain (Declaration.enum RoadAccess false) TagParser.roadAccessOf),
    (Declaration.roundaboutKey, .plain Declaration.roundabout TagParser.roundaboutOf),
    (Declaration.maxSpeedKey, .plain Declaration.maxSpeed TagParser.maxSpeedOf),
    (Declaration.accessKey "car", .access "car" Vehicle.carOf []),
    (Declaration.accessKey "moped", .access "moped" Vehicle.mopedOf [TagEnum.key Moped])]

end Registry

end EdgeAttributes
