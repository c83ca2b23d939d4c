import EdgeAttributes.Layout
import EdgeAttributes.Speed
import EdgeAttributes.TagParser

namespace EdgeAttributes

namespace Declaration

/-- Name of the speed limit. -/
def maxSpeedKey : String := "max_speed"

/-- Posted speed limit in km/h per direction; 0 stands for no usable limit. -/
def maxSpeed : Except Error Declaration := decimal maxSpeedKey 7 2.0 true

end Declaration

namespace Way

/-- The speed that a tag stands for. -/
def speed? (way : Way) (key : String) : Option Float := (way.tag key).bind Speed.parse?

/-- The limit of a direction, in km/h. -/
def speedLimit? (way : Way) (reverse : Bool) : Option Float :=
  (way.speed? (if reverse then "maxspeed:backward" else "maxspeed:forward")).or
    (way.speed? "maxspeed")

end Way

/-- The limit of one direction as an assignment, if there is a limit. -/
def DecimalField.assignLimit (f : DecimalField) (way : Way) (reverse : Bool) : List Assignment :=
  match way.speedLimit? reverse with
  | some speed => [.decimal f reverse (if speed ≤ f.max then speed else f.max)]
  | none => []

/-- Stores the limits of a way, the forward one first. -/
def TagParser.maxSpeed (f : DecimalField) : TagParser :=
  .ofField "MaxSpeedParser" f.field fun way _ => f.assignLimit way false ++ f.assignLimit way true

/-- The speed limit parser of a layout. -/
def TagParser.maxSpeedOf [Measures] (l : Layout) : Except Error TagParser :=
  (l.decimalField Declaration.maxSpeedKey).map TagParser.maxSpeed

end EdgeAttributes
