import EdgeAttributes.Layout
import EdgeAttributes.TagParser

namespace EdgeAttributes

namespace Declaration

/-- Name of the roundabout flag. -/
def roundaboutKey : String := "roundabout"

/-- Whether an edge is part of a roundabout. -/
def roundabout : Except Error Declaration := boolean roundaboutKey false

end Declaration

/-- Whether a way is part of a roundabout. -/
def Way.isRoundabout (way : Way) : Bool := way.hasTagIn "junction" ["roundabout", "circular"]

/-- Marks the ways that are part of a roundabout. -/
def TagParser.roundabout (f : BooleanField) : TagParser :=
  .ofField "RoundaboutParser" f.field fun way _ =>
    if way.isRoundabout then [.flag f false true] else []

/-- The roundabout parser of a layout. -/
def TagParser.roundaboutOf [Measures] (l : Layout) : Except Error TagParser :=
  (l.booleanField Declaration.roundaboutKey).map TagParser.roundabout

end EdgeAttributes
