import EdgeAttributes.Layout
import EdgeAttributes.TagParser
import EdgeAttributes.Text.Split

namespace EdgeAttributes

/-- Category of a road. Links between roads have the category of their road. -/
inductive RoadClass where
  | missing
  | motorway
  | trunk
  | primary
  | secondary
  | tertiary
  | residential
  | unclassified
  | service
  | road
  | track
  | bridleway
  | steps
  | cycleway
  | path
  | livingStreet
  | footway
  | pedestrian
  | platform
  | corridor
  | construction
  | busway
deriving DecidableEq

namespace RoadClass

/-- The tag value. -/
def spelling : RoadClass → String
  | missing => "missing"
  | motorway => "motorway"
  | trunk => "trunk"
  | primary => "primary"
  | secondary => "secondary"
  | tertiary => "tertiary"
  | residential => "residential"
  | unclassified => "unclassified"
  | service => "service"
  | road => "road"
  | track => "track"
  | bridleway => "bridleway"
  | steps => "steps"
  | cycleway => "cycleway"
  | path => "path"
  | livingStreet => "living_street"
  | footway => "footway"
  | pedestrian => "pedestrian"
  | platform => "platform"
  | corridor => "corridor"
  | construction => "construction"
  | busway => "busway"

instance : TagEnum RoadClass where
  title := "RoadClass"
  key := "road_class"
  missing := missing
  others := [motorway, trunk, primary, secondary, tertiary, residential, unclassified, service,
    road, track, bridleway, steps, cycleway, path, livingStreet, footway, pedestrian, platform,
    corridor, construction, busway]
  spelling := spelling
  nodup := by decide
  complete a := by cases a <;> decide

/-- The category of a `highway` value, without one ending `_link`. -/
def ofHighway (highway : String) : RoadClass :=
  TagEnum.find (some ((Text.dropEnding? "_link" highway).getD highway))

/-- The category of a way. -/
def ofWay (way : Way) : RoadClass := ((way.tag "highway").map ofHighway).getD missing

end RoadClass

/-- Stores the category of a way, if it has one. -/
def TagParser.roadClass (f : EnumField RoadClass) : TagParser :=
  .ofField "RoadClassParser" f.field fun way _ =>
    if RoadClass.ofWay way = .missing then [] else [f.assign false (RoadClass.ofWay way)]

/-- The road category parser of a layout. -/
def TagParser.roadClassOf [Measures] (l : Layout) : Except Error TagParser :=
  (l.enumField RoadClass (TagEnum.key RoadClass)).map TagParser.roadClass

end EdgeAttributes
