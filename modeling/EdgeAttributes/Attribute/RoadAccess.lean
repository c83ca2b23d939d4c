import EdgeAttributes.Layout
import EdgeAttributes.TagParser
import EdgeAttributes.Text.Blank
import EdgeAttributes.Text.Split

namespace EdgeAttributes

/-- Legal access for general traffic. A later value is more restrictive than an earlier one. -/
inductive RoadAccess where
  | missing
  | yes
  | destination
  | customers
  | delivery
  | forestry
  | agricultural
  | privateOnly
  | no
deriving DecidableEq

namespace RoadAccess

/-- The tag value. -/
def spelling : RoadAccess → String
  | missing => "missing"
  | yes => "yes"
  | destination => "destination"
  | customers => "customers"
  | delivery => "delivery"
  | forestry => "forestry"
  | agricultural => "agricultural"
  | privateOnly => "private"
  | no => "no"

instance : TagEnum RoadAccess where
  title := "RoadAccess"
  key := "road_access"
  missing := missing
  others := [yes, destination, customers, delivery, forestry, agricultural, privateOnly, no]
  spelling := spelling
  nodup := by decide
  complete a := by cases a <;> decide

/-- The keys that restrict motor traffic, most specific first. -/
def restrictionKeys : List String := ["motor_vehicle", "vehicle", "access"]

/-- The access that one entry stands for. Four spellings are read as their nearest value. -/
def ofEntry (entry : String) : RoadAccess :=
  match entry with
  | "designated" | "official" | "permissive" => yes
  | "permit" => privateOnly
  | other => TagEnum.find (some other)

/-- The more restrictive of two. -/
def stricter (a b : RoadAccess) : RoadAccess :=
  if TagEnum.ordinal a ≤ TagEnum.ordinal b then b else a

/-- The most restrictive of several; unrecognised ones do not count. -/
def strictest (l : List RoadAccess) : RoadAccess := l.foldl stricter missing

/-- The access that a list value stands for. -/
def ofValue (value : String) : RoadAccess :=
  strictest ((Text.split ';' value).map fun e => ofEntry (Text.trim e))

/-- The access of a way. -/
def ofWay (way : Way) : RoadAccess :=
  ((way.firstValue restrictionKeys).map fun (_, value) => ofValue value).getD missing

end RoadAccess

/-- Stores the access of a way, if it has one. -/
def TagParser.roadAccess (f : EnumField RoadAccess) : TagParser :=
  .ofField "RoadAccessParser" f.field fun way _ =>
    if RoadAccess.ofWay way = .missing then [] else [f.assign false (RoadAccess.ofWay way)]

/-- The road access parser of a layout. -/
def TagParser.roadAccessOf [Measures] (l : Layout) : Except Error TagParser :=
  (l.enumField RoadAccess (TagEnum.key RoadAccess)).map TagParser.roadAccess

end EdgeAttributes
