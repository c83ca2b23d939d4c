import EdgeAttributes.Decision
import EdgeAttributes.Text.Blank
import EdgeAttributes.Text.Split
import EdgeAttributes.Way

namespace EdgeAttributes

/-- The shared rules of a vehicle. Restriction keys are listed from most to least specific. -/
structure RuleTable where
  restrictionKeys : List String
  restricted : List String
  intended : List String
  highways : List String
  blockFords : Bool

/-- What the restriction keys say. -/
inductive Restriction where
  | deny
  | allow
  | undecided
deriving DecidableEq

namespace RuleTable

/-- Rules with the generic restricted and intended values and no road categories. -/
def ofKeys (keys : List String) : RuleTable where
  restrictionKeys := keys
  restricted := ["no", "restricted", "military", "emergency", "private", "permit"]
  intended := ["yes", "designated", "official", "permissive"]
  highways := []
  blockFords := false

/-- Add values that restrict. -/
def withRestricted (r : RuleTable) (values : List String) : RuleTable :=
  { r with restricted := r.restricted ++ values }

/-- Add values that allow. -/
def withIntended (r : RuleTable) (values : List String) : RuleTable :=
  { r with intended := r.intended ++ values }

/-- Add road categories that are usable by default. -/
def withHighways (r : RuleTable) (highways : List String) : RuleTable :=
  { r with highways := r.highways ++ highways }

/-- Choose whether fords bar a way. -/
def withBlockFords (r : RuleTable) (blockFords : Bool) : RuleTable :=
  { r with blockFords }

/-- Whether a road category is usable by default. -/
def allowsHighway (r : RuleTable) (highway : String) : Bool := r.highways.contains highway

/-- The entries of a list value. -/
def entriesOf (value : String) : List String := (Text.split ';' value).map Text.trim

/-- The first entry that is restricted or intended decides; one that is both is restricted. -/
def verdict (r : RuleTable) : List String → Restriction
  | [] => .undecided
  | e :: es =>
    if r.restricted.contains e then .deny
    else if r.intended.contains e then .allow
    else r.verdict es

/-- What the first present restriction key says; later keys do not count. -/
def restriction (r : RuleTable) (way : Way) : Restriction :=
  match way.firstValue r.restrictionKeys with
  | some (_, value) => r.verdict (entriesOf value)
  | none => .undecided

/-- Barriers that no access tag lifts. -/
def isBarred (r : RuleTable) (way : Way) : Bool :=
  way.hasTag "impassable" "yes" || way.hasTag "status" "impassable" ||
    (way.hasTag "highway" "service" && way.hasTag "service" "emergency_access") ||
    (r.blockFords && (way.hasTag "highway" "ford" || (way.tag "ford").any (· != "no")))

/-- Ways that carry vehicles instead of being driven on. -/
def isFerry (way : Way) : Bool := way.hasTagIn "route" ["ferry", "shuttle_train"]

/-- The decision for a way. -/
def decide (r : RuleTable) (way : Way) : Decision :=
  if isFerry way then .special
  else if r.restriction way = .deny || r.isBarred way then .skip
  else match way.tag "highway" with
    | none => .skip
    | some highway =>
      if r.restriction way = .allow then .usable
      else if r.allowsHighway highway then .usable
      else .skip

end RuleTable

end EdgeAttributes
