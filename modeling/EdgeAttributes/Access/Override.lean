import EdgeAttributes.Access.RuleTable
import EdgeAttributes.Text.AsciiCase

namespace EdgeAttributes

/-- Claims road categories and decides their ways in place of a rule table. -/
structure AccessOverride where
  claims : String → Bool
  decide : Way → Decision

/-- Road categories that are usable only where a tag permits it. -/
structure PermissionTag where
  highways : List String
  tag : String
  permitted : List String

namespace PermissionTag

/-- Whether the tag has a permitted value, whatever the case of its letters. -/
def permits (p : PermissionTag) (way : Way) : Bool :=
  (way.tag p.tag).any fun value => p.permitted.any (Text.sameIgnoringCase · value)

/-- Ways of the claimed categories are usable if permitted and skipped if not. -/
def toOverride (p : PermissionTag) : AccessOverride where
  claims highway := p.highways.contains highway
  decide way := if p.permits way then .usable else .skip

end PermissionTag

end EdgeAttributes
