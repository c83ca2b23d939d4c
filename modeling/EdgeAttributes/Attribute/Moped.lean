import EdgeAttributes.Layout
import EdgeAttributes.TagParser

namespace EdgeAttributes

/-- How far mopeds are allowed by the `moped` tag itself. -/
inductive Moped where
  | missing
  | no
  | yes
  | designated
  | useSidepath
deriving DecidableEq

namespace Moped

/-- The tag value. -/
def spelling : Moped → String
  | missing => "missing"
  | no => "no"
  | yes => "yes"
  | designated => "designated"
  | useSidepath => "use_sidepath"

instance : TagEnum Moped where
  title := "Moped"
  key := "moped"
  missing := missing
  others := [no, yes, designated, useSidepath]
  spelling := spelling
  nodup := by decide
  complete a := by cases a <;> decide

/-- The moped value of a way. -/
def ofWay (way : Way) : Moped := TagEnum.find (way.tag (TagEnum.key Moped))

end Moped

/-- Stores the moped value of a way, if it has one. -/
def TagParser.moped (f : EnumField Moped) : TagParser :=
  .ofField "MopedParser" f.field fun way _ =>
    if Moped.ofWay way = .missing then [] else [f.assign false (Moped.ofWay way)]

/-- The moped parser of a layout. -/
def TagParser.mopedOf [Measures] (l : Layout) : Except Error TagParser :=
  (l.enumField Moped (TagEnum.key Moped)).map TagParser.moped

end EdgeAttributes
