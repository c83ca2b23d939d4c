import EdgeAttributes.Assignment
import EdgeAttributes.Decision
import EdgeAttributes.RelationFlags
import EdgeAttributes.Way

namespace EdgeAttributes

/-- Reads ways and stores the encoded values it names in `writes`. Running it for an edge may be any
    computation on storage, of any width; that it keeps to its edge and to those values is for the
    parser to see to. A parser that stands for a vehicle also decides whether the vehicle may use a
    way. A report of two parsers shows each as its `debugText`. -/
structure TagParser where
  debugText : String
  writes : List String
  run : {width : Nat} → Nat → Way → RelationFlags → Edit width Unit
  decision : Way → Option Decision

namespace TagParser

/-- What a parser of some type is shown as. Its fields are left out, since their texts hold numbers
    that differ from one build of the program to the next. -/
def typeText (type : String) : String := type ++ " \x7b .. \x7d"

/-- A parser that carries out assignments, which it makes of the way and the relation flags
    alone. -/
def ofAssignments (type : String) (writes : List String)
    (assignments : Way → RelationFlags → List Assignment) (decision : Way → Option Decision) :
    TagParser where
  debugText := typeText type
  writes := writes
  run edge way flags := Assignment.applyAll edge (assignments way flags)
  decision := decision

/-- A parser of one encoded value that decides nothing. -/
def ofField (type : String) (f : Field) (assignments : Way → RelationFlags → List Assignment) :
    TagParser :=
  .ofAssignments type [f.name] assignments fun _ => none

end TagParser

end EdgeAttributes
