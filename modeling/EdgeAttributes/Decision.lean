namespace EdgeAttributes

/-- Whether, and how, a way is part of the graph of a vehicle. A special way, such as a ferry, is
    usable but needs treatment of its own. -/
inductive Decision where
  | usable
  | skip
  | special
deriving DecidableEq

namespace Decision

/-- Whether the way is left out. -/
def isSkip (d : Decision) : Bool := d == skip

/-- The decision of two vehicles together: any special wins, then any usable. -/
def combine : Decision → Decision → Decision
  | special, _ => special
  | _, special => special
  | usable, _ => usable
  | _, usable => usable
  | skip, skip => skip

/-- The decision in words. -/
def text : Decision → String
  | usable => "usable"
  | skip => "skip"
  | special => "special"

/-- The decision of any number of vehicles together; a way is usable if no vehicle decides. -/
def combineAll : List Decision → Decision
  | [] => usable
  | d :: ds => ds.foldl combine d

end Decision

end EdgeAttributes
