import EdgeAttributes.Layout
import EdgeAttributes.SortedMap
import EdgeAttributes.TagParser

namespace EdgeAttributes

/-- Parsers in the order they were added, the position of the one that writes each name, and the
    words that an edge must have for them. -/
structure Pipeline where
  parsers : List TagParser
  owners : SortedMap Nat
  intsPerEdge : Nat

namespace Pipeline

/-- No parsers, for edges of at least some number of words. -/
def ofWidth (intsPerEdge : Nat) : Pipeline := ⟨[], .empty, intsPerEdge⟩

/-- Position of the parser that writes a name. -/
def owner? (p : Pipeline) (name : String) : Option Nat := p.owners.get? name

/-- Number of parsers. -/
def size (p : Pipeline) : Nat := p.parsers.length

/-- No parsers at all. -/
def isEmpty (p : Pipeline) : Bool := p.parsers.isEmpty

/-- A change to a pipeline. If it is refused, what it changed before stays changed. -/
abbrev Change := EStateM Error Pipeline

/-- What the parser that writes a name is shown as. -/
def ownerText (p : Pipeline) (name : String) : String :=
  (((p.owner? name).bind fun i => p.parsers[i]?).map TagParser.debugText).getD ""

/-- The refusal of a parser for a name that is taken. -/
def twoWriters (p : Pipeline) (q : TagParser) (name : String) : Error :=
  .config (.twoWriters name (p.ownerText name) q.debugText)

/-- Refuse a parser for a name that some other parser writes. -/
def refuseOwned (q : TagParser) (name : String) : Change Unit := do
  let p ← get
  if (p.owner? name).isSome then throw (p.twoWriters q name)

/-- Put a name down as written by the parser that is added next. -/
def claim (name : String) : Change Unit :=
  modify fun p => { p with owners := p.owners.insert name p.parsers.length }

/-- Add a parser behind the others, or refuse it for the first of its names that is taken. No name
    is claimed before all of them are known to be free. -/
def enroll (q : TagParser) : Change Unit := do
  q.writes.forM (refuseOwned q)
  q.writes.forM claim
  modify fun p => { p with parsers := p.parsers ++ [q] }

/-- The pipeline with one more parser, or the refusal of that parser. -/
def add (p : Pipeline) (q : TagParser) : Except Error Pipeline :=
  match enroll q p with
  | .ok () p' => .ok p'
  | .error e _ => .error e

/-- The decision of all vehicles together. -/
def decide (p : Pipeline) (way : Way) : Decision :=
  Decision.combineAll (p.parsers.filterMap (·.decision way))

/-- Decide a way and, unless it is skipped, run every parser for the edge. -/
def handle {width : Nat} (p : Pipeline) (edge : Nat) (way : Way) (flags : RelationFlags) :
    Edit width Decision := do
  match Layout.checkWidth p.intsPerEdge width with
  | .error e => throw (.error e)
  | .ok () =>
    unless (p.decide way).isSkip do
      p.parsers.forM fun q => q.run edge way flags
    return p.decide way

end Pipeline

end EdgeAttributes
