import EdgeAttributes.Registry

namespace EdgeAttributes

/-- A layout and the pipeline made for it. -/
structure Assembly where
  layout : Layout
  pipeline : Pipeline

namespace Registry

/-- Declare what the recipes of some keys make, in order. -/
def draft [Measures] (r : Registry) (p : Properties) (keys : List String) :
    Except Error Layout.Draft :=
  keys.foldlM (fun d key => do d.push (← (← r.recipe key).declare p)) Layout.Draft.empty

/-- Add the parsers that the recipes of some keys make, in order. -/
def pipeline [Measures] (r : Registry) (p : Properties) (l : Layout) (keys : List String) :
    Except Error Pipeline :=
  keys.foldlM (fun q key => do q.add (← (← r.recipe key).makeParser l p))
    (Pipeline.ofWidth l.intsPerEdge)

/-- Resolve keys, declare and freeze what they need, and make the parsers. -/
def assemble [Measures] (r : Registry) (keys : List String) (p : Properties) :
    Except Error Assembly := do
  let keys ← r.resolve keys
  let layout := (← r.draft p keys).freeze
  return ⟨layout, ← r.pipeline p layout keys⟩

end Registry

end EdgeAttributes
