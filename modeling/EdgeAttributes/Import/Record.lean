import EdgeAttributes.Decision
import EdgeAttributes.Json.Value
import EdgeAttributes.Layout
import EdgeAttributes.SortedMap
import EdgeAttributes.Way

namespace EdgeAttributes.Import

/-- The decision for a way and what its edge stores. -/
structure Record where
  wayId : Int64
  access : Decision
  values : SortedMap Field.Texts

namespace Record

/-- Read off an edge everything that a layout holds. -/
def read {width : Nat} (l : Layout) (s : EdgeStorage width) (edge : Nat) (way : Way)
    (access : Decision) : Except Fault Record := do
  let values ← l.fields.mapM fun f => do return (f.name, ← f.texts s edge)
  return ⟨way.id, access, .ofList values⟩

/-- A stored value as JSON: a text, or one text for each direction. -/
def textsToJson : Field.Texts → Json.Value
  | .single t => .text t
  | .directed forward backward =>
    .ofFields [("forward", .text forward), ("backward", .text backward)]

/-- A record as JSON. -/
def toJson (r : Record) : Json.Value :=
  .ofFields [("way_id", .integer r.wayId.toInt), ("access", .text r.access.text),
    ("values", .ofFields (r.values.entries.map fun (name, t) => (name, textsToJson t)))]

/-- The line that a record is written as, with its line end. -/
def line (r : Record) : String := r.toJson.render ++ "\n"

end Record

end EdgeAttributes.Import
