import EdgeAttributes.Decimal.Reader
import EdgeAttributes.Json.Value
import EdgeAttributes.Way

namespace EdgeAttributes

open Json (Value Piece)

namespace Json

/-- The integer that a number stands for, if it is written as one. Zero has no sign. -/
def integer? (written : List Char) : Option Int :=
  match written with
  | '-' :: ds =>
    if ds.all Char.isDigit && ds != ['0'] then some (-(Decimal.digitsValue ds)) else none
  | ds => if ds.all Char.isDigit then some (Decimal.digitsValue ds) else none

/-- The 64-bit integer that a value stands for. -/
def Value.int64? : Value → Option Int64
  | .number written => do
    let n ← integer? written
    if Int64.minValue.toInt ≤ n ∧ n ≤ Int64.maxValue.toInt then some (Int64.ofInt n) else none
  | _ => none

/-- The text that a value stands for. -/
def Value.text? : Value → Option String
  | .quoted ps => Json.text? ps
  | _ => none

end Json

namespace Way

/-- Tags are an object of texts; of repeated keys the last counts. -/
def tagsOfJson? : Value → Option (SortedMap String)
  | .object fields =>
    (fields.mapM fun ((k, v) : List Piece × Value) => do some (← Json.text? k, ← v.text?)).map
      SortedMap.ofList
  | _ => none

/-- The way that a value stands for. -/
def ofJson? : Value → Option Way
  | .array [id] => do some ⟨← id.int64?, .empty⟩
  | .array [id, tags] => do some ⟨← id.int64?, ← tagsOfJson? tags⟩
  | .object fields => do
    let fields ← fields.mapM fun ((k, v) : List Piece × Value) => (Json.text? k).map (·, v)
    match fields.filter (·.1 == "id"), fields.filter (·.1 == "tags") with
    | [(_, id)], [] => some ⟨← id.int64?, .empty⟩
    | [(_, id)], [(_, tags)] => some ⟨← id.int64?, ← tagsOfJson? tags⟩
    | _, _ => none
  | _ => none

/-- The value that stands for a way. -/
def toJson (w : Way) : Value :=
  .ofFields [("id", .integer w.id.toInt),
    ("tags", .ofFields (w.tags.entries.map fun (k, v) => (k, .text v)))]

/-- The compact JSON text of a way. -/
def render (w : Way) : String := w.toJson.render

/-- The way that a JSON text stands for. -/
def parse? (s : String) : Option Way := Value.parse? s >>= ofJson?

end Way

end EdgeAttributes
