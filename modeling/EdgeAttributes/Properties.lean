import EdgeAttributes.Decimal.Reader
import EdgeAttributes.Error
import EdgeAttributes.SortedMap
import EdgeAttributes.Text.Blank

namespace EdgeAttributes

/-- A value that a property is given. -/
inductive Scalar where
  | flag (b : Bool)
  | integer (n : Int)
  | decimal (x : Float)
  | text (s : String)

/-- The text that a property keeps of its value. -/
def Scalar.toText : Scalar → String
  | flag b => if b then "true" else "false"
  | integer n => toString n
  | decimal x => Decimal.text x
  | text s => s

/-- Texts under keys. -/
structure Properties where
  entries : SortedMap String
deriving DecidableEq

namespace Properties

/-- No properties. -/
def empty : Properties := ⟨.empty⟩

/-- Properties given in order; of those with one key the last counts. -/
def ofList (l : List (String × Scalar)) : Properties :=
  ⟨.ofList (l.map fun (k, v) => (k, v.toText))⟩

/-- Whether there are no properties. -/
def isEmpty (p : Properties) : Bool := p.entries.entries.isEmpty

/-- The text of a property. -/
def text? (p : Properties) (key : String) : Option String := p.entries.get? key

/-- A property read as a flag: exactly `true` or `false` between blanks. -/
def getFlag (p : Properties) (key : String) (default : Bool) : Except Error Bool :=
  match p.text? key with
  | none => .ok default
  | some v =>
    let t := Text.trim v
    if t = "true" then .ok true
    else if t = "false" then .ok false
    else .error (.config (.notBoolean key v))

/-- A property read as a number between blanks. -/
def getNumber (p : Properties) (key : String) (default : Float) : Except Error Float :=
  match p.text? key with
  | none => .ok default
  | some v =>
    match Decimal.readFloat? (Text.trim v) with
    | some x => .ok x
    | none => .error (.config (.notNumber key v))

end Properties

end EdgeAttributes
