import EdgeAttributes.Text.Blank
import EdgeAttributes.Text.Split
import EdgeAttributes.Toml.Statement

namespace EdgeAttributes

/-- What to import. -/
structure ImportConfig where
  encodedValues : List String
  properties : Properties

/-- Keys without the blanks around them; blank ones are dropped. -/
def trimmedKeys (keys : List String) : List String :=
  (keys.map Text.trim).filter fun k => !k.isEmpty

/-- Keys from one text with commas between them. -/
def keysOfText (s : String) : List String := trimmedKeys (Text.split ',' s)

namespace ImportConfig

open Toml (Statement)

/-- How the table of properties was begun. Only dotted keys can be added to later. -/
inductive Opening where
  | dotted
  | header
  | inlined
deriving DecidableEq

/-- The property that holds the text of a date or time given in place of the properties. -/
def dateTimeKey : String := "$__toml_private_datetime"

/-- The settings read so far. -/
structure Settings where
  keys : Option (List String)
  opening : Option Opening
  properties : List (String × Scalar)

namespace Settings

/-- Nothing read yet. -/
def empty : Settings := ⟨none, none, []⟩

/-- Set the keys, once. -/
def setKeys? (s : Settings) (keys : List String) : Option Settings :=
  if s.keys.isSome then none else some { s with keys := some keys }

/-- Begin the table of properties, once. -/
def begin? (s : Settings) (opening : Opening) : Option Settings :=
  if s.opening.isSome then none else some { s with opening := some opening }

/-- Add a property under a single new key. -/
def addProperty? (s : Settings) (path : Toml.Path) (value : Scalar) : Option Settings :=
  match path with
  | [key] =>
    if s.properties.any (·.1 == key) then none
    else some { s with properties := s.properties ++ [(key, value)] }
  | _ => none

/-- Take a statement. Behind the header of the properties all entries are properties. -/
def take? (s : Settings) : Statement → Option Settings
  | .header ["properties"] => s.begin? .header
  | .header _ => none
  | .entry path value =>
    if s.opening = some .header then
      match value with
      | .scalar v => s.addProperty? path v
      | _ => none
    else
      match path, value with
      | ["encoded_values"], .scalar (.text t) => s.setKeys? (keysOfText t)
      | ["encoded_values"], .texts l => s.setKeys? (trimmedKeys l)
      | ["properties"], .table entries => do
        entries.foldlM (fun s (path, v) => s.addProperty? path v) (← s.begin? .inlined)
      | ["properties"], .dateTime t => do
        (← s.begin? .inlined).addProperty? [dateTimeKey] (.text t.text)
      | "properties" :: key, .scalar v =>
        if s.opening = some .inlined then none
        else { s with opening := some .dotted }.addProperty? key v
      | _, _ => none

end Settings

/-- The configuration that some statements describe; the keys must be among them. -/
def ofStatements? (l : List Statement) : Option ImportConfig := do
  let s ← l.foldlM Settings.take? Settings.empty
  some ⟨← s.keys, .ofList s.properties⟩

/-- Read a configuration. -/
def ofText (s : String) : Except Error ImportConfig :=
  match Toml.statements? s >>= ofStatements? with
  | some c => .ok c
  | none => .error (.config .malformed)

end ImportConfig

end EdgeAttributes
