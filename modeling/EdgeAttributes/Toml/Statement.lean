import EdgeAttributes.Properties
import EdgeAttributes.Toml.DateTime
import EdgeAttributes.Toml.Literal
import EdgeAttributes.Toml.Quoted

namespace EdgeAttributes.Toml

/-- Where an entry belongs: its keys from the outside in. -/
abbrev Path := List String

/-- What an entry holds. -/
inductive Value where
  | scalar (s : Scalar)
  | dateTime (t : DateTime)
  | texts (l : List String)
  | table (entries : List (Path × Scalar))

/-- A statement of a configuration file. -/
inductive Statement where
  | header (path : Path)
  | entry (path : Path) (value : Value)

/-- Characters of unquoted keys. -/
def isKeyChar (c : Char) : Bool := c.isAlphanum || c == '_' || c == '-'

/-- Read one key. -/
def readKey? (cs : List Char) : Option (String × List Char) :=
  match cs with
  | '"' :: _ | '\'' :: _ => readQuotedLine? cs
  | _ =>
    let key := cs.takeWhile isKeyChar
    if key.isEmpty then none else some (String.ofList key, cs.dropWhile isKeyChar)

/-- Read keys with points between them. -/
def readPath? (cs : List Char) : Option (Path × List Char) :=
  match readKey? (skipBlanks cs) with
  | none => none
  | some (key, left) =>
    match skipBlanks left with
    | '.' :: rest =>
      if rest.length < cs.length then (readPath? rest).map fun (keys, rest) => (key :: keys, rest)
      else none
    | rest => some ([key], rest)
termination_by cs.length

/-- Read a scalar. -/
def readScalar? (cs : List Char) : Option (Scalar × List Char) :=
  match cs with
  | '"' :: _ | '\'' :: _ => (readQuoted? cs).map fun (s, rest) => (.text s, rest)
  | _ =>
    let word := cs.takeWhile isLiteralChar
    let rest := cs.dropWhile isLiteralChar
    match flag? word, integer? word, decimal? word with
    | some b, _, _ => some (.flag b, rest)
    | none, some n, _ => some (.integer n, rest)
    | none, none, some x => some (.decimal x, rest)
    | none, none, none => none

/-- Read keys, an equals sign and a value. -/
def readAssigned? {α : Type} (value : Reader α) (cs : List Char) :
    Option ((Path × α) × List Char) := do
  let (path, rest) ← readPath? cs
  let (a, rest) ← value (skipBlanks (← expect? '=' rest))
  some ((path, a), rest)

/-- Read a value. -/
def readValue? (cs : List Char) : Option (Value × List Char) :=
  match cs with
  | '[' :: rest =>
    (readItems? (skipSpace? false) readQuoted? true ']' true rest).map fun (l, rest) =>
      (.texts l, rest)
  | '{' :: rest =>
    (readItems? (some ∘ skipBlanks) (readAssigned? readScalar?) false '}' true rest).map
      fun (l, rest) => (.table l, rest)
  | _ =>
    match DateTime.read? cs with
    | some (t, rest) => some (.dateTime t, rest)
    | none => (readScalar? cs).map fun (s, rest) => (.scalar s, rest)

/-- Read a statement. -/
def readStatement? (cs : List Char) : Option (Statement × List Char) :=
  match cs with
  | '[' :: rest => do
    let (path, rest) ← readPath? rest
    some (.header path, ← expect? ']' rest)
  | _ => (readAssigned? readValue? cs).map fun ((path, value), rest) => (.entry path value, rest)

/-- Read statements, each on lines of its own, up to the end. -/
def readStatements? (cs : List Char) : Option (List Statement) :=
  match skipSpace? false cs with
  | none => none
  | some [] => some []
  | some start =>
    match readStatement? start with
    | none => none
    | some (s, left) =>
      match endLine? left with
      | none => none
      | some rest =>
        if rest.length < cs.length then (readStatements? rest).map (s :: ·) else none
termination_by cs.length

/-- The statements of a file. A byte order mark may come first. -/
def statements? (s : String) : Option (List Statement) :=
  match s.toList with
  | c :: rest => if c.toNat = 0xFEFF then readStatements? rest else readStatements? (c :: rest)
  | [] => some []

end EdgeAttributes.Toml
