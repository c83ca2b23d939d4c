import EdgeAttributes.Json.Token

namespace EdgeAttributes.Json

/-- A JSON value. Numbers are kept as they are written, and objects keep all their fields in order,
    repeated ones too. -/
inductive Value where
  | word (w : Word)
  | number (written : List Char)
  | quoted (ps : List Piece)
  | array (elements : List Value)
  | object (fields : List (List Piece × Value))

/-- A text as a value. -/
def Value.text (s : String) : Value := .quoted (pieces s)

/-- An integer as a value. -/
def Value.integer (n : Int) : Value := .number (toString n).toList

/-- An object with plain texts as keys. -/
def Value.ofFields (fields : List (String × Value)) : Value :=
  .object (fields.map fun (k, v) => (pieces k, v))

mutual

/-- The tokens of a value. -/
def Value.tokens : Value → List Token
  | .word w => [.word w]
  | .number written => [.number written]
  | .quoted ps => [.quoted ps]
  | .array [] => [.openBracket, .closeBracket]
  | .array (v :: vs) => .openBracket :: v.tokens ++ elementTokens vs
  | .object [] => [.openBrace, .closeBrace]
  | .object ((k, v) :: fs) => .openBrace :: .quoted k :: .colon :: v.tokens ++ fieldTokens fs

/-- The tokens of the elements after the first, and the closing bracket. -/
def elementTokens : List Value → List Token
  | [] => [.closeBracket]
  | v :: vs => .comma :: v.tokens ++ elementTokens vs

/-- The tokens of the fields after the first, and the closing brace. -/
def fieldTokens : List (List Piece × Value) → List Token
  | [] => [.closeBrace]
  | (k, v) :: fs => .comma :: .quoted k :: .colon :: v.tokens ++ fieldTokens fs

end

/-- The compact text of a value. -/
def Value.render (v : Value) : String := String.ofList (v.tokens.flatMap Token.write)

/-- A container that is still open, with what it holds so far, last first. An open object waits for
    the value of its last key. -/
inductive Frame where
  | array (before : List Value)
  | object (before : List (List Piece × Value)) (key : List Piece)

/-- What may come next. -/
inductive Awaiting where
  | value
  | elementOrClose
  | keyOrClose
  | key (before : List (List Piece × Value))
  | colon (before : List (List Piece × Value)) (key : List Piece)
  | afterValue (v : Value)

/-- What may come next, and the open containers, innermost first. -/
structure Reading where
  awaiting : Awaiting
  frames : List Frame

namespace Reading

/-- Nothing read yet. -/
def start : Reading := ⟨.value, []⟩

/-- Begin a value with a token. -/
def openValue? (frames : List Frame) : Token → Option Reading
  | .word w => some ⟨.afterValue (.word w), frames⟩
  | .number written => some ⟨.afterValue (.number written), frames⟩
  | .quoted ps => some ⟨.afterValue (.quoted ps), frames⟩
  | .openBracket => some ⟨.elementOrClose, .array [] :: frames⟩
  | .openBrace => some ⟨.keyOrClose, frames⟩
  | _ => none

/-- Take one token. -/
def step? (r : Reading) (t : Token) : Option Reading :=
  match r.awaiting, r.frames, t with
  | .elementOrClose, .array _ :: frames, .closeBracket => some ⟨.afterValue (.array []), frames⟩
  | .elementOrClose, frames, t => openValue? frames t
  | .value, frames, t => openValue? frames t
  | .keyOrClose, frames, .closeBrace => some ⟨.afterValue (.object []), frames⟩
  | .keyOrClose, frames, .quoted k => some ⟨.colon [] k, frames⟩
  | .key before, frames, .quoted k => some ⟨.colon before k, frames⟩
  | .colon before k, frames, .colon => some ⟨.value, .object before k :: frames⟩
  | .afterValue v, .array before :: frames, .comma => some ⟨.value, .array (v :: before) :: frames⟩
  | .afterValue v, .array before :: frames, .closeBracket =>
    some ⟨.afterValue (.array (v :: before).reverse), frames⟩
  | .afterValue v, .object before k :: frames, .comma => some ⟨.key ((k, v) :: before), frames⟩
  | .afterValue v, .object before k :: frames, .closeBrace =>
    some ⟨.afterValue (.object ((k, v) :: before).reverse), frames⟩
  | _, _, _ => none

/-- The value that was read, if nothing is left open. -/
def result? : Reading → Option Value
  | ⟨.afterValue v, []⟩ => some v
  | _ => none

end Reading

/-- The value that some tokens make up. -/
def Value.ofTokens? (ts : List Token) : Option Value :=
  ts.foldlM Reading.step? Reading.start >>= Reading.result?

/-- The value that a text stands for. -/
def Value.parse? (s : String) : Option Value := tokens? s.toList >>= ofTokens?

end EdgeAttributes.Json
