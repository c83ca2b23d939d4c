import EdgeAttributes.Declaration.Range
import EdgeAttributes.EdgeStorage
import EdgeAttributes.Slot.Cursor

namespace EdgeAttributes

/-- A declaration and the slots it was given. -/
structure Field where
  declaration : Declaration
  forward : Slot
  backward : Option Slot

namespace Field

variable {width : Nat}

/-- Name of the encoded value. -/
def name (f : Field) : String := f.declaration.name

/-- Kind of the encoded value. -/
def kind (f : Field) : Kind := f.declaration.kind

/-- The slots in use, forward first. -/
def slots (f : Field) : List Slot := f.forward :: f.backward.toList

/-- The slot of a direction. -/
def slot (f : Field) (reverse : Bool) : Slot :=
  if reverse then f.backward.getD f.forward else f.forward

/-- The pattern stored for an edge. -/
def pattern (f : Field) (s : EdgeStorage width) (edge : Nat) (reverse : Bool) :
    Except Fault UInt32 :=
  (s.word edge (f.slot reverse).index).map (f.slot reverse).extract

/-- Store a pattern for an edge, leaving the rest of its word alone. -/
def setPattern (f : Field) (edge : Nat) (reverse : Bool) (pattern : UInt32) : Edit width Unit :=
  fun s =>
    match s.word edge (f.slot reverse).index with
    | .ok word =>
      EdgeStorage.setWord edge (f.slot reverse).index ((f.slot reverse).deposit pattern word) s
    | .error fault => .error fault s

/-- The integer that a pattern stands for. -/
def decode (f : Field) (pattern : UInt32) : Int := f.declaration.atOffset pattern

theorem decode_zero (f : Field) : f.decode 0 = f.declaration.min := by
  rw [decode, f.declaration.atOffset_eq (Nat.two_pow_pos _)]
  exact Int.zero_add _

/-- The integer stored for an edge. -/
def getInt (f : Field) (s : EdgeStorage width) (edge : Nat) (reverse : Bool) : Except Fault Int :=
  (f.pattern s edge reverse).map f.decode

/-- Store an integer for an edge, or refuse it if it is out of range. -/
def setInt (f : Field) (edge : Nat) (reverse : Bool) (value : Int) : Edit width Unit :=
  let d := f.declaration
  if h : d.Excludes value then throw (.error (.valueOutOfRange d.name value d.min d.max))
  else f.setPattern edge reverse (d.offset value h)

/-- The text of a stored pattern. An ordinal without a spelling reads as the first one. -/
def render (f : Field) (pattern : UInt32) : String :=
  match f.kind with
  | .int => toString (f.decode pattern)
  | .boolean => if pattern ≠ 0 then "true" else "false"
  | .decimal factor => Decimal.text (pattern.toFloat * factor)
  | .enum shape => (shape.spellings[pattern.toNat]?).getD (shape.spellings.headD "")

/-- The text of the value stored for an edge. -/
def format (f : Field) (s : EdgeStorage width) (edge : Nat) (reverse : Bool) :
    Except Fault String :=
  (f.pattern s edge reverse).map f.render

/-- The texts of what an edge stores, one for both directions or one for each. -/
inductive Texts where
  | single (text : String)
  | directed (forward backward : String)
deriving DecidableEq

/-- The texts of what is stored for an edge. -/
def texts (f : Field) (s : EdgeStorage width) (edge : Nat) : Except Fault Texts := do
  let forward ← f.format s edge false
  if f.declaration.twoDirections then return .directed forward (← f.format s edge true)
  else return .single forward

end Field

namespace Cursor

/-- Give a declaration its slots, the forward one first. -/
def place (c : Cursor) (d : Declaration) : Field × Cursor :=
  let (forward, c) := c.take d.bits
  if d.twoDirections then
    let (backward, c) := c.take d.bits
    (⟨d, forward, some backward⟩, c)
  else (⟨d, forward, none⟩, c)

/-- Give several declarations their slots in order. -/
def placeAll (c : Cursor) : List Declaration → List Field × Cursor
  | [] => ([], c)
  | d :: ds =>
    let (field, c) := c.place d
    let (fields, c) := c.placeAll ds
    (field :: fields, c)

@[simp] theorem declaration_place (c : Cursor) (d : Declaration) :
    (c.place d).1.declaration = d := by
  simp only [place]
  split <;> rfl

/-- Placing keeps the declarations and their order. -/
theorem map_declaration_placeAll (c : Cursor) (ds : List Declaration) :
    (c.placeAll ds).1.map Field.declaration = ds := by
  induction ds generalizing c with
  | nil => rfl
  | cons d ds ih => simp [placeAll, ih]

/-- Placing keeps the names and their order. -/
theorem map_name_placeAll (c : Cursor) (ds : List Declaration) :
    (c.placeAll ds).1.map Field.name = ds.map Declaration.name := by
  have hname : Field.name = Declaration.name ∘ Field.declaration := rfl
  rw [hname, ← List.map_map, map_declaration_placeAll]

end Cursor

end EdgeAttributes
