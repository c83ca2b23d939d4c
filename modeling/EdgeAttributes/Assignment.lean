import EdgeAttributes.Field.Typed

namespace EdgeAttributes

variable {width : Nat}

/-- A value for one direction of a field. -/
inductive Assignment where
  | flag (field : BooleanField) (reverse value : Bool)
  | integer (field : IntField) (reverse : Bool) (value : Int)
  | decimal (field : DecimalField) (reverse : Bool) (value : Float)
  | ordinal (field : Field) (reverse : Bool) (n : Nat)

/-- The assignment of a tag value. -/
def EnumField.assign {α : Type} [DecidableEq α] [TagEnum α] (f : EnumField α) (reverse : Bool)
    (value : α) : Assignment :=
  .ordinal f.field reverse (TagEnum.ordinal value)

namespace Assignment

/-- The field that is written. -/
def target : Assignment → Field
  | flag f _ _ => f.field
  | integer f _ _ => f.field
  | decimal f _ _ => f.field
  | ordinal f _ _ => f

/-- Store the value for an edge. -/
def apply (edge : Nat) : Assignment → Edit width Unit
  | flag f reverse value => f.set edge reverse value
  | integer f reverse value => f.set edge reverse value
  | decimal f reverse value => f.set edge reverse value
  | ordinal f reverse n => f.setPattern edge reverse (UInt32.ofNat n)

/-- Store several values in order; the first that is refused ends it, and those before it stay. -/
def applyAll (edge : Nat) (assignments : List Assignment) : Edit width Unit :=
  assignments.forM (apply edge)

end Assignment

end EdgeAttributes
