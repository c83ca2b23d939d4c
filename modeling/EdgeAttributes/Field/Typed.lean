import EdgeAttributes.Field

namespace EdgeAttributes

variable {width : Nat}

/-- A field of integers. -/
structure IntField where
  field : Field
  isInt : field.kind = .int

/-- A field of flags. -/
structure BooleanField where
  field : Field
  isBoolean : field.kind = .boolean

/-- A field of multiples of `factor`. -/
structure DecimalField where
  field : Field
  factor : Float
  isDecimal : field.kind = .decimal factor

/-- A field of the tag values of `α`. -/
structure EnumField (α : Type) [DecidableEq α] [TagEnum α] where
  field : Field
  isEnum : field.kind = .enum (TagEnum.shape α)

namespace Field

/-- The refusal of a view of the wrong kind. -/
def mismatch (f : Field) (expected : String) : Error :=
  .kindMismatch f.name expected f.kind.describe

/-- The field as one of integers. -/
def asInt (f : Field) : Except Error IntField :=
  if h : f.kind = .int then .ok ⟨f, h⟩ else .error (f.mismatch Kind.int.label)

/-- The field as one of flags. -/
def asBoolean (f : Field) : Except Error BooleanField :=
  if h : f.kind = .boolean then .ok ⟨f, h⟩ else .error (f.mismatch Kind.boolean.label)

/-- The field as one of decimals. -/
def asDecimal (f : Field) : Except Error DecimalField :=
  match h : f.kind with
  | .decimal factor => .ok ⟨f, factor, h⟩
  | _ => .error (f.mismatch (Kind.decimal 1).label)

/-- The field as one of the tag values of `α`. Other tag values are named in the refusal. -/
def asEnum (α : Type) [DecidableEq α] [TagEnum α] (f : Field) : Except Error (EnumField α) :=
  match h : f.kind with
  | .enum shape =>
    if hs : shape = TagEnum.shape α then .ok ⟨f, hs ▸ h⟩
    else .error (f.mismatch (Kind.enum (TagEnum.shape α)).describe)
  | _ => .error (f.mismatch (Kind.enum (TagEnum.shape α)).label)

end Field

namespace IntField

/-- The stored integer. -/
def get (f : IntField) (s : EdgeStorage width) (edge : Nat) (reverse : Bool) : Except Fault Int :=
  f.field.getInt s edge reverse

/-- Store an integer that is in range. -/
def set (f : IntField) (edge : Nat) (reverse : Bool) (value : Int) : Edit width Unit :=
  f.field.setInt edge reverse value

end IntField

namespace BooleanField

/-- The stored flag. -/
def get (f : BooleanField) (s : EdgeStorage width) (edge : Nat) (reverse : Bool) :
    Except Fault Bool :=
  (f.field.pattern s edge reverse).map (· ≠ 0)

/-- Store a flag. -/
def set (f : BooleanField) (edge : Nat) (reverse : Bool) (value : Bool) : Edit width Unit :=
  f.field.setPattern edge reverse (if value then 1 else 0)

end BooleanField

namespace DecimalField

/-- The largest decimal that can be stored. -/
def max (f : DecimalField) : Float :=
  Float.ofInt f.field.declaration.max * f.factor

/-- The stored decimal. -/
def get (f : DecimalField) (s : EdgeStorage width) (edge : Nat) (reverse : Bool) :
    Except Fault Float :=
  (f.field.pattern s edge reverse).map (·.toFloat * f.factor)

/-- The integer that a refusal names: clamped to 64 bits with sign, and the largest of those if
    there is no integer at all. -/
def reported (scaled : Option Int) : Int :=
  match scaled with
  | some n => Max.max Int64.minValue.toInt (min n Int64.maxValue.toInt)
  | none => Int64.maxValue.toInt

/-- Store a decimal rounded to the nearest multiple of the factor, a half away from zero; refuse it
    if that is negative, too large or not finite. -/
def set (f : DecimalField) (edge : Nat) (reverse : Bool) (value : Float) : Edit width Unit :=
  let d := f.field.declaration
  let scaled := Decimal.nearestInt? (value / f.factor)
  match scaled.filter fun n => 0 ≤ n && n ≤ d.max with
  | some n => f.field.setInt edge reverse n
  | none => throw (.error (.valueOutOfRange d.name (reported scaled) 0 d.max))

end DecimalField

namespace EnumField

variable {α : Type} [DecidableEq α] [TagEnum α]

/-- The stored tag value. -/
def get (f : EnumField α) (s : EdgeStorage width) (edge : Nat) (reverse : Bool) :
    Except Fault α :=
  (f.field.pattern s edge reverse).map fun p => TagEnum.ofOrdinal p.toNat

/-- Store a tag value. Its ordinal always fits, since the width is that of the whole set. -/
def set (f : EnumField α) (edge : Nat) (reverse : Bool) (value : α) : Edit width Unit :=
  f.field.setPattern edge reverse (UInt32.ofNat (TagEnum.ordinal value))

end EnumField

end EdgeAttributes
