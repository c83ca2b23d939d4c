namespace EdgeAttributes

/-- A row of flag words. -/
structure RelationFlags where
  ints : List UInt32
deriving DecidableEq

namespace RelationFlags

/-- Cleared flags in `size` words. -/
def zeroed (size : Nat) : RelationFlags := ⟨List.replicate size 0⟩

/-- Number of flag words. -/
def size (f : RelationFlags) : Nat := f.ints.length

/-- No flag words at all. -/
def isEmpty (f : RelationFlags) : Bool := f.ints.isEmpty

end RelationFlags

end EdgeAttributes
