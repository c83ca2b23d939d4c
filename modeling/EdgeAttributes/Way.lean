import EdgeAttributes.SortedMap

namespace EdgeAttributes

/-- A way and its tags. -/
structure Way where
  id : Int64
  tags : SortedMap String
deriving DecidableEq

namespace Way

/-- A way with the given tags; of pairs with one key the last counts. -/
def ofTags (id : Int64) (tags : List (String × String)) : Way := ⟨id, .ofList tags⟩

/-- Give a key a value, in place of the one it had. -/
def setTag (w : Way) (key value : String) : Way := { w with tags := w.tags.insert key value }

/-- The value of a key. -/
def tag (w : Way) (key : String) : Option String := w.tags.get? key

/-- Whether a key is present. -/
def hasKey (w : Way) (key : String) : Bool := w.tags.contains key

/-- Whether a key has exactly a value. -/
def hasTag (w : Way) (key value : String) : Bool := w.tag key == some value

/-- Whether a key has any of some values. -/
def hasTagIn (w : Way) (key : String) (values : List String) : Bool :=
  (w.tag key).any (values.contains ·)

/-- The first of some keys that is present, and its value. -/
def firstValue (w : Way) (keys : List String) : Option (String × String) :=
  keys.findSome? fun k => (w.tag k).map (k, ·)

/-- Number of tags. -/
def tagCount (w : Way) : Nat := w.tags.size

end Way

end EdgeAttributes
