import EdgeAttributes.Similarity.EditDistance
import EdgeAttributes.Similarity.Jaro

namespace EdgeAttributes

/-- Two measures of how similar texts are. They decide what is suggested for a name, but not whether
    a suggestion can be followed. -/
class Measures where
  jaroWinkler : List Char → List Char → Float
  editSimilarity : List Char → List Char → Float

instance : Measures where
  jaroWinkler := Similarity.jaroWinkler
  editSimilarity := Similarity.editSimilarity

end EdgeAttributes
