namespace EdgeAttributes.Similarity

/-- From the distances of a text to every beginning of `bs`, those of the text followed by `c`.
    `diagonal` is the entry before the first of `above`, and `left` the last entry made. -/
def nextEntries (c : Char) (diagonal left : Nat) : List Char → List Nat → List Nat
  | b :: bs, up :: above =>
    let entry := min (min (up + 1) (left + 1)) (diagonal + if c = b then 0 else 1)
    entry :: nextEntries c up entry bs above
  | _, _ => []

/-- The row of distances for a text that is one character longer. -/
def nextRow (bs : List Char) (c : Char) : List Nat → List Nat
  | first :: above => (first + 1) :: nextEntries c first (first + 1) bs above
  | [] => []

/-- The least number of single-character edits between two texts. -/
def editDistance (a b : List Char) : Nat :=
  (a.foldl (fun row c => nextRow b c row) (List.range (b.length + 1))).getLastD 0

/-- 1 for equal texts, down to 0 for texts with nothing in common. -/
def editSimilarity (a b : List Char) : Float :=
  if a.isEmpty && b.isEmpty then 1
  else 1 - Nat.toFloat (editDistance a b) / Nat.toFloat (max a.length b.length)

end EdgeAttributes.Similarity
