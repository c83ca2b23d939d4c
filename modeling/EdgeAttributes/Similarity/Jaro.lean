namespace EdgeAttributes.Similarity

/-- How far apart the positions of two equal characters may be and still match. -/
def matchReach (m n : Nat) : Nat := max m n / 2 - 1

/-- The first character of `candidates`, each with its position, that equals `c` within reach of
    position `i`, and the candidates without it. -/
def takeMatch? (reach i : Nat) (c : Char) :
    List (Nat × Char) → Option ((Nat × Char) × List (Nat × Char))
  | [] => none
  | (j, d) :: rest =>
    if c = d ∧ i ≤ j + reach ∧ j ≤ i + reach then some ((j, d), rest)
    else (takeMatch? reach i c rest).map fun (found, left) => (found, (j, d) :: left)

/-- Match each character in order with the first unused equal one within reach. The answer holds the
    matched characters of the first text and the matched positions of the second. -/
def matchUp (reach : Nat) : Nat → List Char → List (Nat × Char) → List Char × List (Nat × Char)
  | _, [], _ => ([], [])
  | i, c :: cs, candidates =>
    match takeMatch? reach i c candidates with
    | none => matchUp reach (i + 1) cs candidates
    | some (found, left) =>
      let (firsts, seconds) := matchUp reach (i + 1) cs left
      (c :: firsts, found :: seconds)

/-- Jaro similarity, from 0 for nothing in common to 1 for equal texts. -/
def jaro (a b : List Char) : Float :=
  if a.isEmpty && b.isEmpty then 1
  else if a.isEmpty || b.isEmpty then 0
  else
    let (firsts, found) := matchUp (matchReach a.length b.length) 0 a ((List.range b.length).zip b)
    if firsts.isEmpty then 0
    else
      let seconds := (found.mergeSort fun x y => x.1 ≤ y.1).map Prod.snd
      let moved := ((firsts.zip seconds).filter fun (x, y) => x != y).length / 2
      let m := Nat.toFloat firsts.length
      (m / Nat.toFloat a.length + m / Nat.toFloat b.length +
        (m - Nat.toFloat moved) / m) / 3

/-- Length of the common beginning of two texts, counted up to four characters. -/
def commonStart (a b : List Char) : Nat :=
  (((a.zip b).take 4).takeWhile fun (x, y) => x == y).length

/-- Jaro similarity, raised for a common beginning if it is above 0.7. -/
def jaroWinkler (a b : List Char) : Float :=
  let s := jaro a b
  if s > 0.7 then s + 0.1 * Nat.toFloat (commonStart a b) * (1 - s) else s

end EdgeAttributes.Similarity
