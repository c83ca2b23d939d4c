import EdgeAttributes.Similarity.Measures
import EdgeAttributes.Text.AsciiCase
import EdgeAttributes.Text.SmallLetters
import EdgeAttributes.Text.Split

namespace EdgeAttributes.Suggestion

open Measures

/-- Candidates that score less are never suggested. -/
def threshold : Float := 0.65

/-- Up to seven characters at the beginning count again if there are four of them and they are close
    to the beginning of the candidate. -/
def beginningBonus [Measures] (input candidate : List Char) : Float :=
  let n := min input.length 7
  if 4 ≤ n then
    let s := editSimilarity (input.take n) (candidate.take n)
    if s > 0.7 then 0.2 * s else 0
  else 0

/-- In a compound name each part of at least four bytes counts again if the input is close to it.
    The bonuses are added to `sum` from left to right. -/
def partBonus [Measures] (sum : Float) (input candidate : List Char) : Float :=
  if '_' ∈ candidate then
    (Text.splitChars '_' candidate).foldl (fun sum part =>
      if 4 ≤ (String.ofList part).utf8ByteSize then
        let s := jaroWinkler input part
        if s > 0.85 then sum + 0.12 * s else sum
      else sum) sum
  else sum

/-- How well `input` fits `candidate`, whatever the case of their letters. -/
def score [Measures] (input candidate : String) : Float :=
  let a := (Text.smallLetters input).toList
  let b := (Text.smallLetters candidate).toList
  let whole := jaroWinkler a b * 0.7 + editSimilarity a b * 0.3
  whole + partBonus (beginningBonus a b) a b

/-- The better of what was found so far and one more candidate; what came first stands on a tie. -/
def keepBetter (score : String → Float) (found : Option String × Float) (candidate : String) :
    Option String × Float :=
  let s := score candidate
  if s ≥ threshold && s > found.2 then (some candidate, s) else found

/-- The first of the candidates with the highest score, if that reaches the threshold. -/
def best (score : String → Float) (candidates : List String) : Option String :=
  (candidates.foldl (keepBetter score) (none, 0)).1

/-- The suggestion under a given scoring of names. -/
def suggestBy (score : String → String → Float) (input : String) (candidates : List String) :
    Option String :=
  if candidates.any (Text.sameIgnoringCase · input) then none else best (score input) candidates

/-- The candidate that `input` was probably meant to be. -/
def suggest [Measures] (input : String) (candidates : List String) : Option String :=
  suggestBy score input candidates

private theorem mem_of_foldl_keepBetter {score : String → Float} {s : String}
    (cs : List String) (found : Option String × Float)
    (h : (cs.foldl (keepBetter score) found).1 = some s) : s ∈ cs ∨ found.1 = some s := by
  induction cs generalizing found with
  | nil => exact Or.inr h
  | cons c cs ih =>
    rcases ih _ h with hmem | hfound
    · exact Or.inl (List.mem_cons_of_mem _ hmem)
    · rw [keepBetter] at hfound
      split at hfound
      · cases hfound
        exact Or.inl List.mem_cons_self
      · exact Or.inr hfound

theorem mem_of_best {score : String → Float} {candidates : List String} {s : String}
    (h : best score candidates = some s) : s ∈ candidates := by
  rcases mem_of_foldl_keepBetter candidates (none, 0) h with hmem | hnone
  · exact hmem
  · cases hnone

end EdgeAttributes.Suggestion
